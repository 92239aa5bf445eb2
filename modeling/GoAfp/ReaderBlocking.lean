import GoAfp.ReplyRouting

/-! When the read loop can be stuck for good. It looks a channel up under the
lock but sends outside it, and the channel has one slot. A second reply for
the same call fills that slot a second time, and once the call has left its
select nobody empties it. -/

namespace GoAfp

def CallPhase.left : CallPhase → Prop
  | .leaving _ _ => True
  | .returned _ => True
  | _ => False

/-- The read loop waits for room in a channel that nobody will drain. -/
def Conn.Wedged (s : Conn) : Prop :=
  ∃ c f, s.reader = .handing c f ∧ (s.chans c).isSome ∧ (s.calls c).left

/-- No reply is dispatched to a call that has not yet taken an earlier one. -/
def NoPileUp (s : Conn) : ConnLabel → Prop
  | .read => ∀ f rest c, s.reader = .reading → s.inbound = f :: rest → f.isReply →
      s.pending f.header.requestID = some c → s.chans c = none
  | _ => True

def Conn.HasRoom (s : Conn) : Prop := ∀ c f, s.reader = .handing c f → s.chans c = none

theorem Conn.HasRoom.of_quiet {s t : Conn} (h : s.HasRoom) (hq : s.Quiet t) : t.HasRoom := by
  intro c f hr
  rcases hq.reader with he | hn
  · rw [hq.chans]
    exact h c f (he ▸ hr)
  · exact absurd hr (hn c f).2

theorem Conn.HasRoom.step {s t : Conn} {a : ConnLabel} (h : s.HasRoom) (hok : NoPileUp s a)
    (hs : s.step a = some t) : t.HasRoom := by
  cases Conn.step_effect hs with
  | @receive c id f hc hf =>
    intro d g hr
    have hd := h d g hr
    by_cases he : d = c
    · simp [Conn.setCall, he]
    · simpa only [Conn.setCall, Function.update_of_ne he] using hd
  | dispatch f rest c hr hi hf hp =>
    intro d g hd
    obtain ⟨rfl, -⟩ : c = d ∧ f = g := by simpa using hd
    exact hok f rest c hr hi hf hp
  | drop f rest hr hi hf hp => exact h
  | other f rest hr hi hf hq => exact Conn.HasRoom.of_quiet (s := { s with inbound := rest }) h hq
  | handOff c f hr hc => simp [Conn.HasRoom]
  | quiet hq => exact h.of_quiet hq
  | _ => exact h

theorem Conn.hasRoom_of_reach {tr : List ConnLabel} {s : Conn}
    (h : connSystem.Reach NoPileUp tr s) :
    s.HasRoom :=
  h.invariant (I := Conn.HasRoom) (by simp [Conn.HasRoom, connSystem])
    (fun hi hok hs => hi.step hok hs)

theorem Conn.exists_leave {s : Conn} {c : Nat} {id : UInt16} (h : (s.calls c).holds = some id) :
    ∃ as t, connSystem.exec s as = some t ∧ (t.calls c).left ∧ t.reader = s.reader ∧
      (∀ d, d ≠ c → t.calls d = s.calls d) ∧ t.chans = s.chans ∧ t.closeErr = s.closeErr := by
  have hwait {u : Conn} {i : UInt16} (hu : u.calls c = .waiting i) :
      connSystem.exec u [.cancel c] = some (u.setCall c (.leaving i .cancelled)) :=
    System.exec_cons (by simp [connSystem, Conn.step, hu]) rfl
  have hleft (u : Conn) (i : UInt16) (res : Outcome) :
      ((u.setCall c (.leaving i res)).calls c).left := by
    simp [Conn.setCall, CallPhase.left]
  have hothers (u : Conn) (p : CallPhase) (d : Nat) (hd : d ≠ c) :
      (u.setCall c p).calls d = u.calls d :=
    Function.update_of_ne hd ..
  cases hc : s.calls c with
  | idle => simp [hc, CallPhase.holds] at h
  | registered hd payload =>
    cases hn : s.ncClosed with
    | false =>
      let u := (s.send ⟨.call c, hd, payload⟩).setCall c (.waiting hd.requestID)
      have hw : connSystem.step s (.write c) = some u := by simp [connSystem, Conn.step, hc, hn, u]
      have hu : u.calls c = .waiting hd.requestID := by simp [u, Conn.setCall]
      refine ⟨_, _, System.exec_cons hw (hwait hu), hleft _ _ _, rfl, fun d hd => ?_, rfl, rfl⟩
      rw [hothers _ _ d hd, hothers _ _ d hd]
      rfl
    | true =>
      let u := s.setCall c (.leaving hd.requestID (.failed .write))
      have hw : connSystem.step s (.writeFail c) = some u := by
        simp [connSystem, Conn.step, hc, hn, u]
      exact ⟨[.writeFail c], u, System.exec_cons hw rfl, hleft _ _ _, rfl, hothers _ _, rfl, rfl⟩
  | waiting i => exact ⟨_, _, hwait hc, hleft _ _ _, rfl, hothers _ _, rfl, rfl⟩
  | leaving i res => exact ⟨[], s, rfl, by simp [hc, CallPhase.left], rfl, fun _ _ => rfl, rfl, rfl⟩
  | returned res => simp [hc, CallPhase.holds] at h

/-- The call that the second reply is for gives up before it takes the first. -/
theorem Conn.wedged_of_pileUp {s : Conn} {f : Frame} {rest : List Frame} {c : Nat}
    (hw : s.WellFormed) (hr : s.reader = .reading) (hi : s.inbound = f :: rest) (hf : f.isReply)
    (hp : s.pending f.header.requestID = some c) (hc : (s.chans c).isSome) :
    ∃ as t, connSystem.exec s (.read :: as) = some t ∧ t.Wedged ∧
      (∀ d, d ≠ c → t.calls d = s.calls d) ∧
      t.chans = s.chans ∧ t.closeErr = s.closeErr := by
  let u : Conn := { s with inbound := rest, reader := .handing c f }
  have hread : connSystem.step s .read = some u := Conn.step_read_reply hr hi hf hp
  have hheld : (u.calls c).holds = some f.header.requestID := (hw.holds c _).mpr hp
  obtain ⟨as, t, he, hl, htr, hcalls, htc, herr⟩ := Conn.exists_leave hheld
  exact ⟨as, t, System.exec_cons hread he, ⟨c, f, htr, by rw [htc]; exact hc, hl⟩, hcalls,
    htc, herr⟩

/-- The read loop is never stuck on a channel nobody drains as long as no
reply is dispatched to a full channel, and each such dispatch can be followed
by a run that leaves it stuck. -/
theorem reader_wedged_iff_pileUp (tr : List ConnLabel) (s : Conn) :
    (connSystem.Reach NoPileUp tr s → ¬ s.Wedged) ∧
    ∀ a, connSystem.Reach System.free tr s → (s.step a).isSome → ¬ NoPileUp s a →
      ∃ as t, connSystem.Reach System.free (tr ++ as) t ∧ t.Wedged := by
  constructor
  · rintro h ⟨c, f, hr, hc, -⟩
    simp [Conn.hasRoom_of_reach h c f hr] at hc
  · intro a h ha hno
    cases a with
    | read =>
      simp only [NoPileUp, not_forall] at hno
      obtain ⟨f, rest, c, hr, hi, hf, hp, hc⟩ := hno
      obtain ⟨as, t, he, hw, -⟩ := Conn.wedged_of_pileUp (Conn.wellFormed_of_reach h) hr hi hf hp
        (Option.isSome_iff_ne_none.mpr hc)
      exact ⟨.read :: as, t, h.exec (System.admits_of_forall fun _ _ _ => trivial) he, hw⟩
    | _ => exact absurd trivial hno

theorem reader_wedged_iff_pileUp_roundTrip :
    ∃ s, connSystem.Reach NoPileUp roundTrip s ∧ ¬ s.Wedged := by
  have hadm : connSystem.Admits NoPileUp connSystem.init roundTrip :=
    ⟨trivial, trivial, trivial, fun _ _ _ _ _ _ _ => rfl, trivial, trivial, trivial, trivial⟩
  have hrun : ∃ s, connSystem.exec connSystem.init roundTrip = some s := ⟨_, rfl⟩
  obtain ⟨s, hs⟩ := hrun
  have h := System.Reach.nil.exec hadm hs
  exact ⟨s, h, (reader_wedged_iff_pileUp _ s).1 h⟩

/-- Two replies to one request, the second dispatched before the call is
cancelled. -/
def duplicateReply : List ConnLabel :=
  [.register 0 cmdCommand 0 [], .write 0, .serverSend (commandReply 1 0),
    .serverSend (commandReply 1 0), .read, .handOff, .read, .cancel 0, .unregister 0]

theorem reader_wedged_duplicateReply :
    ¬ ∀ tr s, connSystem.Reach System.free tr s → ¬ s.Wedged := by
  intro hall
  have hrun : ∃ s, connSystem.exec connSystem.init duplicateReply = some s ∧ s.Wedged :=
    ⟨_, rfl, 0, commandReply 1 0, rfl, rfl, trivial⟩
  obtain ⟨s, hs, hw⟩ := hrun
  exact hall _ s (System.Reach.nil.exec (System.admits_of_forall fun _ _ _ => trivial) hs) hw

end GoAfp
