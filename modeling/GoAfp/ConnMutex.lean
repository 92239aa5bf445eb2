import GoAfp.ConnTeardown
import GoAfp.IDSearch

/-! The connection's mutex and the search of `register`. With every ID pending
the search never ends, and it holds `mu`: from then on `fail`, `Close`,
`unregister` and the dispatch of replies wait for the lock, and no waiting
call is ever woken. Otherwise the read loop wakes all of them soon after the
link is lost, and a `Close` call does so in three steps of its own. -/

namespace GoAfp

/-- The connection and the call whose `register` is in a search that has no
end, if there is one. That call has `mu`. -/
structure LockedConn where
  conn : Conn := {}
  searching : Option Nat := none

/-- The steps that take `mu`. -/
def Conn.locks (s : Conn) : ConnLabel → Bool
  | .register .. => true
  | .unregister _ => true
  -- `err` reads `closeErr` once the branch on `done` has been taken
  | .seeDone _ => true
  | .tickle _ => true
  | .closeID _ => true
  | .closeFail _ => true
  | .readError => true
  | .read =>
    s.inbound.head?.any fun f =>
      maxPayload < f.header.length || f.header.flags = flagReply || f.header.command =
        cmdCloseSession
  | _ => false

def LockedConn.step (s : LockedConn) (a : ConnLabel) : Option LockedConn :=
  if s.searching.isSome && s.conn.locks a then none
  else match a with
    | .register c .. =>
      if s.conn.calls c = .idle ∧ s.conn.closeErr = none ∧ s.conn.drawID = none then
        some { s with searching := some c }
      else (s.conn.step a).map fun t => { s with conn := t }
    | _ => (s.conn.step a).map fun t => { s with conn := t }

def lockedSystem : System LockedConn ConnLabel := ⟨{}, LockedConn.step⟩

/-- A step of the connection that does not need a lock that is taken, or the
start of a search without end. -/
inductive LockedConn.Moves (s : LockedConn) : ConnLabel → LockedConn → Prop
  | step {a} (t : Conn) (hs : s.conn.step a = some t) (hl : s.searching.isSome →
    s.conn.locks a = false) :
    Moves s a ⟨t, s.searching⟩
  | search {c cmd off payload} (hfree : s.searching = none) (hc : s.conn.calls c = .idle)
      (he : s.conn.closeErr = none) (hd : s.conn.drawID = none) :
    Moves s (.register c cmd off payload) ⟨s.conn, some c⟩

theorem LockedConn.moves_of_step {s t : LockedConn} {a : ConnLabel} (h : s.step a = some t) :
    s.Moves a t := by
  unfold LockedConn.step at h
  split_ifs at h with hlock
  have hl : s.searching.isSome → s.conn.locks a = false := by simpa using hlock
  have hstep (hs : (s.conn.step a).map (fun t => { s with conn := t }) = some t) : s.Moves a t := by
    obtain ⟨u, hu, rfl⟩ := Option.map_eq_some_iff.mp hs
    exact .step u hu hl
  cases a with
  | register c cmd off payload =>
    simp only at h
    split_ifs at h with hsearch
    · cases h
      have hfree : s.searching = none := Option.not_isSome_iff_eq_none.mp fun hs => by
        simpa [Conn.locks] using hl hs
      exact .search hfree hsearch.1 hsearch.2.1 hsearch.2.2
    · exact hstep h
  | _ => exact hstep h

theorem LockedConn.step_of_conn {s : LockedConn} {a : ConnLabel} {t : Conn}
    (hs : s.conn.step a = some t) (hl : s.searching.isSome → s.conn.locks a = false) :
    s.step a = some { s with conn := t } := by
  have hlock : (s.searching.isSome && s.conn.locks a) = false := by simpa using hl
  cases a with
  | register c cmd off payload =>
    have hsearch : ¬ (s.conn.calls c = .idle ∧ s.conn.closeErr = none ∧ s.conn.drawID = none) := by
      rintro ⟨hc, he, hd⟩
      simp [Conn.step, hc, he, hd] at hs
    simp [LockedConn.step, hlock, hsearch, hs]
  | _ => simp [LockedConn.step, hlock, hs]

theorem Conn.drawID_eq_none {s : Conn} : s.drawID = none ↔ ∀ id, s.pending id ≠ none := by
  constructor
  · intro h id hid
    obtain ⟨found, hfound⟩ := exists_searches s.nextID hid
    rw [searches_iff_drawID, h] at hfound
    cases hfound
  · intro h
    cases hd : s.drawID with
    | none => rfl
    | some id => exact absurd ((searches_iff_drawID s).mpr hd).firstFree.free (h id)

/-- No branch of the call's select is enabled but that of its context. -/
structure Conn.Waits (s : Conn) (c : Nat) : Prop where
  waiting : ∃ id, s.calls c = .waiting id
  empty : s.chans c = none
  alive : s.closeErr = none

/-- A waiting call goes on waiting while nobody hands it a reply, marks the
connection or cancels its context. -/
theorem Conn.Waits.step {s t : Conn} {a : ConnLabel} {c : Nat} (h : s.Waits c)
    (hs : s.step a = some t) (ha : a ≠ .cancel c) (hr : ∀ f, s.reader ≠ .handing c f)
    (he : t.closeErr = none) : t.Waits c := by
  have hothers {d : Nat} {p : CallPhase} (hne : c ≠ d) : ∃ id,
      Function.update s.calls d p c = .waiting id := by
    simpa only [Function.update_of_ne hne] using h.waiting
  have hother {d : Nat} {p q : CallPhase} (hd : s.calls d = q) (hq : ∀ id, q ≠ .waiting id) :
      ∃ id, Function.update s.calls d p c = .waiting id := by
    obtain ⟨id, hid⟩ := h.waiting
    apply hothers
    rintro rfl
    exact hq id (hd.symm.trans hid)
  cases Conn.step_effect hs with
  | refused e hd => exact ⟨hother hd (by simp), h.empty, he⟩
  | register id hd hid => exact ⟨hother hd (by simp), h.empty, he⟩
  | write hd payload hc => exact ⟨hother hc (by simp), h.empty, he⟩
  | writeFail hd payload hc => exact ⟨hother hc (by simp), h.empty, he⟩
  | seeDone id e hd => simp [Conn.step, hd, h.alive] at hs
  | @cancel d id hd =>
    have hne : c ≠ d := by
      rintro rfl
      exact ha rfl
    exact ⟨hothers hne, h.empty, he⟩
  | @receive d id f hd hf =>
    have hne : c ≠ d := by
      rintro rfl
      simp [h.empty] at hf
    exact ⟨hothers hne, by simpa only [Conn.setCall, Function.update_of_ne hne] using h.empty, he⟩
  | unregister id res hd => exact ⟨hother hd (by simp), h.empty, he⟩
  | other f rest hr hi hf hq => exact ⟨hq.calls ▸ h.waiting, hq.chans ▸ h.empty, he⟩
  | @handOff d f hd hc =>
    have hne : c ≠ d := by
      rintro rfl
      exact hr f hd
    exact ⟨h.waiting, by simpa only [Function.update_of_ne hne] using h.empty, he⟩
  | quiet hq => exact ⟨hq.calls ▸ h.waiting, hq.chans ▸ h.empty, he⟩
  | _ => exact ⟨h.waiting, h.empty, he⟩

/-- Without the lock nobody marks the connection, changes the pending map or
dispatches a reply. -/
theorem Conn.step_unlocked {s t : Conn} {a : ConnLabel} (h : s.step a = some t)
    (hl : s.locks a = false) :
    t.closeErr = s.closeErr ∧ t.pending = s.pending ∧ ∀ c f, t.reader = .handing c f →
      s.reader = .handing c f := by
  cases Conn.fires_of_step h with
  | read f rest hr hi =>
    have hplain : ¬ maxPayload < f.header.length ∧ f.header.flags ≠ flagReply ∧
        f.header.command ≠ cmdCloseSession := by
      simpa [Conn.locks, hi, not_or, and_assoc] using hl
    simp [Conn.readFrame, hplain]
  | handOff c f hr hc => simp
  | readerClose hr => simp
  | tickleEnd ha => exact ⟨rfl, rfl, fun _ _ hr => hr⟩
  | write hd payload hc hn => exact ⟨rfl, rfl, fun _ _ hr => hr⟩
  | writeFail hd payload hc => exact ⟨rfl, rfl, fun _ _ hr => hr⟩
  | receive id f hc hf => exact ⟨rfl, rfl, fun _ _ hr => hr⟩
  | cancel id hc => exact ⟨rfl, rfl, fun _ _ hr => hr⟩
  | tickleWrite id hk hn => exact ⟨rfl, rfl, fun _ _ hr => hr⟩
  | closeWrite id hk hn => exact ⟨rfl, rfl, fun _ _ hr => hr⟩
  | closeWriteFail id hk => exact ⟨rfl, rfl, fun _ _ hr => hr⟩
  | closeSocket hk => exact ⟨rfl, rfl, fun _ _ hr => hr⟩
  | serverSend f => exact ⟨rfl, rfl, fun _ _ hr => hr⟩
  | hangUp => exact ⟨rfl, rfl, fun _ _ hr => hr⟩
  | _ => simp [Conn.locks] at hl

/-- Once the search has no end nobody is woken any more. -/
theorem LockedConn.waits_of_searching {s t : LockedConn} {as : List ConnLabel} {c : Nat}
    (hs : s.searching.isSome) (hc : s.conn.Waits c) (hr : ∀ f, s.conn.reader ≠ .handing c f)
    (he : lockedSystem.exec s as = some t) (hcancel : .cancel c ∉ as) :
    t.conn.Waits c ∧ t.searching.isSome := by
  induction as generalizing s with
  | nil =>
    cases he
    exact ⟨hc, hs⟩
  | cons a as ih =>
    obtain ⟨u, hu, hrest⟩ := Option.bind_eq_some_iff.mp he
    cases LockedConn.moves_of_step hu with
    | search hfree => simp [hfree] at hs
    | step v hv hl =>
      obtain ⟨herr, -, hreader⟩ := Conn.step_unlocked hv (hl hs)
      have hne : a ≠ .cancel c := fun hac => hcancel (by simp [hac])
      have hwaits : v.Waits c := hc.step hv hne hr (herr.trans hc.alive)
      exact ih (s := ⟨v, s.searching⟩) hs hwaits (fun f hf => hr f (hreader c f hf)) hrest
        fun hmem => hcancel (by simp [hmem])

theorem LockedConn.step_locked {s : LockedConn} {a : ConnLabel} (hs : s.searching.isSome)
    (hl : s.conn.locks a) : s.step a = none := by
  simp [LockedConn.step, hs, hl]

/-- A wedged read loop stays wedged, and only a `Close` call marks the
connection. -/
theorem Conn.Wedged.step {s t : Conn} {a : ConnLabel} (h : s.Wedged) (hs : s.step a = some t)
    (ha : ∀ k, a ≠ .closeFail k) : t.Wedged ∧ t.closeErr = s.closeErr := by
  obtain ⟨c, f, hr, hfull, hleft⟩ := h
  have hcall {d : Nat} {p q : CallPhase} (hd : s.calls d = q) (hq : ¬ q.left ∨ p.left) :
      (Function.update s.calls d p c).left := by
    by_cases he : c = d
    · subst d
      rw [Function.update_self]
      exact hq.resolve_left (not_not.mpr (hd ▸ hleft))
    · rwa [Function.update_of_ne he]
  cases Conn.fires_of_step hs with
  | refused e hd he => exact ⟨⟨c, f, hr, hfull, hcall hd (.inl (by simp [CallPhase.left]))⟩, rfl⟩
  | register id hd hn hid =>
    exact ⟨⟨c, f, hr, hfull, hcall hd (.inl (by simp [CallPhase.left]))⟩, rfl⟩
  | write hd payload hd' hn =>
    exact ⟨⟨c, f, hr, hfull, hcall hd' (.inl (by simp [CallPhase.left]))⟩, rfl⟩
  | writeFail hd payload hd' => exact ⟨⟨c, f, hr, hfull, hcall hd' (.inr trivial)⟩, rfl⟩
  | @receive d id g hd hg =>
    have hne : c ≠ d := by
      rintro rfl
      simp [hd, CallPhase.left] at hleft
    refine ⟨⟨c, f, hr, ?_, hcall hd (.inr trivial)⟩, rfl⟩
    simpa only [Conn.setCall, Function.update_of_ne hne] using hfull
  | seeDone id e hd he => exact ⟨⟨c, f, hr, hfull, hcall hd (.inr trivial)⟩, rfl⟩
  | cancel id hd => exact ⟨⟨c, f, hr, hfull, hcall hd (.inr trivial)⟩, rfl⟩
  | unregister id res hd => exact ⟨⟨c, f, hr, hfull, hcall hd (.inr trivial)⟩, rfl⟩
  | closeFail hk => exact absurd rfl (ha _)
  | read g rest hr' hi => simp [hr] at hr'
  | handOff d g hr' hc =>
    obtain ⟨rfl, -⟩ : c = d ∧ f = g := by simpa [hr] using hr'
    simp [hc] at hfull
  | readError hr' => simp [hr] at hr'
  | readerClose hr' => simp [hr] at hr'
  | _ => exact ⟨⟨c, f, hr, hfull, hleft⟩, rfl⟩

theorem LockedConn.waits_of_wedged {s t : LockedConn} {as : List ConnLabel} {c : Nat}
    (hw : s.conn.Wedged) (hc : s.conn.Waits c) (he : lockedSystem.exec s as = some t)
    (hcancel : .cancel c ∉ as) (hclose : ∀ k, .closeFail k ∉ as) : t.conn.Waits c := by
  induction as generalizing s with
  | nil =>
    cases he
    exact hc
  | cons a as ih =>
    obtain ⟨u, hu, hrest⟩ := Option.bind_eq_some_iff.mp he
    have hcancel' : .cancel c ∉ as := fun hmem => hcancel (by simp [hmem])
    have hclose' (k : Nat) : .closeFail k ∉ as := fun hmem => hclose k (by simp [hmem])
    cases LockedConn.moves_of_step hu with
    | @search d => exact ih (s := ⟨s.conn, some d⟩) hw hc hrest hcancel' hclose'
    | step v hv hl =>
      obtain ⟨hw', herr⟩ := hw.step hv fun k hk => hclose k (by simp [hk])
      have hne : a ≠ .cancel c := fun hac => hcancel (by simp [hac])
      have hreader (f : Frame) : s.conn.reader ≠ .handing c f := by
        obtain ⟨d, g, hd, hfull, -⟩ := hw
        intro hf
        obtain ⟨rfl, -⟩ : c = d ∧ f = g := by simpa [hf] using hd
        simp [hc.empty] at hfull
      have hwaits : v.Waits c := hc.step hv hne hreader (herr.trans hc.alive)
      exact ih (s := ⟨v, s.searching⟩) hw' hwaits hrest hcancel' hclose'

/-- On a live connection `register` finds a free ID. -/
def FindsID (s : Conn) : ConnLabel → Prop
  | .register .. => s.closeErr = none → ∃ id, s.pending id = none
  | _ => True

def Unobstructed (s : LockedConn) (a : ConnLabel) : Prop := FindsID s.conn a ∧ NoPileUp s.conn a

def LockedConn.Closed (s : LockedConn) : Prop := s.conn.closeErr.isSome

def ConnLabel.byReader : ConnLabel → Bool
  | .read => true
  | .handOff => true
  | .readError => true
  | .readerClose => true
  | _ => false

/-- The `Close` call that makes the step. -/
def ConnLabel.closer : ConnLabel → Option Nat
  | .closeID k => some k
  | .closeWrite k => some k
  | .closeWriteFail k => some k
  | .closeSocket k => some k
  | .closeFail k => some k
  | _ => none

def ConnLabel.byCloser (k : Nat) (a : ConnLabel) : Bool := a.closer = some k

/-- The marks of the connection hold and the search without end found every
ID taken. -/
structure LockedConn.Sound (s : LockedConn) : Prop where
  marked : s.conn.Marked
  searching : s.searching.isSome → s.conn.closeErr = none ∧ ∀ id, s.conn.pending id ≠ none

theorem LockedConn.Sound.step {s t : LockedConn} {a : ConnLabel} (h : s.Sound)
    (hs : s.step a = some t) :
    t.Sound := by
  cases LockedConn.moves_of_step hs with
  | search hfree hc he hd => exact ⟨h.marked, fun _ => ⟨he, Conn.drawID_eq_none.mp hd⟩⟩
  | step u hu hl =>
    refine ⟨h.marked.step (Conn.step_tears hu), fun hsearch => ?_⟩
    obtain ⟨herr, hpending, -⟩ := Conn.step_unlocked hu (hl hsearch)
    rw [herr, hpending]
    exact h.searching hsearch

theorem LockedConn.sound_of_reach {ok : LockedConn → ConnLabel → Prop} {tr : List ConnLabel}
    {s : LockedConn} (h : lockedSystem.Reach ok tr s) : s.Sound :=
  h.invariant (I := LockedConn.Sound)
    ⟨⟨rfl, by simp [lockedSystem], by simp [lockedSystem]⟩, by simp [lockedSystem]⟩ fun hi _ hs =>
      hi.step hs

theorem LockedConn.step_closed {s t : LockedConn} {a : ConnLabel} (hs : s.step a = some t)
    {e : ConnErr} (he : s.conn.closeErr = some e) : t.conn.closeErr = some e := by
  cases LockedConn.moves_of_step hs with
  | search => exact he
  | step u hu hl => exact (Conn.step_tears hu).closeErr he

theorem LockedConn.exec_closed {s t : LockedConn} {as : List ConnLabel} {e : ConnErr}
    (h : lockedSystem.exec s as = some t) (he : s.conn.closeErr = some e) :
    t.conn.closeErr = some e := by
  induction as generalizing s with
  | nil =>
    cases h
    exact he
  | cons a as ih =>
    obtain ⟨u, hu, hrest⟩ := Option.bind_eq_some_iff.mp h
    exact ih hrest (LockedConn.step_closed hu he)

/-- With the lock free the connection is unlocked for every step. -/
theorem LockedConn.step_isSome {s : LockedConn} {a : ConnLabel} (hfree : s.searching = none)
    (h : (s.conn.step a).isSome) : (s.step a).isSome := by
  obtain ⟨t, ht⟩ := Option.isSome_iff_exists.mp h
  rw [LockedConn.step_of_conn ht (by simp [hfree])]
  rfl

/-- The good runs: nobody has the lock for ever and the read loop has room. -/
structure LockedConn.Running (s : LockedConn) : Prop where
  sound : s.Sound
  free : s.searching = none
  room : s.conn.HasRoom

theorem LockedConn.Running.step {s t : LockedConn} {a : ConnLabel} (h : s.Running)
    (hok : Unobstructed s a) (hs : s.step a = some t) :
    s.conn.step a = some t.conn ∧ t.Running := by
  have hsound := h.sound.step hs
  cases LockedConn.moves_of_step hs with
  | search hfree hc he hd =>
    obtain ⟨id, hid⟩ := hok.1 he
    exact absurd hid (Conn.drawID_eq_none.mp hd id)
  | step u hu hl => exact ⟨hu, hsound, h.free, h.room.step hok.2 hu⟩

theorem LockedConn.running_of_reach {tr : List ConnLabel} {s : LockedConn}
    (h : lockedSystem.Reach Unobstructed tr s) : s.Running := by
  have hinit : lockedSystem.Reach Unobstructed [] lockedSystem.init := .nil
  exact h.invariant (I := LockedConn.Running)
    ⟨LockedConn.sound_of_reach hinit, rfl, by simp [Conn.HasRoom, lockedSystem]⟩
    fun hi hok hs => (hi.step hok hs).2

def ReaderPhase.inHand : ReaderPhase → Nat
  | .handing _ _ => 1
  | _ => 0

/-- What the read loop has yet to do before it meets the end of the stream. -/
def Conn.backlog (s : Conn) : Nat := 2 * s.inbound.length + s.reader.inHand

theorem Conn.fail_hungUp (s : Conn) (e : ConnErr) (hh : s.hungUp) : (s.fail e).hungUp := by
  unfold Conn.fail
  split_ifs
  · exact hh
  · exact hh

theorem Conn.step_hungUp {s t : Conn} {a : ConnLabel} (h : s.step a = some t) (hh : s.hungUp) :
    t.hungUp := by
  cases Conn.fires_of_step h with
  | closeFail hk => exact Conn.fail_hungUp s _ hh
  | readError hr => exact Conn.fail_hungUp s _ hh
  | read f rest hr hi =>
    unfold Conn.readFrame
    split_ifs
    · exact Conn.fail_hungUp _ _ hh
    · split
      · exact hh
      · exact hh
    · exact Conn.fail_hungUp _ _ hh
    · exact hh
  | hangUp => rfl
  | _ => exact hh

/-- After the link is lost nothing comes in any more, so each step of the read
loop brings it closer to the end. -/
theorem Conn.step_backlog {s t : Conn} {a : ConnLabel} (hm : s.Marked) (hh : s.hungUp)
    (h : s.step a = some t) :
    t.closeErr.isSome ∨ t.backlog + a.byReader.toNat ≤ s.backlog := by
  have hsame {u : Conn} (hi : u.inbound = s.inbound) (hr : u.reader = s.reader) :
      u.backlog + 0 ≤ s.backlog := by
    simp [Conn.backlog, hi, hr]
  cases Conn.fires_of_step h with
  | serverSend f => simp [Conn.step, hh] at h
  | read f rest hr hi =>
    unfold Conn.readFrame
    split_ifs
    · exact .inl (Conn.fail_isSome _ _)
    · refine .inr ?_
      split
      · simp [Conn.backlog, hr, hi, ReaderPhase.inHand, ConnLabel.byReader]
        omega
      · simp [Conn.backlog, hr, hi, ReaderPhase.inHand, ConnLabel.byReader]
    · exact .inl (Conn.fail_isSome _ _)
    · refine .inr ?_
      simp [Conn.backlog, hr, hi, ReaderPhase.inHand, ConnLabel.byReader]
  | handOff c f hr hc =>
    exact .inr (by simp [Conn.backlog, hr, ReaderPhase.inHand, ConnLabel.byReader])
  | readError hr => exact .inl (Conn.fail_isSome s _)
  | readerClose hr => exact .inl (hm.reader (.inl hr))
  | closeFail hk => exact .inl (Conn.fail_isSome s _)
  | tickleEnd ha =>
    rcases ha with rfl | rfl
    · exact .inr (hsame rfl rfl)
    · exact .inr (hsame rfl rfl)
  | _ => exact .inr (hsame rfl rfl)

theorem readerRanks : lockedSystem.Ranks Unobstructed ConnLabel.byReader LockedConn.Closed
    (fun s => s.Running ∧ s.conn.hungUp) (fun s => s.conn.backlog) where
  enabled {s} h hopen := by
    obtain ⟨hrun, hh⟩ := h
    have hclosed : ¬ (s.conn.reader = .closing ∨ s.conn.reader = .stopped) :=
      fun hr => hopen (hrun.sound.marked.reader hr)
    cases hr : s.conn.reader with
    | reading =>
      exact ⟨.readError, rfl, LockedConn.step_isSome hrun.free (by simp [Conn.step, hr, hh])⟩
    | handing c f =>
      have hroom := hrun.room c f hr
      exact ⟨.handOff, rfl, LockedConn.step_isSome hrun.free (by simp [Conn.step, hr, hroom])⟩
    | closing => simp [hr] at hclosed
    | stopped => simp [hr] at hclosed
  keeps h hok hs :=
    have hstep := h.1.step hok hs
    ⟨hstep.2, Conn.step_hungUp hstep.1 h.2⟩
  stays {s a t} hgoal hs := by
    obtain ⟨e, he⟩ := Option.isSome_iff_exists.mp hgoal
    simp [LockedConn.Closed, LockedConn.step_closed hs he]
  lowers h hok hs := Conn.step_backlog h.1.sound.marked h.2 (h.1.step hok hs).1

def ClosePhase.toGo : ClosePhase → Nat
  | .idle => 3
  | .drawn _ => 2
  | .sent => 1
  | _ => 0

/-- A `Close` call moves on by its own steps only. -/
theorem Conn.step_closers {s t : Conn} {a : ConnLabel} (h : s.step a = some t) :
    (a.closer = none ∧ t.closers = s.closers) ∨
    ∃ j p, a.closer = some j ∧ t.closers = Function.update s.closers j p ∧ p ≠ .idle ∧
      (p.toGo < (s.closers j).toGo ∨ t.closeErr.isSome) := by
  cases Conn.fires_of_step h with
  | @closeID k hk =>
    have hlow : ClosePhase.toGo (.drawn s.newID.nextID) < (s.closers k).toGo := by
      rw [hk]
      exact Nat.lt_succ_self _
    exact .inr ⟨k, _, rfl, rfl, by simp, .inl hlow⟩
  | @closeWrite k id hk hn =>
    have hlow : ClosePhase.toGo (.sent) < (s.closers k).toGo := by
      rw [hk]
      exact Nat.lt_succ_self _
    exact .inr ⟨k, _, rfl, rfl, by simp, .inl hlow⟩
  | @closeWriteFail k id hk =>
    have hlow : ClosePhase.toGo (.sent) < (s.closers k).toGo := by
      rw [hk]
      exact Nat.lt_succ_self _
    exact .inr ⟨k, _, rfl, rfl, by simp, .inl hlow⟩
  | @closeSocket k hk =>
    have hlow : ClosePhase.toGo (.closed) < (s.closers k).toGo := by
      rw [hk]
      exact Nat.lt_succ_self _
    exact .inr ⟨k, _, rfl, rfl, by simp, .inl hlow⟩
  | @closeFail k hk => exact .inr ⟨k, _, rfl, rfl, by simp, .inr (Conn.fail_isSome s _)⟩
  | read f rest hr hi =>
    exact .inl ⟨rfl, (Conn.readFrame_senders { s with inbound := rest } f).closers⟩
  | readError hr => exact .inl ⟨rfl, (s.fail_senders .read).closers⟩
  | tickleEnd ha =>
    rcases ha with rfl | rfl
    · exact .inl ⟨rfl, rfl⟩
    · exact .inl ⟨rfl, rfl⟩
  | _ => exact .inl ⟨rfl, rfl⟩

theorem Conn.step_closer {s t : Conn} {a : ConnLabel} {k : Nat} (hk : s.closers k ≠ .idle)
    (h : s.step a = some t) : t.closers k ≠ .idle ∧
      (t.closeErr.isSome ∨ (t.closers k).toGo + (a.byCloser k).toNat ≤ (s.closers k).toGo) := by
  rcases Conn.step_closers h with ⟨ha, hc⟩ | ⟨j, p, ha, hc, hp, hlow⟩
  · simp [hc, hk, ConnLabel.byCloser, ha]
  · by_cases hj : k = j
    · subst j
      rw [hc, Function.update_self]
      refine ⟨hp, hlow.symm.imp_right fun hlt => ?_⟩
      simpa [ConnLabel.byCloser, ha] using hlt
    · rw [hc, Function.update_of_ne hj]
      simp [hk, ConnLabel.byCloser, ha, Ne.symm hj]

theorem closerRanks (k : Nat) :
    lockedSystem.Ranks Unobstructed (ConnLabel.byCloser k) LockedConn.Closed
    (fun s => s.Running ∧ s.conn.closers k ≠ .idle) (fun s => (s.conn.closers k).toGo) where
  enabled {s} h hopen := by
    obtain ⟨hrun, hk⟩ := h
    have hstep {a : ConnLabel} (ha : a.closer = some k) (hs : (s.conn.step a).isSome) :
        ∃ a, ConnLabel.byCloser k a ∧ (lockedSystem.step s a).isSome :=
      ⟨a, by simp [ConnLabel.byCloser, ha], LockedConn.step_isSome hrun.free hs⟩
    cases hc : s.conn.closers k with
    | idle => exact absurd hc hk
    | drawn id =>
      cases hn : s.conn.ncClosed with
      | false => exact hstep (a := .closeWrite k) rfl (by simp [Conn.step, hc, hn])
      | true => exact hstep (a := .closeWriteFail k) rfl (by simp [Conn.step, hc, hn])
    | sent => exact hstep (a := .closeSocket k) rfl (by simp [Conn.step, hc])
    | closed => exact hstep (a := .closeFail k) rfl (by simp [Conn.step, hc])
    | returned => exact absurd (hrun.sound.marked.closers k hc) hopen
  keeps h hok hs :=
    have hstep := h.1.step hok hs
    ⟨hstep.2, (Conn.step_closer h.2 hstep.1).1⟩
  stays := readerRanks.stays
  lowers h hok hs := (Conn.step_closer h.2 (h.1.step hok hs).1).2

theorem LockedConn.exec_of_conn {s t : Conn} {as : List ConnLabel}
    (h : connSystem.exec s as = some t) :
    lockedSystem.exec ⟨s, none⟩ as = some ⟨t, none⟩ := by
  induction as generalizing s with
  | nil =>
    cases h
    rfl
  | cons a as ih =>
    obtain ⟨u, hu, hrest⟩ := Option.bind_eq_some_iff.mp h
    exact System.exec_cons (LockedConn.step_of_conn (s := ⟨s, none⟩) hu (by simp)) (ih hrest)

/-- The call stays without an enabled branch until somebody cancels it or
closes the connection. -/
def LockedConn.Stranded (s : LockedConn) (c : Nat) : Prop :=
  ∀ as t, lockedSystem.exec s as = some t → .cancel c ∉ as → (∀ k, .closeFail k ∉ as) →
    t.conn.Waits c

theorem LockedConn.stranded_of_obstructed {s : LockedConn} {a : ConnLabel} (hwf : s.conn.WellFormed)
    (hs : (s.step a).isSome) (hno : ¬ Unobstructed s a) {c : Nat} (hc : s.conn.Waits c)
    (hr : ∀ f, s.conn.reader ≠ .handing c f) :
    ∃ as t, lockedSystem.exec s (a :: as) = some t ∧ t.Stranded c := by
  obtain ⟨u, hu⟩ := Option.isSome_iff_exists.mp hs
  rw [Unobstructed, not_and_or] at hno
  cases a with
  | register d cmd off payload =>
    have hfull : s.conn.drawID = none := by
      simpa [FindsID, hc.alive, NoPileUp, Conn.drawID_eq_none] using hno
    cases LockedConn.moves_of_step hu with
    | step v hv hl =>
      cases hd : s.conn.calls d <;> simp [Conn.step, hd, hc.alive, hfull] at hv
    | search hfree hd he hdraw =>
      refine ⟨[], _, System.exec_cons hu rfl, fun as t ht hcancel _ => ?_⟩
      exact (LockedConn.waits_of_searching (s := ⟨s.conn, some d⟩) rfl hc hr ht hcancel).1
  | read =>
    simp only [FindsID, not_true_eq_false, false_or, NoPileUp, not_forall] at hno
    obtain ⟨f, rest, d, hreading, hi, hf, hp, hd⟩ := hno
    have hlocks : s.conn.locks .read := by simp [Conn.locks, hi, hf.2]
    have hfree : s.searching = none := by
      by_contra hsearch
      rw [LockedConn.step_locked (Option.isSome_iff_ne_none.mpr hsearch) hlocks] at hu
      cases hu
    obtain ⟨as, t, ht, hw, hcalls, hchans, herr⟩ := Conn.wedged_of_pileUp hwf hreading hi hf hp
      (Option.isSome_iff_ne_none.mpr hd)
    have hne : c ≠ d := by
      rintro rfl
      exact hd hc.empty
    have hwaits : t.Waits c := ⟨hcalls c hne ▸ hc.waiting, hchans ▸ hc.empty, herr.trans hc.alive⟩
    refine ⟨as, ⟨t, none⟩, ?_, fun bs v hv hcancel hclose =>
      LockedConn.waits_of_wedged hw hwaits hv hcancel hclose⟩
    obtain ⟨conn, searching⟩ := s
    subst hfree
    exact LockedConn.exec_of_conn ht
  | _ => simp [FindsID, NoPileUp] at hno

theorem LockedConn.wellFormed_of_reach {ok : LockedConn → ConnLabel → Prop} {tr : List ConnLabel}
    {s : LockedConn} (h : lockedSystem.Reach ok tr s) : s.conn.WellFormed := by
  refine h.invariant (I := fun s => s.conn.WellFormed) .init fun hi _ hs => ?_
  cases LockedConn.moves_of_step hs with
  | search => exact hi
  | step u hu hl => exact hi.step hu

/-- The teardown happens once and for good, refuses the calls that come later
and opens the branch on `done` for those in the select. As long as `register`
finds a free ID and no reply is dispatched to a full channel it cannot be put
off either: the read loop brings it about soon after the link is lost, and a
`Close` call by three steps of its own. Any other step can leave a waiting
call without a branch for good. -/
theorem teardown_once (tr : List ConnLabel) (s : LockedConn) :
    (lockedSystem.Reach System.free tr s →
      (0 < s.conn.done ↔ s.conn.closeErr.isSome) ∧ s.conn.done ≤ 1 ∧
      (∀ e, s.conn.closeErr = some e →
        (∀ as t, lockedSystem.exec s as = some t → t.conn.closeErr = some e) ∧
        (∀ c cmd off payload t, s.step (.register c cmd off payload) = some t →
          t.conn.calls c = .returned (.failed e)) ∧
        ∀ c id, s.conn.calls c = .waiting id → (s.step (.seeDone c)).isSome) ∧
      (s.conn.reader = .stopped ∨ (∃ k, s.conn.closers k = .returned) → s.conn.closeErr.isSome)) ∧
    (lockedSystem.Reach Unobstructed tr s →
      (s.conn.hungUp → lockedSystem.Brings Unobstructed ConnLabel.byReader LockedConn.Closed
        (2 * s.conn.inbound.length + 2) s) ∧
      ∀ k, s.conn.closers k ≠ .idle →
        lockedSystem.Brings Unobstructed (ConnLabel.byCloser k) LockedConn.Closed 3 s) ∧
    ∀ a c, lockedSystem.Reach System.free tr s → (s.step a).isSome → ¬ Unobstructed s a →
      s.conn.Waits c → (∀ f, s.conn.reader ≠ .handing c f) →
      ∃ as t, lockedSystem.exec s (a :: as) = some t ∧ t.Stranded c := by
  refine ⟨fun h => ?_, fun h => ?_, fun a c h hs hno hc hr =>
    LockedConn.stranded_of_obstructed (LockedConn.wellFormed_of_reach h) hs hno hc hr⟩
  · have hsound := LockedConn.sound_of_reach h
    have hm := hsound.marked
    have hfree {e : ConnErr} (he : s.conn.closeErr = some e) : s.searching = none := by
      by_contra hsearch
      simp [(hsound.searching (Option.isSome_iff_ne_none.mpr hsearch)).1] at he
    refine ⟨?_, ?_, fun e he => ⟨fun as t ht => LockedConn.exec_closed ht he, ?_, ?_⟩, ?_⟩
    · rw [hm.done]
      cases s.conn.closeErr <;> simp
    · rw [hm.done]
      exact Bool.toNat_le _
    · intro c cmd off payload t ht
      cases LockedConn.moves_of_step ht with
      | search _ _ hn => simp [he] at hn
      | step u hu hl =>
        rw [Conn.step_register_of_closeErr he] at hu
        split_ifs at hu
        cases hu
        simp [Conn.setCall]
    · intro c id hc
      exact LockedConn.step_isSome (hfree he) (by simp [hm.step_seeDone hc he])
    · rintro (hr | ⟨k, hk⟩)
      · exact hm.reader (.inr hr)
      · exact hm.closers k hk
  · have hrun := LockedConn.running_of_reach h
    refine ⟨fun hh => readerRanks.brings ⟨hrun, hh⟩ ?_,
      fun k hk => (closerRanks k).brings ⟨hrun, hk⟩ ?_⟩
    · have hheld : s.conn.reader.inHand ≤ 1 := by cases s.conn.reader <;> simp [ReaderPhase.inHand]
      rw [Conn.backlog]
      omega
    · cases hc : s.conn.closers k with
      | idle => exact absurd hc hk
      | drawn id => exact Nat.lt_succ_self 2
      | sent => exact Nat.one_lt_ofNat
      | closed => exact Nat.zero_lt_succ 2
      | returned => exact Nat.zero_lt_succ 2

/-- A call waits, and the link is lost. -/
def lostLink : List ConnLabel := [.register 0 cmdCommand 0 [], .write 0, .hangUp]

theorem teardown_once_lostLink :
    ∃ s, lockedSystem.Reach Unobstructed lostLink s ∧ s.conn.Waits 0 ∧
      lockedSystem.Brings Unobstructed ConnLabel.byReader LockedConn.Closed 2 s := by
  have hadm : lockedSystem.Admits Unobstructed lockedSystem.init lostLink :=
    ⟨⟨fun _ => ⟨0, rfl⟩, trivial⟩, ⟨trivial, trivial⟩, ⟨trivial, trivial⟩, trivial⟩
  have hrun : ∃ s, lockedSystem.exec lockedSystem.init lostLink = some s ∧ s.conn.Waits 0 ∧
      s.conn.hungUp ∧
      s.conn.inbound = [] := ⟨_, rfl, ⟨⟨1, rfl⟩, rfl, rfl⟩, rfl, rfl⟩
  obtain ⟨s, hs, hwaits, hh, hi⟩ := hrun
  have h := System.Reach.nil.exec hadm hs
  have hbrings := ((teardown_once lostLink s).2.1 h).1 hh
  rw [hi] at hbrings
  exact ⟨s, h, hwaits, hbrings⟩

/-- Calls `0, ..., k - 1` wait under the IDs after 0, and no reply has come. -/
structure Conn.Crowded (s : Conn) (k : Nat) : Prop where
  nextID : s.nextID = UInt16.ofNat k
  taken : ∀ c < k, s.pending (UInt16.ofNat (c + 1)) = some c
  free : ∀ id, (∀ c < k, id ≠ UInt16.ofNat (c + 1)) → s.pending id = none
  waiting : ∀ c < k, s.calls c = .waiting (UInt16.ofNat (c + 1))
  idle : ∀ c, k ≤ c → s.calls c = .idle
  chans : ∀ c, s.chans c = none
  closeErr : s.closeErr = none
  reader : s.reader = .reading
  ncClosed : s.ncClosed = false

theorem ofNat_succ_ne {c k : Nat} (hc : c < k) (hk : k < 65536) :
    UInt16.ofNat (c + 1) ≠ UInt16.ofNat (k + 1) := by
  intro he
  have hnat := congrArg UInt16.toNat he
  rw [UInt16.toNat_ofNat', UInt16.toNat_ofNat'] at hnat
  omega

theorem Conn.Crowded.join {s : Conn} {k : Nat} (h : s.Crowded k) (hk : k < 65536) :
    ∃ t, connSystem.exec s [.register k cmdCommand 0 [], .write k] = some t ∧
      t.Crowded (k + 1) := by
  have hnext : s.nextID + 1 = UInt16.ofNat (k + 1) := by
    rw [h.nextID, UInt16.ofNat_add]
    rfl
  have hfree : s.pending (s.nextID + 1) = none := by
    rw [hnext]
    exact h.free _ fun c hc he => ofNat_succ_ne hc hk he.symm
  have hd : s.drawID = some (UInt16.ofNat (k + 1)) := hnext ▸ Conn.drawID_of_free hfree
  refine ⟨{ s with
    nextID := UInt16.ofNat (k + 1)
    pending := Function.update s.pending (UInt16.ofNat (k + 1)) (some k)
    calls := Function.update s.calls k (.waiting (UInt16.ofNat (k + 1)))
    sent :=
      s.sent ++ [⟨.call k, requestHeader cmdCommand (UInt16.ofNat (k + 1)) 0 [], []⟩] }, ?_, ?_⟩
  · simp [System.exec, connSystem, Conn.step, Conn.setCall, Conn.send, requestHeader,
      h.idle k le_rfl, h.closeErr, hd, h.ncClosed]
  · refine ⟨rfl, ?_, ?_, ?_, ?_, h.chans, h.closeErr, h.reader, h.ncClosed⟩
    · intro c hc
      rcases Nat.lt_succ_iff_lt_or_eq.mp hc with hlt | rfl
      · simpa only [Function.update_of_ne (ofNat_succ_ne hlt hk)] using h.taken c hlt
      · exact Function.update_self ..
    · intro id hid
      have hne : id ≠ UInt16.ofNat (k + 1) := hid k (Nat.lt_succ_self k)
      simpa only [Function.update_of_ne hne] using h.free id fun c hc =>
        hid c (Nat.lt_succ_of_lt hc)
    · intro c hc
      rcases Nat.lt_succ_iff_lt_or_eq.mp hc with hlt | rfl
      · simpa only [Function.update_of_ne hlt.ne] using h.waiting c hlt
      · exact Function.update_self ..
    · intro c hc
      have hne : c ≠ k := by omega
      simpa only [Function.update_of_ne hne] using h.idle c (by omega)

theorem crowded_reachable {k : Nat} (hk : k ≤ 65536) :
    ∃ tr s, lockedSystem.Reach System.free tr ⟨s, none⟩ ∧ s.Crowded k := by
  induction k with
  | zero =>
    refine ⟨[], _, .nil, ?_⟩
    constructor <;> simp
  | succ k ih =>
    obtain ⟨tr, s, hr, h⟩ := ih (by omega)
    obtain ⟨t, ht, hcrowd⟩ := h.join (by omega)
    exact ⟨_, t, hr.exec (System.admits_of_forall fun _ _ _ => trivial)
      (LockedConn.exec_of_conn ht), hcrowd⟩

theorem Conn.Crowded.full {s : Conn} (h : s.Crowded 65536) : s.drawID = none := by
  rw [Conn.drawID_eq_none]
  intro id hid
  have hlt := id.toNat_lt
  let c := (id.toNat + 65535) % 65536
  have hc : c < 65536 := Nat.mod_lt _ (by omega)
  have hval : UInt16.ofNat (c + 1) = id := by
    apply UInt16.toNat_inj.mp
    rw [UInt16.toNat_ofNat']
    omega
  have htaken := h.taken c hc
  rw [hval, hid] at htaken
  cases htaken

/-- With 65536 calls in their select one more call searches for ever. When the
link is lost nobody wakes them, and no `Close` call gets the lock. -/
theorem teardown_stranded :
    ∃ tr s, lockedSystem.Reach System.free tr s ∧ s.conn.hungUp ∧
      ∀ c < 65536, ∀ as t, lockedSystem.exec s as = some t → .cancel c ∉ as →
        t.conn.Waits c ∧ ∀ k, t.step (.closeID k) = none ∧ t.step (.closeFail k) = none := by
  obtain ⟨tr, u, hr, h⟩ := crowded_reachable (k := 65536) le_rfl
  let v : LockedConn := ⟨u, some 65536⟩
  let s : LockedConn := ⟨{ u with hungUp := true }, some 65536⟩
  have hsearch : lockedSystem.step ⟨u, none⟩ (.register 65536 cmdCommand 0 []) = some v := by
    simp [lockedSystem, LockedConn.step, h.idle 65536 le_rfl, h.closeErr, h.full, v]
  have hlost : lockedSystem.step v .hangUp = some s := rfl
  refine ⟨_, s, (hr.snoc trivial hsearch).snoc trivial hlost, rfl, ?_⟩
  intro c hc as t ht hcancel
  have hwaits : s.conn.Waits c := ⟨⟨_, h.waiting c hc⟩, h.chans c, h.closeErr⟩
  have hreader (f : Frame) : s.conn.reader ≠ .handing c f := by simp [s, h.reader]
  obtain ⟨hstill, hheld⟩ := LockedConn.waits_of_searching (s := s) rfl hwaits hreader ht hcancel
  exact ⟨hstill, fun k => ⟨LockedConn.step_locked hheld rfl, LockedConn.step_locked hheld rfl⟩⟩

end GoAfp
