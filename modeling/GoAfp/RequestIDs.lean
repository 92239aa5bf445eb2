import GoAfp.ConnTeardown

/-! The request IDs on the wire. `register` skips the IDs in use, but tickles
and `Close` take the next value of the counter as it is. When the counter has
gone once round while a call is still waiting, one of them can carry the ID
of that call. -/

namespace GoAfp

def CallPhase.awaits : CallPhase → Option UInt16
  | .registered h _ => some h.requestID
  | .waiting id => some id
  | _ => none

def ConnLabel.drawer : ConnLabel → Option Origin
  | .register c _ _ _ => some (.call c)
  | .tickle k => some (.tickle k)
  | .closeID k => some (.close k)
  | _ => none

def CallPhase.unsent : CallPhase → Option UInt16
  | .registered h _ => some h.requestID
  | _ => none

def TicklePhase.unsent : TicklePhase → Option UInt16
  | .drawn id => some id
  | _ => none

def ClosePhase.unsent : ClosePhase → Option UInt16
  | .drawn id => some id
  | _ => none

/-- The ID that a sender has drawn and not yet written. -/
def Conn.carried (s : Conn) : Origin → Option UInt16
  | .call c => (s.calls c).unsent
  | .tickle k => (s.ticklers k).unsent
  | .close k => (s.closers k).unsent

/-- No call but the sender itself awaits a reply under the ID. -/
def Conn.Unused (s : Conn) (o : Origin) (id : UInt16) : Prop :=
  ∀ c, o ≠ .call c → (s.calls c).awaits ≠ some id

/-- The sender's last draw in the run gave the ID, which was unused then. -/
def DrawnUnused (tr : List ConnLabel) (o : Origin) (id : UInt16) : Prop :=
  ∃ pre a post s t, tr = pre ++ a :: post ∧ connSystem.Reach System.free pre s ∧ s.step a = some t ∧
    a.drawer = some o ∧ (∀ b ∈ post, b.drawer ≠ some o) ∧ t.carried o = some id ∧ s.Unused o id

theorem awaits_holds {p : CallPhase} {id : UInt16} (h : p.awaits = some id) :
    p.holds = some id := by
  cases p <;> simp_all [CallPhase.awaits, CallPhase.holds]

theorem Conn.WellFormed.unused {s : Conn} (h : s.WellFormed) {o : Origin} {id : UInt16}
    (hid : s.pending id = none) : s.Unused o id := by
  intro c _ hc
  have hp := (h.holds c id).mp (awaits_holds hc)
  simp [hid] at hp

theorem DrawnUnused.concat {tr : List ConnLabel} {o : Origin} {id : UInt16}
    (h : DrawnUnused tr o id) {a : ConnLabel} (ha : a.drawer ≠ some o) :
    DrawnUnused (tr ++ [a]) o id := by
  obtain ⟨pre, b, post, s, t, rfl, hr, hs, hb, hpost, hc, hu⟩ := h
  refine ⟨pre, b, post ++ [a], s, t, by simp, hr, hs, hb, ?_, hc, hu⟩
  intro d hd
  rcases List.mem_append.mp hd with hd | hd
  · exact hpost d hd
  · exact List.mem_singleton.mp hd ▸ ha

/-- Right after a draw, the draw in question is the last one. -/
theorem drawnUnused_concat_iff {tr : List ConnLabel} {s t : Conn} {a : ConnLabel} {o : Origin}
    {id : UInt16} (hr : connSystem.Reach System.free tr s) (hs : s.step a = some t)
    (ha : a.drawer = some o) (hc : t.carried o = some id) :
    DrawnUnused (tr ++ [a]) o id ↔ s.Unused o id := by
  constructor
  · rintro ⟨pre, b, post, s', t', htr, hr', hs', hb, hpost, hc', hu⟩
    obtain rfl : post = [] := by
      by_contra hne
      obtain ⟨init, last, rfl⟩ := List.eq_nil_or_concat' post |>.resolve_left hne
      have hlast : tr ++ [a] = (pre ++ b :: init) ++ [last] := by simpa using htr
      obtain ⟨-, hl⟩ := List.append_inj' hlast rfl
      obtain rfl : a = last := by simpa using hl
      exact hpost a (by simp) ha
    obtain ⟨rfl, -⟩ := List.append_inj' htr rfl
    rwa [hr.unique hr']
  · intro hu
    exact ⟨tr, a, [], s, t, rfl, hr, hs, ha, by simp, hc, hu⟩

theorem of_update {α β γ : Type*} [DecidableEq α] {f : α → β} {g : β → Option γ} {k j : α}
    {b : β} {v : γ} (hb : g b = none) (h : g (Function.update f k b j) = some v) :
    g (f j) = some v := by
  by_cases hj : j = k
  · subst j
    simp [hb] at h
  · simpa only [Function.update_of_ne hj] using h

/-- The step draws no ID: what a sender carries it carried before. -/
def Conn.Keeps (s t : Conn) : Prop :=
  ∀ o id, t.carried o = some id → s.carried o = some id

namespace Conn.Keeps

variable {s t : Conn} {k : Nat}

theorem frame (hc : t.calls = s.calls) (ht : t.ticklers = s.ticklers) (hk : t.closers = s.closers) :
    s.Keeps t := by
  intro o id h
  cases o <;> simpa only [Conn.carried, hc, ht, hk] using h

theorem call {p : CallPhase} (hp : p.unsent = none) (hc : t.calls = Function.update s.calls k p)
    (ht : t.ticklers = s.ticklers) (hk : t.closers = s.closers) : s.Keeps t := by
  intro o id h
  cases o with
  | call c => exact of_update (g := CallPhase.unsent) hp (by simpa only [Conn.carried, hc] using h)
  | tickle j => simpa only [Conn.carried, ht] using h
  | close j => simpa only [Conn.carried, hk] using h

theorem tickler {p : TicklePhase} (hp : p.unsent = none) (hc : t.calls = s.calls)
    (ht : t.ticklers = Function.update s.ticklers k p) (hk : t.closers = s.closers) :
    s.Keeps t := by
  intro o id h
  cases o with
  | call c => simpa only [Conn.carried, hc] using h
  | tickle j =>
    exact of_update (g := TicklePhase.unsent) hp (by simpa only [Conn.carried, ht] using h)
  | close j => simpa only [Conn.carried, hk] using h

theorem closer {p : ClosePhase} (hp : p.unsent = none) (hc : t.calls = s.calls)
    (ht : t.ticklers = s.ticklers) (hk : t.closers = Function.update s.closers k p) :
    s.Keeps t := by
  intro o id h
  cases o with
  | call c => simpa only [Conn.carried, hc] using h
  | tickle j => simpa only [Conn.carried, ht] using h
  | close j =>
    exact of_update (g := ClosePhase.unsent) hp (by simpa only [Conn.carried, hk] using h)

end Conn.Keeps

theorem Conn.step_keeps {s t : Conn} {a : ConnLabel} (h : s.step a = some t)
    (ha : a.drawer = none) :
    s.Keeps t := by
  cases Conn.fires_of_step h with
  | refused e hc he => cases ha
  | register id hc hn hid => cases ha
  | tickle hk => cases ha
  | closeID hk => cases ha
  | tickleWrite id hk hn => exact .tickler rfl rfl rfl rfl
  | tickleEnd he => exact .tickler rfl rfl rfl rfl
  | closeWrite id hk hn => exact .closer rfl rfl rfl rfl
  | closeWriteFail id hk => exact .closer rfl rfl rfl rfl
  | closeSocket hk => exact .closer rfl rfl rfl rfl
  | closeFail hk =>
    have hf := Conn.fail_senders s .closed
    exact .closer rfl hf.calls hf.ticklers rfl
  | read f rest hr hi =>
    have hf := Conn.readFrame_senders { s with inbound := rest } f
    exact .frame hf.calls hf.ticklers hf.closers
  | readError hr =>
    have hf := Conn.fail_senders s .read
    exact .frame hf.calls hf.ticklers hf.closers
  | handOff c f hr hc => exact .frame rfl rfl rfl
  | readerClose hr => exact .frame rfl rfl rfl
  | serverSend f => exact .frame rfl rfl rfl
  | hangUp => exact .frame rfl rfl rfl
  | _ => exact .call rfl rfl rfl rfl

/-- A draw gives its sender the ID that `register` found free or the next
value of the counter. -/
theorem Conn.draw_self {s t : Conn} {a : ConnLabel} {o : Origin} {id : UInt16}
    (h : s.step a = some t) (ha : a.drawer = some o) (ht : t.carried o = some id) :
    (s.drawID = some id ∧ ∃ c, o = .call c) ∨ (id = s.nextID + 1 ∧ ∀ c, o ≠ .call c) := by
  cases Conn.fires_of_step h with
  | refused e hc he =>
    cases ha
    simp [Conn.carried, Conn.setCall, CallPhase.unsent] at ht
  | @register c cmd off payload id' hc hn hid =>
    cases ha
    obtain rfl : id' = id := by simpa [Conn.carried, CallPhase.unsent, requestHeader] using ht
    exact .inl ⟨hid, c, rfl⟩
  | tickle hk =>
    cases ha
    obtain rfl : s.nextID + 1 = id := by
      simpa [Conn.carried, TicklePhase.unsent, Conn.newID] using ht
    exact .inr ⟨rfl, by simp⟩
  | closeID hk =>
    cases ha
    obtain rfl : s.nextID + 1 = id := by
      simpa [Conn.carried, ClosePhase.unsent, Conn.newID] using ht
    exact .inr ⟨rfl, by simp⟩
  | tickleEnd he => rcases he with rfl | rfl <;> cases ha
  | _ => cases ha

theorem Conn.draw_other {s t : Conn} {a : ConnLabel} {o o' : Origin} {id : UInt16}
    (h : s.step a = some t) (ha : a.drawer = some o) (ho : o ≠ o') (ht : t.carried o' = some id) :
    s.carried o' = some id := by
  cases Conn.fires_of_step h with
  | @refused c cmd off payload e hc he =>
    exact Conn.Keeps.call (t := s.setCall c (.returned (.failed e))) rfl rfl rfl rfl o' id ht
  | @register c cmd off payload id' hc hn hid =>
    cases ha
    cases o' with
    | call d =>
      have hd : d ≠ c := fun he => ho (he ▸ rfl)
      simpa only [Conn.carried, Function.update_of_ne hd] using ht
    | _ => exact ht
  | @tickle k hk =>
    cases ha
    cases o' with
    | tickle j =>
      have hj : j ≠ k := fun he => ho (he ▸ rfl)
      simpa only [Conn.carried, Function.update_of_ne hj] using ht
    | _ => exact ht
  | @closeID k hk =>
    cases ha
    cases o' with
    | close j =>
      have hj : j ≠ k := fun he => ho (he ▸ rfl)
      simpa only [Conn.carried, Function.update_of_ne hj] using ht
    | _ => exact ht
  | tickleEnd he => rcases he with rfl | rfl <;> cases ha
  | _ => cases ha

/-- A tickle or a `Close` call takes the next value of the counter only when
no call awaits a reply under it. -/
def NextIDFree (s : Conn) : ConnLabel → Prop
  | .tickle _ => ∀ c, (s.calls c).awaits ≠ some (s.nextID + 1)
  | .closeID _ => ∀ c, (s.calls c).awaits ≠ some (s.nextID + 1)
  | _ => True

theorem NextIDFree.awaits {s : Conn} {a : ConnLabel} {o : Origin} (h : NextIDFree s a)
    (ha : a.drawer = some o) (ho : ∀ c, o ≠ .call c) (c : Nat) :
    (s.calls c).awaits ≠ some (s.nextID + 1) := by
  cases a with
  | register d cmd off payload => exact absurd (by simpa [ConnLabel.drawer] using ha.symm) (ho d)
  | tickle k => exact h c
  | closeID k => exact h c
  | _ => cases ha

theorem drawnUnused_of_reach {tr : List ConnLabel} {s : Conn}
    (h : connSystem.Reach NextIDFree tr s) :
    ∀ o id, s.carried o = some id → DrawnUnused tr o id := by
  induction h with
  | nil =>
    intro o id ho
    cases o <;> simp [connSystem, Conn.carried, CallPhase.unsent, TicklePhase.unsent,
      ClosePhase.unsent] at ho
  | @snoc tr s t a hr hok hs ih =>
    intro o id ho
    cases ha : a.drawer with
    | none => exact (ih o id (Conn.step_keeps hs ha o id ho)).concat (by simp [ha])
    | some o' =>
      by_cases hne : o' = o
      · subst o'
        refine (drawnUnused_concat_iff hr.free hs ha ho).mpr ?_
        rcases Conn.draw_self hs ha ho with ⟨hid, -⟩ | ⟨rfl, hnc⟩
        · exact (Conn.wellFormed_of_reach hr).unused (Conn.searchID_free hid)
        · exact fun c _ => hok.awaits ha hnc c
      · exact (ih o id (Conn.draw_other hs ha hne ho)).concat (by simpa [ha] using hne)

theorem Conn.Writes.carried {s : Conn} {p : Packet} (h : s.Writes p) :
    s.carried p.origin = some p.header.requestID := by
  cases h with
  | call hc => simp [Conn.carried, hc, CallPhase.unsent]
  | tickle hk => simp [Conn.carried, hk, TicklePhase.unsent, signalHeader]
  | close hk => simp [Conn.carried, hk, ClosePhase.unsent, signalHeader]

theorem Conn.step_packet {s t : Conn} {a : ConnLabel} {p : Packet} (h : s.step a = some t)
    (hp : t.sent = s.sent ++ [p]) : s.carried p.origin = some p.header.requestID := by
  rcases Conn.step_sent h with he | ⟨q, hq, he⟩
  · simp [he] at hp
  · obtain rfl : q = p := by simpa [he] using hp
    exact hq.carried

theorem not_nextIDFree {s : Conn} {a : ConnLabel} (h : ¬ NextIDFree s a) :
    ∃ c, (s.calls c).awaits = some (s.nextID + 1) ∧
      ((∃ k, a = .tickle k) ∨ ∃ k, a = .closeID k) := by
  cases a with
  | tickle k =>
    simp only [NextIDFree, not_forall, not_not] at h
    obtain ⟨c, hc⟩ := h
    exact ⟨c, hc, .inl ⟨k, rfl⟩⟩
  | closeID k =>
    simp only [NextIDFree, not_forall, not_not] at h
    obtain ⟨c, hc⟩ := h
    exact ⟨c, hc, .inr ⟨k, rfl⟩⟩
  | _ => exact absurd trivial h

theorem Conn.step_tickleWrite {s : Conn} {k : Nat} {id : UInt16} (hk : s.ticklers k = .drawn id)
    (hn : s.ncClosed = false) : ∃ t, s.step (.tickleWrite k) = some t ∧
      t.sent = s.sent ++ [⟨.tickle k, signalHeader cmdTickle id, []⟩] := by
  simp [Conn.step, hk, hn, Conn.send]

theorem Conn.step_closeWrite {s : Conn} {k : Nat} {id : UInt16} (hk : s.closers k = .drawn id)
    (hn : s.ncClosed = false) : ∃ t, s.step (.closeWrite k) = some t ∧
      t.sent = s.sent ++ [⟨.close k, signalHeader cmdCloseSession id, []⟩] := by
  simp [Conn.step, hk, hn, Conn.send]

/-- The packet that a tickle or `Close` call writes after its draw. -/
theorem Conn.exec_signal {s t : Conn} {a : ConnLabel} (h : s.step a = some t)
    (hn : s.ncClosed = false) (ha : (∃ k, a = .tickle k) ∨ ∃ k, a = .closeID k) :
    ∃ b u p, t.step b = some u ∧ u.sent = t.sent ++ [p] ∧ a.drawer = some p.origin ∧
      p.header.requestID = s.nextID + 1 ∧ ∀ c, p.origin ≠ .call c := by
  cases Conn.fires_of_step h with
  | @tickle k hk =>
    let t : Conn :=
      { s.newID with ticklers := Function.update s.ticklers k (.drawn s.newID.nextID) }
    have hd : t.ticklers k = .drawn (s.nextID + 1) := by simp [t, Conn.newID]
    obtain ⟨u, hu, hsent⟩ := Conn.step_tickleWrite hd hn
    exact ⟨_, u, _, hu, hsent, rfl, rfl, by simp⟩
  | @closeID k hk =>
    let t : Conn := { s.newID with closers := Function.update s.closers k (.drawn s.newID.nextID) }
    have hd : t.closers k = .drawn (s.nextID + 1) := by simp [t, Conn.newID]
    obtain ⟨u, hu, hsent⟩ := Conn.step_closeWrite hd hn
    exact ⟨_, u, _, hu, hsent, rfl, rfl, by simp⟩
  | tickleEnd he => rcases he with rfl | rfl <;> simp at ha
  | _ => simp at ha

/-- In a run whose tickles and `Close` calls find the next value of the
counter free, every packet carries an ID that no other call awaited when it
was drawn. Every other such draw on an open socket can be followed by a packet
that breaks this. -/
theorem packet_id_unused (tr : List ConnLabel) (s : Conn) :
    (connSystem.Reach NextIDFree tr s → ∀ a t p, s.step a = some t → t.sent = s.sent ++ [p] →
      DrawnUnused tr p.origin p.header.requestID) ∧
    ∀ a t, connSystem.Reach System.free tr s → s.ncClosed = false → s.step a = some t →
      ¬ NextIDFree s a →
      ∃ b u p, t.step b = some u ∧ u.sent = t.sent ++ [p] ∧
        ¬ DrawnUnused (tr ++ [a]) p.origin p.header.requestID := by
  constructor
  · intro h a t p hs hp
    exact drawnUnused_of_reach h _ _ (Conn.step_packet hs hp)
  · intro a t h hn hs hno
    obtain ⟨c, hc, ha⟩ := not_nextIDFree hno
    obtain ⟨b, u, p, hb, hp, hd, hid, hpc⟩ := Conn.exec_signal hs hn ha
    refine ⟨b, u, p, hb, hp, ?_⟩
    rw [drawnUnused_concat_iff h hs hd (Conn.step_packet hb hp), hid]
    exact fun hu => hu c (hpc c) hc

theorem packet_id_unused_firstTickle :
    ∃ s t p, connSystem.Reach NextIDFree [.register 0 cmdCommand 0 [], .write 0, .tickle 0] s ∧
      s.step (.tickleWrite 0) = some t ∧ t.sent = s.sent ++ [p] ∧ p.header.requestID = 2 ∧
      DrawnUnused [.register 0 cmdCommand 0 [], .write 0, .tickle 0] (.tickle 0) 2 := by
  have hadm : connSystem.Admits NextIDFree connSystem.init
      [.register 0 cmdCommand 0 [], .write 0, .tickle 0] := by
    refine ⟨trivial, trivial, fun c => ?_, trivial⟩
    by_cases hc : c = 0
    · subst c
      decide
    · simp [connSystem, Conn.setCall, Conn.send, Function.update_of_ne hc, CallPhase.awaits]
  have hrun : ∃ s t p, connSystem.exec connSystem.init
      [.register 0 cmdCommand 0 [], .write 0, .tickle 0] = some s ∧
      s.step (.tickleWrite 0) = some t ∧ t.sent = s.sent ++ [p] ∧ p.origin = .tickle 0 ∧
        p.header.requestID = 2 :=
    ⟨_, _, _, rfl, rfl, rfl, rfl, rfl⟩
  obtain ⟨s, t, p, hs, ht, hp, ho, hid⟩ := hrun
  have h := System.Reach.nil.exec hadm hs
  have hu := (packet_id_unused _ s).1 h _ t p ht hp
  rw [ho, hid] at hu
  exact ⟨s, t, p, h, ht, hp, hid, hu⟩

/-- Call `0` still waits under ID `1` after `n` tickles. -/
structure Conn.Overdue (s : Conn) (n : Nat) : Prop where
  nextID : s.nextID = UInt16.ofNat (n + 1)
  waiting : s.calls 0 = .waiting 1
  tickler : s.ticklers 0 = .idle
  ncClosed : s.ncClosed = false

theorem Conn.Overdue.round {s : Conn} {n : Nat} (h : s.Overdue n) :
    ∃ t, connSystem.exec s [.tickle 0, .tickleWrite 0] = some t ∧ t.Overdue (n + 1) := by
  have hid : s.nextID + 1 = UInt16.ofNat (n + 1 + 1) := by
    rw [h.nextID, UInt16.ofNat_add (n + 1) 1]
    rfl
  let t : Conn := { s.newID.send ⟨.tickle 0, signalHeader cmdTickle (s.nextID + 1), []⟩ with
    ticklers := Function.update (Function.update s.ticklers 0 (.drawn (s.nextID + 1))) 0 .idle }
  refine ⟨t, ?_, hid, h.waiting, by simp [t], h.ncClosed⟩
  simp [System.exec, connSystem, Conn.step, Conn.newID, Conn.send, h.tickler, h.ncClosed, t]

theorem overdue_reachable (n : Nat) : ∃ tr s, connSystem.Reach System.free tr s ∧ s.Overdue n := by
  induction n with
  | zero =>
    have hrun : ∃ s, connSystem.exec connSystem.init
        [.register 0 cmdCommand 0 [], .write 0] = some s ∧
        s.nextID = 1 ∧ s.calls 0 = .waiting 1 ∧ s.ticklers 0 = .idle ∧ s.ncClosed = false :=
      ⟨_, rfl, rfl, rfl, rfl, rfl⟩
    obtain ⟨s, hs, hid, hc, hk, hn⟩ := hrun
    exact ⟨_, s, System.Reach.nil.exec (System.admits_of_forall fun _ _ _ => trivial) hs, hid,
      hc, hk, hn⟩
  | succ n ih =>
    obtain ⟨tr, s, hr, h⟩ := ih
    obtain ⟨t, ht, ho⟩ := h.round
    exact ⟨_, t, hr.exec (System.admits_of_forall fun _ _ _ => trivial) ht, ho⟩

/-- The tickle that follows 65535 others carries the ID of a call that has
waited all the while. -/
theorem packet_id_shared :
    ¬ ∀ tr s a t p, connSystem.Reach System.free tr s → s.step a = some t → t.sent = s.sent ++ [p] →
      DrawnUnused tr p.origin p.header.requestID := by
  intro hall
  obtain ⟨tr, s, hr, h⟩ := overdue_reachable 65535
  have hid : s.nextID + 1 = 1 := by
    rw [h.nextID]
    rfl
  obtain ⟨t, hs⟩ : ∃ t, s.step (.tickle 0) = some t := by simp [Conn.step, h.tickler]
  obtain ⟨b, u, p, hb, hp, hd, hpid, hpc⟩ := Conn.exec_signal hs h.ncClosed (.inl ⟨0, rfl⟩)
  have ht : connSystem.Reach System.free (tr ++ [.tickle 0]) t := hr.snoc trivial hs
  have hu := hall _ t b u p ht hb hp
  rw [drawnUnused_concat_iff hr hs hd (Conn.step_packet hb hp), hpid, hid] at hu
  exact hu 0 (hpc 0) (by simp [h.waiting, CallPhase.awaits])

end GoAfp
