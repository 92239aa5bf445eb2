import GoAfp.ReaderBlocking

/-! Teardown of the connection. `fail` is the only place that sets `closeErr`,
and it closes `done` in the same critical section, so the two say the same
thing and waiters wake up. A failed socket write does not go through `fail`:
a call can hand its caller a transport error while the connection still
counts as alive. -/

namespace GoAfp

def Conn.isAlive (s : Conn) : Bool := s.closeErr.isNone

theorem Conn.fail_of_some {s : Conn} {e : ConnErr} (h : s.closeErr = some e) (e' : ConnErr) :
    s.fail e' = s := by
  simp [Conn.fail, h]

theorem Conn.fail_of_none {s : Conn} (h : s.closeErr = none) (e : ConnErr) :
    s.fail e = { s with closeErr := some e, done := s.done + 1 } := by
  simp [Conn.fail, h]

theorem Conn.fail_isSome (s : Conn) (e : ConnErr) : (s.fail e).closeErr.isSome := by
  cases hs : s.closeErr with
  | none => simp [Conn.fail_of_none hs]
  | some e' => simp [Conn.fail_of_some hs, hs]

/-- What one step does to the marks of a torn-down connection: nothing, or the
first `fail`. The read loop gives up and a `Close` call returns only with the
connection marked. -/
structure Conn.Tears (s t : Conn) : Prop where
  marks : (t.closeErr = s.closeErr ∧ t.done = s.done) ∨
    ∃ e, s.closeErr = none ∧ t.closeErr = some e ∧ t.done = s.done + 1
  reader : t.reader = .closing ∨ t.reader = .stopped →
    (s.reader = .closing ∨ s.reader = .stopped) ∨ t.closeErr.isSome
  closers : ∀ k, t.closers k = .returned → s.closers k = .returned ∨ t.closeErr.isSome

theorem Conn.Tears.same {s t : Conn} (hc : t.closeErr = s.closeErr) (hd : t.done = s.done)
    (hr : t.reader = s.reader) (hk : t.closers = s.closers) : s.Tears t where
  marks := .inl ⟨hc, hd⟩
  reader h := .inl (hr ▸ h)
  closers _ h := .inl (hk ▸ h)

theorem Conn.Tears.running {s t : Conn} (hc : t.closeErr = s.closeErr) (hd : t.done = s.done)
    (hr : t.reader ≠ .closing ∧ t.reader ≠ .stopped) (hk : t.closers = s.closers) : s.Tears t where
  marks := .inl ⟨hc, hd⟩
  reader h := absurd h (not_or.mpr hr)
  closers _ h := .inl (hk ▸ h)

theorem Conn.Tears.closer {s t : Conn} {k : Nat} {p : ClosePhase} (hc : t.closeErr = s.closeErr)
    (hd : t.done = s.done) (hr : t.reader = s.reader) (hp : p ≠ .returned)
    (hk : t.closers = Function.update s.closers k p) : s.Tears t where
  marks := .inl ⟨hc, hd⟩
  reader h := .inl (hr ▸ h)
  closers j h := by
    rw [hk] at h
    by_cases hj : j = k
    · subst j
      exact absurd (by simpa using h) hp
    · exact .inl (by simpa only [Function.update_of_ne hj] using h)

theorem Conn.Tears.fail {s t : Conn} {e : ConnErr} (hc : t.closeErr = (s.fail e).closeErr)
    (hd : t.done = (s.fail e).done) : s.Tears t := by
  have hsome : t.closeErr.isSome := by
    rw [hc]
    exact Conn.fail_isSome s e
  refine ⟨?_, fun _ => .inr hsome, fun _ _ => .inr hsome⟩
  cases hs : s.closeErr with
  | none => exact .inr ⟨e, rfl, by rw [hc, Conn.fail_of_none hs], by rw [hd, Conn.fail_of_none hs]⟩
  | some e' => exact .inl ⟨by rw [hc, Conn.fail_of_some hs, hs], by rw [hd, Conn.fail_of_some hs]⟩

theorem Conn.readFrame_tears (s : Conn) (f : Frame) : s.Tears (s.readFrame f) := by
  unfold Conn.readFrame
  split_ifs with hl hf hc
  · exact .fail rfl rfl
  · split
    · exact .running rfl rfl (by simp) rfl
    · exact .same rfl rfl rfl rfl
  · exact .fail rfl rfl
  · exact .same rfl rfl rfl rfl

theorem Conn.step_tears {s t : Conn} {a : ConnLabel} (h : s.step a = some t) : s.Tears t := by
  cases Conn.fires_of_step h with
  | closeID hk => exact .closer rfl rfl rfl (by simp) rfl
  | closeWrite id hk hn => exact .closer rfl rfl rfl (by simp) rfl
  | closeWriteFail id hk => exact .closer rfl rfl rfl (by simp) rfl
  | closeSocket hk => exact .closer rfl rfl rfl (by simp) rfl
  | closeFail hk => exact .fail (e := .closed) rfl rfl
  | read f rest hr hi =>
    have hq := Conn.readFrame_tears { s with inbound := rest } f
    exact ⟨hq.marks, hq.reader, hq.closers⟩
  | handOff c f hr hc => exact .running rfl rfl (by simp) rfl
  | readError hr => exact .fail (e := .read) rfl rfl
  | readerClose hr => exact ⟨.inl ⟨rfl, rfl⟩, fun _ => .inl (.inl hr), fun _ hk => .inl hk⟩
  | _ => exact .same rfl rfl rfl rfl

theorem Conn.Tears.closeErr {s t : Conn} (h : s.Tears t) {e : ConnErr} (he : s.closeErr = some e) :
    t.closeErr = some e := by
  rcases h.marks with ⟨hc, -⟩ | ⟨e', hn, -, -⟩
  · rw [hc, he]
  · simp [he] at hn

theorem Conn.Tears.isSome {s t : Conn} (h : s.Tears t) (hs : s.closeErr.isSome) :
    t.closeErr.isSome := by
  obtain ⟨e, he⟩ := Option.isSome_iff_exists.mp hs
  simp [h.closeErr he]

structure Conn.Marked (s : Conn) : Prop where
  done : s.done = s.closeErr.isSome.toNat
  reader : s.reader = .closing ∨ s.reader = .stopped → s.closeErr.isSome
  closers : ∀ k, s.closers k = .returned → s.closeErr.isSome

theorem Conn.Marked.step {s t : Conn} (h : s.Marked) (ht : s.Tears t) : t.Marked where
  done := by
    rcases ht.marks with ⟨hc, hd⟩ | ⟨e, hn, hc, hd⟩
    · rw [hd, hc, h.done]
    · rw [hd, hc, h.done, hn]
      rfl
  reader hr := by
    rcases ht.reader hr with hs | hs
    · exact ht.isSome (h.reader hs)
    · exact hs
  closers k hk := by
    rcases ht.closers k hk with hs | hs
    · exact ht.isSome (h.closers k hs)
    · exact hs

theorem Conn.step_register_of_closeErr {s : Conn} {c : Nat} {cmd : UInt8} {off : UInt32}
    {payload : Bytes} {e : ConnErr} (he : s.closeErr = some e) :
    s.step (.register c cmd off payload) =
      if s.calls c = .idle then some (s.setCall c (.returned (.failed e))) else none := by
  cases hc : s.calls c <;> simp [Conn.step, hc, he]

theorem Conn.Marked.step_seeDone {s : Conn} (h : s.Marked) {c : Nat} {id : UInt16} {e : ConnErr}
    (hc : s.calls c = .waiting id) (he : s.closeErr = some e) :
    s.step (.seeDone c) = some (s.setCall c (.leaving id (.failed e))) := by
  have hd : s.done ≠ 0 := by simp [h.done, he]
  simp [Conn.step, hc, he, hd]

/-- One call waits while a `Close` call and the read loop both tear the
connection down. -/
def closeRace : List ConnLabel :=
  [.register 0 cmdCommand 0 [], .write 0, .closeID 0, .closeWrite 0, .closeSocket 0, .readError,
    .closeFail 0]

def CallPhase.failure : CallPhase → Option ConnErr
  | .leaving _ (.failed e) => some e
  | .returned (.failed e) => some e
  | _ => none

theorem failure_update {calls : Nat → CallPhase} {c d : Nat} {p : CallPhase} {e : ConnErr}
    (h : (Function.update calls c p d).failure = some e)
    (hp : p.failure = none ∨ p.failure = (calls c).failure) :
    (calls d).failure = some e := by
  by_cases hd : d = c
  · subst d
    rw [Function.update_self] at h
    rcases hp with hn | hs
    · simp [hn] at h
    · exact hs ▸ h
  · simpa only [Function.update_of_ne hd] using h

/-- A call comes to hold a transport error by a failed write or from a
connection that is marked already. -/
theorem Conn.step_failure {s t : Conn} {a : ConnLabel} (h : s.step a = some t)
    (hn : s.closeErr = none) {c : Nat} {e : ConnErr} (hf : (t.calls c).failure = some e) :
    (s.calls c).failure = some e ∨ a = .writeFail c := by
  cases Conn.fires_of_step h with
  | refused e' hd he => simp [hn] at he
  | register id hd hn hid => exact .inl (failure_update hf (.inl rfl))
  | write hd payload hc hn => exact .inl (failure_update hf (.inl rfl))
  | @writeFail d hd payload hc =>
    by_cases he : c = d
    · exact .inr (he ▸ rfl)
    · exact .inl (by simpa only [Conn.setCall, Function.update_of_ne he] using hf)
  | seeDone id e' hd he => simp [hn] at he
  | cancel id hd => exact .inl (failure_update hf (.inl rfl))
  | receive id f hd hc => exact .inl (failure_update hf (.inl rfl))
  | @unregister d id res hd =>
    refine .inl (failure_update hf (.inr ?_))
    rw [hd]
    cases res <;> rfl
  | read f rest hr hi =>
    rw [(Conn.readFrame_senders { s with inbound := rest } f).calls] at hf
    exact .inl hf
  | closeFail hk =>
    rw [(Conn.fail_senders s .closed).calls] at hf
    exact .inl hf
  | readError hr =>
    rw [(Conn.fail_senders s .read).calls] at hf
    exact .inl hf
  | _ => exact .inl hf

/-- A socket write fails only once the connection is marked dead. -/
def WriteFailsDead (s : Conn) : ConnLabel → Prop
  | .writeFail _ => s.isAlive = false
  | _ => True

def Conn.Reported (s : Conn) : Prop :=
  ∀ c e, (s.calls c).failure = some e → s.isAlive = false

theorem Conn.isAlive_eq_false {s : Conn} : s.isAlive = false ↔ s.closeErr.isSome := by
  cases h : s.closeErr <;> simp [Conn.isAlive, h]

theorem Conn.Reported.step {s t : Conn} {a : ConnLabel} (h : s.Reported) (hok : WriteFailsDead s a)
    (hs : s.step a = some t) : t.Reported := by
  intro c e hf
  have ht := Conn.step_tears hs
  rw [Conn.isAlive_eq_false]
  cases hn : s.closeErr with
  | some e' => exact ht.isSome (by simp [hn])
  | none =>
    have hdead : s.isAlive = false := by
      rcases Conn.step_failure hs hn hf with hc | rfl
      · exact h c e hc
      · exact hok
    exact ht.isSome (Conn.isAlive_eq_false.mp hdead)

theorem Conn.reported_of_reach {tr : List ConnLabel} {s : Conn}
    (h : connSystem.Reach WriteFailsDead tr s) :
    s.Reported :=
  h.invariant (I := Conn.Reported) (by simp [Conn.Reported, connSystem, CallPhase.failure])
    (fun hi hok hs => hi.step hok hs)

theorem Conn.exec_writeFail {s t : Conn} {c : Nat} (h : s.step (.writeFail c) = some t) :
    ∃ u, connSystem.exec s [.writeFail c, .unregister c] = some u ∧
      u.calls c = .returned (.failed .write) ∧ u.closeErr = s.closeErr := by
  have ht := h
  simp only [Conn.step] at h
  split at h
  · rename_i hd payload hc hn
    cases h
    let u := s.setCall c (.leaving hd.requestID (.failed .write))
    have hu : u.step (.unregister c) = some
        ((u.unregister hd.requestID).setCall c (.returned (.failed .write))) := by
      simp [Conn.step, u, Conn.setCall]
    exact ⟨_, System.exec_cons ht (System.exec_cons hu rfl), by simp [Conn.setCall], rfl⟩
  · cases h

/-- A call that returns a transport error finds the connection marked dead as
long as socket writes fail only on a marked connection, and every other failed
write can be followed by a return to the caller before anyone marks it. -/
theorem error_dead_iff_writeFailsDead (tr : List ConnLabel) (s : Conn) :
    (connSystem.Reach WriteFailsDead tr s → ∀ c e, s.calls c = .returned (.failed e) →
      s.isAlive = false) ∧
    ∀ a, connSystem.Reach System.free tr s → (s.step a).isSome → ¬ WriteFailsDead s a →
      ∃ as t c, connSystem.Reach System.free (tr ++ as) t ∧ t.calls c = .returned (.failed .write) ∧
        t.isAlive = true := by
  constructor
  · intro h c e hc
    exact Conn.reported_of_reach h c e (by simp [hc, CallPhase.failure])
  · intro a h ha hno
    cases a with
    | writeFail c =>
      obtain ⟨u, hu⟩ := Option.isSome_iff_exists.mp ha
      obtain ⟨t, ht, hc, he⟩ := Conn.exec_writeFail hu
      have hreach := h.exec (System.admits_of_forall fun _ _ _ => trivial) ht
      have halive : t.isAlive = s.isAlive := by rw [Conn.isAlive, he, Conn.isAlive]
      exact ⟨_, t, c, hreach, hc, halive.trans (Bool.eq_true_of_not_eq_false hno)⟩
    | _ => exact absurd trivial hno

theorem error_dead_iff_writeFailsDead_closeRace :
    ∃ s, connSystem.Reach WriteFailsDead (closeRace ++ [.seeDone 0, .unregister 0]) s ∧
      s.calls 0 = .returned (.failed .read) ∧ s.isAlive = false := by
  have hrun : ∃ s, connSystem.exec connSystem.init
      (closeRace ++ [.seeDone 0, .unregister 0]) = some s ∧
      s.calls 0 = .returned (.failed .read) := ⟨_, rfl, rfl⟩
  obtain ⟨s, hs, hc⟩ := hrun
  have hadm : connSystem.Admits WriteFailsDead connSystem.init
      (closeRace ++ [.seeDone 0, .unregister 0]) :=
    System.admits_of_forall (by simp [closeRace, WriteFailsDead])
  have h := System.Reach.nil.exec hadm hs
  exact ⟨s, h, hc, (error_dead_iff_writeFailsDead _ s).1 h 0 .read hc⟩

/-- The server hangs up, and a call notices it before the read loop does. -/
def writerFirst : List ConnLabel :=
  [.register 0 cmdCommand 0 [], .hangUp, .writeFail 0, .unregister 0]

theorem error_dead_writerFirst :
    ¬ ∀ tr s, connSystem.Reach System.free tr s → ∀ c e, s.calls c = .returned (.failed e) →
      s.isAlive = false := by
  intro hall
  have hrun : ∃ s, connSystem.exec connSystem.init writerFirst = some s ∧
      s.calls 0 = .returned (.failed .write) ∧ s.isAlive = true := ⟨_, rfl, rfl, rfl⟩
  obtain ⟨s, hs, hc, ha⟩ := hrun
  have hdead :=
    hall _ s (System.Reach.nil.exec (System.admits_of_forall fun _ _ _ => trivial) hs) 0 .write hc
  simp [ha] at hdead

end GoAfp
