import GoAfp.DoCalls
import GoAfp.Reconnect

/-! The runs of one call's closure: at most two, the second on the volume of a
later dial than the first. -/

namespace GoAfp

/-- The volumes that the closure of a call was given, in order. -/
def Manager.runs (m : Manager) (g : Nat) : List (Option Nat) :=
  (m.invoked.filter (·.1 = g)).map Prod.snd

theorem Manager.runs_congr {m n : Manager} (h : n.invoked = m.invoked) (g : Nat) :
    n.runs g = m.runs g := by
  rw [runs, runs, h]

theorem Manager.runs_setCall (m : Manager) (k : Nat) (p : DoPhase) (g : Nat) :
    (m.setCall k p).runs g = m.runs g := rfl

theorem Manager.runs_invoke_self (m : Manager) (g : Nat) (v : Option Nat) :
    (m.invoke g v).runs g = m.runs g ++ [v] := by
  simp [runs, invoke]

theorem Manager.given_invoke_self (m : Manager) (g : Nat) (v : Option Nat) :
    (m.invoke g v).given g = v := by
  simp [given, invoke]

theorem Manager.runs_invoke_of_ne (m : Manager) {g k : Nat} (h : g ≠ k) (v : Option Nat) :
    (m.invoke k v).runs g = m.runs g := by
  simp [runs, invoke, Ne.symm h]

/-- At most one run so far, on the volume of the dial `v`. -/
def RunBefore (v : Nat → Prop) (runs : List (Option Nat)) : Prop :=
  runs = [] ∨ ∃ d, runs = [some d] ∧ v d

theorem RunBefore.mono {v w : Nat → Prop} {runs : List (Option Nat)} (h : RunBefore v runs)
    (hvw : ∀ d, v d → w d) :
    RunBefore w runs := by
  rcases h with h | ⟨d, h, hd⟩
  · exact .inl h
  · exact .inr ⟨d, h, hvw d hd⟩

/-- Runs that are at most two, the second later. -/
def RunsLater (runs : List (Option Nat)) : Prop :=
  runs.length ≤ 2 ∧ runs.Pairwise fun a b => ∀ v w, a = some v → b = some w → v < w

theorem RunBefore.later {v : Nat → Prop} {runs : List (Option Nat)} (h : RunBefore v runs) :
    RunsLater runs := by
  rcases h with rfl | ⟨d, rfl, -⟩ <;> simp [RunsLater]

theorem RunBefore.append {vol : Option Nat} {v : Nat → Prop} {runs : List (Option Nat)}
    (h : RunBefore v runs) (hlt : ∀ d e, v d → vol = some e → d < e) :
    RunsLater (runs ++ [vol]) := by
  rcases h with rfl | ⟨d, rfl, hd⟩
  · simp [RunsLater]
  · simp only [RunsLater, List.singleton_append, List.length_cons, List.length_nil,
      List.pairwise_cons, List.mem_singleton]
    refine ⟨le_refl _, ?_, by simp⟩
    rintro a rfl x y hx hy
    cases hx
    exact hlt d y hd hy

/-- The generation counts the dials, so the volume of generation `n + 1` is that
of dial `n`. -/
def Manager.RunsAt (m : Manager) (g : Nat) : DoPhase → Prop
  | .idle => m.runs g = []
  | .running gen _ => gen ≤ m.gen ∧ RunBefore (· + 1 = gen) (m.runs g)
  | .checking gen _ => gen ≤ m.gen ∧ RunBefore (· + 1 = gen) (m.runs g)
  | .retrying gen => gen ≤ m.gen ∧ RunBefore (· + 1 = gen) (m.runs g)
  | .dialing => RunBefore (· + 1 ≤ m.gen) (m.runs g)
  | .rereading => RunBefore (· + 1 < m.gen) (m.runs g)
  | .rerunning => RunsLater (m.runs g)
  | .returned _ => RunsLater (m.runs g)

structure Manager.Ordered (m : Manager) : Prop where
  current : ∀ d, m.vol = some d → d + 1 = m.gen
  runs : ∀ g, m.RunsAt g (m.calls g)

namespace Manager

variable {m n : Manager} {a : ManagerLabel}

theorem RunsAt.later {g : Nat} {p : DoPhase} (h : m.RunsAt g p) : RunsLater (m.runs g) := by
  cases p with
  | idle => simp [show m.runs g = [] from h, RunsLater]
  | running gen conn => exact h.2.later
  | checking gen conn => exact h.2.later
  | retrying gen => exact h.2.later
  | dialing => exact RunBefore.later h
  | rereading => exact RunBefore.later h
  | rerunning => exact h
  | returned r => exact h

theorem RunsAt.mono {g : Nat} {p : DoPhase} (h : m.RunsAt g p) (hgen : m.gen ≤ n.gen)
    (hruns : n.runs g = m.runs g) :
    n.RunsAt g p := by
  cases p with
  | idle => exact hruns.trans h
  | running gen conn => exact ⟨h.1.trans hgen, hruns ▸ h.2⟩
  | checking gen conn => exact ⟨h.1.trans hgen, hruns ▸ h.2⟩
  | retrying gen => exact ⟨h.1.trans hgen, hruns ▸ h.2⟩
  | dialing =>
    show RunBefore (· + 1 ≤ n.gen) (n.runs g)
    rw [hruns]
    exact RunBefore.mono h fun d hd => hd.trans hgen
  | rereading =>
    show RunBefore (· + 1 < n.gen) (n.runs g)
    rw [hruns]
    exact RunBefore.mono h fun d hd => hd.trans_le hgen
  | rerunning =>
    show RunsLater (n.runs g)
    rw [hruns]
    exact h
  | returned r =>
    show RunsLater (n.runs g)
    rw [hruns]
    exact h

/-- The call `k` moves, and no closure is given a volume. -/
theorem Ordered.move (h : m.Ordered) {k : Nat} {p : DoPhase}
    (hcalls : n.calls = Function.update m.calls k p) (hinvoked : n.invoked = m.invoked)
    (hgen : m.gen ≤ n.gen) (hcurrent : ∀ d, n.vol = some d → d + 1 = n.gen)
    (hk : n.RunsAt k p) : n.Ordered := by
  refine ⟨hcurrent, fun g => ?_⟩
  rw [hcalls]
  by_cases hg : g = k
  · subst hg
    rw [Function.update_self]
    exact hk
  · rw [Function.update_of_ne hg]
    exact (h.runs g).mono hgen (runs_congr hinvoked g)

/-- The closure of the call `k` is given the current volume. -/
theorem Ordered.invoked (h : m.Ordered) {k : Nat} {p : DoPhase}
    (hk : ((m.invoke k m.vol).setCall k p).RunsAt k p) :
    ((m.invoke k m.vol).setCall k p).Ordered := by
  refine ⟨h.current, fun g => ?_⟩
  by_cases hg : g = k
  · subst hg
    simpa only [setCall, Function.update_self] using hk
  · simp only [setCall, Function.update_of_ne hg]
    exact (h.runs g).mono (le_refl _) (runs_invoke_of_ne m hg m.vol)

theorem Ordered.at (h : m.Ordered) {g : Nat} {p : DoPhase} (hp : m.calls g = p) : m.RunsAt g p :=
  hp ▸ h.runs g

theorem runs_mono (h : m.step a = some n) {g : Nat} {v : Option Nat} (hv : v ∈ m.runs g) :
    v ∈ n.runs g := by
  have hinvoke (k : Nat) (w : Option Nat) : v ∈ (m.invoke k w).runs g := by
    by_cases hg : g = k
    · subst hg
      rw [runs_invoke_self]
      exact List.mem_append_left _ hv
    · rw [runs_invoke_of_ne m hg]
      exact hv
  cases Manager.step_effect h with
  | sample k w hc hw => exact hinvoke k (some w)
  | reread k hc => exact hinvoke k m.vol
  | startDial k hc hh =>
    show v ∈ m.closeConn.runs g
    rw [runs_congr (closeConn_invoked m)]
    exact hv
  | close hh =>
    rw [runs_congr (closeConn_invoked m)]
    exact hv
  | _ => exact hv

/-- The dials after all those on which the closure of the call has run. -/
def After (m : Manager) (g d : Nat) : Prop :=
  ∀ v, some v ∈ m.runs g → v < d

theorem After.of_step {g d : Nat} (h : n.After g d) (hs : m.step a = some n) : m.After g d :=
  fun v hv => h v (runs_mono hs hv)

/-- The volume that a second run is given. -/
theorem Ordered.reread (h : m.Ordered) {g : Nat} (hs : m.step (.reread g) = some n) :
    n.given g = m.vol ∧ (∀ d, m.vol = some d → m.After g d ∧ some d ∈ n.runs g) := by
  cases Manager.step_effect hs with
  | reread _ hc =>
    refine ⟨given_invoke_self m g m.vol, fun d hd => ⟨fun v hv => ?_, ?_⟩⟩
    · have hcurrent := h.current d hd
      rcases h.at hc with hnil | ⟨e, hruns, he⟩
      · rw [hnil] at hv
        cases hv
      · rw [hruns, List.mem_singleton] at hv
        cases hv
        omega
    · rw [runs_setCall, runs_invoke_self, hd]
      exact List.mem_append_right _ List.mem_cons_self

theorem sample_given {g v : Nat} (hs : m.step (.sample g) = some n) (hv : m.vol = some v) :
    n.given g = some v ∧ some v ∈ n.runs g := by
  cases Manager.step_effect hs with
  | sample _ w hc hw =>
    cases hv.symm.trans hw
    refine ⟨given_invoke_self m g (some v), ?_⟩
    rw [runs_setCall, runs_invoke_self]
    exact List.mem_append_right _ List.mem_cons_self
  | sampleNil _ hc hnone => cases hv.symm.trans hnone

/-- A call that goes on without a dial of its own has seen a later generation. -/
theorem reconnect_cases {g : Nat} (h : m.step (.reconnect g) = some n) :
    (∃ failedGen, m.calls g = .retrying failedGen ∧ m.gen ≠ failedGen ∧
      n = m.setCall g .rereading) ∨
      m.calls g = .retrying m.gen ∧
        n = { m.closeConn with holder := some g }.setCall g .dialing := by
  simp only [Manager.step] at h
  split at h
  · rename_i failedGen hc hh
    split_ifs at h with hgen
    · cases h
      exact .inl ⟨failedGen, hc, hgen, rfl⟩
    · cases h
      exact .inr ⟨(not_not.mp hgen) ▸ hc, rfl⟩
  · cases h

theorem Ordered.init : managerSystem.init.Ordered := by
  refine ⟨fun d hd => ?_, fun g => rfl⟩
  cases hd
  rfl

theorem Ordered.step (hc : m.Consistent) (h : m.Ordered) (hs : m.step a = some n) : n.Ordered := by
  cases Manager.step_effect hs with
  | sample g v hidle hv =>
    rw [← hv]
    apply h.invoked
    refine ⟨le_refl _, .inr ⟨v, ?_, h.current v hv⟩⟩
    rw [runs_setCall, runs_invoke_self, h.at hidle, hv]
    rfl
  | sampleNil g hidle hv =>
    exact h.move rfl rfl (le_refl _) h.current ⟨le_refl _, .inl (h.at hidle)⟩
  | fnOk g hrun => exact h.move rfl rfl (le_refl _) h.current (h.runs g).later
  | fnErr g gen conn hrun => exact h.move rfl rfl (le_refl _) h.current (h.at hrun)
  | fnErrAgain g hrun => exact h.move rfl rfl (le_refl _) h.current (h.at hrun)
  | alive g gen conn hcheck => exact h.move rfl rfl (le_refl _) h.current (h.at hcheck).later
  | notAlive g gen conn hcheck ha => exact h.move rfl rfl (le_refl _) h.current (h.at hcheck)
  | superseded g gen hretry =>
    rcases reconnect_cases hs with ⟨failedGen, hfailed, hne, -⟩ | ⟨-, hn⟩
    · obtain ⟨hle, hruns⟩ := h.at hfailed
      refine h.move rfl rfl (le_refl _) h.current (RunBefore.mono hruns fun d hd => ?_)
      show d + 1 < m.gen
      omega
    · have hcall := congrArg (fun n => n.calls g) hn
      simp [setCall] at hcall
  | startDial g hretry hh =>
    have hlink := SameLink.closeConn m
    refine h.move (k := g) (p := .dialing) ?_ (closeConn_invoked m) hlink.gen.ge ?_ ?_
    · show Function.update m.closeConn.calls g .dialing = _
      rw [closeConn_calls]
    · show ∀ d, m.closeConn.vol = some d → d + 1 = m.closeConn.gen
      rw [hlink.vol, hlink.gen]
      exact h.current
    · show RunBefore (· + 1 ≤ m.closeConn.gen) (m.closeConn.runs g)
      rw [hlink.gen, runs_congr (closeConn_invoked m)]
      exact (h.at hretry).2.mono fun d hd => hd.le
  | dialOk g hdial =>
    refine h.move rfl rfl (Nat.le_succ _) (fun d hd => ?_)
      (RunBefore.mono (h.at hdial) fun d hd => Nat.lt_succ_of_le hd)
    cases hd
    exact congrArg Nat.succ hc.gen_dials.symm
  | dialErr g hdial =>
    refine h.move rfl rfl (le_refl _) (fun d hd => ?_) (h.at hdial).later
    cases hd
  | reread g hreread =>
    apply h.invoked
    show RunsLater ((m.invoke g m.vol).runs g)
    rw [runs_invoke_self]
    apply RunBefore.append (h.at hreread)
    intro d e hd he
    have := h.current e he
    omega
  | linkDies d => exact ⟨h.current, fun g => (h.runs g).mono (le_refl _) rfl⟩
  | close hh =>
    have hlink := SameLink.closeConn m
    refine ⟨?_, fun g => ?_⟩
    · rw [hlink.vol, hlink.gen]
      exact h.current
    · rw [closeConn_calls]
      exact (h.runs g).mono hlink.gen.ge (runs_congr (closeConn_invoked m) g)

end Manager

/-- However the calls interleave, `do` runs the closure of a call at most twice,
and the second time not on the connection of the first. -/
theorem do_runs_later {tr : List ManagerLabel} {m : Manager}
    (h : managerSystem.Reach System.free tr m) (g : Nat) :
    RunsLater (m.runs g) := by
  have hinv : m.Consistent ∧ m.Ordered :=
    h.invariant (I := fun m => m.Consistent ∧ m.Ordered)
      ⟨Manager.Consistent.init, Manager.Ordered.init⟩
      fun ⟨hc, ho⟩ _ hs => ⟨hc.step hs, ho.step hc hs⟩
  exact (hinv.2.runs g).later

theorem do_runs_later_oneRedial :
    ∃ m, managerSystem.Reach System.free oneRedial m ∧ m.runs 1 = [some 0, some 1] ∧
      RunsLater (m.runs 1) :=
  have h := System.Reach.nil.exec (System.admits_of_forall fun _ _ _ => trivial)
    (rfl : managerSystem.exec managerSystem.init oneRedial = some _)
  ⟨_, h, by decide, do_runs_later h 1⟩

end GoAfp
