import Mathlib.Data.List.Basic

/-! Executable transition systems. A run is recorded with its labels, and a
guard on (state, label) pairs singles out the runs whose environment behaves
in a prescribed way. -/

namespace GoAfp

structure System (σ α : Type*) where
  init : σ
  step : σ → α → Option σ

namespace System

variable {σ α : Type*} {M : System σ α} {ok ok' : σ → α → Prop} {I : σ → Prop}

/-- The states reached by a run all of whose steps meet the guard. -/
inductive Reach (M : System σ α) (ok : σ → α → Prop) : List α → σ → Prop
  | nil : Reach M ok [] M.init
  | snoc {tr : List α} {s t : σ} {a : α} (h : Reach M ok tr s) (hok : ok s a)
      (hs : M.step s a = some t) : Reach M ok (tr ++ [a]) t

def free : σ → α → Prop := fun _ _ => True

/-- An invariant that the admitted steps preserve, and that may speak of the
labels so far, holds along every run. -/
theorem Reach.history {J : List α → σ → Prop} (hinit : J [] M.init)
    (hstep : ∀ {tr s a t}, J tr s → ok s a → M.step s a = some t → J (tr ++ [a]) t)
    {tr : List α} {s : σ} (h : M.Reach ok tr s) : J tr s := by
  induction h with
  | nil => exact hinit
  | snoc _ ha hs ih => exact hstep ih ha hs

theorem Reach.invariant (hinit : I M.init)
    (hstep : ∀ {s a t}, I s → ok s a → M.step s a = some t → I t)
    {tr : List α} {s : σ} (h : M.Reach ok tr s) : I s :=
  h.history (J := fun _ => I) hinit hstep

theorem Reach.mono (h : ∀ {s a}, ok s a → ok' s a) {tr : List α} {s : σ} (hr : M.Reach ok tr s) :
    M.Reach ok' tr s := by
  induction hr with
  | nil => exact .nil
  | snoc _ ha hs ih => exact ih.snoc (h ha) hs

theorem Reach.free {tr : List α} {s : σ} (h : M.Reach ok tr s) : M.Reach System.free tr s :=
  h.mono fun _ => trivial

/-- A run without the label `b` also meets the guard that refuses it. -/
theorem Reach.without {tr : List α} {s : σ} {b : α} (h : M.Reach ok tr s) (hb : b ∉ tr) :
    M.Reach (fun s a => ok s a ∧ a ≠ b) tr s := by
  induction h with
  | nil => exact .nil
  | @snoc tr s t a _ hok hs ih =>
    rw [List.mem_append, not_or, List.mem_singleton] at hb
    exact (ih hb.1).snoc ⟨hok, fun he => hb.2 he.symm⟩ hs

theorem Reach.not_mem {tr : List α} {s : σ} {b : α} (h : M.Reach ok tr s) (hb : ∀ s, ¬ ok s b) :
    b ∉ tr := by
  induction h with
  | nil => exact List.not_mem_nil
  | @snoc tr s t a _ hok hs ih =>
    rw [List.mem_append, List.mem_singleton]
    rintro (hmem | rfl)
    · exact ih hmem
    · exact hb s hok

theorem Reach.unique {tr : List α} {s t : σ} (h : M.Reach ok tr s) (h' : M.Reach ok' tr t) :
    s = t := by
  induction h generalizing t with
  | nil =>
    generalize htr : ([] : List α) = l at h'
    cases h' with
    | nil => rfl
    | snoc _ _ _ => simp at htr
  | @snoc tr s u a h hok hs ih =>
    generalize htr : tr ++ [a] = l at h'
    cases h' with
    | nil => simp at htr
    | @snoc tr' s' _ a' hr' _ hs' =>
      obtain ⟨rfl, ha⟩ := List.append_inj' htr rfl
      obtain rfl : a = a' := by simpa using ha
      rw [ih hr'] at hs
      exact Option.some.inj (hs.symm.trans hs')

def exec (M : System σ α) (s : σ) : List α → Option σ
  | [] => some s
  | a :: as => (M.step s a).bind fun t => exec M t as

theorem exec_cons {s t u : σ} {a : α} {as : List α} (hs : M.step s a = some t)
    (he : M.exec t as = some u) :
    M.exec s (a :: as) = some u := by
  simp [System.exec, hs, he]

def Admits (M : System σ α) (ok : σ → α → Prop) (s : σ) : List α → Prop
  | [] => True
  | a :: as => ok s a ∧ (M.step s a).elim True fun t => Admits M ok t as

instance decidableAdmits [∀ s a, Decidable (ok s a)] (s : σ) (as : List α) :
    Decidable (M.Admits ok s as) :=
  match as with
  | [] => isTrue trivial
  | a :: as =>
    have : Decidable ((M.step s a).elim True fun t => M.Admits ok t as) :=
      match M.step s a with
      | none => isTrue trivial
      | some t => decidableAdmits t as
    inferInstanceAs (Decidable (_ ∧ _))

theorem admits_of_forall {s : σ} {as : List α} (h : ∀ a ∈ as, ∀ s, ok s a) : M.Admits ok s as := by
  induction as generalizing s with
  | nil => trivial
  | cons a as ih =>
    refine ⟨h a (by simp) s, ?_⟩
    cases M.step s a with
    | none => trivial
    | some t => exact ih (fun b hb => h b (by simp [hb]))

theorem admits_cons {s : σ} {a : α} {as : List α} (ha : ok s a) (h : ∀ b ∈ as, ∀ s, ok s b) :
    M.Admits ok s (a :: as) := by
  refine ⟨ha, ?_⟩
  cases M.step s a with
  | none => trivial
  | some t => exact admits_of_forall h

/-- `P` holds in every state that a run passes through. -/
def Holds (M : System σ α) (P : σ → Prop) (s : σ) : List α → Prop
  | [] => P s
  | a :: as => P s ∧ (M.step s a).elim True fun t => Holds M P t as

theorem Holds.here {P : σ → Prop} {s : σ} {as : List α} (h : M.Holds P s as) : P s := by
  cases as with
  | nil => exact h
  | cons a as => exact h.1

/-- A run keeps `P` exactly if all its steps meet `ok`: those that do keep the
invariant, and those that do not break `P` at once. -/
theorem holds_iff_admits {P : σ → Prop} {good : σ → α → Prop} (hP : ∀ s, I s → P s)
    (hstep : ∀ s a, I s → good s a → ∃ t, M.step s a = some t ∧ (ok s a → I t) ∧ (P t → ok s a))
    {s : σ} {as : List α} (hs : I s) (hgood : M.Admits good s as) :
    M.Holds P s as ↔ M.Admits ok s as := by
  induction as generalizing s with
  | nil => exact iff_of_true (hP s hs) trivial
  | cons a as ih =>
    obtain ⟨t, ht, hkeeps, hbreaks⟩ := hstep s a hs hgood.1
    have hrest : M.Admits good t as := by simpa only [ht, Option.elim_some] using hgood.2
    simp only [Holds, Admits, ht, Option.elim_some]
    constructor
    · rintro ⟨-, hrun⟩
      have hok := hbreaks hrun.here
      exact ⟨hok, (ih (hkeeps hok) hrest).mp hrun⟩
    · rintro ⟨hok, hrun⟩
      exact ⟨hP s hs, (ih (hkeeps hok) hrest).mpr hrun⟩

/-- `goal` cannot be put off: until it holds a step of `mine` is enabled, and
every admitted run with `n` such steps ends in it. -/
structure Brings (M : System σ α) (ok : σ → α → Prop) (mine : α → Bool) (goal : σ → Prop) (n : Nat)
    (s : σ) : Prop where
  enabled : ∀ as t, M.Admits ok s as → M.exec s as = some t → ¬ goal t →
    ∃ a, mine a ∧ (M.step t a).isSome
  reached : ∀ as t, M.Admits ok s as → M.exec s as = some t → n ≤ as.countP mine → goal t

/-- A rank that steps of `mine` lower and no other step raises. -/
structure Ranks (M : System σ α) (ok : σ → α → Prop) (mine : α → Bool) (goal I : σ → Prop)
    (rank : σ → Nat) : Prop where
  enabled : ∀ {s}, I s → ¬ goal s → ∃ a, mine a ∧ (M.step s a).isSome
  keeps : ∀ {s a t}, I s → ok s a → M.step s a = some t → I t
  stays : ∀ {s a t}, goal s → M.step s a = some t → goal t
  lowers : ∀ {s a t}, I s → ok s a → M.step s a = some t → goal t ∨ rank t + (mine a).toNat ≤ rank s

theorem Ranks.run {mine : α → Bool} {goal : σ → Prop} {rank : σ → Nat}
    (h : M.Ranks ok mine goal I rank) {as : List α} {s t : σ} (hs : I s) (ha : M.Admits ok s as)
    (he : M.exec s as = some t) :
    I t ∧ (goal s → goal t) ∧ (goal t ∨ rank t + as.countP mine ≤ rank s) := by
  induction as generalizing s with
  | nil =>
    cases he
    exact ⟨hs, id, .inr (Nat.le_refl _)⟩
  | cons a as ih =>
    obtain ⟨u, hu, hrest⟩ := Option.bind_eq_some_iff.mp he
    have hadm : M.Admits ok u as := by simpa only [hu, Option.elim_some] using ha.2
    obtain ⟨hI, hstay, hrank⟩ := ih (h.keeps hs ha.1 hu) hadm hrest
    refine ⟨hI, fun hg => hstay (h.stays hg hu), ?_⟩
    rcases h.lowers hs ha.1 hu with hg | hlow
    · exact .inl (hstay hg)
    · refine hrank.imp_right fun hle => ?_
      have hcount : (a :: as).countP mine = as.countP mine + (mine a).toNat := by
        cases hm : mine a <;> simp [hm]
      omega

theorem Ranks.brings {mine : α → Bool} {goal : σ → Prop} {rank : σ → Nat}
    (h : M.Ranks ok mine goal I rank) {s : σ} (hs : I s) {n : Nat} (hn : rank s < n) :
    M.Brings ok mine goal n s where
  enabled _ _ ha he := h.enabled (h.run hs ha he).1
  reached as t ha he hle := by
    rcases (h.run hs ha he).2.2 with hg | hrank
    · exact hg
    · omega

theorem Reach.exec {tr as : List α} {s t : σ} (h : M.Reach ok tr s) (ha : M.Admits ok s as)
    (he : M.exec s as = some t) : M.Reach ok (tr ++ as) t := by
  induction as generalizing tr s with
  | nil =>
    simp only [System.exec, Option.some.injEq] at he
    simpa only [he, List.append_nil] using h
  | cons a as ih =>
    obtain ⟨u, hu, hr⟩ := Option.bind_eq_some_iff.mp he
    have hrest : M.Admits ok u as := by simpa only [hu, Option.elim_some] using ha.2
    simpa only [List.append_assoc, List.singleton_append] using ih (h.snoc ha.1 hu) hrest hr

theorem Reach.exec_isSome {tr as : List α} {s : σ} (h : M.Reach ok tr s) (ha : M.Admits ok s as)
    (he : (M.exec s as).isSome) : M.Reach ok (tr ++ as) ((M.exec s as).getD s) := by
  obtain ⟨t, ht⟩ := Option.isSome_iff_exists.mp he
  rw [ht, Option.getD_some]
  exact h.exec ha ht

end System

end GoAfp
