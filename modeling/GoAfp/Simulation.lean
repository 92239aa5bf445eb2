import GoAfp.System

/-! Refinement of one transition system by another. A step of the concrete
system is matched by any number of steps of the abstract one, which the
concrete state and label determine. -/

namespace GoAfp

namespace System

variable {σ τ α β : Type*}

/-- `M` refines `N`: `abs` is the abstract state and `labels` the abstract
steps, as long as the states of `M` meet the invariant. -/
structure Refines (M : System σ α) (N : System τ β) (I : σ → Prop) (abs : σ → τ)
    (labels : σ → α → List β) : Prop where
  init : I M.init ∧ abs M.init = N.init
  step : ∀ {s t a}, I s → M.step s a = some t → I t ∧ N.exec (abs s) (labels s a) = some (abs t)

variable {M : System σ α} {N : System τ β} {I : σ → Prop} {abs : σ → τ} {labels : σ → α → List β}

/-- The guard of the abstract runs, as one on the concrete steps. -/
def lifted (N : System τ β) (abs : σ → τ) (labels : σ → α → List β) (ok : τ → β → Prop) (s : σ)
    (a : α) : Prop :=
  N.Admits ok (abs s) (labels s a)

theorem Refines.reach (h : Refines M N I abs labels) {ok : τ → β → Prop} {tr : List α} {s : σ}
    (hr : M.Reach (N.lifted abs labels ok) tr s) : I s ∧ ∃ tr', N.Reach ok tr' (abs s) := by
  induction hr with
  | nil =>
    refine ⟨h.init.1, [], ?_⟩
    rw [h.init.2]
    exact .nil
  | @snoc tr s t a _ hok hs ih =>
    obtain ⟨hI, tr', htr⟩ := ih
    obtain ⟨hI', hexec⟩ := h.step hI hs
    exact ⟨hI', tr' ++ labels s a, htr.exec hok hexec⟩

theorem admits_free (s : τ) (bs : List β) : N.Admits free s bs :=
  admits_of_forall fun _ _ _ => trivial

theorem Refines.reach_free (h : Refines M N I abs labels) {ok : σ → α → Prop} {tr : List α} {s : σ}
    (hr : M.Reach ok tr s) : I s ∧ ∃ tr', N.Reach free tr' (abs s) := by
  have hlift : M.Reach (N.lifted abs labels free) tr s := hr.mono fun _ => admits_free _ _
  exact h.reach hlift

end System

end GoAfp
