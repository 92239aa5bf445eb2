import GoAfp.Result

/-! `connManager.do` as one caller sees it when its reconnect succeeds: the
operation is run, and run once more if it failed and the link is found dead.
A request on a link that dies may have been applied or not, and is not
answered. -/

namespace GoAfp

inductive Fate
  | answered
  | applied
  | lost
  deriving DecidableEq, Repr

def Fate.answer {α : Type} (r : Except AfpErr α) : Fate → Except AfpErr α
  | .answered => r
  | _ => .error (.transport .closed)

theorem Fate.answered_of_ok {α : Type} {r : Except AfpErr α} {x : α} {fate : Fate}
    (h : fate.answer r = .ok x) :
    fate = .answered ∧ r = .ok x := by
  cases fate with
  | answered => exact ⟨rfl, h⟩
  | applied => cases h
  | lost => cases h

/-- An error is `some`; `alive` is what `IsAlive` says after the first run. -/
def doRetry {σ ε : Type} (first second : σ → Option ε × σ) (alive : Bool) (s : σ) : Option ε × σ :=
  match first s with
  | (none, s) => (none, s)
  | (some e, s) => if alive then (some e, s) else second s

theorem doRetry_eq {σ ε : Type} (first second : σ → Option ε × σ) (alive : Bool) (s : σ) :
    doRetry first second alive s = first s ∨ doRetry first second alive s = second (first s).2 := by
  rcases h : first s with ⟨err, s'⟩
  cases err with
  | none => exact Or.inl (by rw [doRetry, h])
  | some e =>
    cases alive with
    | true => exact Or.inl (by rw [doRetry, h]; rfl)
    | false => exact Or.inr (by rw [doRetry, h]; rfl)

end GoAfp
