import GoAfp.Proc
import Mathlib.Data.List.Infix

/-! Computations that index and slice lists and end at an access outside of
them, told apart from the errors that are returned. The rules show part by part
that no computation comes to such an end. -/

namespace GoAfp

inductive Fault (ε : Type)
  | panic (text : String)
  | error (e : ε)
  deriving DecidableEq, Repr

namespace Fault

variable {α β ε σ : Type}

def index (b : List α) (i : Nat) : Except (Fault ε) α :=
  match b[i]? with
  | some a => .ok a
  | none => .error (.panic "index out of range")

def slice (b : List α) (lo hi : Nat) : Except (Fault ε) (List α) :=
  if lo ≤ hi ∧ hi ≤ b.length then .ok ((b.drop lo).take (hi - lo))
  else .error (.panic "slice bounds out of range")

def map {ε' : Type} (f : ε → ε') : Fault ε → Fault ε'
  | .panic text => .panic text
  | .error e => .error (f e)

theorem index_eq {b : List α} {i : Nat} (h : i < b.length) :
    (index b i : Except (Fault ε) α) = .ok b[i] := by
  rw [index, List.getElem?_eq_getElem h]

theorem slice_eq {b : List α} {lo hi : Nat} (h : lo ≤ hi) (h' : hi ≤ b.length) :
    (slice b lo hi : Except (Fault ε) (List α)) = .ok ((b.drop lo).take (hi - lo)) :=
  if_pos ⟨h, h'⟩

theorem index_append (pre : List α) (a : α) (post : List α) :
    (index (pre ++ a :: post) pre.length : Except (Fault ε) α) = .ok a := by
  rw [index, List.getElem?_append_right le_rfl, Nat.sub_self]
  rfl

theorem slice_append (pre mid post : List α) {lo hi : Nat} (hlo : pre.length = lo)
    (hhi : lo + mid.length = hi) :
    (slice (pre ++ (mid ++ post)) lo hi : Except (Fault ε) (List α)) = .ok mid := by
  subst hlo hhi
  have hlen : pre.length + mid.length ≤ (pre ++ (mid ++ post)).length := by
    simp only [List.length_append]
    omega
  rw [slice_eq (Nat.le_add_right _ _) hlen, List.drop_left, Nat.add_sub_cancel_left, List.take_left]

/-- Not a panic, and `Q` of the value if there is one. -/
def Sound (Q : α → Prop) : Except (Fault ε) α → Prop
  | .ok a => Q a
  | .error (.error _) => True
  | .error (.panic _) => False

variable {P Q : α → Prop} {R : β → Prop}

theorem Sound.weaken {r : Except (Fault ε) α} (h : Sound P r) (hPQ : ∀ a, P a → Q a) :
    Sound Q r := by
  rcases r with (_ | e) | a
  · exact h
  · exact h
  · exact hPQ a h

theorem Sound.bind {r : Except (Fault ε) α} {f : α → Except (Fault ε) β} (h : Sound Q r)
    (hf : ∀ a, Q a → Sound R (f a)) : Sound R (r >>= f) := by
  rcases r with (_ | e) | a
  · exact h
  · exact h
  · exact hf a h

theorem Sound.ite {c : Prop} [Decidable c] {r r' : Except (Fault ε) α} (h : c → Sound Q r)
    (h' : ¬ c → Sound Q r') :
    Sound Q (if c then r else r') := by
  split_ifs with hc
  · exact h hc
  · exact h' hc

theorem sound_mapError {r : Except ε α} (h : ∀ a, r = .ok a → Q a) :
    Sound Q (r.mapError Fault.error) := by
  cases r with
  | error e => trivial
  | ok a => exact h a rfl

theorem Sound.map {ε' : Type} {r : Except (Fault ε) α} (h : Sound Q r) (f : ε → ε') :
    Sound Q (r.mapError (Fault.map f)) := by
  rcases r with (_ | e) | a
  · exact h
  · exact h
  · exact h

theorem sound_index {b : List α} {i : Nat} (h : i < b.length) :
    Sound (fun _ => True) (index b i : Except (Fault ε) α) := by
  rw [index_eq h]
  trivial

theorem infix_slice (b : List α) (lo n : Nat) : (b.drop lo).take n <:+: b :=
  (List.take_prefix n _).isInfix.trans (List.drop_suffix lo b).isInfix

theorem sound_slice {b : List α} {lo hi : Nat} (h : lo ≤ hi) (h' : hi ≤ b.length) :
    Sound (fun s => s.length = hi - lo ∧ s <:+: b) (slice b lo hi : Except (Fault ε) (List α)) := by
  rw [slice_eq h h']
  refine ⟨?_, infix_slice b lo (hi - lo)⟩
  rw [List.length_take, List.length_drop]
  omega

/-- From a state with `I`: no panic, `Q` of the value, and again a state with `I`. -/
def Safe (I : σ → Prop) (x : Proc σ (Fault ε) α) (Q : α → Prop) : Prop :=
  ∀ s, I s → Sound Q (x.on s).1 ∧ I (x.on s).2

variable {I : σ → Prop}

theorem Safe.bind {x : Proc σ (Fault ε) α} {f : α → Proc σ (Fault ε) β} (hx : Safe I x Q)
    (hf : ∀ a, Q a → Safe I (f a) R) : Safe I (x >>= f) R := by
  intro s hs
  obtain ⟨hsound, hkept⟩ := hx s hs
  rw [Proc.on_bind]
  rcases hr : x.on s with ⟨(_ | e) | a, s'⟩ <;> rw [hr] at hsound hkept
  · exact ⟨hsound, hkept⟩
  · exact ⟨trivial, hkept⟩
  · exact hf a hsound s' hkept

theorem Safe.ite {c : Prop} [Decidable c] {x y : Proc σ (Fault ε) α} (hx : c → Safe I x Q)
    (hy : ¬ c → Safe I y Q) :
    Safe I (if c then x else y) Q := by
  split_ifs with hc
  · exact hx hc
  · exact hy hc

theorem safe_pure {a : α} (h : Q a) : Safe I (pure a : Proc σ (Fault ε) α) Q :=
  fun _ hs => ⟨h, hs⟩

theorem safe_throw (e : ε) : Safe I (throw (.error e) : Proc σ (Fault ε) α) Q :=
  fun _ hs => ⟨trivial, hs⟩

theorem safe_get : Safe I (get : Proc σ (Fault ε) σ) I :=
  fun _ hs => ⟨hs, hs⟩

theorem safe_set {s : σ} (h : I s) : Safe I (set s : Proc σ (Fault ε) PUnit) fun _ => True :=
  fun _ _ => ⟨trivial, h⟩

theorem safe_lift {r : Except (Fault ε) α} (h : Sound Q r) :
    Safe I (liftM r : Proc σ (Fault ε) α) Q :=
  fun _ hs => ⟨h, hs⟩

theorem safe_liftState {x : StateM σ α} (h : ∀ s, I s → Q (x.run s).1 ∧ I (x.run s).2) :
    Safe I (liftM x : Proc σ (Fault ε) α) Q :=
  h

end Fault

end GoAfp
