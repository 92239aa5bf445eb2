import Mathlib.Logic.Basic

/-! Computations over a state that may fail and keep the state they failed in,
with the rules to run them part by part and to carry an invariant through. -/

namespace GoAfp

abbrev Proc (σ ε : Type) := ExceptT ε (StateM σ)

namespace Proc

variable {σ ε α β : Type}

def on (x : Proc σ ε α) (s : σ) : Except ε α × σ :=
  x.run.run s

theorem on_bind (x : Proc σ ε α) (f : α → Proc σ ε β) (s : σ) :
    (x >>= f).on s = match x.on s with
      | (.ok a, s') => (f a).on s'
      | (.error e, s') => (.error e, s') := by
  simp only [on, ExceptT.run_bind, StateT.run_bind]
  rcases h : x.run.run s with ⟨_ | a, s'⟩ <;> rfl

theorem on_lift (e : Except ε α) (s : σ) : (liftM e : Proc σ ε α).on s = (e, s) := rfl

theorem on_liftState (x : StateM σ α) (s : σ) :
    (liftM x : Proc σ ε α).on s = (.ok (x.run s).1, (x.run s).2) := rfl

theorem on_get (s : σ) : (get : Proc σ ε σ).on s = (.ok s, s) := rfl

theorem on_bind_ok {x : Proc σ ε α} {f : α → Proc σ ε β} {s s' : σ} {a : α}
    (h : x.on s = (.ok a, s')) : (x >>= f).on s = (f a).on s' := by
  rw [on_bind, h]

theorem on_bind_error {x : Proc σ ε α} {f : α → Proc σ ε β} {s s' : σ} {e : ε}
    (h : x.on s = (.error e, s')) : (x >>= f).on s = (.error e, s') := by
  rw [on_bind, h]

theorem on_lift_bind {e : Except ε α} {a : α} (h : e = .ok a) (f : α → Proc σ ε β) (s : σ) :
    (liftM e >>= f : Proc σ ε β).on s = (f a).on s := by
  rw [h]
  rfl

theorem ok_of_on_bind {x : Proc σ ε α} {f : α → Proc σ ε β} {s s' : σ} {b : β}
    (h : (x >>= f).on s = (.ok b, s')) :
    ∃ a mid, x.on s = (.ok a, mid) ∧ (f a).on mid = (.ok b, s') := by
  rw [on_bind] at h
  split at h
  · rename_i a mid hx
    exact ⟨a, mid, hx, h⟩
  · cases h

def observe {ε' : Type} (x : Proc σ ε α) : Proc σ ε' (Except ε α) :=
  liftM x.run

theorem on_observe {ε' : Type} (x : Proc σ ε α) (s : σ) :
    (observe x : Proc σ ε' (Except ε α)).on s = (.ok (x.on s).1, (x.on s).2) := rfl

def adapt {ε' : Type} (f : ε → ε') (x : Proc σ ε α) : Proc σ ε' α :=
  ExceptT.adapt f x

theorem on_adapt {ε' : Type} (f : ε → ε') (x : Proc σ ε α) (s : σ) :
    (adapt f x).on s = ((x.on s).1.mapError f, (x.on s).2) := rfl

theorem ext {x y : Proc σ ε α} (h : ∀ s, x.on s = y.on s) : x = y :=
  funext h

section Adapt

variable {ε' : Type} (f : ε → ε')

theorem adapt_bind (x : Proc σ ε α) (g : α → Proc σ ε β) :
    adapt f (x >>= g) = adapt f x >>= fun a => adapt f (g a) := by
  refine ext fun s => ?_
  rw [on_adapt, on_bind, on_bind, on_adapt]
  rcases x.on s with ⟨_ | a, s'⟩ <;> rfl

theorem adapt_pure (a : α) : adapt f (Pure.pure a : Proc σ ε α) = Pure.pure a := rfl

theorem adapt_get : adapt f (get : Proc σ ε σ) = get := rfl

theorem adapt_lift (e : Except ε α) : adapt f (liftM e : Proc σ ε α) = liftM (e.mapError f) := rfl

theorem adapt_liftState (x : StateM σ α) : adapt f (liftM x : Proc σ ε α) = liftM x := rfl

theorem adapt_ite (c : Prop) [Decidable c] (x y : Proc σ ε α) :
    adapt f (if c then x else y) = if c then adapt f x else adapt f y :=
  apply_ite (adapt f) c x y

theorem adapt_throw (e : ε) : adapt f (throw e : Proc σ ε α) = throw (f e) := rfl

end Adapt

/-- Two computations that end in the states `u` and `w`, which differ. -/
structure Diverge (x y : Proc σ ε α) (s u w : σ) : Prop where
  left : (x.on s).2 = u
  right : (y.on s).2 = w
  ne : u ≠ w

section Diverge

variable {s u w : σ}

theorem Diverge.irrefl {x : Proc σ ε α} (h : Diverge x x s u w) : False :=
  h.ne (h.left.symm.trans h.right)

/-- What both do first has succeeded, and they diverge after it. -/
theorem Diverge.bind {x : Proc σ ε α} {f g : α → Proc σ ε β}
    (h : Diverge (x >>= f) (x >>= g) s u w) :
    ∃ a mid, x.on s = (.ok a, mid) ∧ Diverge (f a) (g a) mid u w := by
  obtain ⟨hleft, hright, hne⟩ := h
  rcases hx : x.on s with ⟨e | a, mid⟩
  · rw [on_bind_error hx] at hleft hright
    exact absurd (hleft.symm.trans hright) hne
  · rw [on_bind_ok hx] at hleft hright
    exact ⟨a, mid, rfl, hleft, hright, hne⟩

theorem Diverge.lift_bind {e : Except ε α} {f g : α → Proc σ ε β}
    (h : Diverge (liftM e >>= f) (liftM e >>= g) s u w) :
    ∃ a, e = .ok a ∧ Diverge (f a) (g a) s u w := by
  obtain ⟨a, mid, hx, hfg⟩ := h.bind
  obtain ⟨he, rfl⟩ := Prod.mk.inj hx
  exact ⟨a, he, hfg⟩

theorem Diverge.adapt {ε' : Type} {k : ε → ε'} {x y : Proc σ ε α}
    (h : Diverge (adapt k x) (adapt k y) s u w) :
    Diverge x y s u w :=
  ⟨h.left, h.right, h.ne⟩

end Diverge

def Keeps (P : σ → Prop) (x : Proc σ ε α) : Prop :=
  ∀ s, P s → P (x.on s).2

variable {P : σ → Prop}

theorem Keeps.pure (a : α) : Keeps P (Pure.pure a : Proc σ ε α) :=
  fun _ h => h

theorem Keeps.lift (e : Except ε α) : Keeps P (liftM e : Proc σ ε α) :=
  fun _ h => h

theorem Keeps.liftState {x : StateM σ α} (h : ∀ s, P s → P (x.run s).2) :
    Keeps P (liftM x : Proc σ ε α) :=
  h

theorem Keeps.modify {f : σ → σ} (h : ∀ s, P s → P (f s)) : Keeps P (modify f : Proc σ ε PUnit) :=
  h

theorem Keeps.get_bind {f : σ → Proc σ ε β} (hf : ∀ s, Keeps P (f s)) : Keeps P (get >>= f) :=
  fun s h => hf s s h

theorem Keeps.observe {ε' : Type} {x : Proc σ ε α} (h : Keeps P x) :
    Keeps P (Proc.observe x : Proc σ ε' (Except ε α)) :=
  h

theorem Keeps.bind {x : Proc σ ε α} {f : α → Proc σ ε β} (hx : Keeps P x)
    (hf : ∀ a, Keeps P (f a)) :
    Keeps P (x >>= f) := by
  intro s h
  have hs := hx s h
  rw [on_bind]
  rcases hr : x.on s with ⟨_ | a, s'⟩
  · rw [hr] at hs
    exact hs
  · rw [hr] at hs
    exact hf a s' hs

/-- From a state with `pre`, `x` ends as `post` says if `N` holds, and fails if
it does not. -/
def Meets (N : Prop) (pre : σ → Prop) (x : Proc σ ε α) (post : α → σ → Prop) : Prop :=
  ∀ s, pre s → (N ∧ ∃ a s', x.on s = (.ok a, s') ∧ post a s') ∨
    (¬ N ∧ ∃ e s', x.on s = (.error e, s'))

section Meets

variable {N N' : Prop} {pre : σ → Prop} {m : α → σ → Prop} {post : β → σ → Prop}

theorem Meets.weaken {x : Proc σ ε β} {P : σ → Prop} {Q : β → σ → Prop} (h : Meets N pre x post)
    (hP : ∀ s, P s → pre s) (hQ : ∀ b s, post b s → Q b s) : Meets N P x Q := by
  intro s hs
  rcases h s (hP s hs) with ⟨hN, b, s', hon, hpost⟩ | herr
  · exact Or.inl ⟨hN, b, s', hon, hQ b s' hpost⟩
  · exact Or.inr herr

theorem Meets.of_iff {x : Proc σ ε β} (h : Meets N pre x post) (hN : ∀ s, pre s → (N ↔ N')) :
    Meets N' pre x post := by
  intro s hs
  rw [← hN s hs]
  exact h s hs

theorem Meets.pure {b : β} (h : ∀ s, pre s → post b s) :
    Meets True pre (Pure.pure b : Proc σ ε β) post :=
  fun s hs => Or.inl ⟨trivial, b, s, rfl, h s hs⟩

theorem Meets.modify {f : σ → σ} {q : PUnit → σ → Prop} (h : ∀ s, pre s → q ⟨⟩ (f s)) :
    Meets True pre (modify f : Proc σ ε PUnit) q :=
  fun s hs => Or.inl ⟨trivial, ⟨⟩, f s, rfl, h s hs⟩

theorem Meets.get_bind {f : σ → Proc σ ε β}
    (hf : ∀ s₀, Meets N (fun s => s = s₀ ∧ pre s) (f s₀) post) :
    Meets N pre (get >>= f) post :=
  fun s hs => hf s s ⟨rfl, hs⟩

theorem Meets.lift {e : Except ε β} (h : ∀ s, pre s → ∃ b, e = .ok b ∧ post b s) :
    Meets True pre (liftM e : Proc σ ε β) post := by
  intro s hs
  obtain ⟨b, rfl, hb⟩ := h s hs
  exact Or.inl ⟨trivial, b, s, rfl, hb⟩

theorem Meets.bind {x : Proc σ ε α} {f : α → Proc σ ε β} (hx : Meets N pre x m)
    (hf : ∀ a, Meets N' (m a) (f a) post) : Meets (N ∧ N') pre (x >>= f) post := by
  intro s hs
  rcases hx s hs with ⟨hN, a, s', ha, hmid⟩ | ⟨hN, e, s', he⟩
  · rw [on_bind_ok ha]
    rcases hf a s' hmid with ⟨hN', h⟩ | ⟨hN', h⟩
    · exact Or.inl ⟨⟨hN, hN'⟩, h⟩
    · exact Or.inr ⟨fun hno => hN' hno.2, h⟩
  · rw [on_bind_error he]
    exact Or.inr ⟨fun hno => hN hno.1, e, s', rfl⟩

theorem Meets.observe_bind {ε' : Type} {x : Proc σ ε α} {f : Except ε α → Proc σ ε' β}
    (hx : Meets N pre x m) (hok : ∀ a, Meets N' (m a) (f (.ok a)) post)
    (herr : ∀ e s, ∃ e' s', (f (.error e)).on s = (.error e', s')) :
    Meets (N ∧ N') pre (observe x >>= f) post := by
  intro s hs
  rw [on_bind_ok (on_observe x s)]
  rcases hx s hs with ⟨hN, a, s', ha, hmid⟩ | ⟨hN, e, s', he⟩
  · rw [ha]
    rcases hok a s' hmid with ⟨hN', h⟩ | ⟨hN', h⟩
    · exact Or.inl ⟨⟨hN, hN'⟩, h⟩
    · exact Or.inr ⟨fun hno => hN' hno.2, h⟩
  · rw [he]
    exact Or.inr ⟨fun hno => hN hno.1, herr e s'⟩

end Meets

end Proc

end GoAfp
