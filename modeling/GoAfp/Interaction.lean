import GoAfp.Proc
import Mathlib.Data.Set.Basic

/-! Programs that ask and are answered. Between two questions of one program
others may ask theirs, so a program is kept as the questions it has yet to ask.
Answered by a state, it is a computation over that state. -/

namespace GoAfp

inductive Prog (ι ω α : Type)
  | ret (a : α)
  | ask (i : ι) (k : ω → Prog ι ω α)

namespace Prog

variable {ι ω α β σ : Type}

def bind (x : Prog ι ω α) (f : α → Prog ι ω β) : Prog ι ω β :=
  match x with
  | .ret a => f a
  | .ask i k => .ask i fun w => (k w).bind f

instance : Monad (Prog ι ω) where
  pure := .ret
  bind := Prog.bind

/-- The program with its questions answered one after the other. -/
def handle (h : ι → σ → ω × σ) : Prog ι ω α → σ → α × σ
  | .ret a, s => (a, s)
  | .ask i k, s => (k (h i s).1).handle h (h i s).2

theorem handle_bind (h : ι → σ → ω × σ) (x : Prog ι ω α) (f : α → Prog ι ω β) (s : σ) :
    (x.bind f).handle h s = (f (x.handle h s).1).handle h (x.handle h s).2 := by
  induction x generalizing s with
  | ret a => rfl
  | ask i k ih => exact ih (h i s).1 (h i s).2

/-- The program ends as `done` says only after an answer that is `good`. -/
def Earns (good : ι → ω → Prop) (done : α → Prop) : Prog ι ω α → Prop
  | .ret a => ¬ done a
  | .ask i k => ∀ w, good i w ∨ (k w).Earns good done

theorem Earns.bind {good : ι → ω → Prop} {done : α → Prop} {done' : β → Prop} {x : Prog ι ω α}
    {f : α → Prog ι ω β} (hx : x.Earns good done) (hf : ∀ a, ¬ done a → (f a).Earns good done') :
    (x.bind f).Earns good done' := by
  induction x with
  | ret a => exact hf a hx
  | ask i k ih =>
    intro w
    rcases hx w with hgood | hrest
    · exact .inl hgood
    · exact .inr (ih w hrest)

/-- Every question, whatever the answers before it, is one of these. -/
def Asks (P : ι → Prop) : Prog ι ω α → Prop
  | .ret _ => True
  | .ask i k => P i ∧ ∀ w, (k w).Asks P

theorem Asks.bind {P : ι → Prop} {x : Prog ι ω α} {f : α → Prog ι ω β} (hx : x.Asks P)
    (hf : ∀ a, (f a).Asks P) :
    (x.bind f).Asks P := by
  induction x with
  | ret a => exact hf a
  | ask i k ih => exact ⟨hx.1, fun w => ih w (hx.2 w)⟩

end Prog

/-- What is used, given and given up by a question and its answer. -/
structure Caps (ι ω κ : Type) where
  uses : ι → Set κ
  gives : ι → ω → Set κ
  ends : ι → Set κ

namespace Prog

variable {ι ω α β κ : Type} {C : Caps ι ω κ} {post : α → Set κ → Prop} {S : Set κ}

/-- The program uses nothing but what is in the set or was given to it since,
and not what it has given up. -/
def Within (C : Caps ι ω κ) (post : α → Set κ → Prop) : Set κ → Prog ι ω α → Prop
  | S, .ret a => post a S
  | S, .ask i k => C.uses i ⊆ S ∧ ∀ w, (k w).Within C post ((S \ C.ends i) ∪ C.gives i w)

theorem Within.bind {mid : β → Set κ → Prop} {x : Prog ι ω β} {f : β → Prog ι ω α}
    (hx : x.Within C mid S) (hf : ∀ b S', mid b S' → (f b).Within C post S') :
    (x.bind f).Within C post S := by
  induction x generalizing S with
  | ret b => exact hf b S hx
  | ask i k ih => exact ⟨hx.1, fun w => ih w (hx.2 w)⟩

theorem Within.weaken {post' : α → Set κ → Prop} {x : Prog ι ω α} (hx : x.Within C post S)
    (h : ∀ a S', post a S' → post' a S') : x.Within C post' S := by
  induction x generalizing S with
  | ret a => exact h a S hx
  | ask i k ih => exact ⟨hx.1, fun w => ih w (hx.2 w)⟩

end Prog

/-- A program with variables of its own that may fail. -/
abbrev Job (ι ω L ε : Type) := ExceptT ε (StateT L (Prog ι ω))

namespace Job

variable {ι ω L ε ε' α β σ : Type}

def on (x : Job ι ω L ε α) (l : L) : Prog ι ω (Except ε α × L) :=
  x.run.run l

def ask (i : ι) : Job ι ω L ε ω :=
  ExceptT.mk fun l => .ask i fun w => .ret (.ok w, l)

def observe (x : Job ι ω L ε α) : Job ι ω L ε' (Except ε α) :=
  ExceptT.mk fun l => (x.on l).bind fun r => .ret (.ok r.1, r.2)

def adapt (f : ε → ε') (x : Job ι ω L ε α) : Job ι ω L ε' α :=
  ExceptT.mk fun l => (x.on l).bind fun r => .ret (r.1.mapError f, r.2)

/-- A job on a part of the variables. -/
def zoom {M : Type} (part : L → M) (put : M → L → L) (x : Job ι ω M ε α) : Job ι ω L ε α :=
  ExceptT.mk fun l => (x.on (part l)).bind fun r => .ret (r.1, put r.2 l)

theorem on_zoom {M : Type} (part : L → M) (put : M → L → L) (x : Job ι ω M ε α) (l : L) :
    (zoom part put x).on l = (x.on (part l)).bind fun r => .ret (r.1, put r.2 l) := rfl

theorem on_observe (x : Job ι ω L ε α) (l : L) :
    (observe x : Job ι ω L ε' (Except ε α)).on l = (x.on l).bind fun r => .ret (.ok r.1, r.2) := rfl

theorem on_adapt (f : ε → ε') (x : Job ι ω L ε α) (l : L) :
    (adapt f x).on l = (x.on l).bind fun r => .ret (r.1.mapError f, r.2) := rfl

theorem on_pure (a : α) (l : L) : (pure a : Job ι ω L ε α).on l = .ret (.ok a, l) := rfl

theorem on_throw (e : ε) (l : L) : (throw e : Job ι ω L ε α).on l = .ret (.error e, l) := rfl

theorem on_lift (e : Except ε α) (l : L) : (liftM e : Job ι ω L ε α).on l = .ret (e, l) := rfl

theorem on_get (l : L) : (get : Job ι ω L ε L).on l = .ret (.ok l, l) := rfl

theorem on_modify (f : L → L) (l : L) :
    (modify f : Job ι ω L ε PUnit).on l = .ret (.ok ⟨⟩, f l) := rfl

theorem on_ask (i : ι) (l : L) :
    (ask i : Job ι ω L ε ω).on l = .ask i fun w => .ret (.ok w, l) := rfl

theorem on_bind (x : Job ι ω L ε α) (f : α → Job ι ω L ε β) (l : L) :
    (x >>= f).on l = (x.on l).bind fun r =>
      match r with
      | (.ok a, l') => (f a).on l'
      | (.error e, l') => .ret (.error e, l') := by
  change (x.on l).bind _ = _
  congr 1
  funext r
  rcases r with ⟨_ | a, l'⟩ <;> rfl

/-- The job as a computation over its variables and the state that answers. -/
def interp (h : ι → σ → ω × σ) (x : Job ι ω L ε α) : Proc (L × σ) ε α :=
  ExceptT.mk fun s =>
    let r := (x.on s.1).handle h s.2
    (r.1.1, r.1.2, r.2)

theorem interp_on (h : ι → σ → ω × σ) (x : Job ι ω L ε α) (s : L × σ) :
    (x.interp h).on s =
      (((x.on s.1).handle h s.2).1.1, ((x.on s.1).handle h s.2).1.2, ((x.on s.1).handle h s.2).2) :=
  rfl

theorem interp_bind (h : ι → σ → ω × σ) (x : Job ι ω L ε α) (f : α → Job ι ω L ε β) :
    (x >>= f).interp h = x.interp h >>= fun a => (f a).interp h := by
  refine Proc.ext fun s => ?_
  rw [interp_on, Proc.on_bind, interp_on, on_bind, Prog.handle_bind]
  rcases (x.on s.1).handle h s.2 with ⟨⟨_ | a, l'⟩, s'⟩ <;> rfl

section Interp

variable (h : ι → σ → ω × σ)

theorem interp_pure (a : α) : (pure a : Job ι ω L ε α).interp h = pure a := rfl

theorem interp_throw (e : ε) : (throw e : Job ι ω L ε α).interp h = throw e := rfl

theorem interp_lift (e : Except ε α) : (liftM e : Job ι ω L ε α).interp h = liftM e := rfl

theorem interp_observe (x : Job ι ω L ε α) :
    (observe x : Job ι ω L ε' (Except ε α)).interp h = Proc.observe (x.interp h) := by
  refine Proc.ext fun s => ?_
  rw [interp_on, on_observe, Prog.handle_bind]
  rfl

theorem interp_adapt (f : ε → ε') (x : Job ι ω L ε α) :
    (adapt f x).interp h = Proc.adapt f (x.interp h) := by
  refine Proc.ext fun s => ?_
  rw [interp_on, on_adapt, Prog.handle_bind]
  rfl

theorem interp_ite (c : Prop) [Decidable c] (x y : Job ι ω L ε α) :
    (if c then x else y).interp h = if c then x.interp h else y.interp h :=
  apply_ite (interp h) c x y

end Interp

/-- The job succeeds only after an answer that is good. -/
def Earns (good : ι → ω → Prop) (x : Job ι ω L ε α) : Prop :=
  ∀ l, (x.on l).Earns good fun r => r.1.isOk = true

theorem Earns.bind {good : ι → ω → Prop} {x : Job ι ω L ε α} (hx : x.Earns good)
    (f : α → Job ι ω L ε β) :
    (x >>= f).Earns good := by
  intro l
  rw [on_bind]
  refine (hx l).bind fun r hr => ?_
  rcases r with ⟨e | a, l'⟩
  · exact fun hok => Bool.noConfusion hok
  · exact absurd rfl hr

theorem Earns.adapt {good : ι → ω → Prop} {x : Job ι ω L ε α} (hx : x.Earns good) (f : ε → ε') :
    (Job.adapt f x).Earns good := by
  intro l
  rw [on_adapt]
  refine (hx l).bind fun r hr => ?_
  rcases r with ⟨e | a, l'⟩
  · exact fun hok => Bool.noConfusion hok
  · exact absurd rfl hr

theorem Earns.zoom {M : Type} {part : L → M} {put : M → L → L} {good : ι → ω → Prop}
    {x : Job ι ω M ε α} (hx : x.Earns good) : (Job.zoom part put x).Earns good := by
  intro l
  rw [on_zoom]
  exact (hx (part l)).bind fun r hr => hr

theorem Earns.observe_bind {good : ι → ω → Prop} {x : Job ι ω L ε α}
    {f : Except ε α → Job ι ω L ε' β} (hx : x.Earns good) (hf : ∀ e, (f (.error e)).Earns good) :
    (Job.observe x >>= f).Earns good := by
  intro l
  rw [on_bind, on_observe]
  have hobserved :
      ((x.on l).bind
        fun r => (.ret (.ok r.1, r.2) : Prog ι ω (Except ε' (Except ε α) × L))).Earns good
      fun r => ∀ e, r.1 ≠ .ok (.error e) := by
    refine (hx l).bind fun r hr => ?_
    rcases r with ⟨e | a, l'⟩
    · exact fun hne => hne e rfl
    · exact absurd rfl hr
  refine hobserved.bind fun r hr => ?_
  rcases r with ⟨e | e | a, l'⟩
  · exact fun hok => Bool.noConfusion hok
  · exact hf e l'
  · refine absurd (fun e he => ?_) hr
    cases he

theorem Earns.throw {good : ι → ω → Prop} (e : ε) : (throw e : Job ι ω L ε α).Earns good :=
  fun _ hok => Bool.noConfusion hok

section Asks

variable {P : ι → Prop}

/-- The job asks only these questions. -/
def Asks (P : ι → Prop) (x : Job ι ω L ε α) : Prop :=
  ∀ l, (x.on l).Asks P

theorem Asks.bind {x : Job ι ω L ε α} {f : α → Job ι ω L ε β} (hx : x.Asks P)
    (hf : ∀ a, (f a).Asks P) :
    (x >>= f).Asks P := by
  intro l
  rw [on_bind]
  refine (hx l).bind fun r => ?_
  rcases r with ⟨e | a, l'⟩
  · trivial
  · exact hf a l'

theorem Asks.observe {x : Job ι ω L ε α} (hx : x.Asks P) :
    (Job.observe x : Job ι ω L ε' (Except ε α)).Asks P := by
  intro l
  rw [on_observe]
  exact (hx l).bind fun _ => trivial

theorem Asks.adapt {x : Job ι ω L ε α} (hx : x.Asks P) (f : ε → ε') : (Job.adapt f x).Asks P := by
  intro l
  rw [on_adapt]
  refine (hx l).bind fun r => ?_
  rcases r with ⟨e | a, l'⟩ <;> trivial

theorem Asks.zoom {M : Type} {part : L → M} {put : M → L → L} {x : Job ι ω M ε α} (hx : x.Asks P) :
    (Job.zoom part put x).Asks P := by
  intro l
  rw [on_zoom]
  exact (hx (part l)).bind fun _ => trivial

end Asks

section Tame

variable {κ : Type} {C : Caps ι ω κ} {pre : L → Set κ → Prop} {post : α → L → Set κ → Prop}
  {err : L → Set κ → Prop}

/-- From variables and a set with `pre`, the job uses only what it has, and
ends with `post` or, if it fails, with `err`. -/
def Tame (C : Caps ι ω κ) (pre : L → Set κ → Prop) (x : Job ι ω L ε α) (post : α → L → Set κ → Prop)
    (err : L → Set κ → Prop) : Prop :=
  ∀ l S, pre l S → (x.on l).Within C
    (fun r S' => (∀ a, r.1 = .ok a → post a r.2 S') ∧ ∀ e, r.1 = .error e → err r.2 S') S

theorem Tame.pure {a : α} (h : ∀ l S, pre l S → post a l S) :
    Tame C pre (Pure.pure a : Job ι ω L ε α) post err := by
  intro l S hpre
  refine ⟨fun b hb => ?_, fun e he => ?_⟩
  · cases hb
    exact h l S hpre
  · cases he

theorem Tame.throw {e : ε} (h : ∀ l S, pre l S → err l S) :
    Tame C pre (throw e : Job ι ω L ε α) post err := by
  intro l S hpre
  refine ⟨fun b hb => ?_, fun e he => ?_⟩
  · cases hb
  · exact h l S hpre

theorem Tame.lift {x : Except ε α} (hok : ∀ a, x = .ok a → ∀ l S, pre l S → post a l S)
    (herr : ∀ e, x = .error e → ∀ l S, pre l S → err l S) :
    Tame C pre (liftM x : Job ι ω L ε α) post err :=
  fun l S hpre => ⟨fun a ha => hok a ha l S hpre, fun e he => herr e he l S hpre⟩

theorem Tame.bind {m : β → L → Set κ → Prop} {x : Job ι ω L ε β} {f : β → Job ι ω L ε α}
    (hx : Tame C pre x m err) (hf : ∀ b, Tame C (m b) (f b) post err) :
    Tame C pre (x >>= f) post err := by
  intro l S hpre
  rw [on_bind]
  refine (hx l S hpre).bind fun r S' hr => ?_
  rcases r with ⟨e | b, l'⟩
  · refine ⟨fun a ha => ?_, fun e' _ => hr.2 e rfl⟩
    cases ha
  · exact hf b l' S' (hr.1 b rfl)

theorem Tame.ask {i : ι} {q : ω → L → Set κ → Prop} (huses : ∀ l S, pre l S → C.uses i ⊆ S)
    (h : ∀ w l S, pre l S → q w l ((S \ C.ends i) ∪ C.gives i w)) :
    Tame C pre (ask i : Job ι ω L ε ω) q err := by
  intro l S hpre
  refine ⟨huses l S hpre, fun w => ⟨fun a ha => ?_, fun e he => ?_⟩⟩
  · cases ha
    exact h w l S hpre
  · cases he

theorem Tame.get {q : L → L → Set κ → Prop} (h : ∀ l S, pre l S → q l l S) :
    Tame C pre (MonadState.get : Job ι ω L ε L) q err := by
  intro l S hpre
  refine ⟨fun a ha => ?_, fun e he => ?_⟩
  · cases ha
    exact h l S hpre
  · cases he

theorem Tame.modify {f : L → L} {q : PUnit → L → Set κ → Prop} (h : ∀ l S, pre l S → q ⟨⟩ (f l) S) :
    Tame C pre (modify f : Job ι ω L ε PUnit) q err := by
  intro l S hpre
  refine ⟨fun a ha => ?_, fun e he => ?_⟩
  · cases ha
    exact h l S hpre
  · cases he

theorem Tame.observe {err' : L → Set κ → Prop} {x : Job ι ω L ε α}
    {q : Except ε α → L → Set κ → Prop}
    (hx : Tame C pre x (fun a => q (.ok a)) fun l S => ∀ e, q (.error e) l S) :
    Tame C pre (Job.observe x : Job ι ω L ε' (Except ε α)) q err' := by
  intro l S hpre
  rw [on_observe]
  refine (hx l S hpre).bind fun r S' hr => ⟨fun a ha => ?_, fun e he => ?_⟩
  · cases ha
    rcases r with ⟨e | a, l'⟩
    · exact hr.2 e rfl e
    · exact hr.1 a rfl
  · cases he

theorem Tame.adapt {f : ε → ε'} {x : Job ι ω L ε α} (hx : Tame C pre x post err) :
    Tame C pre (Job.adapt f x) post err := by
  intro l S hpre
  rw [on_adapt]
  refine (hx l S hpre).bind fun r S' hr => ?_
  rcases r with ⟨e | a, l'⟩
  · refine ⟨fun a ha => ?_, fun e' _ => hr.2 e rfl⟩
    cases ha
  · refine ⟨fun b hb => ?_, fun e' he => ?_⟩
    · cases hb
      exact hr.1 a rfl
    · cases he

/-- The rest of the variables stays as it was. -/
theorem Tame.zoom {M : Type} {part : L → M} {put : M → L → L} {x : Job ι ω M ε α}
    {p : L → M → Set κ → Prop} {q : L → α → M → Set κ → Prop} {e : L → M → Set κ → Prop}
    (hx : ∀ l, Tame C (p l) x (q l) (e l)) (hpre : ∀ l S, pre l S → p l (part l) S)
    (hpost : ∀ l a m S, q l a m S → post a (put m l) S)
    (herr : ∀ l m S, e l m S → err (put m l) S) : Tame C pre (Job.zoom part put x) post err := by
  intro l S h
  rw [on_zoom]
  refine (hx l (part l) S (hpre l S h)).bind fun r S' hr => ⟨fun a ha => ?_, fun e he => ?_⟩
  · exact hpost l a r.2 S' (hr.1 a ha)
  · exact herr l r.2 S' (hr.2 e he)

theorem Tame.weaken {pre' : L → Set κ → Prop} {post' : α → L → Set κ → Prop}
    {err' : L → Set κ → Prop} {x : Job ι ω L ε α} (hx : Tame C pre x post err)
    (hpre : ∀ l S, pre' l S → pre l S) (hpost : ∀ a l S, post a l S → post' a l S)
    (herr : ∀ l S, err l S → err' l S) : Tame C pre' x post' err' :=
  fun l S h => (hx l S (hpre l S h)).weaken fun r S' hr =>
    ⟨fun a ha => hpost a r.2 S' (hr.1 a ha), fun e he => herr r.2 S' (hr.2 e he)⟩

end Tame

end Job

end GoAfp
