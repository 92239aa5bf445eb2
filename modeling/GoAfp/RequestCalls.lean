import GoAfp.DoRuns
import GoAfp.Interaction

/-! Calls of `do` whose closures send their requests one by one, so that the
requests of all calls, the steps of the manager and those of others come in any
order. What belongs to a file is guarded by its mutex while a call is under
way. -/

namespace GoAfp

/-- The calls: whose mutex each one holds, what it does before `do` (nothing
more if it returns without it), its closure on the volume of a dial, and what
it does when `do` has returned. -/
structure Workload (ι ω L ε κ : Type) where
  owner : Nat → κ
  enter : Nat → L → Option L
  body : Nat → Nat → Job ι ω L ε Unit
  leave : Nat → L → L

/-- What a request of an owner on the connection of a dial does to the world,
by its fate, and what others do to it. -/
structure Backend (ι ω κ σ φ τ : Type) where
  serve : φ → κ → Nat → ι → σ → ω × σ
  env : τ → σ → σ

/-- `running` holds the dial that a closure was given and what is left of it,
`busy` the call that holds a mutex, and `log` the answers so far. -/
structure Mount (ι ω L ε κ σ : Type) where
  mgr : Manager := {}
  world : σ
  locals : κ → L
  running : Nat → Option (Nat × Prog ι ω (Except ε Unit × L)) := fun _ => none
  busy : κ → Option Nat := fun _ => none
  log : List (Nat × ι × ω) := []

inductive MountLabel (φ τ : Type)
  | mgr (a : ManagerLabel)
  | ask (g : Nat) (w : φ)
  | finish (g : Nat)
  | unlock (g : Nat)
  | env (t : τ)

section Step

variable {ι ω L ε κ σ φ τ : Type} [DecidableEq κ] (W : Workload ι ω L ε κ) (B : Backend ι ω κ σ φ τ)

/-- `do` gives the closure of the call its volume. A nil volume panics, and
the closure does not run. -/
def Mount.start (s : Mount ι ω L ε κ σ) (g : Nat) : Mount ι ω L ε κ σ :=
  { s with
    running := Function.update s.running g
      ((s.mgr.given g).map fun d => (d, (W.body g d).on (s.locals (W.owner g)))) }

def Mount.sample (s : Mount ι ω L ε κ σ) (g : Nat) : Option (Mount ι ω L ε κ σ) :=
  match s.busy (W.owner g), W.enter g (s.locals (W.owner g)), s.mgr.step (.sample g) with
  | none, some l, some m =>
    let t : Mount ι ω L ε κ σ :=
      { s with
        mgr := m
        busy := Function.update s.busy (W.owner g) (some g)
        locals := Function.update s.locals (W.owner g) l }
    some (if s.mgr.vol.isSome then t.start W g else t)
  | _, _, _ => none

def Mount.step (s : Mount ι ω L ε κ σ) : MountLabel φ τ → Option (Mount ι ω L ε κ σ)
  | .mgr (.fnReturn _ _) => none
  | .mgr (.sample g) => s.sample W g
  | .mgr (.reread g) => (s.mgr.step (.reread g)).map fun m => Mount.start W { s with mgr := m } g
  | .mgr a => (s.mgr.step a).map fun m => { s with mgr := m }
  | .ask g w =>
    match s.running g with
    | some (d, .ask i k) =>
      let (r, world) := B.serve w (W.owner g) d i s.world
      some
        { s with
          world := world
          running := Function.update s.running g (some (d, k r))
          log := s.log ++ [(g, i, r)] }
    | _ => none
  | .finish g =>
    match s.running g with
    | some (_, .ret (r, l)) =>
      (s.mgr.step (.fnReturn g r.isOk)).map fun m =>
        { s with
          mgr := m
          running := Function.update s.running g none
          locals := Function.update s.locals (W.owner g) l }
    | _ => none
  | .unlock g =>
    match s.mgr.calls g with
    | .returned _ =>
      if s.busy (W.owner g) = some g then
        some
          { s with
            busy := Function.update s.busy (W.owner g) none
            locals := Function.update s.locals (W.owner g) (W.leave g (s.locals (W.owner g))) }
      else none
    | _ => none
  | .env t => some { s with world := B.env t s.world }

def mountSystem (world : σ) (locals : κ → L) : System (Mount ι ω L ε κ σ) (MountLabel φ τ) :=
  ⟨{ world := world, locals := locals }, Mount.step W B⟩

end Step

section Fires

variable {ι ω L ε κ σ φ τ : Type} [DecidableEq κ] {W : Workload ι ω L ε κ} {B : Backend ι ω κ σ φ τ}

/-- The steps, each with what enables it. A step of the manager that starts no
closure is `quiet`. -/
inductive Mount.Fires (W : Workload ι ω L ε κ) (B : Backend ι ω κ σ φ τ) (s : Mount ι ω L ε κ σ) :
    MountLabel φ τ → Mount ι ω L ε κ σ → Prop
  | quiet {a m} (hnot : ∀ g, a ≠ .sample g ∧ a ≠ .reread g ∧ ∀ b, a ≠ .fnReturn g b)
    (hm : s.mgr.step a = some m) :
    Fires W B s (.mgr a) { s with mgr := m }
  | sampleNil {g m l} (hb : s.busy (W.owner g) = none)
    (hl : W.enter g (s.locals (W.owner g)) = some l)
      (hm : s.mgr.step (.sample g) = some m) :
    Fires W B s (.mgr (.sample g))
      { s with
        mgr := m
        busy := Function.update s.busy (W.owner g) (some g)
        locals := Function.update s.locals (W.owner g) l }
  | sample {g m l} (hb : s.busy (W.owner g) = none) (hl : W.enter g (s.locals (W.owner g)) = some l)
      (hv : s.mgr.vol.isSome) (hm : s.mgr.step (.sample g) = some m) :
    Fires W B s (.mgr (.sample g))
      (Mount.start W
        { s with
          mgr := m
          busy := Function.update s.busy (W.owner g) (some g)
          locals := Function.update s.locals (W.owner g) l } g)
  | reread {g m} (hm : s.mgr.step (.reread g) = some m) :
    Fires W B s (.mgr (.reread g)) (Mount.start W { s with mgr := m } g)
  | ask {g w d i k} (hrun : s.running g = some (d, .ask i k)) :
    Fires W B s (.ask g w)
      { s with
        world := (B.serve w (W.owner g) d i s.world).2
        running := Function.update s.running g (some (d, k (B.serve w (W.owner g) d i s.world).1))
        log := s.log ++ [(g, i, (B.serve w (W.owner g) d i s.world).1)] }
  | finish {g d r l m} (hrun : s.running g = some (d, .ret (r, l)))
    (hm : s.mgr.step (.fnReturn g r.isOk) = some m) :
    Fires W B s (.finish g)
      { s with
        mgr := m
        running := Function.update s.running g none
        locals := Function.update s.locals (W.owner g) l }
  | unlock {g r} (hret : s.mgr.calls g = .returned r) (hb : s.busy (W.owner g) = some g) :
    Fires W B s (.unlock g)
      { s with
        busy := Function.update s.busy (W.owner g) none
        locals := Function.update s.locals (W.owner g) (W.leave g (s.locals (W.owner g))) }
  | env (t : τ) : Fires W B s (.env t) { s with world := B.env t s.world }

theorem Mount.fires_of_step {s t : Mount ι ω L ε κ σ} {a : MountLabel φ τ}
    (h : s.step W B a = some t) :
    s.Fires W B a t := by
  cases a with
  | mgr a =>
    by_cases hsample : ∃ g, a = .sample g
    · obtain ⟨g, rfl⟩ := hsample
      simp only [Mount.step, Mount.sample] at h
      split at h
      · rename_i l m hb hl hm
        split_ifs at h with hv
        · cases h
          exact .sample hb hl hv hm
        · cases h
          exact .sampleNil hb hl hm
      · cases h
    by_cases hreread : ∃ g, a = .reread g
    · obtain ⟨g, rfl⟩ := hreread
      obtain ⟨m, hm, rfl⟩ := Option.map_eq_some_iff.mp h
      exact .reread hm
    by_cases hfn : ∃ g b, a = .fnReturn g b
    · obtain ⟨g, b, rfl⟩ := hfn
      cases h
    have hmap : (s.mgr.step a).map (fun m => { s with mgr := m }) = some t := by
      cases a with
      | sample g => exact absurd ⟨g, rfl⟩ hsample
      | reread g => exact absurd ⟨g, rfl⟩ hreread
      | fnReturn g b => exact absurd ⟨g, b, rfl⟩ hfn
      | _ => exact h
    obtain ⟨m, hm, rfl⟩ := Option.map_eq_some_iff.mp hmap
    exact .quiet
      (fun g => ⟨fun he => hsample ⟨g, he⟩, fun he => hreread ⟨g, he⟩, fun b he => hfn ⟨g, b, he⟩⟩)
      hm
  | ask g w =>
    simp only [Mount.step] at h
    split at h
    · rename_i hrun
      cases h
      exact .ask hrun
    · cases h
  | finish g =>
    simp only [Mount.step] at h
    split at h
    · rename_i hrun
      obtain ⟨m, hm, rfl⟩ := Option.map_eq_some_iff.mp h
      exact .finish hrun hm
    · cases h
  | unlock g =>
    simp only [Mount.step] at h
    split at h
    · rename_i hret
      split_ifs at h with hb
      cases h
      exact .unlock hret hb
    · cases h
  | env t =>
    cases h
    exact .env t

omit [DecidableEq κ] in
/-- What is left of a closure after the volume is given to it. -/
theorem Mount.start_running {s : Mount ι ω L ε κ σ} {g k d : Nat} {p : Prog ι ω (Except ε Unit × L)}
    (h : (s.start W g).running k = some (d, p)) :
    (k = g ∧ p = (W.body g d).on (s.locals (W.owner g))) ∨ (k ≠ g ∧ s.running k = some (d, p)) := by
  by_cases hk : k = g
  · subst hk
    simp only [Mount.start, Function.update_self] at h
    obtain ⟨e, -, he⟩ := Option.map_eq_some_iff.mp h
    cases he
    exact .inl ⟨rfl, rfl⟩
  · simp only [Mount.start, Function.update_of_ne hk] at h
    exact .inr ⟨hk, h⟩

end Fires

section Earned

variable {ι ω L ε κ σ φ τ : Type} [DecidableEq κ] {W : Workload ι ω L ε κ} {B : Backend ι ω κ σ φ τ}
  {good : ι → ω → Prop} {g : Nat} {world : σ} {locals : κ → L}

/-- The call got an answer that is good. -/
def Mount.Won (good : ι → ω → Prop) (g : Nat) (s : Mount ι ω L ε κ σ) : Prop :=
  ∃ i r, (g, i, r) ∈ s.log ∧ good i r

structure Mount.Earning (good : ι → ω → Prop) (g : Nat) (s : Mount ι ω L ε κ σ) : Prop where
  running : ∀ d p, s.running g = some (d, p) → p.Earns good (fun r => r.1.isOk = true) ∨
    s.Won good g
  returned : s.mgr.calls g = .returned .ok → s.Won good g

theorem Mount.Earning.step (hbody : ∀ d l, ((W.body g d).on l).Earns good fun r => r.1.isOk = true)
    {s t : Mount ι ω L ε κ σ} {a : MountLabel φ τ} (h : s.Earning good g)
    (hs : s.step W B a = some t) :
    t.Earning good g := by
  have hok {b : ManagerLabel} {m : Manager} (hm : s.mgr.step b = some m) (hb : b ≠ .fnReturn g true)
      (hr : m.calls g = .returned .ok) : s.Won good g := by
    rcases (hr ▸ Manager.moves hm g).succeeded with hbefore | hreturn
    · exact h.returned hbefore
    · exact absurd hreturn hb
  cases Mount.fires_of_step hs with
  | quiet hnot hm => exact ⟨h.running, hok hm ((hnot g).2.2 true)⟩
  | sampleNil hb hl hm => exact ⟨h.running, hok hm ManagerLabel.noConfusion⟩
  | sample hb hl hv hm =>
    refine ⟨fun d p hp => ?_, hok hm ManagerLabel.noConfusion⟩
    rcases Mount.start_running hp with ⟨rfl, rfl⟩ | ⟨-, hp⟩
    · exact .inl (hbody _ _)
    · exact h.running d p hp
  | reread hm =>
    refine ⟨fun d p hp => ?_, hok hm ManagerLabel.noConfusion⟩
    rcases Mount.start_running hp with ⟨rfl, rfl⟩ | ⟨-, hp⟩
    · exact .inl (hbody _ _)
    · exact h.running d p hp
  | @ask k w d i f hrun =>
    have hwon {l : List (Nat × ι × ω)} : s.Won good g → ∃ i r, (g, i, r) ∈ s.log ++ l ∧ good i r :=
      fun ⟨j, r, hmem, hgood⟩ => ⟨j, r, List.mem_append_left _ hmem, hgood⟩
    refine ⟨fun e p hp => ?_, fun hr => hwon (h.returned hr)⟩
    by_cases hk : g = k
    · subst hk
      simp only [Function.update_self] at hp
      cases hp
      rcases h.running d _ hrun with hearns | hw
      · rcases hearns (B.serve w (W.owner g) d i s.world).1 with hgood | hrest
        · exact .inr ⟨i, _, List.mem_append_right _ List.mem_cons_self, hgood⟩
        · exact .inl hrest
      · exact .inr (hwon hw)
    · simp only [Function.update_of_ne hk] at hp
      exact (h.running e p hp).imp id hwon
  | @finish k d r l m hrun hm =>
    refine ⟨fun e p hp => ?_, fun hr => ?_⟩
    · by_cases hk : g = k
      · subst hk
        simp only [Function.update_self] at hp
        cases hp
      · simp only [Function.update_of_ne hk] at hp
        exact h.running e p hp
    · by_cases hk : g = k
      · subst hk
        have hisOk : r.isOk = true := (Manager.moves hm g).of_fnReturn.2.mp hr
        rcases h.running d _ hrun with hearns | hw
        · exact absurd hisOk hearns
        · exact hw
      · exact hok hm (fun he => hk (ManagerLabel.fnReturn.inj he).1.symm) hr
  | unlock hret hb => exact ⟨h.running, h.returned⟩
  | env t => exact ⟨h.running, h.returned⟩

/-- A call whose closure succeeds only after a good answer has got one when it
returns without an error. -/
theorem Mount.won_of_returned {ok : Mount ι ω L ε κ σ → MountLabel φ τ → Prop}
    (hbody : ∀ d l, ((W.body g d).on l).Earns good fun r => r.1.isOk = true)
    {tr : List (MountLabel φ τ)} {s : Mount ι ω L ε κ σ}
    (h : (mountSystem W B world locals).Reach ok tr s) (hret : s.mgr.calls g = .returned .ok) :
    s.Won good g := by
  have hinit : (mountSystem W B world locals).init.Earning good g := by
    constructor
    · intro d p hp
      cases hp
    · intro hr
      cases hr
  have hinv : s.Earning good g := h.invariant hinit fun hi _ hs => hi.step hbody hs
  exact hinv.returned hret

end Earned

section Asked

variable {ι ω L ε κ σ φ τ : Type} [DecidableEq κ] {W : Workload ι ω L ε κ} {B : Backend ι ω κ σ φ τ}
  {P : Nat → Nat → ι → Prop}

/-- What is left of each closure asks only its own questions. -/
def Mount.Asking (P : Nat → Nat → ι → Prop) (s : Mount ι ω L ε κ σ) : Prop :=
  ∀ g d p, s.running g = some (d, p) → p.Asks (P g d)

theorem Mount.Asking.step (hbody : ∀ g d l, ((W.body g d).on l).Asks (P g d))
    {s t : Mount ι ω L ε κ σ} {a : MountLabel φ τ} (h : s.Asking P) (hs : s.step W B a = some t) :
    t.Asking P := by
  intro g d p hp
  have hstart {u : Mount ι ω L ε κ σ} {k : Nat} (hp : (u.start W k).running g = some (d, p))
      (hu : u.running = s.running) : p.Asks (P g d) := by
    rcases Mount.start_running hp with ⟨rfl, rfl⟩ | ⟨-, hp⟩
    · exact hbody g d _
    · exact h g d p (hu ▸ hp)
  cases Mount.fires_of_step hs with
  | sample hb hl hv hm => exact hstart hp rfl
  | reread hm => exact hstart hp rfl
  | @ask k w e i f hrun =>
    by_cases hg : g = k
    · subst hg
      simp only [Function.update_self] at hp
      cases hp
      exact (h g d _ hrun).2 _
    · simp only [Function.update_of_ne hg] at hp
      exact h g d p hp
  | @finish k e r l m hrun hm =>
    by_cases hg : g = k
    · subst hg
      simp at hp
    · simp only [Function.update_of_ne hg] at hp
      exact h g d p hp
  | _ => exact h g d p hp

end Asked

section Mutex

variable {ι ω L ε κ σ φ τ : Type} [DecidableEq κ] {W : Workload ι ω L ε κ} {B : Backend ι ω κ σ φ τ}

/-- The call is between its first step and its return. -/
def DoPhase.UnderWay : DoPhase → Prop
  | .idle => False
  | .returned _ => False
  | _ => True

/-- The closure of the call runs. -/
def DoPhase.Runs : DoPhase → Prop
  | .running _ _ => True
  | .rerunning => True
  | _ => False

theorem DoPhase.Runs.underWay {p : DoPhase} (h : p.Runs) : p.UnderWay := by
  cases p <;> trivial

theorem DoPhase.Moves.underWay {k : Nat} {p q : DoPhase} {a : ManagerLabel}
    (h : DoPhase.Moves k p a q) (hq : q.UnderWay) : p.UnderWay ∨ a = .sample k := by
  cases h with
  | stay => exact .inl hq
  | run => exact .inr rfl
  | noVolume => exact .inr rfl
  | done => exact hq.elim
  | doneAgain => exact hq.elim
  | failedAgain => exact hq.elim
  | alive => exact hq.elim
  | dialErr => exact hq.elim
  | _ => exact .inl trivial

theorem DoPhase.Moves.runs {k : Nat} {p q : DoPhase} {a : ManagerLabel} (h : DoPhase.Moves k p a q)
    (hp : p.Runs) :
    q = p ∨ ∃ b, a = .fnReturn k b := by
  cases h with
  | stay => exact .inl rfl
  | done => exact .inr ⟨true, rfl⟩
  | failed => exact .inr ⟨false, rfl⟩
  | doneAgain => exact .inr ⟨true, rfl⟩
  | failedAgain => exact .inr ⟨false, rfl⟩
  | _ => exact hp.elim

/-- Calls under way hold their mutex, and only running closures have anything
left to do. -/
structure Mount.Exclusive (W : Workload ι ω L ε κ) (s : Mount ι ω L ε κ σ) : Prop where
  busy : ∀ g, (s.mgr.calls g).UnderWay → s.busy (W.owner g) = some g
  runs : ∀ g, (s.running g).isSome → (s.mgr.calls g).Runs

omit [DecidableEq κ] in
theorem Mount.Exclusive.holds {s : Mount ι ω L ε κ σ} (h : s.Exclusive W) {g : Nat}
    (hg : (s.running g).isSome) :
    s.busy (W.owner g) = some g :=
  h.busy g (h.runs g hg).underWay

omit [DecidableEq κ] in
theorem Mount.Exclusive.owner_inj {s : Mount ι ω L ε κ σ} (h : s.Exclusive W) {g k : Nat}
    (hg : (s.running g).isSome) (hk : (s.running k).isSome) (he : W.owner g = W.owner k) :
    g = k := by
  have hb := h.holds hg
  rw [he, h.holds hk] at hb
  exact (Option.some.inj hb).symm

omit [DecidableEq κ] in
/-- A step of the manager that is no return of a closure leaves those that run. -/
theorem Mount.Exclusive.still {s : Mount ι ω L ε κ σ} (h : s.Exclusive W) {m : Manager}
    {b : ManagerLabel} (hm : s.mgr.step b = some m) {g : Nat} (hb : ∀ r, b ≠ .fnReturn g r)
    (hg : (s.running g).isSome) :
    (m.calls g).Runs := by
  rcases (Manager.moves hm g).runs (h.runs g hg) with he | ⟨r, hr⟩
  · rw [he]
    exact h.runs g hg
  · exact absurd hr (hb r)

/-- The mutex is free, so no call of its owner is under way. -/
theorem Mount.Exclusive.lock {s : Mount ι ω L ε κ σ} (h : s.Exclusive W) {k : Nat} {m : Manager}
    (hb : s.busy (W.owner k) = none) (hm : s.mgr.step (.sample k) = some m) (g : Nat)
    (hg : (m.calls g).UnderWay) :
    Function.update s.busy (W.owner k) (some k) (W.owner g) = some g := by
  rcases (Manager.moves hm g).underWay hg with hbefore | hsample
  · have hbusy := h.busy g hbefore
    have hne : W.owner g ≠ W.owner k := by
      intro he
      rw [he, hb] at hbusy
      cases hbusy
    rw [Function.update_of_ne hne]
    exact hbusy
  · cases hsample
    rw [Function.update_self]

theorem Mount.Exclusive.step {s t : Mount ι ω L ε κ σ} {a : MountLabel φ τ} (h : s.Exclusive W)
    (hs : s.step W B a = some t) : t.Exclusive W := by
  have hway {b : ManagerLabel} {m : Manager} (hm : s.mgr.step b = some m) (hb : ∀ g, b ≠ .sample g)
      (g : Nat) (hg : (m.calls g).UnderWay) : s.busy (W.owner g) = some g := by
    rcases (Manager.moves hm g).underWay hg with hbefore | hsample
    · exact h.busy g hbefore
    · exact absurd hsample (hb g)
  cases Mount.fires_of_step hs with
  | quiet hnot hm => exact ⟨hway hm fun g => (hnot g).1, fun g hg => h.still hm (hnot g).2.2 hg⟩
  | sampleNil hb hl hm =>
    exact ⟨h.lock hb hm, fun g hg => h.still hm (fun r => ManagerLabel.noConfusion) hg⟩
  | @sample k m l hb hl hv hm =>
    refine ⟨h.lock hb hm, fun g hg => ?_⟩
    obtain ⟨⟨d, p⟩, hp⟩ := Option.isSome_iff_exists.mp hg
    rcases Mount.start_running hp with ⟨rfl, -⟩ | ⟨-, hp⟩
    · cases Manager.step_effect hm with
      | sample _ v hc hvol =>
        simp [Mount.start, Manager.setCall, DoPhase.Runs]
      | sampleNil _ hc hvol =>
        rw [hvol] at hv
        cases hv
    · exact h.still hm (fun r => ManagerLabel.noConfusion) (Option.isSome_of_eq_some hp)
  | @reread k m hm =>
    refine ⟨hway hm fun g => ManagerLabel.noConfusion, fun g hg => ?_⟩
    obtain ⟨⟨d, p⟩, hp⟩ := Option.isSome_iff_exists.mp hg
    rcases Mount.start_running hp with ⟨rfl, -⟩ | ⟨-, hp⟩
    · cases Manager.step_effect hm with
      | reread _ hc =>
        simp [Mount.start, Manager.setCall, DoPhase.Runs]
    · exact h.still hm (fun r => ManagerLabel.noConfusion) (Option.isSome_of_eq_some hp)
  | @ask k w d i f hrun =>
    refine ⟨h.busy, fun g hg => h.runs g ?_⟩
    by_cases hk : g = k
    · rw [hk, hrun]
      rfl
    · simpa only [Function.update_of_ne hk] using hg
  | @finish k d r l m hrun hm =>
    refine ⟨hway hm fun g => ManagerLabel.noConfusion, fun g hg => ?_⟩
    have hk : g ≠ k := by
      rintro rfl
      simp at hg
    refine h.still hm (fun b he => hk (ManagerLabel.fnReturn.inj he).1.symm) ?_
    simpa only [Function.update_of_ne hk] using hg
  | @unlock k r hret hb =>
    refine ⟨fun g hg => ?_, h.runs⟩
    have hbusy := h.busy g hg
    have hne : W.owner g ≠ W.owner k := by
      intro he
      rw [he, hb] at hbusy
      cases hbusy
      have hg' : (s.mgr.calls k).UnderWay := hg
      rw [hret] at hg'
      exact hg'
    change Function.update s.busy (W.owner k) none (W.owner g) = some g
    rw [Function.update_of_ne hne]
    exact hbusy
  | env t => exact ⟨h.busy, h.runs⟩

end Mutex

section Owned

variable {ι ω L ε κ σ φ τ : Type} [DecidableEq κ] {W : Workload ι ω L ε κ} {B : Backend ι ω κ σ φ τ}
  {χ : Type}

/-- The world keeps track of who owns what. A request that uses only what its
owner has takes nothing from others and leaves the owner all that it does not
give up. -/
structure Backend.Tracks (B : Backend ι ω κ σ φ τ) (C : Nat → Caps ι ω χ) (owned : σ → χ → Option κ)
    (Good : σ → Prop) : Prop where
  serve : ∀ w o d i s, Good s → (∀ c ∈ (C d).uses i, owned s c = some o) →
    Good (B.serve w o d i s).2 ∧
      (∀ c ∈ (C d).gives i (B.serve w o d i s).1, owned (B.serve w o d i s).2 c = some o) ∧
      (∀ c o', o' ≠ o → owned s c = some o' → owned (B.serve w o d i s).2 c = some o') ∧
      ∀ c, c ∉ (C d).ends i → owned s c = some o → owned (B.serve w o d i s).2 c = some o
  env : ∀ t s, Good s → Good (B.env t s) ∧ ∀ c, owned (B.env t s) c = owned s c

/-- `held` is what the variables of an owner stand for, and `fit` says on which
dials a run may use them: on any when a call starts, and after a run on those
that are later. -/
structure Workload.Disciplined (W : Workload ι ω L ε κ) (C : Nat → Caps ι ω χ) (held : L → Set χ)
    (fit : Nat → L → Nat → Prop) :
    Prop where
  enter : ∀ g l l', W.enter g l = some l' → held l' ⊆ held l ∧ ∀ d, fit g l' d
  body : ∀ g d l, fit g l d →
    ((W.body g d).on l).Within (C d) (fun r S => held r.2 ⊆ S ∧ ∀ e, d < e → fit g r.2 e) (held l)
  leave : ∀ g l, held (W.leave g l) ⊆ held l

structure Mount.Owning (W : Workload ι ω L ε κ) (C : Nat → Caps ι ω χ) (owned : σ → χ → Option κ)
    (held : L → Set χ) (fit : Nat → L → Nat → Prop) (s : Mount ι ω L ε κ σ) : Prop where
  running : ∀ g d p, s.running g = some (d, p) → some d ∈ s.mgr.runs g ∧
    ∃ S, p.Within (C d) (fun r S => held r.2 ⊆ S ∧ ∀ e, d < e → fit g r.2 e) S ∧
      ∀ c ∈ S, owned s.world c = some (W.owner g)
  idle : ∀ o, (∀ g, (s.running g).isSome → W.owner g ≠ o) → ∀ c ∈ held (s.locals o),
    owned s.world c = some o
  fit : ∀ g, (s.mgr.calls g).UnderWay → ∀ d, s.mgr.After g d → fit g (s.locals (W.owner g)) d

variable {C : Nat → Caps ι ω χ} {owned : σ → χ → Option κ} {held : L → Set χ}
  {fit : Nat → L → Nat → Prop} {Good : σ → Prop}

/-- The variables of an owner change to some that stand for no more. -/
theorem Mount.Owning.update {s : Mount ι ω L ε κ σ} (h : s.Owning W C owned held fit)
    {k : Nat} {l : L} (hl : (∀ g, (s.running g).isSome → W.owner g ≠ W.owner k) →
      ∀ c ∈ held l, owned s.world c = some (W.owner k))
    (o : κ) (ho : ∀ g, (s.running g).isSome → W.owner g ≠ o) :
    ∀ c ∈ held (Function.update s.locals (W.owner k) l o), owned s.world c = some o := by
  by_cases he : o = W.owner k
  · subst he
    rw [Function.update_self]
    exact hl ho
  · rw [Function.update_of_ne he]
    exact h.idle o ho

/-- The variables of the owner of `k` change, while those of the owners of all
other calls under way stay. -/
theorem Mount.Owning.fit_update {s : Mount ι ω L ε κ σ} (h : s.Owning W C owned held fit) {k : Nat}
    {l : L} {m : Manager}
    (hother : ∀ g, g ≠ k → (m.calls g).UnderWay → (s.mgr.calls g).UnderWay ∧ W.owner g ≠ W.owner k)
    (hafter : ∀ g d, m.After g d → s.mgr.After g d)
    (hk : (m.calls k).UnderWay → ∀ d, m.After k d → fit k l d) (g : Nat) (hg : (m.calls g).UnderWay)
    (d : Nat) (hd : m.After g d) :
    fit g (Function.update s.locals (W.owner k) l (W.owner g)) d := by
  by_cases he : g = k
  · subst he
    rw [Function.update_self]
    exact hk hg d hd
  · obtain ⟨hbefore, hne⟩ := hother g he hg
    rw [Function.update_of_ne hne]
    exact h.fit g hbefore d (hafter g d hd)

omit [DecidableEq κ] in
/-- A step of the manager that is the start of no call. -/
theorem Mount.Owning.mgr {s : Mount ι ω L ε κ σ} (h : s.Owning W C owned held fit)
    {a : ManagerLabel} {m : Manager} (hm : s.mgr.step a = some m) (ha : ∀ g, a ≠ .sample g) :
    ({ s with mgr := m } : Mount ι ω L ε κ σ).Owning W C owned held fit where
  running := by
    intro g d p hp
    obtain ⟨hd, hrest⟩ := h.running g d p hp
    exact ⟨Manager.runs_mono hm hd, hrest⟩
  idle := h.idle
  fit := by
    intro g hg d hd
    rcases (Manager.moves hm g).underWay hg with hbefore | hsample
    · exact h.fit g hbefore d (hd.of_step hm)
    · exact absurd hsample (ha g)

/-- A call starts whose mutex is free. -/
theorem Mount.Owning.enter (hW : W.Disciplined C held fit) {s : Mount ι ω L ε κ σ}
    (hx : s.Exclusive W) (h : s.Owning W C owned held fit) {k : Nat} {l : L} {m : Manager}
    (hb : s.busy (W.owner k) = none) (hl : W.enter k (s.locals (W.owner k)) = some l)
    (hm : s.mgr.step (.sample k) = some m) :
    ({ s with
      mgr := m
      busy := Function.update s.busy (W.owner k) (some k)
      locals := Function.update s.locals (W.owner k) l } :
        Mount ι ω L ε κ σ).Owning W C owned held fit where
  running := by
    intro g d p hp
    obtain ⟨hd, hrest⟩ := h.running g d p hp
    exact ⟨Manager.runs_mono hm hd, hrest⟩
  idle := h.update fun ho c hc => h.idle _ ho c ((hW.enter _ _ _ hl).1 hc)
  fit := by
    apply h.fit_update
    · intro g he hg
      rcases (Manager.moves hm g).underWay hg with hbefore | hsample
      · refine ⟨hbefore, fun howner => ?_⟩
        have hbusy := hx.busy g hbefore
        rw [howner, hb] at hbusy
        cases hbusy
      · cases hsample
        exact absurd rfl he
    · exact fun g d hd => hd.of_step hm
    · exact fun _ d _ => (hW.enter _ _ _ hl).2 d

omit [DecidableEq κ] in
/-- The closure of `k` is given its volume while nothing of its owner runs. -/
theorem Mount.Owning.start (hW : W.Disciplined C held fit) {s : Mount ι ω L ε κ σ}
    (h : s.Owning W C owned held fit) {k : Nat}
    (hk : ∀ g, (s.running g).isSome → W.owner g ≠ W.owner k)
    (hgiven : ∀ d, s.mgr.given k = some d → some d ∈ s.mgr.runs k ∧
      fit k (s.locals (W.owner k)) d) :
    (s.start W k).Owning W C owned held fit where
  running := by
    intro g d p hp
    by_cases he : g = k
    · subst he
      simp only [Mount.start, Function.update_self] at hp
      obtain ⟨e, hgiven', hp⟩ := Option.map_eq_some_iff.mp hp
      cases hp
      obtain ⟨hruns, hfit⟩ := hgiven d hgiven'
      exact ⟨hruns, held (s.locals (W.owner g)), hW.body g d _ hfit, h.idle _ hk⟩
    · simp only [Mount.start, Function.update_of_ne he] at hp
      exact h.running g d p hp
  idle := by
    intro o ho
    apply h.idle o
    intro g hg
    by_cases he : g = k
    · exact absurd rfl (he ▸ hk g hg)
    · apply ho g
      simpa only [Mount.start, Function.update_of_ne he] using hg
  fit := h.fit

theorem Mount.Owning.step (hW : W.Disciplined C held fit) (hB : B.Tracks C owned Good)
    {s t : Mount ι ω L ε κ σ} {a : MountLabel φ τ} (hx : s.Exclusive W) (hord : s.mgr.Ordered)
    (hgood : Good s.world) (h : s.Owning W C owned held fit) (hs : s.step W B a = some t) :
    Good t.world ∧ t.Owning W C owned held fit := by
  cases Mount.fires_of_step hs with
  | quiet hnot hm => exact ⟨hgood, h.mgr hm fun g => (hnot g).1⟩
  | sampleNil hb hl hm => exact ⟨hgood, h.enter hW hx hb hl hm⟩
  | @sample k m l hb hl hv hm =>
    refine ⟨hgood, (h.enter hW hx hb hl hm).start hW ?_ ?_⟩
    · intro g hg he
      have hbusy := hx.holds hg
      rw [he, hb] at hbusy
      cases hbusy
    · intro d hd
      obtain ⟨v, hvol⟩ := Option.isSome_iff_exists.mp hv
      obtain ⟨hgiven, hruns⟩ := Manager.sample_given hm hvol
      cases hgiven.symm.trans hd
      refine ⟨hruns, ?_⟩
      simp only [Function.update_self]
      exact (hW.enter _ _ _ hl).2 d
  | @reread k m hm =>
    have hcalls : s.mgr.calls k = .rereading := by
      cases Manager.step_effect hm with
      | reread _ hc => exact hc
    have hway : (s.mgr.calls k).UnderWay := by
      rw [hcalls]
      trivial
    refine ⟨hgood, (h.mgr hm fun g => ManagerLabel.noConfusion).start hW ?_ ?_⟩
    · intro g hg he
      have hbusy := hx.busy k hway
      rw [← he, hx.holds hg] at hbusy
      have hruns := hx.runs g hg
      rw [Option.some.inj hbusy, hcalls] at hruns
      exact hruns
    · intro d hd
      obtain ⟨hgiven, hvol⟩ := hord.reread hm
      obtain ⟨hafter, hruns⟩ := hvol d (hgiven.symm.trans hd)
      exact ⟨hruns, h.fit k hway d hafter⟩
  | @ask k w d i f hrun =>
    obtain ⟨hd, S, ⟨huses, hrest⟩, hS⟩ := h.running k d _ hrun
    obtain ⟨hgood', hgives, hothers, hkeeps⟩ :=
      hB.serve w (W.owner k) d i s.world hgood fun c hc => hS c (huses hc)
    have hkrun : (s.running k).isSome := Option.isSome_of_eq_some hrun
    refine ⟨hgood', fun g e p hp => ?_, fun o ho c hc => ?_, h.fit⟩
    · by_cases hg : g = k
      · subst hg
        simp only [Function.update_self] at hp
        cases hp
        refine ⟨hd, _, hrest _, ?_⟩
        rintro c (⟨hc, hends⟩ | hc)
        · exact hkeeps c hends (hS c hc)
        · exact hgives c hc
      · simp only [Function.update_of_ne hg] at hp
        obtain ⟨he, T, hT, hTo⟩ := h.running g e p hp
        have hne : W.owner g ≠ W.owner k :=
          fun he => hg (hx.owner_inj (Option.isSome_of_eq_some hp) hkrun he)
        exact ⟨he, T, hT, fun c hc => hothers c _ hne (hTo c hc)⟩
    · have hne : o ≠ W.owner k := by
        rintro rfl
        exact ho k (by simp) rfl
      refine hothers c o hne (h.idle o (fun g hg => ?_) c hc)
      by_cases he : g = k
      · exact fun ho' => hne (by rw [← ho', he])
      · apply ho g
        simpa only [Function.update_of_ne he] using hg
  | @finish k d r l m hrun hm =>
    obtain ⟨hd, S, ⟨hsub, hlater⟩, hS⟩ := h.running k d _ hrun
    have hkrun : (s.running k).isSome := Option.isSome_of_eq_some hrun
    refine ⟨hgood, fun g e p hp => ?_, fun o ho => ?_, ?_⟩
    · by_cases hg : g = k
      · subst hg
        simp at hp
      · simp only [Function.update_of_ne hg] at hp
        obtain ⟨he, hrest⟩ := h.running g e p hp
        exact ⟨Manager.runs_mono hm he, hrest⟩
    · by_cases he : o = W.owner k
      · subst he
        simp only [Function.update_self]
        exact fun c hc => hS c (hsub hc)
      · simp only [Function.update_of_ne he]
        refine h.idle o fun g hg => ?_
        by_cases hgk : g = k
        · exact fun ho' => he (by rw [← ho', hgk])
        · apply ho g
          simpa only [Function.update_of_ne hgk] using hg
    · apply h.fit_update
      · intro g he hg
        rcases (Manager.moves hm g).underWay hg with hbefore | hsample
        · refine ⟨hbefore, fun howner => ?_⟩
          have hbusy := hx.busy g hbefore
          rw [howner, hx.holds hkrun] at hbusy
          exact he (Option.some.inj hbusy).symm
        · cases hsample
      · exact fun g e he => he.of_step hm
      · exact fun _ e he => hlater e (he d (Manager.runs_mono hm hd))
  | @unlock k r hret hb =>
    refine ⟨hgood, h.running, h.update fun ho c hc => h.idle _ ho c (hW.leave _ _ hc), ?_⟩
    apply h.fit_update
    · intro g he hg
      refine ⟨hg, fun howner => ?_⟩
      have hbusy := hx.busy g hg
      rw [howner, hb] at hbusy
      exact he (Option.some.inj hbusy).symm
    · exact fun g d hd => hd
    · intro hk
      have hk' : (s.mgr.calls k).UnderWay := hk
      rw [hret] at hk'
      exact hk'.elim
  | env t =>
    obtain ⟨hgood', hsame⟩ := hB.env t s.world hgood
    refine ⟨hgood', fun g d p hp => ?_, fun o ho c hc => ?_, h.fit⟩
    · obtain ⟨hd, S, hS, hSo⟩ := h.running g d p hp
      exact ⟨hd, S, hS, fun c hc => (hsame c).trans (hSo c hc)⟩
    · exact (hsame c).trans (h.idle o ho c hc)

/-- The steps of the manager within the whole. -/
theorem Mount.mgr_step {s t : Mount ι ω L ε κ σ} {a : MountLabel φ τ} (h : s.step W B a = some t) :
    t.mgr = s.mgr ∨ ∃ b, s.mgr.step b = some t.mgr := by
  cases Mount.fires_of_step h with
  | quiet _ hm => exact .inr ⟨_, hm⟩
  | sampleNil _ _ hm => exact .inr ⟨_, hm⟩
  | sample _ _ _ hm => exact .inr ⟨_, hm⟩
  | reread hm => exact .inr ⟨_, hm⟩
  | ask _ => exact .inl rfl
  | finish _ hm => exact .inr ⟨_, hm⟩
  | unlock _ _ => exact .inl rfl
  | env _ => exact .inl rfl

/-- In every order of steps, a request uses only what its owner has. -/
theorem Mount.uses_owned (hW : W.Disciplined C held fit) (hB : B.Tracks C owned Good) {world : σ}
    {locals : κ → L} (hgood : Good world)
    (hlocals : ∀ o, ∀ c ∈ held (locals o), owned world c = some o)
    {ok : Mount ι ω L ε κ σ → MountLabel φ τ → Prop} {tr : List (MountLabel φ τ)}
    {s : Mount ι ω L ε κ σ} (h : (mountSystem W B world locals).Reach ok tr s) : Good s.world ∧
      ∀ {g d i k}, s.running g = some (d, .ask i k) → ∀ c ∈ (C d).uses i,
        owned s.world c = some (W.owner g) := by
  have hinit : (mountSystem W B world locals).init.Owning W C owned held fit := by
    refine ⟨fun g d p hp => ?_, fun o _ => hlocals o, fun g hg => hg.elim⟩
    cases hp
  have hexcl : (mountSystem W B world locals).init.Exclusive W := by
    refine ⟨fun g hg => hg.elim, fun g hg => ?_⟩
    cases hg
  obtain ⟨-, -, hgood', howning⟩ := h.invariant
    (I := fun s => s.Exclusive W ∧ (s.mgr.Consistent ∧ s.mgr.Ordered) ∧ Good s.world ∧
      s.Owning W C owned held fit)
    ⟨hexcl, ⟨Manager.Consistent.init, Manager.Ordered.init⟩, hgood, hinit⟩
      fun ⟨hx, ⟨hc, ho⟩, hg, hown⟩ _ hs => by
      refine ⟨hx.step hs, ?_, hown.step hW hB hx ho hg hs⟩
      rcases Mount.mgr_step hs with heq | ⟨b, hb⟩
      · rw [heq]
        exact ⟨hc, ho⟩
      · exact ⟨hc.step hb, ho.step hc hb⟩
  refine ⟨hgood', fun hrun c hc => ?_⟩
  obtain ⟨-, S, ⟨huses, -⟩, hS⟩ := howning.running _ _ _ hrun
  exact hS c (huses hc)

end Owned

end GoAfp
