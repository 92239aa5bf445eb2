import GoAfp.ConnManager

/-! Calls of `do` together with what their closures do. A closure runs in one
step, on the volume that `do` gave it, and its requests may end in any way. -/

namespace GoAfp

def ManagerLabel.caller : ManagerLabel → Option Nat
  | .sample g => some g
  | .fnReturn g _ => some g
  | .check g => some g
  | .reconnect g => some g
  | .dialReturn g _ => some g
  | .reread g => some g
  | .linkDies _ => none
  | .close => none

/-- The moves of the call `k`: where it was, the step, and where it is then. -/
inductive DoPhase.Moves (k : Nat) : DoPhase → ManagerLabel → DoPhase → Prop
  | stay (p : DoPhase) (a : ManagerLabel) (h : a.caller ≠ some k) : Moves k p a p
  | run (gen : Nat) (conn : Option Nat) : Moves k .idle (.sample k) (.running gen conn)
  | noVolume (gen : Nat) : Moves k .idle (.sample k) (.retrying gen)
  | done (gen : Nat) (conn : Option Nat) : Moves k (.running gen conn) (.fnReturn k true)
    (.returned .ok)
  | failed (gen : Nat) (conn : Option Nat) : Moves k (.running gen conn) (.fnReturn k false)
    (.checking gen conn)
  | doneAgain : Moves k .rerunning (.fnReturn k true) (.returned .ok)
  | failedAgain : Moves k .rerunning (.fnReturn k false) (.returned .fnErr)
  | alive (gen : Nat) (conn : Option Nat) : Moves k (.checking gen conn) (.check k)
    (.returned .fnErr)
  | notAlive (gen : Nat) (conn : Option Nat) : Moves k (.checking gen conn) (.check k)
    (.retrying gen)
  | superseded (gen : Nat) : Moves k (.retrying gen) (.reconnect k) .rereading
  | startDial (gen : Nat) : Moves k (.retrying gen) (.reconnect k) .dialing
  | dialOk : Moves k .dialing (.dialReturn k true) .rereading
  | dialErr : Moves k .dialing (.dialReturn k false) (.returned .dialErr)
  | reread : Moves k .rereading (.reread k) .rerunning

/-- No run of the closure has failed. -/
def DoPhase.Unfailed : DoPhase → Prop
  | .checking _ _ => False
  | .returned .fnErr => False
  | _ => True

namespace DoPhase.Moves

variable {k : Nat} {p q : DoPhase} {a : ManagerLabel} {r : DoResult}

theorem started (h : Moves k p a q) (hq : q ≠ .idle) : p ≠ .idle ∨ a = .sample k := by
  cases h with
  | stay => exact .inl hq
  | run => exact .inr rfl
  | noVolume => exact .inr rfl
  | _ => exact .inl nofun

theorem returned (h : Moves k (.returned r) a q) : q = .returned r := by
  cases h with
  | stay => rfl

theorem succeeded (h : Moves k p a (.returned .ok)) : p = .returned .ok ∨ a = .fnReturn k true := by
  cases h with
  | stay => exact .inl rfl
  | done => exact .inr rfl
  | doneAgain => exact .inr rfl

theorem dialFailed (h : Moves k p a (.returned .dialErr)) :
    p = .returned .dialErr ∨ a = .dialReturn k false := by
  cases h with
  | stay => exact .inl rfl
  | dialErr => exact .inr rfl

theorem unfailed (h : Moves k p a q) (hp : p.Unfailed) (ha : a ≠ .fnReturn k false) :
    q.Unfailed := by
  cases h with
  | stay => exact hp
  | failed => exact absurd rfl ha
  | failedAgain => exact absurd rfl ha
  | alive => exact hp.elim
  | _ => trivial

/-- A closure returns to a call that is under way. -/
theorem of_fnReturn {ok : Bool} (h : Moves k p (.fnReturn k ok) q) :
    (p ≠ .idle ∧ p ≠ .returned .ok) ∧ (q = .returned .ok ↔ ok = true) := by
  cases h with
  | stay _ _ h => exact absurd rfl h
  | done => exact ⟨⟨nofun, nofun⟩, iff_of_true rfl rfl⟩
  | doneAgain => exact ⟨⟨nofun, nofun⟩, iff_of_true rfl rfl⟩
  | failed => exact ⟨⟨nofun, nofun⟩, iff_of_false nofun nofun⟩
  | failedAgain => exact ⟨⟨nofun, nofun⟩, iff_of_false nofun nofun⟩

end DoPhase.Moves

theorem DoPhase.Moves.update {calls : Nat → DoPhase} {g : Nat} {p : DoPhase} {a : ManagerLabel}
    (ha : a.caller = some g) (h : Moves g (calls g) a p) (k : Nat) :
    Moves k (calls k) a (Function.update calls g p k) := by
  by_cases hk : k = g
  · subst hk
    rw [Function.update_self]
    exact h
  · rw [Function.update_of_ne hk]
    apply Moves.stay
    rw [ha]
    exact fun he => hk (Option.some.inj he).symm

theorem Manager.runs_of_fnReturn {m n : Manager} {g : Nat} {ok : Bool}
    (h : m.step (.fnReturn g ok) = some n) :
    (∃ gen conn, m.calls g = .running gen conn) ∨ m.calls g = .rerunning := by
  simp only [Manager.step] at h
  split at h
  · rename_i gen conn hc
    exact .inl ⟨gen, conn, hc⟩
  · rename_i hc
    exact .inr hc
  · cases h

theorem Manager.moves {m n : Manager} {a : ManagerLabel} (h : m.step a = some n) (k : Nat) :
    DoPhase.Moves k (m.calls k) a (n.calls k) := by
  cases Manager.step_effect h with
  | sample g v hc hv => exact DoPhase.Moves.update rfl (hc ▸ .run m.gen m.conn) k
  | sampleNil g hc hv => exact DoPhase.Moves.update rfl (hc ▸ .noVolume m.gen) k
  | fnOk g hc =>
    rcases Manager.runs_of_fnReturn h with ⟨gen, conn, hrun⟩ | hrun
    · exact DoPhase.Moves.update rfl (hrun ▸ .done gen conn) k
    · exact DoPhase.Moves.update rfl (hrun ▸ .doneAgain) k
  | fnErr g gen conn hc => exact DoPhase.Moves.update rfl (hc ▸ .failed gen conn) k
  | fnErrAgain g hc => exact DoPhase.Moves.update rfl (hc ▸ .failedAgain) k
  | alive g gen conn hc => exact DoPhase.Moves.update rfl (hc ▸ .alive gen conn) k
  | notAlive g gen conn hc ha => exact DoPhase.Moves.update rfl (hc ▸ .notAlive gen conn) k
  | superseded g gen hc => exact DoPhase.Moves.update rfl (hc ▸ .superseded gen) k
  | startDial g hc hh =>
    show DoPhase.Moves k (m.calls k) _ (Function.update m.closeConn.calls g .dialing k)
    rw [Manager.closeConn_calls]
    exact DoPhase.Moves.update rfl (hc ▸ .startDial m.gen) k
  | dialOk g hc => exact DoPhase.Moves.update rfl (hc ▸ .dialOk) k
  | dialErr g hc => exact DoPhase.Moves.update rfl (hc ▸ .dialErr) k
  | reread g hc => exact DoPhase.Moves.update rfl (hc ▸ .reread) k
  | linkDies d => exact .stay _ _ (Option.some_ne_none k).symm
  | close hh =>
    rw [Manager.closeConn_calls]
    exact .stay _ _ (Option.some_ne_none k).symm

/-- What the closure of each call does to the world on the volume of a dial,
by the outcomes of its requests, and what others do to it. -/
structure Closures (σ ω τ : Type) where
  fn : Nat → Nat → ω → σ → Bool × σ
  env : τ → σ → σ

structure DoState (σ : Type) where
  mgr : Manager
  world : σ

inductive DoLabel (ω τ : Type)
  | mgr (a : ManagerLabel)
  | run (g : Nat) (w : ω)
  | env (t : τ)

/-- The volume that the last run of the call was given. -/
def Manager.given (m : Manager) (g : Nat) : Option Nat :=
  (m.invoked.reverse.lookup g).join

section Calls

variable {σ ω τ : Type} (c : Closures σ ω τ)

def Closures.step (s : DoState σ) : DoLabel ω τ → Option (DoState σ)
  -- a closure returns by running
  | .mgr (.fnReturn _ _) => none
  | .mgr a => (s.mgr.step a).map fun m => ⟨m, s.world⟩
  | .run g w =>
    match s.mgr.given g with
    -- a nil volume panics
    | none => none
    | some d =>
      let (ok, world) := c.fn g d w s.world
      (s.mgr.step (.fnReturn g ok)).map fun m => ⟨m, world⟩
  | .env t => some ⟨s.mgr, c.env t s.world⟩

def Closures.system (init : σ) : System (DoState σ) (DoLabel ω τ) := ⟨⟨{}, init⟩, c.step⟩

/-- A step is one of the manager alone, the run of a closure, or one of others. -/
inductive Closures.Effect (s : DoState σ) : DoLabel ω τ → DoState σ → Prop
  | mgr {a : ManagerLabel} {m : Manager} (hnot : ∀ g ok, a ≠ .fnReturn g ok)
    (h : s.mgr.step a = some m) :
    Effect s (.mgr a) ⟨m, s.world⟩
  | run {g d : Nat} {w : ω} {ok : Bool} {world : σ} {m : Manager}
    (hfn : c.fn g d w s.world = (ok, world))
      (h : s.mgr.step (.fnReturn g ok) = some m) : Effect s (.run g w) ⟨m, world⟩
  | env (t : τ) : Effect s (.env t) ⟨s.mgr, c.env t s.world⟩

variable {c}

theorem Closures.step_effect {s t : DoState σ} {a : DoLabel ω τ} (h : c.step s a = some t) :
    c.Effect s a t := by
  cases a with
  | mgr a =>
    by_cases hfn : ∃ g ok, a = .fnReturn g ok
    · obtain ⟨g, ok, rfl⟩ := hfn
      cases h
    · have hnot : ∀ g ok, a ≠ .fnReturn g ok := fun g ok he => hfn ⟨g, ok, he⟩
      have hmap : (s.mgr.step a).map (fun m => (⟨m, s.world⟩ : DoState σ)) = some t := by
        cases a with
        | fnReturn g ok => exact absurd rfl (hnot g ok)
        | _ => exact h
      obtain ⟨m, hm, rfl⟩ := Option.map_eq_some_iff.mp hmap
      exact .mgr hnot hm
  | run g w =>
    simp only [Closures.step] at h
    split at h
    · cases h
    · rename_i d hd
      obtain ⟨m, hm, rfl⟩ := Option.map_eq_some_iff.mp h
      exact .run rfl hm
  | env t =>
    cases h
    exact .env t

end Calls

section Rule

variable {σ ω τ : Type} {c : Closures σ ω τ} {init : σ} {ok : DoState σ → DoLabel ω τ → Prop}
  {k : Nat}
  {tr : List (DoLabel ω τ)} {s : DoState σ}

/-- What the call `k` needs of the world from its start on, and what it leaves
when it succeeds. The steps of others keep both. -/
structure Closures.Contract (c : Closures σ ω τ) (init : σ) (ok : DoState σ → DoLabel ω τ → Prop)
    (k : Nat) (Pre Post : σ → Prop) : Prop where
  start : ∀ tr s, (c.system init).Reach ok tr s → ok s (.mgr (.sample k)) → Pre s.world
  others : ∀ s a t, ok s a → c.step s a = some t → (∀ w, a ≠ .run k w) →
    (Pre s.world → Pre t.world) ∧ (Post s.world → Post t.world)
  fails : ∀ d w x y, Pre x → c.fn k d w x = (false, y) → Pre y
  succeeds : ∀ d w x y, Pre x → c.fn k d w x = (true, y) → Post y

/-- Where a call is, its world is as the contract says. -/
def Closures.Keeping (k : Nat) (Pre Post : σ → Prop) (s : DoState σ) : Prop :=
  (s.mgr.calls k ≠ .idle → s.mgr.calls k ≠ .returned .ok → Pre s.world) ∧
    (s.mgr.calls k = .returned .ok → Post s.world)

/-- A step that is not a run of the call's own closure. -/
theorem Closures.Keeping.other {Pre Post : σ → Prop} {t : DoState σ} {b : ManagerLabel}
    (h : Closures.Keeping k Pre Post s) (hmoves : DoPhase.Moves k (s.mgr.calls k) b (t.mgr.calls k))
    (hdone : b ≠ .fnReturn k true) (hstart : b = .sample k → Pre t.world)
    (hkeep : (Pre s.world → Pre t.world) ∧ (Post s.world → Post t.world)) :
    Closures.Keeping k Pre Post t := by
  obtain ⟨hpre, hpost⟩ := h
  constructor
  · intro hne hok
    have hbefore : s.mgr.calls k ≠ .returned .ok := fun he => hok ((he ▸ hmoves).returned)
    rcases hmoves.started hne with hactive | hsample
    · exact hkeep.1 (hpre hactive hbefore)
    · exact hstart hsample
  · intro hok
    rcases (hok ▸ hmoves).succeeded with hbefore | hreturn
    · exact hkeep.2 (hpost hbefore)
    · exact absurd hreturn hdone

theorem Closures.Contract.keeping {Pre Post : σ → Prop} (hc : c.Contract init ok k Pre Post)
    (h : (c.system init).Reach ok tr s) : Closures.Keeping k Pre Post s := by
  induction h with
  | nil => exact ⟨fun hne => absurd rfl hne, nofun⟩
  | @snoc tr s t a hreach ha hs ih =>
    have hothers := hc.others s a t ha hs
    cases Closures.step_effect hs with
    | @mgr a m hnot hm =>
      apply ih.other (Manager.moves hm k) (hnot k true) _ (hothers nofun)
      rintro rfl
      exact hc.start tr s hreach ha
    | @run g d w r world m hfn hm =>
      have hmoves := Manager.moves hm k
      by_cases hg : g = k
      · subst hg
        obtain ⟨⟨hne, hnot⟩, hiff⟩ := hmoves.of_fnReturn
        have hx := ih.1 hne hnot
        constructor
        · intro _ hok
          have hr : r = false := Bool.eq_false_iff.mpr fun hr => hok (hiff.mpr hr)
          exact hc.fails d w _ _ hx (hr ▸ hfn)
        · intro hok
          exact hc.succeeds d w _ _ hx (hiff.mp hok ▸ hfn)
      · apply ih.other hmoves _ _ (hothers fun w' he => hg (DoLabel.run.inj he).1)
        · exact fun he => hg (ManagerLabel.fnReturn.inj he).1
        · exact fun he => nomatch he
    | env t =>
      obtain ⟨hkeepPre, hkeepPost⟩ := hothers nofun
      exact ⟨fun hne hok => hkeepPre (ih.1 hne hok), fun hok => hkeepPost (ih.2 hok)⟩

/-- A call whose closure never fails returns an error only if its dial did. -/
theorem Closures.returned_cases (hfn : ∀ d w x, (c.fn k d w x).1 = true)
    (h : (c.system init).Reach ok tr s) {r : DoResult} (hr : s.mgr.calls k = .returned r) :
    r = .ok ∨ .mgr (.dialReturn k false) ∈ tr := by
  have hinv : (s.mgr.calls k).Unfailed ∧
      (s.mgr.calls k = .returned .dialErr → .mgr (.dialReturn k false) ∈ tr) := by
    clear hr
    induction h with
    | nil => exact ⟨trivial, nofun⟩
    | @snoc tr s t a hreach ha hs ih =>
      obtain ⟨hphase, hdial⟩ := ih
      have hstep {b : ManagerLabel} (hmoves : DoPhase.Moves k (s.mgr.calls k) b (t.mgr.calls k))
          (hb : b ≠ .fnReturn k false) (hlabel : b = .dialReturn k false →
            a = .mgr (.dialReturn k false)) :
          (t.mgr.calls k).Unfailed ∧
            (t.mgr.calls k = .returned .dialErr → .mgr (.dialReturn k false) ∈ tr ++ [a]) := by
        refine ⟨hmoves.unfailed hphase hb, fun he => ?_⟩
        rcases (he ▸ hmoves).dialFailed with hbefore | hfailed
        · exact List.mem_append_left _ (hdial hbefore)
        · exact List.mem_append_right _ (List.mem_singleton.mpr (hlabel hfailed).symm)
      cases Closures.step_effect hs with
      | @mgr a m hnot hm => exact hstep (Manager.moves hm k) (hnot k false) (congrArg _)
      | @run g d w r world m hrun hm =>
        apply hstep (Manager.moves hm k)
        · rintro ⟨⟩
          have hok := hfn d w s.world
          rw [hrun] at hok
          cases hok
        · exact fun he => nomatch he
      | env t => exact ⟨hphase, fun he => List.mem_append_left _ (hdial he)⟩
  obtain ⟨hphase, hdial⟩ := hinv
  cases r with
  | ok => exact .inl rfl
  | dialErr => exact .inr (hdial hr)
  | fnErr =>
    rw [hr] at hphase
    exact hphase.elim

end Rule

end GoAfp
