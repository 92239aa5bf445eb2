import GoAfp.ForkDiscipline

/-! Fork IDs mean something on one connection only, and a server gives the ID of
a closed fork to the next that is opened. Requests name a fork only on the
connection on which the file that sends them has opened it, and not after it has
been closed. -/

namespace GoAfp

/-- What the variables of a call stand for: the fork of the file, and the one
that is being closed until the request is sent. -/
def CallVars.caps (l : CallVars) : Set (Nat × Nat) :=
  l.file.caps ∪ {c | l.spent = false ∧ ∃ o, l.closing = some (o, some c.1) ∧ o.wireID = c.2}

/-- When a run of the call on dial `d` may use its variables. -/
def Bridge.fit (b : Bridge) (g : Nat) (l : CallVars) (d : Nat) : Prop :=
  match b.ops g with
  | .close _ => l.file.fork = none ∧ (l.spent = true → ∀ o e, l.closing = some (o, some e) → e < d)
  | .openFile _ _ => l.closing = none
  | .read _ _ => l.closing = none
  | .readAt _ _ _ => l.closing = none
  | .write _ _ => l.closing = none
  | .truncate _ _ => l.closing = none
  | _ => l.file.fork = none ∧ l.closing = none

theorem CallVars.caps_file {l : CallVars} (h : l.closing = none) : l.caps = l.file.caps := by
  ext c
  simp [caps, h]

theorem CallVars.caps_empty {l : CallVars} (hfork : l.file.fork = none) (h : l.closing = none) :
    l.caps = ∅ := by
  rw [caps_file h, File.caps_none hfork]

namespace Requests

open Job

variable {v : AfpVolume}

/-- Nothing is being closed, and what the file has is had. -/
def HoldsFile (l : CallVars) (S : Set (Nat × Nat)) : Prop :=
  l.closing = none ∧ Holds l.file S

theorem tame_inFile {ε α : Type} {x : VolJob File ε α} {q : α → Set (Nat × Nat) → Prop}
    (hx : Tame (forkCaps v.gen) Holds x (fun a f S => Holds f S ∧ q a S) Holds) :
    Tame (forkCaps v.gen) HoldsFile (inFile x) (fun a l S => HoldsFile l S ∧ q a S) HoldsFile := by
  apply Tame.zoom (p := fun l f S => l.closing = none ∧ Holds f S)
    (q := fun l a f S => l.closing = none ∧ Holds f S ∧ q a S)
    (e := fun l f S => l.closing = none ∧ Holds f S)
  · intro l m S h
    exact (hx m S h.2).weaken fun r S' hr =>
      ⟨fun a ha => ⟨h.1, hr.1 a ha⟩, fun e he => ⟨h.1, hr.2 e he⟩⟩
  · exact fun l S h => h
  · exact fun l a f S h => ⟨⟨h.1, h.2.1⟩, h.2.2⟩
  · exact fun l f S h => h

theorem tame_withFork {path : Bytes} {writable : Bool} {fn : OpenFork → VolJob CallVars IoErr Unit}
    (hfn : ∀ o, Tame (forkCaps v.gen) (fun l S => HoldsFile l S ∧ (v.gen, o.wireID) ∈ S) (fn o)
      (fun _ => HoldsFile) HoldsFile) :
    Tame (forkCaps v.gen) HoldsFile (withFork v path writable fn)
      (fun _ => HoldsFile) HoldsFile := by
  apply Tame.bind (m := fun o l S => HoldsFile l S ∧ (v.gen, o.wireID) ∈ S)
  · exact Tame.adapt
      (tame_inFile (q := fun (o : OpenFork) S => (v.gen, o.wireID) ∈ S) (tame_openOn path writable))
  · exact hfn

theorem tame_readInto {sched : Schedule} {off : Int} (o : OpenFork) :
    Tame (forkCaps v.gen) (fun l S => HoldsFile l S ∧ (v.gen, o.wireID) ∈ S) (readInto sched off o)
      (fun _ => HoldsFile) HoldsFile := by
  apply Tame.bind (m := fun _ l S => HoldsFile l S ∧ (v.gen, o.wireID) ∈ S)
  · exact Tame.get fun l S h => h
  intro l
  apply Tame.bind (Tame.adapt (tame_readAt fun l S h => h.2))
  rintro ⟨buf, n, err⟩
  apply Tame.bind (m := fun _ => HoldsFile)
  · exact Tame.modify fun l S h => h.1
  intro _
  cases err with
  | some e => exact Tame.throw fun _ _ h => h
  | none => exact Tame.pure fun _ _ h => h

theorem tame_readCursor {sched : Schedule} (o : OpenFork) :
    Tame (forkCaps v.gen) (fun l S => HoldsFile l S ∧ (v.gen, o.wireID) ∈ S) (readCursor sched o)
      (fun _ => HoldsFile) HoldsFile := by
  apply Tame.bind (m := fun _ l S => HoldsFile l S ∧ (v.gen, o.wireID) ∈ S)
  · exact Tame.get fun l S h => h
  · exact fun l => tame_readInto o

theorem tame_writeFrom {sched : Schedule} {p : Bytes} (o : OpenFork) :
    Tame (forkCaps v.gen) (fun l S => HoldsFile l S ∧ (v.gen, o.wireID) ∈ S) (writeFrom sched p o)
      (fun _ => HoldsFile) HoldsFile := by
  apply Tame.bind (m := fun _ l S => HoldsFile l S ∧ (v.gen, o.wireID) ∈ S)
  · exact Tame.get fun l S h => h
  intro l
  apply Tame.bind (Tame.adapt (tame_writeAt fun l S h => h.2))
  rintro ⟨n, err⟩
  apply Tame.bind (m := fun _ => HoldsFile)
  · exact Tame.modify fun l S h => h.1
  intro _
  cases err with
  | some e => exact Tame.throw fun _ _ h => h
  | none => exact Tame.pure fun _ _ h => h

theorem tame_truncateFork {size : Int} (o : OpenFork) :
    Tame (forkCaps v.gen) (fun l S => HoldsFile l S ∧ (v.gen, o.wireID) ∈ S)
      (Job.adapt IoErr.afp (truncate o size)) (fun _ => HoldsFile) HoldsFile :=
  (Tame.adapt (tame_truncate fun _ _ h => h.2)).weaken (fun _ _ h => h) (fun _ _ _ h => h.1)
    fun _ _ h => h.1

/-- A run on dial `d` may use the fork that is being closed. -/
def MayClose (d : Nat) (l : CallVars) (S : Set (Nat × Nat)) : Prop :=
  l.caps ⊆ S ∧ l.file.fork = none ∧ (l.spent = true → ∀ o e, l.closing = some (o, some e) → e < d)

theorem tame_closeFork (v : AfpVolume) :
    Tame (forkCaps v.gen) (MayClose v.gen) (closeFork v) (fun _ l S => ∀ e, v.gen < e →
      MayClose e l S) fun l S => ∀ e, v.gen < e → MayClose e l S := by
  have hlater {l : CallVars} {S : Set (Nat × Nat)} (h : MayClose v.gen l S) : ∀ e, v.gen < e →
      MayClose e l S :=
    fun e he => ⟨h.1, h.2.1, fun hs o k hk => (h.2.2 hs o k hk).trans he⟩
  apply Tame.bind (m := fun l₀ l S => l₀ = l ∧ MayClose v.gen l S)
  · exact Tame.get fun l S h => ⟨rfl, h⟩
  intro l₀
  cases hclosing : l₀.closing with
  | none => exact Tame.pure fun l S h => hlater h.2
  | some x =>
    obtain ⟨o, vol⟩ := x
    by_cases hvol : vol = some v.gen
    · simp only [if_pos hvol]
      subst hvol
      -- the request has not been sent before on this connection
      apply Tame.bind (m := fun _ l S =>
        (l.file.fork = none ∧ l.spent = true ∧ l.closing = some (o, some v.gen)) ∧
          (v.gen, o.wireID) ∈ S)
      · apply Tame.modify
        rintro l S ⟨rfl, hcaps, hfork, hspent⟩
        have hunsent : l₀.spent = false := by
          by_contra hs
          exact lt_irrefl _ (hspent (by simpa using hs) o v.gen hclosing)
        exact ⟨⟨hfork, rfl, hclosing⟩, hcaps (.inr ⟨hunsent, o, hclosing, rfl⟩)⟩
      · intro _
        apply Tame.adapt
        apply tame_close
        · exact fun l S h => h.2
        · rintro l S ⟨⟨hfork, hspent, hcl⟩, -⟩ e he
          refine ⟨?_, hfork, fun _ o' k hk => ?_⟩
          · rintro c (hc | ⟨hs, -⟩)
            · rw [File.caps_none hfork] at hc
              exact hc.elim
            · exact absurd (hs.symm.trans hspent) (by decide)
          · cases hcl.symm.trans hk
            exact he
    · simp only [if_neg hvol]
      exact Tame.pure fun l S h => hlater h.2

end Requests

namespace Bridge

open Job Requests

variable (b : Bridge)

/-- The variables of the call hold what they stand for, and a run on `d` may use them. -/
def Ready (g d : Nat) (l : CallVars) (S : Set (Nat × Nat)) : Prop :=
  l.caps ⊆ S ∧ b.fit g l d

def Later (g d : Nat) (l : CallVars) (S : Set (Nat × Nat)) : Prop :=
  l.caps ⊆ S ∧ ∀ e, d < e → b.fit g l e

variable {b} {g d : Nat}

/-- A closure on the fork of a file. -/
theorem tame_file {ε : Type} {x : VolJob CallVars ε Unit}
    (hx : Tame (forkCaps d) HoldsFile x (fun _ => HoldsFile) HoldsFile)
    (hfit : ∀ l e, b.fit g l e ↔ l.closing = none) :
    Tame (forkCaps d) (b.Ready g d) x (fun _ => b.Later g d) (b.Later g d) := by
  have hpost (l : CallVars) (S : Set (Nat × Nat)) (h : HoldsFile l S) : b.Later g d l S :=
    ⟨by rw [CallVars.caps_file h.1]; exact h.2, fun e _ => (hfit l e).mpr h.1⟩
  refine hx.weaken (fun l S h => ?_) (fun _ => hpost) hpost
  have hclosing := (hfit l d).mp h.2
  refine ⟨hclosing, ?_⟩
  have hcaps := h.1
  rwa [CallVars.caps_file hclosing] at hcaps

/-- A closure that keeps no fork. -/
theorem tame_path {ε : Type} {x : VolJob CallVars ε Unit}
    (hx : Tame (forkCaps d) (fun l _ => l.file.fork = none ∧ l.closing = none) x
      (fun _ l _ => l.file.fork = none ∧ l.closing = none) fun l _ => l.file.fork = none ∧
      l.closing = none)
    (hfit : ∀ l e, b.fit g l e ↔ l.file.fork = none ∧ l.closing = none) :
    Tame (forkCaps d) (b.Ready g d) x (fun _ => b.Later g d) (b.Later g d) := by
  have hpost (l : CallVars) (S : Set (Nat × Nat)) (h : l.file.fork = none ∧ l.closing = none) :
      b.Later g d l S :=
    ⟨by rw [CallVars.caps_empty h.1 h.2]; exact Set.empty_subset S, fun e _ => (hfit l e).mpr h⟩
  exact hx.weaken (fun l S h => (hfit l d).mp h.2) (fun _ => hpost) hpost

variable (b g d)

theorem tame_closure :
    Tame (forkCaps d) (b.Ready g d) (b.closure g d) (fun _ => b.Later g d) (b.Later g d) := by
  cases hop : b.ops g with
  | openFile filename flag =>
    simp only [closure, hop]
    apply tame_file _ fun l e => by simp only [fit, hop]
    apply Tame.adapt
    exact (tame_inFile (v := b.vol d) (q := fun _ _ => True)
      ((tame_openBody _ _ _).weaken (fun _ _ h => h)
      (fun _ _ _ h => ⟨h, trivial⟩) fun _ _ h => h)).weaken (fun _ _ h => h) (fun _ _ _ h => h.1)
        fun _ _ h => h
  | read f p =>
    simp only [closure, hop]
    exact tame_file (Tame.adapt (tame_withFork (v := b.vol d) tame_readCursor)) fun l e => by
      simp only [fit, hop]
  | readAt f p off =>
    simp only [closure, hop]
    exact tame_file (Tame.adapt (tame_withFork (v := b.vol d) tame_readInto)) fun l e => by
      simp only [fit, hop]
  | write f p =>
    simp only [closure, hop]
    exact tame_file (Tame.adapt (tame_withFork (v := b.vol d) tame_writeFrom)) fun l e => by
      simp only [fit, hop]
  | truncate f size =>
    simp only [closure, hop]
    exact tame_file (Tame.adapt (tame_withFork (v := b.vol d) tame_truncateFork)) fun l e => by
      simp only [fit, hop]
  | close f =>
    simp only [closure, hop]
    apply Tame.adapt
    have hpost (l : CallVars) (S : Set (Nat × Nat)) (h : ∀ e, d < e → MayClose e l S) :
        b.Later g d l S := by
      refine ⟨(h (d + 1) (Nat.lt_succ_self d)).1, fun e he => ?_⟩
      simpa only [fit, hop] using (h e he).2
    refine (tame_closeFork (b.vol d)).weaken (fun l S h => ?_) (fun _ => hpost) hpost
    obtain ⟨hcaps, hfit⟩ := h
    simp only [fit, hop] at hfit
    exact ⟨hcaps, hfit⟩
  | symlink target link =>
    simp only [closure, hop]
    exact tame_path (Tame.adapt (tame_symlink _ _ _ _)) fun l e => by simp only [fit, hop]
  | readlink link =>
    simp only [closure, hop]
    exact tame_path (Tame.adapt (Tame.bind (tame_readLink _ _ _) fun _ => Tame.pure fun _ _ h => h))
      fun l e => by simp only [fit, hop]
  | stat filename =>
    simp only [closure, hop]
    exact tame_path (Tame.adapt (Tame.bind (tame_stat _ _) fun _ => Tame.pure fun _ _ h => h))
      fun l e => by simp only [fit, hop]
  | remove filename =>
    simp only [closure, hop]
    exact tame_path (Tame.adapt (tame_plain (touches_none cmdDelete rfl (by decide) (by decide))))
      fun l e => by simp only [fit, hop]
  | rename oldpath newpath =>
    simp only [closure, hop]
    exact tame_path
      (Tame.adapt (tame_plain (touches_none cmdMoveAndRename rfl (by decide) (by decide))))
      fun l e => by simp only [fit, hop]
  | mkdir sub =>
    simp only [closure, hop]
    exact tame_path
      (Tame.adapt (tame_plain (touches_none cmdCreateDir rfl (by decide) (by decide))))
      fun l e => by simp only [fit, hop]

theorem fit_succeeded (l : CallVars) (r : Bool) :
    b.fit g { l with succeeded := r } d ↔ b.fit g l d := Iff.rfl

theorem tame_body :
    Tame (forkCaps d) (b.Ready g d) (b.body g d) (fun _ => b.Later g d) (b.Later g d) := by
  apply Tame.bind (b.tame_closure g d)
  intro _
  apply Tame.modify
  exact fun l S h => ⟨h.1, fun e he => (b.fit_succeeded g e l true).mpr (h.2 e he)⟩

theorem caps_leave (l : CallVars) : (b.leave g l).caps ⊆ l.caps := by
  rw [leave]
  split
  · split_ifs
    · exact fun c hc => hc
    · exact fun c hc => hc
  · exact fun c hc => hc
  · exact fun c hc => hc
  · split_ifs
    · exact fun c hc => hc
    · exact fun c hc => hc
  · exact fun c hc => hc

theorem caps_fresh (l : CallVars) (buf : Bytes) : (l.fresh buf).caps ⊆ l.caps := by
  rw [CallVars.caps_file rfl]
  exact Set.subset_union_left

theorem caps_new : (({} : CallVars)).caps = ∅ := CallVars.caps_empty rfl rfl

theorem caps_enter {l l' : CallVars} (h : b.enter g l = some l') :
    l'.caps ⊆ l.caps ∧ ∀ d, b.fit g l' d := by
  have hnew : (({} : CallVars)).caps ⊆ l.caps := by
    rw [caps_new]
    exact Set.empty_subset _
  cases hop : b.ops g with
  | openFile filename flag =>
    simp only [enter, hop, Option.some.injEq] at h
    subst h
    exact ⟨hnew, fun d => by simp only [fit, hop]⟩
  | close f =>
    simp only [enter, hop] at h
    split at h
    · rename_i o _ hfork
      cases h
      refine ⟨?_, fun d => ?_⟩
      · rintro c (⟨x, hx, -⟩ | ⟨-, x, hx, hc⟩)
        · cases hx
        · simp only [Option.some.injEq, Prod.mk.injEq] at hx
          obtain ⟨rfl, hvol⟩ := hx
          exact .inl ⟨o, hfork, hvol, hc⟩
      · simp only [fit, hop]
        exact ⟨trivial, fun hs => by cases hs⟩
    · cases h
  | stat filename =>
    simp only [enter, hop] at h
    split_ifs at h
    cases h
    exact ⟨hnew, fun d => by simp only [fit, hop, and_self]⟩
  | read f p =>
    simp only [enter, hop] at h
    split_ifs at h
    cases h
    exact ⟨caps_fresh l p, fun d => by simp only [fit, hop, CallVars.fresh]⟩
  | readAt f p off =>
    simp only [enter, hop] at h
    split_ifs at h
    cases h
    exact ⟨caps_fresh l p, fun d => by simp only [fit, hop, CallVars.fresh]⟩
  | write f p =>
    simp only [enter, hop] at h
    split_ifs at h
    cases h
    exact ⟨caps_fresh l [], fun d => by simp only [fit, hop, CallVars.fresh]⟩
  | truncate f size =>
    simp only [enter, hop] at h
    split_ifs at h
    cases h
    exact ⟨caps_fresh l [], fun d => by simp only [fit, hop, CallVars.fresh]⟩
  | _ =>
    simp only [enter, hop, Option.some.injEq] at h
    subst h
    exact ⟨hnew, fun d => by simp only [fit, hop, and_self]⟩

theorem workload_disciplined : b.workload.Disciplined forkCaps CallVars.caps b.fit where
  enter := fun g l l' h => b.caps_enter g h
  body := by
    intro g d l hfit
    refine (b.tame_body g d l l.caps ⟨subset_rfl, hfit⟩).weaken fun r S hr => ?_
    rcases r with ⟨e | a, l'⟩
    · exact hr.2 e rfl
    · exact hr.1 a rfl
  leave := fun g l => b.caps_leave g l

/-- The forks that somebody owns are open, and those that a request names are
the caller's own. -/
theorem owned_of_reach {tree : VTree} {tr : List (MountLabel RequestFate (VTree → VTree))}
    {s : Mount Bytes Answer CallVars BridgeErr Nat Share}
    (h : (b.system tree).Reach System.free tr s) :
    s.world.Sound ∧ ∀ g d block k, s.running g = some (d, .ask block k) →
      ∀ id, forkNamed block = some id → s.world.openedBy d id = some (b.owner g) := by
  have hlocals : ∀ o : Nat, ∀ c ∈ CallVars.caps {}, Share.owned { tree := tree } c = some o := by
    intro o c hc
    rw [caps_new] at hc
    exact hc.elim
  obtain ⟨hsound, huses⟩ :=
    Mount.uses_owned b.workload_disciplined b.backend_tracks (fun c hc => by cases hc) hlocals h
  exact ⟨hsound, fun g d block k hrun id hid => huses hrun (d, id) ⟨rfl, hid⟩⟩

end Bridge

/-- Whatever the calls on a mount do, in any order of their requests and
through any losses and reconnects: a request that names a fork names one that is
open on the connection it is sent on, and that a request of the same file or
call has opened there. -/
theorem requests_own_forks (b : Bridge) {tree : VTree}
    {tr : List (MountLabel RequestFate (VTree → VTree))}
    {s : Mount Bytes Answer CallVars BridgeErr Nat Share}
    (h : (b.system tree).Reach System.free tr s) {g d id : Nat} {block : Bytes}
    {k : Answer → Prog Bytes Answer (Except BridgeErr Unit × CallVars)}
    (hrun : s.running g = some (d, .ask block k)) (hid : forkNamed block = some id) :
    s.world.openedBy d id = some (b.owner g) ∧ ((s.world.forks d).lookup id).isSome := by
  obtain ⟨hgood, huses⟩ := b.owned_of_reach h
  have howned : s.world.openedBy d id = some (b.owner g) := huses g d block k hrun id hid
  refine ⟨howned, hgood (d, id) ?_⟩
  rw [Share.owned, howned]
  rfl

/-- The connection and the request that a closure is about to send. -/
def Mount.asking {ι ω L ε κ σ : Type} (s : Mount ι ω L ε κ σ) (g : Nat) : Option (Nat × ι) :=
  match s.running g with
  | some (d, .ask i _) => some (d, i)
  | _ => none

theorem Mount.running_of_asking {ι ω L ε κ σ : Type} {s : Mount ι ω L ε κ σ} {g d : Nat} {i : ι}
    (h : s.asking g = some (d, i)) : ∃ k, s.running g = some (d, .ask i k) := by
  rw [asking] at h
  split at h
  · rename_i k hrun
    cases h
    exact ⟨k, hrun⟩
  · cases h

/-- A file that is opened and then read. -/
def readingBridge : Bridge where
  fs := ⟨[]⟩
  volume := fun _ => plainVolume
  site := fun _ => plainSite
  ops := fun g => if g = 0 then .openFile (ascii "a") {} else .read 0 [0, 0]
  sched := fun _ _ => inOrder

/-- The link dies between the open and the read, which opens the file again. -/
def readAfterRedial : List (MountLabel RequestFate (VTree → VTree)) :=
  [.mgr (.sample 0), .ask 0 (.answered none), .finish 0, .unlock 0, .mgr (.sample 1),
    .mgr (.linkDies 0), .ask 1 (.unanswered false .cancelled), .finish 1, .mgr (.check 1),
    .mgr (.reconnect 1), .mgr (.dialReturn 1 true), .mgr (.reread 1), .ask 1 (.answered none)]

theorem requests_own_forks_redial : ∃ s block,
    (readingBridge.system fileServer.tree).Reach System.free readAfterRedial s ∧
      s.asking 1 = some (1, block) ∧
      forkNamed block = some 0 ∧ s.world.openedBy 1 0 = some 0 := by
  have hexec :
      (((readingBridge.system fileServer.tree).exec (readingBridge.system fileServer.tree).init
      readAfterRedial).bind fun s => s.asking 1) = some (1, readChunkBlock 0 0 2) := by
    decide +kernel
  obtain ⟨s, hs, hask⟩ := Option.bind_eq_some_iff.mp hexec
  have hreach := System.Reach.nil.exec (System.admits_of_forall fun _ _ _ => trivial) hs
  obtain ⟨k, hrun⟩ := Mount.running_of_asking hask
  have hid : forkNamed (readChunkBlock 0 0 2) = some 0 := by decide +kernel
  exact ⟨s, _, hreach, hask, hid, (requests_own_forks readingBridge hreach hrun hid).1⟩

end GoAfp
