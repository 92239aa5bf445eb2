import GoAfp.CallFrame
import GoAfp.ForkOwnership

/-! The calls on a mount change no object but those they were called for: a
request of a call leaves everything alone that is not at or below a path of the
call, and the calls that read change nothing. -/

namespace GoAfp

namespace Requests

open Job

section Asks

variable {L : Type} {P : Bytes → Prop}

variable {v : AfpVolume} {path : Bytes}

end Asks

end Requests

namespace Bridge

open Job

variable (b : Bridge)

/-- The object that the server finds by the path. -/
def found (d : Nat) (path : Bytes) : Set Path :=
  {p | named (sentPath (b.vol d).nfd path) = .ok p}

/-- What a call is there to change, by the objects of its paths. -/
def changed (objects : Bytes → Set Path) (g : Nat) : Set Path :=
  match b.ops g with
  | .openFile filename flag =>
    if flag.create || flag.trunc && flag.writable then objects (b.fs.resolve filename) else ∅
  | .write f _ => objects (b.target f).1
  | .truncate f _ => objects (b.target f).1
  | .symlink _ link => objects (b.fs.resolve link)
  | .remove filename => objects (b.fs.resolve filename)
  | .rename oldpath newpath => {p | p ∈ objects (b.fs.resolve oldpath) ∨
      ∃ src dir m x, src ∈ objects (b.fs.resolve oldpath) ∧
        dir ∈ objects (splitPath (b.fs.resolve newpath)).1 ∧
        m ∈ objects (splitPath (b.fs.resolve newpath)).2 ∧ src.getLast? = some x ∧
          p = dir ++ [m.getLast?.getD x]}
  | .mkdir sub => objects sub
  | _ => ∅

def reaches (g d : Nat) : Set Path := b.changed (b.found d) g

/-- The paths that the requests of a call name. -/
def paths (g : Nat) : List Bytes :=
  match b.ops g with
  | .openFile filename _ => [b.fs.resolve filename]
  | .read f _ => [(b.target f).1]
  | .readAt f _ _ => [(b.target f).1]
  | .write f _ => [(b.target f).1]
  | .truncate f _ => [(b.target f).1]
  | .close f => [(b.target f).1]
  | .symlink _ link => [b.fs.resolve link]
  | .readlink link => [b.fs.resolve link]
  | .stat filename => [b.fs.resolve filename]
  | .remove filename => [b.fs.resolve filename]
  | .rename oldpath newpath =>
    [b.fs.resolve oldpath, (splitPath (b.fs.resolve newpath)).1,
      (splitPath (b.fs.resolve newpath)).2]
  | .mkdir sub => [sub]

/-- The pathnames of a call fit in the length fields of its requests. -/
def Fits (g d : Nat) : Prop := ∀ p ∈ b.paths g, (wirePath (b.vol d).nfd p).length < 65536

/-- A call to the server that the call `g` may make on dial `d`. -/
structure Permits (g d : Nat) (block : Bytes) (call : Call) : Prop where
  sites : b.Fits g d → call.sites ⊆ b.reaches g d
  opens : ∀ write w, call = .vol (.openFork write w) →
    {p | named w = .ok p} ⊆ b.found d (b.target (b.owner g)).1
  edits : ∀ id, call.edits = some id → forkNamed block = some id ∧
    b.found d (b.target (b.owner g)).1 ⊆ b.reaches g d

def Allows (g d : Nat) (block : Bytes) : Prop :=
  ∀ call, (b.site d).decode block = .ok call → b.Permits g d block call

variable {b} {g d : Nat}

variable (b g d)

variable {b g d}

/-- A fork is on the object of the call that has opened it. -/
def Placed (b : Bridge) (s : Share) : Prop :=
  ∀ d id o ref, s.openedBy d id = some o → (s.forks d).lookup id = some ref →
    ref.path ∈ b.found d (b.target o).1

theorem Placed.put {s : Share} {o : Nat} {block : Bytes} (h : b.Placed s)
    (hopens : ∀ write w, (b.site d).decode block = .ok (.vol (.openFork write w)) →
      {p | named w = .ok p} ⊆ b.found d (b.target o).1) :
    b.Placed (s.put o d ((b.site d).receive (s.on d) block).2) := by
  intro e id o' ref howner hlookup
  by_cases he : e = d
  · subst he
    have hafter : (((b.site e).receive (s.on e) block).2.forks).lookup id = some ref := by
      simpa only [Share.put, Function.update_self] using hlookup
    have howned : (s.put o e ((b.site e).receive (s.on e) block).2).owned (e, id) = _ :=
      Share.owned_put id
    rw [Share.owned, howner, hafter, if_neg (by simp)] at howned
    -- a fork that was open before is where it was
    have hold (hbefore : (s.forks e).lookup id = some ref) : ref.path ∈ b.found e
        (b.target o').1 := by
      rw [hbefore, if_neg (by simp)] at howned
      exact h e id o' ref howned.symm hbefore
    cases Site.receive_forks (b.site e) (s.on e) block with
    | same hforks => exact hold (by rwa [hforks] at hafter)
    | closed k hcmd hk hforks =>
      rw [hforks, lookup_filter_ne] at hafter
      split_ifs at hafter
      exact hold hafter
    | opened write path k ref' size hdecode hpath hlt hfree hforks =>
      rw [hforks, List.lookup_cons] at hafter
      split at hafter
      · rename_i hk
        have hk : id = k := by simpa using hk
        subst hk
        cases hafter
        have hfree' : (s.forks e).lookup id = none := hfree
        rw [hfree', if_pos Option.isNone_none] at howned
        cases howned
        exact hopens write path hdecode hpath
      · exact hold hafter
  · simp only [Share.put, Function.update_of_ne he] at howner hlookup
    exact h e id o' ref howner hlookup

theorem Placed.serve {s : Share} {block : Bytes} (h : b.Placed s) (hblock : b.Allows g d block)
    (fate : RequestFate) :
    b.Placed (b.serve fate (b.owner g) d block s).2 := by
  have hput : b.Placed (s.put (b.owner g) d ((b.site d).receive (s.on d) block).2) :=
    h.put fun write w hdecode => (hblock _ hdecode).opens write w rfl
  rcases fate with (_ | code) | ⟨_ | _, err⟩
  · exact hput
  · exact h
  · exact h
  · exact hput

/-- What a request that a call may send does to an object that the call is not
there to change. -/
theorem serve_sameAt {s : Share} {block : Bytes} {q : Path} (hplaced : b.Placed s)
    (hblock : b.Allows g d block) (hfits : b.Fits g d)
    (howned : ∀ id, forkNamed block = some id → s.openedBy d id = some (b.owner g))
    (hq : ∀ p ∈ b.reaches g d, ¬ p <+: q) (fate : RequestFate) :
    VTree.SameAt q s.tree (b.serve fate (b.owner g) d block s).2.tree := by
  have hreceive : VTree.SameAt q s.tree ((b.site d).receive (s.on d) block).2.tree := by
    cases hdecode : (b.site d).decode block with
    | error code =>
      rw [Site.receive, hdecode]
      rfl
    | ok call =>
      have hpermits := hblock call hdecode
      rw [Site.receive_of_decode hdecode]
      apply Site.respond_sameAt
      · exact fun p hp => hq p (hpermits.sites hfits hp)
      · intro id ref hid href
        obtain ⟨hnamed, hchanges⟩ := hpermits.edits id hid
        exact hq _ (hchanges (hplaced d id _ ref (howned id hnamed) href))
  rcases fate with (_ | code) | ⟨_ | _, err⟩
  · exact hreceive
  · rfl
  · rfl
  · exact hreceive

end Bridge

end GoAfp
