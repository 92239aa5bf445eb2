import GoAfp.Path
import GoAfp.Store
import GoAfp.Tree

/-! A server's volume: a tree of files and directories with their access
rights, the forks open on the connection, and what each request does to them.
A refused request changes nothing. -/

namespace GoAfp

structure Attrs where
  writable : Bool
  finder : Bytes
  deriving DecidableEq, Repr

structure FileData where
  attrs : Attrs
  content : Bytes
  deriving DecidableEq, Repr

abbrev VTree := Tree Bytes Attrs FileData

def newAttrs : Attrs := ⟨true, List.replicate 32 0⟩
def newFile : FileData := ⟨newAttrs, []⟩

inductive Refusal
  | accessDenied
  | cantMove
  | dirNotEmpty
  | objectExists
  | objectNotFound
  | paramErr
  | objectTypeErr
  | dirNotFound
  deriving DecidableEq, Repr

/-- The code -5005 is for a directory that would move into itself. -/
def Refusal.code : Refusal → Result
  | .accessDenied => resAccessDenied
  | .cantMove => -5005
  | .dirNotEmpty => resDirNotEmpty
  | .objectExists => resObjectExists
  | .objectNotFound => resObjectNotFound
  | .paramErr => resParamErr
  | .objectTypeErr => resObjectTypeErr
  | .dirNotFound => resDirNotFound

def Refusal.Missing (r : Refusal) : Prop :=
  r = .objectNotFound ∨ r = .dirNotFound

theorem Refusal.code_ne_noErr (r : Refusal) : r.code ≠ resNoErr := by
  cases r <;> decide

namespace VTree

def createFile (t : VTree) (hard : Bool) (p : Path) : Except Refusal VTree :=
  match leafOf p with
  | none => .error .objectTypeErr
  | some (dir, x) =>
    match t.find dir with
    | some (.dir a es) =>
      match getEntry es x, hard with
      | none, _ =>
        if a.writable then .ok (t.set dir x (some (.file newFile))) else .error .accessDenied
      | some (.file f), true =>
        if f.attrs.writable then .ok (t.set dir x (some (.file newFile))) else .error .accessDenied
      | some _, _ => .error .objectExists
    | _ => .error .dirNotFound

def delete (t : VTree) (p : Path) : Except Refusal VTree :=
  match leafOf p with
  | none => .error .accessDenied
  | some (dir, x) =>
    match t.find dir with
    | some (.dir a es) =>
      match getEntry es x with
      | none => .error .objectNotFound
      | some (.dir _ (_ :: _)) => .error .dirNotEmpty
      | some _ => if a.writable then .ok (t.set dir x none) else .error .accessDenied
    | _ => .error .dirNotFound

/-- The new name may be left out, and a move of an object to where it is
succeeds. -/
def moveAndRename (t : VTree) (src destDir newName : Path) : Except Refusal VTree :=
  match leafOf src with
  | none => .error .accessDenied
  | some (dir, x) =>
    match t.find dir, t.find destDir with
    | some (.dir a es), some (.dir b es') =>
      match getEntry es x with
      | none => .error .objectNotFound
      | some node =>
        let y := newName.getLast?.getD x
        if destDir = dir ∧ y = x then .ok t
        else if (getEntry es' y).isSome then .error .objectExists
        else if src <+: destDir then .error .cantMove
        else if a.writable && b.writable then .ok ((t.set dir x none).set destDir y (some node))
        else .error .accessDenied
    | _, _ => .error .dirNotFound

def editFile (t : VTree) (p : Path) (k : FileData → FileData) : Except Refusal VTree :=
  match leafOf p with
  | none => .error .objectTypeErr
  | some (dir, x) =>
    match t.find p with
    | some (.file f) => .ok (t.set dir x (some (.file (k f))))
    | _ => .error .paramErr

def setFinderInfo (t : VTree) (p : Path) (info : Bytes) : Except Refusal VTree :=
  match leafOf p with
  | none => .error .accessDenied
  | some (dir, x) =>
    match t.find p with
    | none => .error .objectNotFound
    | some (.file f) =>
      if f.attrs.writable then .ok (t.set dir x (some (.file { f with attrs.finder := info })))
      else .error .accessDenied
    | some (.dir a es) =>
      if a.writable then .ok (t.set dir x (some (.dir { a with finder := info } es)))
        else .error .accessDenied

variable {t t' : VTree} {p dir : Path} {x : Bytes}

theorem createFile_ok (h : t.createFile false p = .ok t') :
    ∃ dir x a es, leafOf p = some (dir, x) ∧ t.find dir = some (.dir a es) ∧ t.find p = none ∧
      t' = t.set dir x (some (.file newFile)) := by
  rw [createFile] at h
  cases hp : leafOf p with
  | none => simp [hp] at h
  | some q =>
    obtain ⟨dir, x⟩ := q
    simp only [hp] at h
    split at h
    · rename_i a es hdir
      split at h
      · rename_i hx
        split_ifs at h
        refine ⟨dir, x, a, es, rfl, hdir, ?_, (Except.ok.inj h).symm⟩
        rw [leafOf_eq_some hp, Tree.find_leaf hdir, hx]
      · rename_i heq
        cases heq
      · cases h
    · cases h

theorem createFile_exists (hp : leafOf p = some (dir, x)) (h : (t.find p).isSome) :
    t.createFile false p = .error .objectExists := by
  obtain ⟨node, hnode⟩ := Option.isSome_iff_exists.mp h
  rw [leafOf_eq_some hp] at hnode
  obtain ⟨a, es, hdir, hx⟩ := Tree.find_leaf_some hnode
  simp only [createFile, hp, hdir, hx]

theorem delete_ok (h : t.delete p = .ok t') :
    ∃ dir x, leafOf p = some (dir, x) ∧ (t.find p).isSome ∧ t'.find p = none := by
  rw [delete] at h
  cases hp : leafOf p with
  | none => simp [hp] at h
  | some q =>
    obtain ⟨dir, x⟩ := q
    refine ⟨dir, x, rfl, ?_⟩
    simp only [hp] at h
    split at h
    · rename_i a es hdir
      rw [leafOf_eq_some hp]
      split at h
      · cases h
      · cases h
      · rename_i hx
        split_ifs at h
        rw [← Except.ok.inj h, Tree.find_leaf hdir, hx]
        exact ⟨rfl, Tree.find_set_leaf hdir x none⟩
    · cases h

theorem delete_missing (hp : leafOf p = some (dir, x)) (h : t.find p = none) :
    ∃ r, t.delete p = .error r ∧ r.Missing := by
  rw [delete, hp]
  simp only
  split
  · rename_i a es hdir
    rw [leafOf_eq_some hp, Tree.find_leaf hdir] at h
    exact ⟨_, by rw [h], Or.inl rfl⟩
  · exact ⟨_, rfl, Or.inr rfl⟩

theorem moveAndRename_ok {src destDir newName : Path}
    (h : t.moveAndRename src destDir newName = .ok t') :
    ∃ dir x, leafOf src = some (dir, x) ∧ (t' = t ∨ (t.find src).isSome ∧ t'.find src = none) := by
  rw [moveAndRename] at h
  cases hp : leafOf src with
  | none => simp [hp] at h
  | some q =>
    obtain ⟨dir, x⟩ := q
    refine ⟨dir, x, rfl, ?_⟩
    simp only [hp] at h
    split at h
    · rename_i a es b es' hdir hdest
      split at h
      · cases h
      · rename_i node hx
        split_ifs at h with hself hexists hsub hw
        · exact Or.inl (Except.ok.inj h).symm
        · right
          rw [← Except.ok.inj h, leafOf_eq_some hp, Tree.find_leaf hdir, hx]
          refine ⟨rfl, ?_⟩
          refine Tree.find_set_none _ (Tree.find_set_leaf hdir x none) fun hpre => ?_
          -- The new place is missing before the move, so it is not above the old one.
          rcases List.prefix_concat_iff.mp hpre with heq | hpre
          · obtain ⟨hd, hy⟩ := List.append_inj' heq rfl
            exact hself ⟨hd, List.singleton_inj.mp hy⟩
          · have hsome : (t.find dir).isSome := by rw [hdir]; rfl
            have habove := Tree.find_isSome_of_prefix hsome hpre
            rw [Tree.find_leaf hdest] at habove
            exact hexists habove
    · cases h

theorem moveAndRename_missing {src : Path} (hp : leafOf src = some (dir, x)) (h : t.find src = none)
    (destDir newName : Path) : ∃ r, t.moveAndRename src destDir newName = .error r ∧ r.Missing := by
  rw [moveAndRename, hp]
  simp only
  split
  · rename_i a es b es' hdir hdest
    rw [leafOf_eq_some hp, Tree.find_leaf hdir] at h
    exact ⟨_, by rw [h], Or.inl rfl⟩
  · exact ⟨_, rfl, Or.inr rfl⟩

/-- An object that is replaced by one with the same names below it. -/
theorem set_isSome {node node' : VTree} (hp : leafOf p = some (dir, x))
    (hnode : t.find p = some node) (hsub : ∀ r, (node.find r).isSome → (node'.find r).isSome)
    {q : Path} (hq : (t.find q).isSome) :
    ((t.set dir x (some node')).find q).isSome := by
  refine Tree.find_set_isSome hq fun r hr => hsub r ?_
  rwa [hr, ← List.singleton_append, ← List.append_assoc, ← leafOf_eq_some hp, Tree.find_append,
    hnode] at hq

theorem file_isSome {f f' : FileData} {r : Path} (h : (Tree.find (.file f : VTree) r).isSome) :
    (Tree.find (.file f' : VTree) r).isSome := by
  cases r with
  | nil => rfl
  | cons z r => cases h

theorem editFile_ok {k : FileData → FileData} (h : t.editFile p k = .ok t') :
    ∃ dir x f, leafOf p = some (dir, x) ∧ t.find p = some (.file f) ∧
      t' = t.set dir x (some (.file (k f))) := by
  rw [editFile] at h
  cases hp : leafOf p with
  | none => simp [hp] at h
  | some r =>
    obtain ⟨dir, x⟩ := r
    simp only [hp] at h
    split at h
    · rename_i f hf
      exact ⟨dir, x, f, rfl, hf, (Except.ok.inj h).symm⟩
    · cases h

theorem find_editFile {k : FileData → FileData} (h : t.editFile p k = .ok t') :
    ∃ f, t.find p = some (.file f) ∧ t'.find p = some (.file (k f)) := by
  obtain ⟨dir, x, f, hp, hf, rfl⟩ := editFile_ok h
  refine ⟨f, hf, ?_⟩
  rw [leafOf_eq_some hp] at hf ⊢
  obtain ⟨a, es, hdir, -⟩ := Tree.find_leaf_some hf
  exact Tree.find_set_leaf hdir x _

theorem editFile_isSome {k : FileData → FileData} (h : t.editFile p k = .ok t') {q : Path}
    (hq : (t.find q).isSome) :
    (t'.find q).isSome := by
  obtain ⟨dir, x, f, hp, hf, rfl⟩ := editFile_ok h
  exact set_isSome hp hf (fun _ => file_isSome) hq

theorem setFinderInfo_isSome {info : Bytes} (h : t.setFinderInfo p info = .ok t') {q : Path}
    (hq : (t.find q).isSome) :
    (t'.find q).isSome := by
  rw [setFinderInfo] at h
  cases hp : leafOf p with
  | none => simp [hp] at h
  | some r =>
    obtain ⟨dir, x⟩ := r
    simp only [hp] at h
    split at h
    · cases h
    · rename_i f hf
      split_ifs at h
      rw [← Except.ok.inj h]
      exact set_isSome hp hf (fun _ => file_isSome) hq
    · rename_i a es hf
      split_ifs at h
      rw [← Except.ok.inj h]
      refine set_isSome hp hf (fun r hr => ?_) hq
      cases r with
      | nil => rfl
      | cons z r => exact hr

end VTree

inductive Request
  | createFile (hard : Bool) (path : Bytes)
  | delete (path : Bytes)
  | moveAndRename (source destDir newName : Bytes)
  | openFork (write : Bool) (path : Bytes)
  | closeFork (id : Nat)
  | setForkLen (id len : Nat)
  | writeExt (id off : Nat) (data : Bytes)
  | setFinderInfo (path info : Bytes)

/-- The fields of an open-fork reply; other replies have none that matter. -/
structure ForkInfo where
  forkID : Nat := 0
  forkLen : Nat := 0
  deriving DecidableEq, Repr

structure ForkRef where
  path : Path
  write : Bool

structure VolServer where
  tree : VTree
  forks : List (Nat × ForkRef)
  nextFork : Nat

def named (w : Bytes) : Except Refusal Path :=
  match wireNames w with
  | some p => .ok p
  | none => .error .paramErr

namespace VolServer

def reconnected (s : VolServer) : VolServer :=
  { s with forks := [] }

def openFork (s : VolServer) (write : Bool) (p : Path) : Except Refusal (ForkInfo × VolServer) :=
  match s.tree.find p with
  | none => .error .objectNotFound
  | some (.dir _ _) => .error .objectTypeErr
  | some (.file f) =>
    if write && !f.attrs.writable then .error .accessDenied
    else .ok (⟨s.nextFork, f.content.length⟩,
      { s with forks := (s.nextFork, ⟨p, write⟩) :: s.forks, nextFork := s.nextFork + 1 })

def editFork (s : VolServer) (id : Nat) (k : FileData → FileData) : Except Refusal VTree :=
  match s.forks.lookup id with
  | none => .error .paramErr
  | some ref => if ref.write then s.tree.editFile ref.path k else .error .accessDenied

def handle (s : VolServer) : Request → Except Refusal (ForkInfo × VolServer)
  | .createFile hard path => do
    let t ← s.tree.createFile hard (← named path)
    return ({}, { s with tree := t })
  | .delete path => do
    let t ← s.tree.delete (← named path)
    return ({}, { s with tree := t })
  | .moveAndRename source destDir newName => do
    let t ← s.tree.moveAndRename (← named source) (← named destDir) (← named newName)
    return ({}, { s with tree := t })
  | .openFork write path => do
    s.openFork write (← named path)
  | .closeFork id =>
    if (s.forks.lookup id).isSome then .ok ({}, { s with forks := s.forks.filter (·.1 ≠ id) })
      else .error .paramErr
  | .setForkLen id len => do
    let t ← s.editFork id fun f => { f with content := setLength 0 f.content len }
    return ({}, { s with tree := t })
  | .writeExt id off data => do
    let t ← s.editFork id fun f => { f with content := overlay 0 f.content off data }
    return ({}, { s with tree := t })
  | .setFinderInfo path info => do
    let t ← s.tree.setFinderInfo (← named path) info
    return ({}, { s with tree := t })

def serve (s : VolServer) (req : Request) : (ForkInfo × Result) × VolServer :=
  match s.handle req with
  | .ok (info, s) => ((info, resNoErr), s)
  | .error r => (({}, r.code), s)

def InPlace : Request → Prop
  | .createFile _ _ => False
  | .delete _ => False
  | .moveAndRename _ _ _ => False
  | _ => True

theorem named_bind_ok {α : Type} {w : Bytes} {f : Path → Except Refusal α} {a : α}
    (h : named w >>= f = .ok a) :
    ∃ p, named w = .ok p ∧ f p = .ok a := by
  cases hn : named w with
  | error r =>
    rw [hn] at h
    cases h
  | ok p =>
    rw [hn] at h
    exact ⟨p, rfl, h⟩

theorem setTree_ok {s s' : VolServer} {e : Except Refusal VTree} {info : ForkInfo}
    (h : (e >>= fun t => pure (({} : ForkInfo), { s with tree := t })) = .ok (info, s')) :
    e = .ok s'.tree ∧ s' = { s with tree := s'.tree } := by
  cases e with
  | error r => cases h
  | ok t =>
    cases h
    exact ⟨rfl, rfl⟩

theorem serve_setTree {s : VolServer} {req : Request} {e : Except Refusal VTree}
    (h : s.handle req = e >>= fun t => pure ({}, { s with tree := t })) :
    (s.serve req).2.forks = s.forks := by
  rw [serve, h]
  cases e <;> rfl

theorem editFork_isSome {s : VolServer} {id : Nat} {k : FileData → FileData} {t' : VTree}
    (h : s.editFork id k = .ok t') {q : Path} (hq : (s.tree.find q).isSome) :
    (t'.find q).isSome := by
  rw [editFork] at h
  split at h
  · cases h
  · split_ifs at h
    exact VTree.editFile_isSome h hq

theorem handle_isSome {s s' : VolServer} {req : Request} {info : ForkInfo} (hreq : InPlace req)
    (h : s.handle req = .ok (info, s')) {q : Path} (hq : (s.tree.find q).isSome) :
    (s'.tree.find q).isSome := by
  cases req with
  | createFile hard w => cases hreq
  | delete w => cases hreq
  | moveAndRename a b c => cases hreq
  | openFork write w =>
    obtain ⟨p, -, h⟩ := named_bind_ok h
    rw [openFork] at h
    split at h
    · cases h
    · cases h
    · split_ifs at h
      cases h
      exact hq
  | closeFork id =>
    simp only [handle] at h
    split_ifs at h
    cases h
    exact hq
  | setForkLen id len => exact editFork_isSome (setTree_ok h).1 hq
  | writeExt id off data => exact editFork_isSome (setTree_ok h).1 hq
  | setFinderInfo w fi =>
    obtain ⟨p, -, h⟩ := named_bind_ok h
    exact VTree.setFinderInfo_isSome (setTree_ok h).1 hq

theorem serve_isSome {s : VolServer} {req : Request} (hreq : InPlace req) {q : Path}
    (hq : (s.tree.find q).isSome) :
    ((s.serve req).2.tree.find q).isSome := by
  rw [serve]
  cases h : s.handle req with
  | error r => exact hq
  | ok p =>
    obtain ⟨info, s'⟩ := p
    exact handle_isSome hreq h hq

end VolServer

end GoAfp
