import GoAfp.ForkTable

/-! What a request leaves alone on the volume: it changes no object but those
at or below the places that it names, and the file of the fork that it names. -/

namespace GoAfp

/-- The places of the tree that a call names in order to change them. -/
def Call.sites : Call → Set Path
  | .vol (.createFile _ w) => {p | named w = .ok p}
  | .vol (.delete w) => {p | named w = .ok p}
  | .vol (.setFinderInfo w _) => {p | named w = .ok p}
  | .vol (.moveAndRename a c n) =>
    {p | named a = .ok p ∨ ∃ src dir m x, named a = .ok src ∧ named c = .ok dir ∧
      named n = .ok m ∧ src.getLast? = some x ∧ p = dir ++ [m.getLast?.getD x]}
  | .createDir w => {p | named w = .ok p}
  | _ => ∅

/-- The fork whose file a call changes. -/
def Call.edits : Call → Option Nat
  | .vol (.setForkLen id _) => some id
  | .vol (.writeExt id _ _) => some id
  | _ => none

namespace VTree

variable {t t' : VTree} {p q dir : Path} {x : Bytes}

/-- The object at `q` is the same in both trees, but for the entries of a
directory. -/
def SameAt (q : Path) (t t' : VTree) : Prop :=
  (t'.find q).map Tree.label = (t.find q).map Tree.label

instance (q : Path) (t t' : VTree) : Decidable (SameAt q t t') :=
  inferInstanceAs (Decidable (_ = _))

theorem sameAt_set (hp : leafOf p = some (dir, x)) (hq : ¬ p <+: q) (v : Option VTree) :
    SameAt q t (t.set dir x v) := by
  rw [leafOf_eq_some hp] at hq
  exact Tree.find_set_label v hq

theorem createFile_sameAt {hard : Bool} (h : t.createFile hard p = .ok t') (hq : ¬ p <+: q) :
    SameAt q t t' := by
  rw [createFile] at h
  cases hp : leafOf p with
  | none => simp [hp] at h
  | some r =>
    obtain ⟨dir, x⟩ := r
    simp only [hp] at h
    split at h
    · split at h
      · split_ifs at h
        cases h
        exact sameAt_set hp hq _
      · split_ifs at h
        cases h
        exact sameAt_set hp hq _
      · cases h
    · cases h

theorem createDir_sameAt (h : t.createDir p = .ok t') (hq : ¬ p <+: q) : SameAt q t t' := by
  rw [createDir] at h
  cases hp : leafOf p with
  | none => simp [hp] at h
  | some r =>
    obtain ⟨dir, x⟩ := r
    simp only [hp] at h
    split at h
    · split at h
      · cases h
      · split_ifs at h
        cases h
        exact sameAt_set hp hq _
    · cases h

theorem delete_sameAt (h : t.delete p = .ok t') (hq : ¬ p <+: q) : SameAt q t t' := by
  rw [delete] at h
  cases hp : leafOf p with
  | none => simp [hp] at h
  | some r =>
    obtain ⟨dir, x⟩ := r
    simp only [hp] at h
    split at h
    · split at h
      · cases h
      · cases h
      · split_ifs at h
        cases h
        exact sameAt_set hp hq _
    · cases h

theorem setFinderInfo_sameAt {info : Bytes} (h : t.setFinderInfo p info = .ok t') (hq : ¬ p <+: q) :
    SameAt q t t' := by
  rw [setFinderInfo] at h
  cases hp : leafOf p with
  | none => simp [hp] at h
  | some r =>
    obtain ⟨dir, x⟩ := r
    simp only [hp] at h
    split at h
    · cases h
    · split_ifs at h
      cases h
      exact sameAt_set hp hq _
    · split_ifs at h
      cases h
      exact sameAt_set hp hq _

theorem editFile_sameAt {k : FileData → FileData} (h : t.editFile p k = .ok t') (hq : ¬ p <+: q) :
    SameAt q t t' := by
  obtain ⟨dir, x, f, hp, -, rfl⟩ := editFile_ok h
  exact sameAt_set hp hq _

theorem moveAndRename_sameAt {src destDir newName : Path}
    (h : t.moveAndRename src destDir newName = .ok t') (hsrc : ¬ src <+: q)
    (hdest : ∀ x, src.getLast? = some x → ¬ destDir ++ [newName.getLast?.getD x] <+: q) :
    SameAt q t t' := by
  rw [moveAndRename] at h
  cases hp : leafOf src with
  | none => simp [hp] at h
  | some r =>
    obtain ⟨dir, x⟩ := r
    simp only [hp] at h
    have hx : src.getLast? = some x := by
      rw [leafOf_eq_some hp]
      exact List.getLast?_concat
    split at h
    · split at h
      · cases h
      · split_ifs at h
        · cases h
          rfl
        · cases h
          have hremoved : SameAt q t (t.set dir x none) := sameAt_set hp hsrc none
          exact (Tree.find_set_label _ (hdest x hx)).trans hremoved
    · cases h

end VTree

section Server

variable {site : Site} {s : VolServer} {q : Path}

theorem VolServer.editFork_sameAt {id : Nat} {k : FileData → FileData} {t : VTree}
    (h : s.editFork id k = .ok t) (hq : ∀ ref, s.forks.lookup id = some ref → ¬ ref.path <+: q) :
    VTree.SameAt q s.tree t := by
  rw [editFork] at h
  split at h
  · cases h
  · rename_i ref href
    split_ifs at h
    exact VTree.editFile_sameAt h (hq ref href)

theorem VolServer.serve_sameAt {req : Request} (hsites : ∀ p ∈ (Call.vol req).sites, ¬ p <+: q)
    (hedits : ∀ id ref, (Call.vol req).edits = some id → s.forks.lookup id = some ref →
      ¬ ref.path <+: q) :
    VTree.SameAt q s.tree (s.serve req).2.tree := by
  rw [serve]
  cases h : s.handle req with
  | error r => rfl
  | ok r =>
    obtain ⟨info, s'⟩ := r
    cases req with
    | createFile hard w =>
      obtain ⟨p, hp, h⟩ := named_bind_ok h
      exact VTree.createFile_sameAt (setTree_ok h).1 (hsites p hp)
    | delete w =>
      obtain ⟨p, hp, h⟩ := named_bind_ok h
      exact VTree.delete_sameAt (setTree_ok h).1 (hsites p hp)
    | moveAndRename a c n =>
      obtain ⟨src, ha, h⟩ := named_bind_ok h
      obtain ⟨dir, hc, h⟩ := named_bind_ok h
      obtain ⟨m, hn, h⟩ := named_bind_ok h
      apply VTree.moveAndRename_sameAt (setTree_ok h).1 (hsites src (.inl ha))
      exact fun x hx => hsites _ (.inr ⟨src, dir, m, x, ha, hc, hn, hx, rfl⟩)
    | openFork write w =>
      obtain ⟨p, -, h⟩ := named_bind_ok h
      obtain ⟨f, -, -, rfl⟩ := openFork_ok h
      rfl
    | closeFork id =>
      simp only [handle] at h
      split_ifs at h
      cases h
      rfl
    | setForkLen id len => exact editFork_sameAt (setTree_ok h).1 fun ref => hedits id ref rfl
    | writeExt id off data => exact editFork_sameAt (setTree_ok h).1 fun ref => hedits id ref rfl
    | setFinderInfo w info =>
      obtain ⟨p, hp, h⟩ := named_bind_ok h
      exact VTree.setFinderInfo_sameAt (setTree_ok h).1 (hsites p hp)

theorem Site.openFork_tree (s : VolServer) (write : Bool) (path : Bytes) :
    (Site.openFork s write path).2.tree = s.tree := by
  rw [Site.openFork]
  split
  · rfl
  · split
    · rename_i h
      obtain ⟨p, -, h⟩ := VolServer.named_bind_ok h
      obtain ⟨f, -, -, rfl⟩ := VolServer.openFork_ok h
      rfl
    · rfl

theorem Site.respond_sameAt {call : Call} (hsites : ∀ p ∈ call.sites, ¬ p <+: q)
    (hedits : ∀ id ref, call.edits = some id → s.forks.lookup id = some ref → ¬ ref.path <+: q) :
    VTree.SameAt q s.tree (site.respond s call).2.tree := by
  cases call with
  | vol req =>
    by_cases hopen : ∃ write path, req = .openFork write path
    · obtain ⟨write, path, rfl⟩ := hopen
      show VTree.SameAt q s.tree (Site.openFork s write path).2.tree
      rw [Site.openFork_tree]
      rfl
    · rw [Site.respond_vol fun write path he => hopen ⟨write, path, he⟩]
      exact VolServer.serve_sameAt hsites hedits
  | createDir w =>
    simp only [Site.respond]
    split
    · rename_i t h
      obtain ⟨p, hp, h⟩ := VolServer.named_bind_ok h
      exact VTree.createDir_sameAt h (hsites p hp)
    · rfl
  | getParms fileBitmap dirBitmap w =>
    simp only [Site.respond]
    split <;> rfl
  | readExt id off count => rfl

end Server

section Decode

/-- Two results that are the same if both are there. -/
def Agree {ε α : Type} (x y : Except ε α) : Prop :=
  ∀ a b, x = .ok a → y = .ok b → a = b

theorem Agree.refl {ε α : Type} (x : Except ε α) : Agree x x := by
  intro a b ha hb
  exact Except.ok.inj (ha.symm.trans hb)

theorem Agree.ite {ε α : Type} {c : Prop} [Decidable c] {x y x' y' : Except ε α} (h : Agree x y)
    (h' : Agree x' y') :
    Agree (if c then x else x') (if c then y else y') := by
  split
  · exact h
  · exact h'

variable (site site' : Site) (block : Bytes)

end Decode

end GoAfp
