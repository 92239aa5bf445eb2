import GoAfp.Blocks
import GoAfp.MkdirAll

/-! The paths that `resolve` gives, as lexical cleaning of joined elements, and
how changes of the base compose. -/

namespace GoAfp

/-- `path.Clean`: a rooted path keeps its slash and drops the `..` that would
climb over the root, any other one keeps them in front. -/
def pathClean (p : Bytes) : Bytes :=
  if p.head? = some slash then
    slash :: [slash].intercalate ((p.tail.splitOn slash).foldl cleanStep [])
  else
    let (up, names) := climb p
    let out := [slash].intercalate (List.replicate up (ascii "..") ++ names)
    if out = [] then ascii "." else out

def joinElem (buf e : Bytes) : Bytes :=
  if buf = [] then e else buf ++ slash :: e

def pathJoin (elem : List Bytes) : Bytes :=
  let buf := elem.foldl joinElem []
  if buf = [] then [] else pathClean buf

/-- What `resolve` takes the leading slash from. -/
theorem pathJoin_resolve (fs : FS) (name : Bytes) :
    pathJoin [[slash], fs.base, name] = slash :: fs.resolve name := by
  have hbuf : [[slash], fs.base, name].foldl joinElem [] = slash ::
      ([] ++ slash :: (fs.base ++ slash :: name)) := by
    simp [joinElem]
  have hsplit : ([] ++ slash :: (fs.base ++ slash :: name)).splitOn slash =
      [] :: (fs.base.splitOn slash ++ name.splitOn slash) := by
    rw [List.splitOn_append_cons_self, List.splitOn_append_cons_self, List.splitOn_nil]
    rfl
  rw [pathJoin, hbuf, if_neg (List.cons_ne_nil _ _), pathClean, if_pos List.head?_cons,
    List.tail_cons, hsplit]
  rw [FS.resolve, joinRooted, List.foldl_cons]
  simp [cleanStep]

structure CanonicalPath (p : Bytes) : Prop where
  leading : p.head? ≠ some slash
  trailing : p.getLast? ≠ some slash
  names : ∀ c ∈ components p, IsName c

section Names

variable {cs : List Bytes} (h : ∀ c ∈ cs, IsName c)

include h

theorem trimSlash_intercalate : trimSlash ([slash].intercalate cs) = [slash].intercalate cs := by
  rcases List.eq_nil_or_concat' cs with rfl | ⟨dir, m, rfl⟩
  · rfl
  · have hm : IsName m := h m (by simp)
    apply trimSlash_join (fun c hc => ?_) hm.nonempty hm.slash
    have hc : IsName c := h c (List.mem_append_left [m] hc)
    exact ⟨hc.nonempty, hc.slash⟩

theorem canonicalPath_intercalate : CanonicalPath ([slash].intercalate cs) where
  leading := by
    rw [← trimSlash_intercalate h]
    exact trimSlash_head _
  trailing := by
    rw [← trimSlash_intercalate h]
    exact trimSlash_last _
  names := by
    rw [components_intercalate h]
    exact h

omit h in
theorem splitPath_intercalate {dir : List Bytes} {m : Bytes} (h : ∀ c ∈ dir ++ [m], IsName c) :
    splitPath ([slash].intercalate (dir ++ [m])) = ([slash].intercalate dir, m) := by
  apply splitPath_of_parentAndLast
  refine ⟨(h m (by simp)).slash, ?_⟩
  rw [trimSlash_intercalate h]
  by_cases hdir : dir = []
  · subst hdir
    exact .inr ⟨rfl, by simp⟩
  · exact .inl (intercalate_concat hdir)

end Names

theorem chroot_resolve (fs : FS) (a b : Bytes) :
    (fs.chroot a).resolve b = fs.resolve (a ++ slash :: b) := by
  have hsplit : [fs.base, a ++ slash :: b].flatMap (List.splitOn slash) =
      [fs.base, a].flatMap (List.splitOn slash) ++ b.splitOn slash := by
    simp [List.splitOn_append_cons_self]
  have hnames : ∀ c ∈ ([fs.base, a].flatMap (List.splitOn slash)).foldl cleanStep [], IsName c := by
    apply names_foldl (by simp)
    intro c hc
    obtain ⟨p, -, hp⟩ := List.mem_flatMap.mp hc
    exact not_mem_of_mem_splitOn hp
  have hbase : (fs.chroot a).base = [slash].intercalate
      (([fs.base, a].flatMap (List.splitOn slash)).foldl cleanStep []) :=
    rfl
  rw [FS.resolve_of_names hnames hbase, FS.resolve, joinRooted, hsplit, List.foldl_append]

/-- From any base: the path of a name is canonical, so that the components
`MkdirAll` splits it into and the parent and last component `Rename` takes are
names; at the root it is its own path; and a name in a chroot has the path of
the two names joined. -/
theorem resolve_canonical (fs : FS) (a b : Bytes) :
    CanonicalPath (fs.resolve a) ∧
    (fs.resolve a ≠ [] → (∀ c ∈ (fs.resolve a).splitOn slash, IsName c) ∧
      CanonicalPath (splitPath (fs.resolve a)).1 ∧ IsName (splitPath (fs.resolve a)).2) ∧
    FS.root.resolve (fs.resolve a) = fs.resolve a ∧
    (fs.chroot a).resolve b = fs.resolve (a ++ slash :: b) := by
  obtain ⟨cs, hcs, hres⟩ := fs.resolve_names a
  have hcanon := canonicalPath_intercalate hcs
  refine ⟨hres ▸ hcanon, fun hne => ?_, ?_, chroot_resolve fs a b⟩
  · have hparts := hcanon.names
    rw [← hres, components, if_neg hne] at hparts
    refine ⟨hparts, ?_⟩
    rcases List.eq_nil_or_concat' cs with rfl | ⟨dir, m, rfl⟩
    · exact absurd hres hne
    · rw [hres, splitPath_intercalate hcs]
      exact ⟨canonicalPath_intercalate fun c hc => hcs c (List.mem_append_left [m] hc),
        hcs m (by simp)⟩
  · have hroot : FS.root.base = [slash].intercalate [] := rfl
    rw [FS.resolve_of_names (by simp) hroot, hres, clean_intercalate hcs]

end GoAfp
