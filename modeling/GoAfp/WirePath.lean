import GoAfp.Listing

/-! The names in a path string and the names that a server reads in the
pathname made of it. Two separators in a row on the wire stand for a step up
to the parent directory. -/

namespace GoAfp

/-- What is assumed of `norm.NFD` besides: it adds neither slashes nor NUL
bytes and makes no name empty. -/
structure Decomposition (nfd : Bytes → Bytes) : Prop extends ByComponent nfd where
  slash_mem : ∀ s, slash ∈ nfd s → slash ∈ s
  nul_mem : ∀ s, 0 ∈ nfd s → 0 ∈ s
  eq_nil : ∀ s, nfd s = [] → s = []

theorem decomposition_id : Decomposition id :=
  ⟨⟨rfl, fun _ _ => rfl⟩, fun _ h => h, fun _ h => h, fun _ h => h⟩

def pathNames (p : Bytes) : List Bytes :=
  (p.splitOn slash).filter (· ≠ [])

/-- A pathname split at its NUL bytes. The empty one has no names. -/
def splitNul (w : Bytes) : List Bytes :=
  if w = [] then [] else w.splitOn 0

/-- The volume and the path of the URL's path, in `parseTarget`. -/
def targetPath (urlPath : Bytes) : Bytes × Bytes :=
  let p := trimSlash urlPath
  if slash ∈ p then (p.takeWhile (· ≠ slash), (p.dropWhile (· ≠ slash)).drop 1) else (p, [])

section Separators

variable {α : Type} {sep : α} [DecidableEq α]

theorem nil_mem_splitOn_of_adjacent {l : List α} (h : [sep, sep] <:+: l) : [] ∈ l.splitOn sep := by
  obtain ⟨a, b, rfl⟩ := h
  have hsplit : a ++ [sep, sep] ++ b = a ++ sep :: ([] ++ sep :: b) := by simp
  rw [hsplit, List.splitOn_append_cons_self, List.splitOn_append_cons_self]
  simp

theorem adjacent_of_nil_mem_splitOn {l : List α} (hne : l ≠ []) (hhead : l.head? ≠ some sep)
    (hlast : l.getLast? ≠ some sep) (h : [] ∈ l.splitOn sep) : [sep, sep] <:+: l := by
  obtain ⟨pre, post, hsplit⟩ := List.append_of_mem h
  have hjoin : [sep].intercalate (pre ++ [] :: post) = l := by
    rw [← hsplit, List.intercalate_splitOn]
  -- the empty part is neither the first nor the last one
  by_cases hpre : pre = []
  · subst hpre
    cases post with
    | nil => exact absurd hjoin.symm hne
    | cons c post =>
      rw [List.nil_append, List.intercalate_cons_cons] at hjoin
      exact absurd (by rw [← hjoin]; rfl) hhead
  · by_cases hpost : post = []
    · rw [hpost, intercalate_append hpre (by simp)] at hjoin
      exact absurd (by rw [← hjoin]; simp) hlast
    · have hmid : [sep].intercalate ([] :: post) = sep :: [sep].intercalate post :=
        intercalate_append (List.cons_ne_nil [] []) hpost
      rw [intercalate_append hpre (by simp), hmid] at hjoin
      exact ⟨[sep].intercalate pre, [sep].intercalate post, by rw [← hjoin]; simp⟩

end Separators

theorem trimSlash_head (p : Bytes) : (trimSlash p).head? ≠ some slash := by
  intro hhead
  have hpre : trimSlash p <+: p.dropWhile (· = slash) := List.rdropWhile_prefix _ _
  obtain ⟨t, ht⟩ := hpre
  have hne : trimSlash p ≠ [] := by
    rintro he
    rw [he] at hhead
    cases hhead
  have hdrop : (p.dropWhile (· = slash)).head? = some slash := by
    rw [← ht, List.head?_append_of_ne_nil _ hne, hhead]
  have hnot := List.head?_dropWhile_not (fun c : UInt8 => decide (c = slash)) p
  rw [hdrop] at hnot
  simp at hnot

theorem trimSlash_last (p : Bytes) : (trimSlash p).getLast? ≠ some slash := by
  intro hlast
  have hne : trimSlash p ≠ [] := by
    rintro he
    rw [he] at hlast
    cases hlast
  have hnot := List.rdropWhile_last_not _ (p.dropWhile (· = slash)) hne
  rw [List.getLast?_eq_getLast_of_ne_nil hne] at hlast
  exact hnot (decide_eq_true (Option.some.inj hlast))

theorem pathNames_append (a b : Bytes) :
    pathNames (a ++ slash :: b) = pathNames a ++ pathNames b := by
  rw [pathNames, List.splitOn_append_cons_self, List.filter_append]
  rfl

theorem pathNames_dropWhile (p : Bytes) : pathNames (p.dropWhile (· = slash)) = pathNames p := by
  induction p with
  | nil => rfl
  | cons c p ih =>
    by_cases hc : c = slash
    · rw [List.dropWhile_cons_of_pos (by simpa using hc), ih, hc]
      exact (pathNames_append [] p).symm
    · rw [List.dropWhile_cons_of_neg (by simpa using hc)]

theorem pathNames_rdropWhile (p : Bytes) : pathNames (p.rdropWhile (· = slash)) = pathNames p := by
  induction p using List.reverseRecOn with
  | nil => rfl
  | append_singleton p c ih =>
    by_cases hc : c = slash
    · rw [List.rdropWhile_concat_pos _ _ _ (by simpa using hc), ih, hc, pathNames_append]
      exact (List.append_nil _).symm
    · rw [List.rdropWhile_concat_neg _ _ _ (by simpa using hc)]

theorem pathNames_trimSlash (p : Bytes) : pathNames (trimSlash p) = pathNames p := by
  rw [trimSlash, pathNames_rdropWhile, pathNames_dropWhile]

theorem mem_trimSlash {p : Bytes} {c : UInt8} (h : c ∈ trimSlash p) : c ∈ p :=
  (List.dropWhile_suffix _).subset ((List.rdropWhile_prefix _ _).subset h)

theorem mem_intercalate {sep c : UInt8} {part : Bytes} {parts : List Bytes} (hpart : part ∈ parts)
    (hc : c ∈ part) :
    c ∈ [sep].intercalate parts := by
  induction parts with
  | nil => cases hpart
  | cons d parts ih =>
    cases parts with
    | nil =>
      rw [List.intercalate_singleton]
      exact List.mem_singleton.mp hpart ▸ hc
    | cons d' parts =>
      rw [List.intercalate_cons_cons]
      rcases List.mem_cons.mp hpart with rfl | hpart
      · exact List.mem_append_left _ (List.mem_append_left _ hc)
      · exact List.mem_append_right _ (ih hpart)

theorem mem_of_mem_splitOn {sep c : UInt8} {p part : Bytes} (hpart : part ∈ p.splitOn sep)
    (hc : c ∈ part) : c ∈ p := by
  have h : c ∈ [sep].intercalate (p.splitOn sep) := mem_intercalate hpart hc
  rwa [List.intercalate_splitOn] at h

section Wire

variable {nfd : Bytes → Bytes} (hn : Decomposition nfd)

include hn

theorem wirePath_eq_intercalate (p : Bytes) :
    wirePath nfd p = [0].intercalate (((trimSlash p).splitOn slash).map nfd) := by
  have hfree : ∀ c ∈ ((trimSlash p).splitOn slash).map nfd, slash ∉ c := by
    intro c hc hs
    obtain ⟨d, hd, rfl⟩ := List.mem_map.mp hc
    exact not_mem_of_mem_splitOn hd (hn.slash_mem d hs)
  have hjoin := hn.intercalate (List.splitOn_ne_nil slash (trimSlash p))
  rw [List.intercalate_splitOn] at hjoin
  rw [wirePath, hjoin, map_intercalate hfree]

theorem splitOn_wirePath {p : Bytes} (hp : 0 ∉ p) :
    (wirePath nfd p).splitOn 0 = ((trimSlash p).splitOn slash).map nfd := by
  rw [wirePath_eq_intercalate hn]
  refine List.splitOn_intercalate 0 ?_ (by simp [List.splitOn_ne_nil])
  intro c hc h0
  obtain ⟨d, hd, rfl⟩ := List.mem_map.mp hc
  exact hp (mem_trimSlash (mem_of_mem_splitOn hd (hn.nul_mem d h0)))

theorem nul_infix_wirePath {p : Bytes} (h : [slash, slash] <:+: trimSlash p) :
    [0, 0] <:+: wirePath nfd p := by
  obtain ⟨a, b, hab⟩ := h
  have hsplit : trimSlash p = a ++ slash :: ([] ++ slash :: b) := by simp [← hab]
  rw [wirePath, hsplit, hn.slash_split, hn.slash_split, hn.nil, List.nil_append, List.map_append,
    List.map_cons, List.map_cons, if_pos rfl, List.append_cons, List.append_cons,
    List.append_assoc (List.map _ _)]
  exact List.infix_append _ _ _

/-- A path string names on the wire what it names to its caller iff it has no
two slashes in a row, those at its ends aside. -/
theorem wirePath_names_iff {p : Bytes} (hp : 0 ∉ p) :
    (splitNul (wirePath nfd p) = (pathNames p).map nfd ∧ ¬ [0, 0] <:+: wirePath nfd p) ↔
      ¬ [slash, slash] <:+: trimSlash p := by
  constructor
  · rintro ⟨-, hnul⟩ hslash
    exact hnul (nul_infix_wirePath hn hslash)
  · intro hslash
    by_cases hq : trimSlash p = []
    · have hwire : wirePath nfd p = [] := by rw [wirePath, hq, hn.nil, List.map_nil]
      have hnames : pathNames p = [] := by
        rw [← pathNames_trimSlash, hq]
        rfl
      rw [hwire, hnames]
      exact ⟨rfl, by decide⟩
    · have hfull : [] ∉ (trimSlash p).splitOn slash :=
        fun h => hslash (adjacent_of_nil_mem_splitOn hq (trimSlash_head p) (trimSlash_last p) h)
      have hnames : pathNames p = (trimSlash p).splitOn slash := by
        rw [← pathNames_trimSlash, pathNames, List.filter_eq_self]
        intro c hc
        simp only [ne_eq, decide_not, Bool.not_eq_eq_eq_not, Bool.not_true, decide_eq_false_iff_not]
        rintro rfl
        exact hfull hc
      have hsplit := splitOn_wirePath hn hp
      have hnil : [] ∉ (wirePath nfd p).splitOn 0 := by
        rw [hsplit]
        intro h
        obtain ⟨c, hc, he⟩ := List.mem_map.mp h
        exact hfull (hn.eq_nil c he ▸ hc)
      refine ⟨?_, fun h => hnil (nil_mem_splitOn_of_adjacent h)⟩
      rw [splitNul, if_neg, hsplit, hnames]
      intro hwire
      rw [hwire] at hnil
      exact hnil (by simp)

end Wire

theorem wirePath_names_iff_docs :
    0 ∉ ascii "/docs/a/" ∧
      splitNul (wirePath id (ascii "/docs/a/")) = [ascii "docs", ascii "a"] := by
  have hp : 0 ∉ ascii "/docs/a/" := by decide
  obtain ⟨hsplit, -⟩ := (wirePath_names_iff decomposition_id hp).mpr (by decide)
  exact ⟨hp, hsplit⟩

/-- To delete "a//b" is to delete "b": the server takes the two separators
after "a" for a step back up. -/
theorem wirePath_doubled_slash :
    targetPath (ascii "/vol/a//b") = (ascii "vol", ascii "a//b") ∧
      pathNames (ascii "a//b") = [ascii "a", ascii "b"] ∧
      wirePath id (ascii "a//b") = ascii "a" ++ [0, 0] ++ ascii "b" ∧
      splitNul (wirePath id (ascii "a//b")) ≠ (pathNames (ascii "a//b")).map id ∧
      wireNames (wirePath id (ascii "a//b")) = some [ascii "b"] := by
  decide

end GoAfp
