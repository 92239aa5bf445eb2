import Mathlib.Data.List.Infix

/-! Directory trees. A directory's entries are looked up by name, and a change
replaces, adds or removes the entry of one name in one directory. -/

namespace GoAfp

inductive Tree (ν δ φ : Type) where
  | file (f : φ)
  | dir (d : δ) (entries : List (ν × Tree ν δ φ))

section Entries

variable {ν β : Type} [DecidableEq ν]

def getEntry (es : List (ν × β)) (x : ν) : Option β :=
  es.lookup x

def setEntry (es : List (ν × β)) (x : ν) (v : Option β) : List (ν × β) :=
  (v.map (x, ·)).toList ++ es.filter (·.1 ≠ x)

theorem lookup_filter_ne (es : List (ν × β)) (x y : ν) :
    (es.filter (·.1 ≠ x)).lookup y = if y = x then none else es.lookup y := by
  induction es with
  | nil => simp
  | cons e es ih =>
    obtain ⟨a, b⟩ := e
    by_cases ha : a = x
    · rw [List.filter_cons_of_neg (by simpa using ha), ih]
      by_cases hy : y = x
      · rw [if_pos hy, if_pos hy]
      · have hya : (y == a) = false := beq_eq_false_iff_ne.mpr (ha ▸ hy)
        rw [if_neg hy, if_neg hy, List.lookup_cons, hya]
    · rw [List.filter_cons_of_pos (by simpa using ha), List.lookup_cons, List.lookup_cons, ih]
      by_cases hya : y = a
      · have hyx : y ≠ x := hya ▸ ha
        rw [if_neg hyx, if_neg hyx, beq_iff_eq.mpr hya]
      · rw [beq_eq_false_iff_ne.mpr hya]

theorem getEntry_setEntry (es : List (ν × β)) (x y : ν) (v : Option β) :
    getEntry (setEntry es x v) y = if y = x then v else getEntry es y := by
  simp only [getEntry]
  cases v with
  | none => simpa [setEntry] using lookup_filter_ne es x y
  | some b =>
    by_cases hy : y = x
    · simp [setEntry, hy]
    · have h := lookup_filter_ne es x y
      simp only [hy, if_false] at h
      simp only [setEntry, Option.map_some, Option.toList_some, List.singleton_append,
        List.lookup_cons, beq_eq_false_iff_ne.mpr hy, h, hy, if_false]

theorem setEntry_setEntry (es : List (ν × β)) (x : ν) (v w : Option β) :
    setEntry (setEntry es x v) x w = setEntry es x w := by
  cases v <;> simp [setEntry, List.filter_filter]

end Entries

namespace Tree

variable {ν δ φ : Type} [DecidableEq ν]

def find : Tree ν δ φ → List ν → Option (Tree ν δ φ)
  | t, [] => some t
  | .file _, _ :: _ => none
  | .dir _ es, x :: p =>
    match getEntry es x with
    | some t => t.find p
    | none => none

/-- The tree with `v` in place of the entry `x` of the directory at `p`. -/
def set : Tree ν δ φ → List ν → ν → Option (Tree ν δ φ) → Tree ν δ φ
  | .file f, _, _, _ => .file f
  | .dir d es, [], x, v => .dir d (setEntry es x v)
  | .dir d es, y :: p, x, v =>
    match getEntry es y with
    | some t => .dir d (setEntry es y (some (t.set p x v)))
    | none => .dir d es

theorem find_append (t : Tree ν δ φ) (p q : List ν) :
    t.find (p ++ q) = (t.find p).bind (·.find q) := by
  induction p generalizing t with
  | nil => simp [find]
  | cons x p ih =>
    cases t with
    | file f => rfl
    | dir d es =>
      simp only [List.cons_append, find]
      cases getEntry es x with
      | none => rfl
      | some t => exact ih t

theorem find_leaf {t : Tree ν δ φ} {p : List ν} {d : δ} {es : List (ν × Tree ν δ φ)}
    (h : t.find p = some (.dir d es)) (x : ν) : t.find (p ++ [x]) = getEntry es x := by
  rw [find_append, h]
  simp only [Option.bind_some, find]
  cases getEntry es x <;> rfl

theorem find_leaf_some {t t' : Tree ν δ φ} {p : List ν} {x : ν} (h : t.find (p ++ [x]) = some t') :
    ∃ d es, t.find p = some (.dir d es) ∧ getEntry es x = some t' := by
  rw [find_append] at h
  cases hp : t.find p with
  | none => simp [hp] at h
  | some t'' =>
    cases t'' with
    | file f => simp [hp, find] at h
    | dir d es =>
      refine ⟨d, es, rfl, ?_⟩
      rw [hp] at h
      simp only [Option.bind_some, find] at h
      cases hx : getEntry es x with
      | none => simp [hx] at h
      | some node => simpa [hx] using h

theorem find_set_dir {t : Tree ν δ φ} {p : List ν} {d : δ} {es : List (ν × Tree ν δ φ)}
    (h : t.find p = some (.dir d es)) (x : ν) (v : Option (Tree ν δ φ)) :
    (t.set p x v).find p = some (.dir d (setEntry es x v)) := by
  induction p generalizing t with
  | nil =>
    cases h
    rfl
  | cons y p ih =>
    cases t with
    | file f => cases h
    | dir d' es' =>
      cases hy : getEntry es' y with
      | none => simp [find, hy] at h
      | some t' =>
        simp only [find, hy] at h
        simp only [set, hy, find, getEntry_setEntry, if_true]
        exact ih h

theorem find_set_leaf {t : Tree ν δ φ} {p : List ν} {d : δ} {es : List (ν × Tree ν δ φ)}
    (h : t.find p = some (.dir d es)) (x : ν) (v : Option (Tree ν δ φ)) :
    (t.set p x v).find (p ++ [x]) = v := by
  rw [find_leaf (find_set_dir h x v), getEntry_setEntry, if_pos rfl]

/-- What an object is by itself, without the entries of a directory. -/
def label : Tree ν δ φ → φ ⊕ δ
  | .file f => .inl f
  | .dir d _ => .inr d

/-- A change of one entry leaves the objects that are not below it. -/
theorem find_set_label {t : Tree ν δ φ} {p q : List ν} {x : ν} (v : Option (Tree ν δ φ))
    (hq : ¬ p ++ [x] <+: q) :
    ((t.set p x v).find q).map label = (t.find q).map label := by
  induction q generalizing t p with
  | nil =>
    cases t with
    | file f => simp only [set]
    | dir d es =>
      cases p with
      | nil => rfl
      | cons y p =>
        simp only [set]
        split <;> rfl
  | cons z q ih =>
    cases t with
    | file f => simp only [set]
    | dir d es =>
      cases p with
      | nil =>
        have hz : z ≠ x := by
          rintro rfl
          exact hq ⟨q, rfl⟩
        simp only [set, find, getEntry_setEntry, hz, if_false]
      | cons y p =>
        cases hy : getEntry es y with
        | none => simp only [set, hy]
        | some t' =>
          by_cases hz : z = y
          · subst hz
            simp only [set, hy, find, getEntry_setEntry, if_true]
            refine ih fun hp => hq ?_
            obtain ⟨r, rfl⟩ := hp
            exact ⟨r, rfl⟩
          · simp only [set, hy, find, getEntry_setEntry, hz, if_false]

theorem find_set_none {t : Tree ν δ φ} {p q : List ν} {x : ν} (v : Option (Tree ν δ φ))
    (h : t.find q = none) (hq : ¬ p ++ [x] <+: q) : (t.set p x v).find q = none := by
  have hlabel := find_set_label (t := t) v hq
  rw [h] at hlabel
  exact Option.map_eq_none_iff.mp hlabel

theorem find_set_isSome {t t' : Tree ν δ φ} {p q : List ν} {x : ν} (h : (t.find q).isSome)
    (hq : ∀ r, q = p ++ x :: r → (t'.find r).isSome) : ((t.set p x (some t')).find q).isSome := by
  induction q generalizing t p with
  | nil => rfl
  | cons z q ih =>
    cases t with
    | file f => cases h
    | dir d es =>
      cases p with
      | nil =>
        by_cases hz : z = x
        · subst hz
          simpa only [set, find, getEntry_setEntry, if_true] using hq q rfl
        · simpa only [set, find, getEntry_setEntry, hz, if_false] using h
      | cons y p =>
        cases hy : getEntry es y with
        | none => simpa only [set, hy] using h
        | some t'' =>
          by_cases hz : z = y
          · subst hz
            simp only [find, hy] at h
            simp only [set, hy, find, getEntry_setEntry, if_true]
            refine ih h fun r hr => hq r ?_
            rw [hr]
            rfl
          · simpa only [set, hy, find, getEntry_setEntry, hz, if_false] using h

theorem set_set (t : Tree ν δ φ) (p : List ν) (x : ν) (v w : Option (Tree ν δ φ)) :
    (t.set p x v).set p x w = t.set p x w := by
  induction p generalizing t with
  | nil =>
    cases t with
    | file f => rfl
    | dir d es => simp only [set, setEntry_setEntry]
  | cons y p ih =>
    cases t with
    | file f => rfl
    | dir d es =>
      cases hy : getEntry es y with
      | none => simp only [set, hy]
      | some t' => simp only [set, hy, getEntry_setEntry, if_true, setEntry_setEntry, ih]

theorem find_isSome_of_prefix {t : Tree ν δ φ} {p q : List ν} (h : (t.find q).isSome)
    (hp : p <+: q) :
    (t.find p).isSome := by
  obtain ⟨r, rfl⟩ := hp
  rw [find_append] at h
  cases hf : t.find p with
  | none => simp [hf] at h
  | some t' => rfl

end Tree

end GoAfp
