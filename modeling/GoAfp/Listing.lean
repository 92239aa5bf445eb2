import GoAfp.Entry
import GoAfp.Path

/-! The names of a listing, used as path components. The server sends names
decomposed and may use any byte but NUL in them; `parseEntryParams` composes
them, and `builder.path` decomposes a whole path and turns its slashes into
separators. -/

namespace GoAfp

/-- What is assumed of `norm.NFD`. It works on each component of a path by
itself: a slash neither combines with what stands around it nor decomposes. -/
structure ByComponent (nfd : Bytes → Bytes) : Prop where
  nil : nfd [] = []
  slash_split : ∀ a b, nfd (a ++ slash :: b) = nfd a ++ slash :: nfd b

/-- What is assumed of `norm.NFD` and `norm.NFC` together. -/
structure Normalisers (nfd nfc : Bytes → Bytes) : Prop extends ByComponent nfd where
  nfd_nfc : ∀ s, nfd s = s → nfd (nfc s) = s

section Join

variable {α : Type} {sep : α} {c m : List α} {dir : List (List α)}

theorem intercalate_append {pre post : List (List α)} (hpre : pre ≠ []) (hpost : post ≠ []) :
    [sep].intercalate (pre ++ post) = [sep].intercalate pre ++ sep :: [sep].intercalate post := by
  induction pre with
  | nil => exact absurd rfl hpre
  | cons c pre ih =>
    cases pre with
    | nil =>
      obtain ⟨d, post, rfl⟩ := List.exists_cons_of_ne_nil hpost
      simp [List.intercalate_cons_cons]
    | cons c' pre =>
      have hrest := ih (by simp)
      rw [List.cons_append] at hrest
      rw [List.cons_append, List.cons_append, List.intercalate_cons_cons,
        List.intercalate_cons_cons, hrest]
      simp

theorem intercalate_cons_concat :
    [sep].intercalate (c :: (dir ++ [m])) = c ++ sep :: [sep].intercalate (dir ++ [m]) := by
  have h : [sep].intercalate ([c] ++ (dir ++ [m])) = [sep].intercalate [c] ++ sep ::
      [sep].intercalate (dir ++ [m]) :=
    intercalate_append (List.cons_ne_nil c []) (by simp)
  rwa [List.intercalate_singleton] at h

theorem intercalate_concat (h : dir ≠ []) :
    [sep].intercalate (dir ++ [m]) = [sep].intercalate dir ++ sep :: m := by
  rw [intercalate_append h (by simp), List.intercalate_singleton]

end Join

theorem trimSlash_of_ends {p : Bytes} (hhead : p.head? ≠ some slash)
    (hlast : p.getLast? ≠ some slash) :
    trimSlash p = p := by
  have hdrop : p.dropWhile (· = slash) = p := by
    cases p with
    | nil => rfl
    | cons x p =>
      have hx : x ≠ slash := fun he => hhead (by rw [he]; rfl)
      simp [hx]
  rw [trimSlash, hdrop, List.rdropWhile_eq_self_iff]
  intro hne hx
  apply hlast
  rw [List.getLast?_eq_getLast_of_ne_nil hne]
  exact congrArg some (of_decide_eq_true hx)

theorem trimSlash_slash (p : Bytes) : trimSlash (slash :: p) = trimSlash p := by
  simp [trimSlash]

section Join

variable {dir : Path} {m : Bytes} (hdir : ∀ c ∈ dir, c ≠ [] ∧ slash ∉ c) (hm : m ≠ [])
  (hslash : slash ∉ m)

include hdir hm hslash

theorem trimSlash_join :
    trimSlash ([slash].intercalate (dir ++ [m])) = [slash].intercalate (dir ++ [m]) := by
  apply trimSlash_of_ends
  · intro hhead
    cases dir with
    | nil =>
      rw [List.nil_append, List.intercalate_singleton] at hhead
      exact hslash (List.mem_of_head? hhead)
    | cons c dir =>
      have hc := hdir c (by simp)
      rw [List.cons_append, intercalate_cons_concat, List.head?_append_of_ne_nil _ hc.1] at hhead
      exact hc.2 (List.mem_of_head? hhead)
  · intro hlast
    by_cases hd : dir = []
    · rw [hd, List.nil_append, List.intercalate_singleton] at hlast
      exact hslash (List.mem_of_getLast? hlast)
    · rw [intercalate_concat hd, List.append_cons, List.getLast?_append_of_ne_nil _ hm] at hlast
      exact hslash (List.mem_of_getLast? hlast)

theorem trimSlash_child :
    trimSlash ([slash].intercalate dir ++ slash :: m) = [slash].intercalate (dir ++ [m]) := by
  by_cases hd : dir = []
  · have h := trimSlash_join hdir hm hslash
    subst hd
    rw [List.nil_append, List.intercalate_singleton] at h ⊢
    rw [List.intercalate_nil, List.nil_append, trimSlash_slash, h]
  · rw [← intercalate_concat hd]
    exact trimSlash_join hdir hm hslash

end Join

section Wire

variable {nfd : Bytes → Bytes} {dir : Path} {m n : Bytes} (hn : ByComponent nfd)

theorem map_intercalate {cs : Path} (h : ∀ c ∈ cs, slash ∉ c) :
    ([slash].intercalate cs).map (fun c => if c = slash then 0 else c) = [0].intercalate cs := by
  have hone (c : Bytes) (hc : slash ∉ c) : c.map (fun c => if c = slash then 0 else c) = c := by
    conv_rhs => rw [← List.map_id c]
    apply List.map_congr_left
    intro x hx
    have hne : x ≠ slash := by
      rintro rfl
      exact hc hx
    exact if_neg hne
  induction cs with
  | nil => rfl
  | cons c cs ih =>
    have hc := hone c (h c (by simp))
    cases cs with
    | nil => rw [List.intercalate_singleton, List.intercalate_singleton, hc]
    | cons d cs =>
      rw [List.intercalate_cons_cons, List.intercalate_cons_cons, List.map_append,
        List.map_append, hc, ih fun e he => h e (List.mem_cons_of_mem c he)]
      rfl

include hn

theorem ByComponent.intercalate {cs : List Bytes} (h : cs ≠ []) :
    nfd ([slash].intercalate cs) = [slash].intercalate (cs.map nfd) := by
  induction cs with
  | nil => exact absurd rfl h
  | cons c cs ih =>
    cases cs with
    | nil => rw [List.map_singleton, List.intercalate_singleton, List.intercalate_singleton]
    | cons d cs =>
      have hrest := ih (by simp)
      rw [List.map_cons] at hrest
      rw [List.map_cons, List.map_cons, List.intercalate_cons_cons, List.intercalate_cons_cons,
        List.append_assoc, List.singleton_append, hn.slash_split, hrest]
      simp

/-- A slash in the composed name would be one in the name itself. -/
theorem ByComponent.slash_of_nfd (h : slash ∈ m) : slash ∈ nfd m := by
  obtain ⟨a, b, rfl⟩ := List.append_of_mem h
  rw [hn.slash_split]
  simp

theorem wirePath_child (hdir : ∀ c ∈ dir, c ≠ [] ∧ slash ∉ c ∧ nfd c = c) (hm : nfd m = n)
    (hne : n ≠ []) (hslash : slash ∉ n) :
    wirePath nfd ([slash].intercalate dir ++ slash :: m) = [0].intercalate (dir ++ [n]) := by
  have hm₀ : m ≠ [] := by
    rintro rfl
    exact hne (hm.symm.trans hn.nil)
  have hms : slash ∉ m := fun h => hslash (hm ▸ hn.slash_of_nfd h)
  have hfree : ∀ c ∈ dir ++ [n], slash ∉ c :=
    List.forall_mem_append.mpr ⟨fun c hc => (hdir c hc).2.1, List.forall_mem_singleton.mpr hslash⟩
  have hdecomposed : (dir ++ [m]).map nfd = dir ++ [n] := by
    rw [List.map_append, List.map_congr_left (fun c hc => (hdir c hc).2.2), List.map_id',
      List.map_singleton, hm]
  rw [wirePath, trimSlash_child (fun c hc => ⟨(hdir c hc).1, (hdir c hc).2.1⟩) hm₀ hms,
    hn.intercalate (by simp), hdecomposed, map_intercalate hfree]

omit hn in
theorem slash_notMem_wirePath (p : Bytes) : slash ∉ wirePath nfd p := by
  intro h
  obtain ⟨c, -, hc⟩ := List.mem_map.mp h
  split_ifs at hc with he
  · exact absurd hc (by decide)
  · exact he hc

/-- A component on the wire: no bytes are left for a slash in the name. -/
theorem reads_child_iff (hdir : ∀ c ∈ dir, c ≠ [] ∧ slash ∉ c ∧ nfd c = c) (hm : nfd m = n)
    (hne : n ≠ []) (hnul : 0 ∉ n) :
    Reader.Reads readPathname (putPath nfd ([slash].intercalate dir ++ slash :: m))
        (kFPUTF8Name, utf8PathHint, dir ++ [n]) ↔
      slash ∉ n ∧ (∀ c ∈ dir, 0 ∉ c) ∧ ([0].intercalate (dir ++ [n])).length < 65536 := by
  rw [reads_putPath_iff]
  constructor
  · rintro ⟨hlen, hsplit⟩
    have hjoin : [0].intercalate (dir ++ [n]) = wirePath nfd
        ([slash].intercalate dir ++ slash :: m) := by
      rw [← hsplit, List.intercalate_splitOn]
    refine ⟨?_, ?_, hjoin ▸ hlen⟩
    · intro h
      have hwire : slash ∉ wirePath nfd ([slash].intercalate dir ++ slash :: m) :=
        slash_notMem_wirePath _
      apply hwire
      rw [← hjoin]
      by_cases hd : dir = []
      · rwa [hd, List.nil_append, List.intercalate_singleton]
      · rw [intercalate_concat hd]
        simp [h]
    · intro c hc
      have hmem : c ∈ (wirePath nfd ([slash].intercalate dir ++ slash :: m)).splitOn 0 := by
        rw [hsplit]
        exact List.mem_append_left _ hc
      exact not_mem_of_mem_splitOn hmem
  · rintro ⟨hslash, hdir₀, hlen⟩
    have hfree : ∀ c ∈ dir ++ [n], 0 ∉ c :=
      List.forall_mem_append.mpr ⟨hdir₀, List.forall_mem_singleton.mpr hnul⟩
    rw [wirePath_child hn hdir hm hne hslash]
    exact ⟨hlen, List.splitOn_intercalate 0 hfree (by simp)⟩

end Wire

/-- An entry as listed and as the server sent it. -/
def Listed (nfc : Bytes → Bytes) (e raw : DirEntry) : Prop :=
  e = raw ∨ e = { raw with name := nfc raw.name }

namespace DirEntry

variable (nfc : Bytes → Bytes)

def renamed (e : DirEntry) : DirEntry := { e with name := nfc e.name }

theorem stored_renamed {α : Type} {x : StateM Reader α} {set : DirEntry → α → DirEntry}
    (h : ∀ e v, set (renamed nfc e) v = renamed nfc (set e v)) (e : DirEntry) :
    stored x set (renamed nfc e) = renamed nfc <$> stored x set e := by
  simp [stored, h]

theorem whenBit_renamed {bitmap bit : UInt16} {step : DirEntry → EntryM DirEntry}
    (h : ∀ e, step (renamed nfc e) = renamed nfc <$> step e) (e : DirEntry) :
    whenBit bitmap bit step (renamed nfc e) = renamed nfc <$> whenBit bitmap bit step e := by
  unfold whenBit
  split_ifs
  · exact h e
  · rw [map_pure]

theorem unixFields_renamed (e : DirEntry) :
    unixFields (renamed nfc e) = renamed nfc <$> unixFields e := by
  simp [unixFields, stored, skipped, setUid, setGid, setPermissions, renamed]

theorem trailing_renamed (isDir : Bool) (bitmap : UInt16) (e : DirEntry) :
    trailing isDir bitmap (renamed nfc e) = renamed nfc <$> trailing isDir bitmap e := by
  have hrsrc (e : DirEntry) : (if isDir then pure else skipped (Reader.u64 "ext rsrc fork len"))
      (renamed nfc e) =
      renamed nfc <$> (if isDir then pure else skipped (Reader.u64 "ext rsrc fork len")) e := by
    split_ifs
    · rw [map_pure]
    · exact stored_renamed nfc (fun _ _ => rfl) e
  rw [trailing, trailing, whenBit_renamed nfc hrsrc]
  simp only [bind_map_left, map_bind, whenBit_renamed nfc (unixFields_renamed nfc)]

theorem keeps_stored {α : Type} {x : StateM Reader α}
    (h : ∀ r : Reader, r.err ≠ none → (x.run r).2.err ≠ none) (set : DirEntry → α → DirEntry)
    (e : DirEntry) : Proc.Keeps (fun r : Reader => r.err ≠ none) (stored x set e) :=
  Proc.Keeps.bind (Proc.Keeps.liftState h) fun _ => Proc.Keeps.pure _

theorem keeps_whenBit {bitmap bit : UInt16} {step : DirEntry → EntryM DirEntry} {P : Reader → Prop}
    (h : ∀ e, Proc.Keeps P (step e)) (e : DirEntry) : Proc.Keeps P (whenBit bitmap bit step e) := by
  unfold whenBit
  split_ifs
  · exact h e
  · exact Proc.Keeps.pure e

theorem keeps_trailing (isDir : Bool) (bitmap : UInt16) (e : DirEntry) :
    Proc.Keeps (fun r : Reader => r.err ≠ none) (trailing isDir bitmap e) := by
  have hu32 (what : String) (r : Reader) (h : r.err ≠ none) :
      ((Reader.u32 what).run r).2.err ≠ none :=
    Reader.take_failed 4 what h
  have hu64 (what : String) (r : Reader) (h : r.err ≠ none) :
      ((Reader.u64 what).run r).2.err ≠ none :=
    Reader.take_failed 8 what h
  refine Proc.Keeps.bind (keeps_whenBit (fun e => ?_) e) fun e => keeps_whenBit (fun e => ?_) e
  · split_ifs
    · exact Proc.Keeps.pure e
    · exact keeps_stored (hu64 _) _ e
  · refine (keeps_stored (hu32 _) _ e).bind fun e => (keeps_stored (hu32 _) _ e).bind fun e =>
      (keeps_stored (hu32 _) _ e).bind fun e => (keeps_stored (hu32 _) _ e).bind fun e =>
        Proc.Keeps.get_bind fun r => Proc.Keeps.pure _

theorem utf8Name_renamed {block : Bytes} {e raw : DirEntry} {r r' : Reader}
    (h : (utf8Name id block e).on r = (.ok raw, r')) (herr : r'.err = none) :
    (utf8Name nfc block e).on r = (.ok (renamed nfc raw), r') := by
  obtain ⟨off, r₁, h₁, h⟩ := Proc.ok_of_on_bind h
  obtain ⟨pad, r₂, h₂, h⟩ := Proc.ok_of_on_bind h
  have hget : (get : EntryM Reader).on r₂ = (.ok r₂, r₂) := rfl
  rw [Proc.on_bind_ok hget] at h
  rw [utf8Name, Proc.on_bind_ok h₁, Proc.on_bind_ok h₂, Proc.on_bind_ok hget]
  by_cases hnone : r₂.err.isNone
  · rw [if_pos hnone] at h ⊢
    cases hname : pascal2At block (off.toNat + 4) with
    | error e => rw [hname] at h; cases h
    | ok name =>
      rw [hname] at h
      cases h
      rfl
  · -- the reader failed before, and the failure would still be there
    rw [if_neg hnone] at h
    cases h
    simp [herr] at hnone

end DirEntry

variable (nfc : Bytes → Bytes)

theorem parseEntryParams_listed {block : Bytes} {isDir : Bool} {bitmap : UInt16} {raw : DirEntry}
    (h : parseEntryParams id block isDir bitmap = .ok raw) :
    ∃ e, parseEntryParams nfc block isDir bitmap = .ok e ∧ Listed nfc e raw := by
  by_cases hbit : bitmap &&& kFPUTF8NameBit ≠ 0
  · obtain ⟨r, hrun, herr⟩ := checked_eq_ok.mp h
    obtain ⟨e₁, r₁, h₁, hrun⟩ := Proc.ok_of_on_bind hrun
    obtain ⟨e₂, r₂, h₂, h₃⟩ := Proc.ok_of_on_bind hrun
    rw [DirEntry.whenBit, if_pos hbit] at h₂
    have herr₂ : r₂.err = none := by
      by_contra hne
      have hkept := DirEntry.keeps_trailing isDir bitmap e₂ r₂ hne
      rw [h₃] at hkept
      exact hkept herr
    have hname := DirEntry.utf8Name_renamed nfc h₂ herr₂
    have htrail : (DirEntry.trailing isDir bitmap (DirEntry.renamed nfc e₂)).on r₂ =
        (.ok (DirEntry.renamed nfc raw), r) := by
      rw [DirEntry.trailing_renamed, map_eq_pure_bind, Proc.on_bind_ok h₃]
      rfl
    refine ⟨DirEntry.renamed nfc raw, checked_eq_ok.mpr ⟨r, ?_, herr⟩, Or.inr rfl⟩
    rw [DirEntry.fields, Proc.on_bind_ok h₁, DirEntry.whenBit, if_pos hbit, Proc.on_bind_ok hname]
    exact htrail
  · refine ⟨raw, ?_, Or.inl rfl⟩
    rw [← h]
    unfold parseEntryParams DirEntry.fields DirEntry.whenBit
    simp only [if_neg hbit]

theorem readEntry_listed {fileBitmap dirBitmap : UInt16} {i : Nat} {raw : DirEntry} {r r' : Reader}
    (h : (readEntry id fileBitmap dirBitmap i).on r = (.ok raw, r')) :
    ∃ e, (readEntry nfc fileBitmap dirBitmap i).on r = (.ok e, r') ∧ Listed nfc e raw := by
  obtain ⟨⟨block, isDir⟩, r₁, h₁, h⟩ := Proc.ok_of_on_bind h
  cases hp : parseEntryParams id block isDir (if isDir then dirBitmap else fileBitmap) with
  | error e =>
    simp only [hp] at h
    cases h
  | ok raw' =>
    simp only [hp] at h
    cases h
    obtain ⟨e, he, hl⟩ := parseEntryParams_listed nfc hp
    refine ⟨e, ?_, hl⟩
    rw [readEntry, Proc.on_bind_ok h₁]
    simp only [he]
    rfl

theorem readEntries_listed {fileBitmap dirBitmap : UInt16} {n i : Nat} {raws : List DirEntry}
    {r r' : Reader} (h : (readEntries id fileBitmap dirBitmap n i).on r = (.ok raws, r')) :
    ∃ es, (readEntries nfc fileBitmap dirBitmap n i).on r = (.ok es, r') ∧
      List.Forall₂ (Listed nfc) es raws := by
  induction n generalizing i raws r with
  | zero =>
    cases h
    exact ⟨[], rfl, .nil⟩
  | succ n ih =>
    obtain ⟨raw, r₁, h₁, h⟩ := Proc.ok_of_on_bind h
    obtain ⟨rest, r₂, h₂, h⟩ := Proc.ok_of_on_bind h
    cases h
    obtain ⟨e, he, hl⟩ := readEntry_listed nfc h₁
    obtain ⟨es, hes, hls⟩ := ih h₂
    refine ⟨e :: es, ?_, .cons hl hls⟩
    rw [readEntries, Proc.on_bind_ok he, Proc.on_bind_ok hes]
    rfl

theorem parseEnumerateReply_listed {payload : Bytes} {raws : List DirEntry}
    (h : parseEnumerateReply id payload = .ok raws) :
    ∃ es, parseEnumerateReply nfc payload = .ok es ∧ List.Forall₂ (Listed nfc) es raws := by
  obtain ⟨r, hrun⟩ : ∃ r, (enumerateReply id).on { b := payload } = (.ok raws, r) :=
    ⟨_, Prod.ext h rfl⟩
  obtain ⟨fileBitmap, r₁, h₁, hrun⟩ := Proc.ok_of_on_bind hrun
  obtain ⟨dirBitmap, r₂, h₂, hrun⟩ := Proc.ok_of_on_bind hrun
  obtain ⟨count, r₃, h₃, hrun⟩ := Proc.ok_of_on_bind hrun
  obtain ⟨⟨⟩, r₄, h₄, hrun⟩ := Proc.ok_of_on_bind hrun
  obtain ⟨es, hes, hl⟩ := readEntries_listed nfc hrun
  refine ⟨es, ?_, hl⟩
  rw [parseEnumerateReply, enumerateReply, Proc.on_bind_ok h₁, Proc.on_bind_ok h₂,
    Proc.on_bind_ok h₃, Proc.on_bind_ok h₄, hes]

/-- Every listed entry can be addressed below its directory unless its name
has a slash in it, or a NUL or the length spoils the whole path. -/
theorem listed_addressable_iff {nfd nfc : Bytes → Bytes} (hn : Normalisers nfd nfc)
    {payload : Bytes} {raws : List DirEntry} (h : parseEnumerateReply id payload = .ok raws) :
    ∃ es, parseEnumerateReply nfc payload = .ok es ∧
      List.Forall₂ (fun e raw => raw.name ≠ [] → 0 ∉ raw.name →
      nfd raw.name = raw.name → ∀ dir : Path, (∀ c ∈ dir, c ≠ [] ∧ slash ∉ c ∧ nfd c = c) →
        (Reader.Reads readPathname (putPath nfd ([slash].intercalate dir ++ slash :: e.name))
            (kFPUTF8Name, utf8PathHint, dir ++ [raw.name]) ↔
          slash ∉ raw.name ∧ (∀ c ∈ dir, 0 ∉ c) ∧
          ([0].intercalate (dir ++ [raw.name])).length < 65536)) es raws := by
  obtain ⟨es, hes, hl⟩ := parseEnumerateReply_listed nfc h
  refine ⟨es, hes, hl.imp ?_⟩
  intro e raw hl hne hnul hnfd dir hdir
  have hname : nfd e.name = raw.name := by
    rcases hl with rfl | rfl
    · exact hnfd
    · exact hn.nfd_nfc _ hnfd
  exact reads_child_iff hn.toByComponent hdir hname hne hnul

theorem normalisers_id : Normalisers id id := ⟨⟨rfl, fun _ _ => rfl⟩, fun _ h => h⟩

/-- An enumerate reply with one file, of which it gives the name only. -/
def replyNaming (name : Bytes) : Bytes :=
  let block :=
    putU16 6 ++ putU32 0 ++ putU32 utf8PathHint ++ putU16 (UInt16.ofNat name.length) ++ name
  putU16 kFPUTF8NameBit ++ putU16 kFPUTF8NameBit ++ putU16 1 ++
    putU16 (UInt16.ofNat (block.length + 4)) ++ [0, 0] ++ block

theorem listed_addressable_iff_readme :
    ∃ e, parseEnumerateReply id (replyNaming (ascii "README")) = .ok [e] ∧
      Reader.Reads readPathname (putPath id (ascii "docs" ++ slash :: e.name))
        (kFPUTF8Name, utf8PathHint, [ascii "docs", ascii "README"]) := by
  have hraw : parseEnumerateReply id (replyNaming (ascii "README")) = .ok
      [{ name := ascii "README", isDir := false }] := by
    decide +kernel
  obtain ⟨es, hes, hl⟩ := listed_addressable_iff normalisers_id hraw
  cases hl with
  | cons he htl =>
    cases htl
    have hiff := he (by decide) (by decide) rfl [ascii "docs"] (by decide)
    exact ⟨_, hes, hiff.mpr (by decide)⟩

/-- A server may list `a/b` as one name; below `docs` it is read back as `a`
and then `b`. -/
theorem listed_slash :
    ∃ e, parseEnumerateReply id (replyNaming (ascii "a/b")) = .ok [e] ∧ e.name = ascii "a/b" ∧
      ¬ Reader.Reads readPathname (putPath id (ascii "docs" ++ slash :: e.name))
        (kFPUTF8Name, utf8PathHint, [ascii "docs", ascii "a/b"]) ∧
      Reader.Reads readPathname (putPath id (ascii "docs" ++ slash :: e.name))
        (kFPUTF8Name, utf8PathHint, [ascii "docs", ascii "a", ascii "b"]) := by
  refine ⟨{ name := ascii "a/b", isDir := false }, by decide +kernel, rfl, ?_, ?_⟩
  · rw [reads_putPath_iff]
    decide
  · rw [reads_putPath_iff]
    decide

end GoAfp
