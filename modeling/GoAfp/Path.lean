import Mathlib.Data.List.DropRight
import GoAfp.Wire

/-! Path strings of the file system, of the AFP volume and on the wire. Go's
strings are byte strings. -/

namespace GoAfp

def slash : UInt8 := 47

def cleanStep (acc : List Bytes) (c : Bytes) : List Bytes :=
  if c = [] ∨ c = ascii "." then acc
  else if c = ascii ".." then acc.dropLast
  else acc ++ [c]

/-- `strings.TrimPrefix(path.Join("/", elem...), "/")`. -/
def joinRooted (elem : List Bytes) : Bytes :=
  [slash].intercalate ((elem.flatMap (List.splitOn slash)).foldl cleanStep [])

/-- `strings.Trim(p, "/")`. -/
def trimSlash (p : Bytes) : Bytes :=
  (p.dropWhile (· = slash)).rdropWhile (· = slash)

def splitPath (p : Bytes) : Bytes × Bytes :=
  let p := trimSlash p
  if slash ∈ p then ((p.rdropWhile (· ≠ slash)).dropLast, p.rtakeWhile (· ≠ slash)) else ([], p)

/-- The pathname that `builder.path` sends, after its length. -/
def wirePath (nfd : Bytes → Bytes) (p : Bytes) : Bytes :=
  (nfd (trimSlash p)).map fun c => if c = slash then 0 else c

def kFPUTF8Name : UInt8 := 3

def utf8PathHint : UInt32 := 0x08000103

def pathField (wire : Bytes) : Bytes :=
  [kFPUTF8Name] ++ (putU32 utf8PathHint ++ (putU16 (UInt16.ofNat wire.length) ++ wire))

/-- What `builder.path` appends to a request. -/
def putPath (nfd : Bytes → Bytes) (p : Bytes) : Bytes :=
  pathField (wirePath nfd p)

abbrev Path := List Bytes

/-- A pathname by its format: path type, encoding hint, length and bytes. -/
def readWirePath : StateM Reader (UInt8 × UInt32 × Bytes) := do
  let kind ← Reader.u8 "path type"
  let hint ← Reader.u32 "path hint"
  let wire ← Reader.sized "path length" "path"
  return (kind, hint, wire)

/-- The names of a pathname are separated by NUL bytes. -/
def readPathname : StateM Reader (UInt8 × UInt32 × Path) := do
  let (kind, hint, wire) ← readWirePath
  return (kind, hint, wire.splitOn 0)

def descend (acc : Path) (name : Bytes) : Path :=
  if name = [] then acc.dropLast else acc ++ [name]

/-- The path a server reads, if its length fits in the length field. -/
def wireNames (w : Bytes) : Option Path :=
  if w.length < 65536 then
    some (if w = [] then [] else (w.splitOn 0).foldl descend [])
  else none

def leafOf (p : Path) : Option (Path × Bytes) :=
  p.getLast?.map fun x => (p.dropLast, x)

theorem leafOf_eq_some {p dir : Path} {x : Bytes} (h : leafOf p = some (dir, x)) :
    p = dir ++ [x] := by
  cases hx : p.getLast? with
  | none => simp [leafOf, hx] at h
  | some y =>
    simp only [leafOf, hx, Option.map_some, Option.some.injEq, Prod.mk.injEq] at h
    obtain ⟨rfl, rfl⟩ := h
    exact (List.dropLast_append_getLast? y hx).symm

theorem not_mem_of_mem_splitOn {α : Type*} [DecidableEq α] {x : α} {xs l : List α}
    (h : l ∈ xs.splitOn x) :
    x ∉ l := by
  induction xs generalizing l with
  | nil =>
    rw [List.splitOn_nil, List.mem_singleton] at h
    simp [h]
  | cons y ys ih =>
    rw [List.splitOn_cons_eq_if_modifyHead] at h
    split_ifs at h with hy
    · rcases List.mem_cons.mp h with rfl | h
      · simp
      · exact ih h
    · have hne : x ≠ y := fun he => hy (by simp [he])
      cases hs : ys.splitOn x with
      | nil => exact absurd hs (List.splitOn_ne_nil _ _)
      | cons m ms =>
        rw [hs] at h ih
        rcases List.mem_cons.mp h with rfl | h
        · simp [hne, ih (List.mem_cons_self ..)]
        · exact ih (List.mem_cons_of_mem _ h)

theorem reads_wirePath {wire : Bytes} (h : wire.length < 65536) :
    Reader.Reads readWirePath (pathField wire) (kFPUTF8Name, utf8PathHint, wire) := by
  have hr : Reader.Reads readWirePath _ (kFPUTF8Name, utf8PathHint, wire) :=
    (Reader.reads_u8 kFPUTF8Name "path type").bind ((Reader.reads_u32 utf8PathHint "path hint").bind
      ((Reader.reads_sized "path length" "path" h).bind (Reader.Reads.pure _)))
  rwa [List.append_nil] at hr

theorem reads_pathname {wire : Bytes} (h : wire.length < 65536) :
    Reader.Reads readPathname (pathField wire) (kFPUTF8Name, utf8PathHint, wire.splitOn 0) := by
  have hr : Reader.Reads readPathname _ (kFPUTF8Name, utf8PathHint, wire.splitOn 0) :=
    (reads_wirePath h).bind (Reader.Reads.pure _)
  rwa [List.append_nil] at hr

section Path

variable (nfd : Bytes → Bytes) (p : Bytes)

/-- As much of the pathname as its length field covers. -/
def sentPath : Bytes :=
  (wirePath nfd p).take ((wirePath nfd p).length % 65536)

def unsentPath : Bytes :=
  (wirePath nfd p).drop ((wirePath nfd p).length % 65536)

theorem sentPath_length : (sentPath nfd p).length = (wirePath nfd p).length % 65536 := by
  rw [sentPath, List.length_take]
  omega

theorem sentPath_length_lt : (sentPath nfd p).length < 65536 := by
  rw [sentPath_length]
  omega

theorem sentPath_append_unsentPath : sentPath nfd p ++ unsentPath nfd p = wirePath nfd p :=
  List.take_append_drop _ _

theorem putPath_eq : putPath nfd p = pathField (sentPath nfd p) ++ unsentPath nfd p := by
  have hfield : UInt16.ofNat (sentPath nfd p).length = UInt16.ofNat (wirePath nfd p).length := by
    rw [sentPath_length]
    exact UInt16.ofNat_mod_size
  rw [putPath, pathField, pathField, hfield]
  simp only [List.append_assoc, sentPath_append_unsentPath]

variable {nfd p}

theorem sentPath_eq_iff : sentPath nfd p = wirePath nfd p ↔ (wirePath nfd p).length < 65536 := by
  constructor
  · intro h
    rw [← h]
    exact sentPath_length_lt nfd p
  · intro h
    rw [sentPath, Nat.mod_eq_of_lt h, List.take_length]

theorem unsentPath_eq_nil (h : (wirePath nfd p).length < 65536) : unsentPath nfd p = [] := by
  rw [unsentPath, Nat.mod_eq_of_lt h, List.drop_length]

end Path

/-- The length field is 16 bits wide, so a longer pathname is cut short. -/
theorem reads_putPath_iff {nfd : Bytes → Bytes} {p : Bytes} {names : Path} :
    Reader.Reads readPathname (putPath nfd p) (kFPUTF8Name, utf8PathHint, names) ↔
      (wirePath nfd p).length < 65536 ∧ (wirePath nfd p).splitOn 0 = names := by
  constructor
  · intro h
    have hread := reads_pathname (sentPath_length_lt nfd p) [] (unsentPath nfd p)
    have hfull := h [] []
    rw [List.append_nil] at hfull
    rw [← putPath_eq] at hread
    have hsame := hread.symm.trans hfull
    have hpos : (pathField (sentPath nfd p)).length = (putPath nfd p).length := by
      simpa using congrArg (fun x => x.2.pos) hsame
    have hnames : (sentPath nfd p).splitOn 0 = names := congrArg (fun x => x.1.2.2) hsame
    have hnil : unsentPath nfd p = [] := by
      rw [putPath_eq, List.length_append] at hpos
      exact List.length_eq_zero_iff.mp (by omega)
    have hsent : sentPath nfd p = wirePath nfd p := by
      rw [← sentPath_append_unsentPath nfd p, hnil, List.append_nil]
    exact ⟨sentPath_eq_iff.mp hsent, hsent ▸ hnames⟩
  · rintro ⟨hlen, rfl⟩
    exact reads_pathname hlen

end GoAfp
