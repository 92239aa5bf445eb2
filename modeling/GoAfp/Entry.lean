import GoAfp.Proc
import GoAfp.Wire

/-! File and directory parameters as the server packs them, and the replies
to an enumeration. `norm.NFC` is the parameter `nfc`. -/

namespace GoAfp

def kFPAttributeBit : UInt16 := 0x0001
def kFPParentDirIDBit : UInt16 := 0x0002
def kFPCreateDateBit : UInt16 := 0x0004
def kFPModDateBit : UInt16 := 0x0008
def kFPBackupDateBit : UInt16 := 0x0010
def kFPFinderInfoBit : UInt16 := 0x0020
def kFPLongNameBit : UInt16 := 0x0040
def kFPShortNameBit : UInt16 := 0x0080
def kFPNodeIDBit : UInt16 := 0x0100
def kFPUTF8NameBit : UInt16 := 0x2000
def kFPUnixPrivsBit : UInt16 := 0x8000

def kFPOffspringCountBit : UInt16 := 0x0200
def kFPOwnerIDBit : UInt16 := 0x0400
def kFPGroupIDBit : UInt16 := 0x0800
def kFPAccessRightsBit : UInt16 := 0x1000

def kFPDataForkLenBit : UInt16 := 0x0200
def kFPRsrcForkLenBit : UInt16 := 0x0400
def kFPExtDataForkLenBit : UInt16 := 0x0800
def kFPLaunchLimitBit : UInt16 := 0x1000
def kFPExtRsrcForkLenBit : UInt16 := 0x4000

structure UnixPrivs where
  uid : UInt32
  gid : UInt32
  permissions : UInt32
  deriving DecidableEq, Repr

/-- Times are Unix seconds, `none` for Go's zero time. -/
structure DirEntry where
  name : Bytes := []
  isDir : Bool
  size : UInt64 := 0
  nodeID : UInt32 := 0
  parentDirID : UInt32 := 0
  offspring : UInt16 := 0
  createTime : Option Int := none
  modTime : Option Int := none
  unixPrivs : UnixPrivs := ⟨0, 0, 0⟩
  hasUnix : Bool := false
  isSymlink : Bool := false
  deriving DecidableEq, Repr

def afpEpochDelta : Int := 946684800

def afpDate (v : UInt32) : Option Int := some (v.toInt32.toInt + afpEpochDelta)

/-- The reader keeps its first failure; a bad name offset returns at once. -/
abbrev EntryM := Proc Reader AfpErr

namespace DirEntry

variable {α : Type}

def whenBit (bitmap bit : UInt16) (step : DirEntry → EntryM DirEntry) (e : DirEntry) :
    EntryM DirEntry :=
  if bitmap &&& bit ≠ 0 then step e else pure e

def stored (x : StateM Reader α) (set : DirEntry → α → DirEntry) (e : DirEntry) :
    EntryM DirEntry := do
  let v ← x
  return set e v

def skipped (x : StateM Reader α) : DirEntry → EntryM DirEntry := stored x fun e _ => e

def setUid (e : DirEntry) (v : UInt32) : DirEntry :=
  { e with unixPrivs := { e.unixPrivs with uid := v } }
def setGid (e : DirEntry) (v : UInt32) : DirEntry :=
  { e with unixPrivs := { e.unixPrivs with gid := v } }
def setPermissions (e : DirEntry) (v : UInt32) : DirEntry :=
  { e with unixPrivs := { e.unixPrivs with permissions := v } }

/-- A file whose Finder type is "slnk" is a symbolic link. -/
def setFinderInfo (e : DirEntry) (fi : Bytes) : DirEntry :=
  if fi.length ≥ 4 ∧ fi.take 4 = ascii "slnk" then { e with isSymlink := true } else e

def longName (block : Bytes) (e : DirEntry) : EntryM DirEntry := do
  let off ← Reader.u16 "long name offset"
  let r ← get
  if r.err.isNone then
    let name ← pascalAt block off.toNat
    return { e with name := name }
  return e

/-- The offset points at a 4-byte encoding hint before the name. -/
def utf8Name (nfc : Bytes → Bytes) (block : Bytes) (e : DirEntry) : EntryM DirEntry := do
  let off ← Reader.u16 "utf8 name offset"
  let _ ← Reader.u32 "utf8 name pad"
  let r ← get
  if r.err.isNone then
    let name ← pascal2At block (off.toNat + 4)
    return { e with name := nfc name }
  return e

def unixFields (e : DirEntry) : EntryM DirEntry := do
  let e ← stored (Reader.u32 "unix uid") setUid e
  let e ← stored (Reader.u32 "unix gid") setGid e
  let e ← stored (Reader.u32 "unix permissions") setPermissions e
  let e ← skipped (Reader.u32 "unix ua_permissions") e
  let r ← get
  return { e with hasUnix := r.err.isNone }

/-- The fields before the UTF-8 name. -/
def leading (block : Bytes) (isDir : Bool) (bitmap : UInt16) (e : DirEntry) : EntryM DirEntry := do
  let e ← whenBit bitmap kFPAttributeBit (skipped (Reader.u16 "attributes")) e
  let e ← whenBit bitmap kFPParentDirIDBit
    (stored (Reader.u32 "parent dir id") fun e v => { e with parentDirID := v }) e
  let e ← whenBit bitmap kFPCreateDateBit
    (stored (Reader.u32 "create date") fun e v => { e with createTime := afpDate v }) e
  let e ← whenBit bitmap kFPModDateBit
    (stored (Reader.u32 "mod date") fun e v => { e with modTime := afpDate v }) e
  let e ← whenBit bitmap kFPBackupDateBit (skipped (Reader.u32 "backup date")) e
  let e ← whenBit bitmap kFPFinderInfoBit (stored (Reader.take 32 "finder info") setFinderInfo) e
  let e ← whenBit bitmap kFPLongNameBit (longName block) e
  let e ← whenBit bitmap kFPShortNameBit (skipped (Reader.u16 "short name offset")) e
  let e ← whenBit bitmap kFPNodeIDBit
    (stored (Reader.u32 "node id") fun e v => { e with nodeID := v }) e
  if isDir then
    let e ← whenBit bitmap kFPOffspringCountBit
      (stored (Reader.u16 "offspring count") fun e v => { e with offspring := v }) e
    let e ← whenBit bitmap kFPOwnerIDBit (stored (Reader.u32 "owner id") setUid) e
    let e ← whenBit bitmap kFPGroupIDBit (stored (Reader.u32 "group id") setGid) e
    whenBit bitmap kFPAccessRightsBit (skipped (Reader.u32 "access rights")) e
  else
    let e ← whenBit bitmap kFPDataForkLenBit
      (stored (Reader.u32 "data fork len") fun e v => { e with size := v.toUInt64 }) e
    let e ← whenBit bitmap kFPRsrcForkLenBit (skipped (Reader.u32 "rsrc fork len")) e
    let e ← whenBit bitmap kFPExtDataForkLenBit
      (stored (Reader.u64 "ext data fork len") fun e v => { e with size := v }) e
    whenBit bitmap kFPLaunchLimitBit (skipped (Reader.u16 "launch limit")) e

/-- The fields after it. -/
def trailing (isDir : Bool) (bitmap : UInt16) (e : DirEntry) : EntryM DirEntry := do
  let e ← whenBit bitmap kFPExtRsrcForkLenBit
    (if isDir then pure else skipped (Reader.u64 "ext rsrc fork len")) e
  whenBit bitmap kFPUnixPrivsBit unixFields e

def fields (nfc : Bytes → Bytes) (block : Bytes) (isDir : Bool) (bitmap : UInt16) (e : DirEntry) :
    EntryM DirEntry := do
  let e ← leading block isDir bitmap e
  let e ← whenBit bitmap kFPUTF8NameBit (utf8Name nfc block) e
  trailing isDir bitmap e

end DirEntry

/-- Fails as the reader did, once all fields were tried. -/
def checked {α : Type} : Except AfpErr α × Reader → Except AfpErr α
  | (.ok _, { err := some e, .. }) => .error e
  | (v, _) => v

theorem checked_eq_ok {α : Type} {x : Except AfpErr α × Reader} {v : α} :
    checked x = .ok v ↔ ∃ r, x = (.ok v, r) ∧ r.err = none := by
  obtain ⟨_ | w, b, pos, _ | e⟩ := x <;> simp [checked]

def parseEntryParams (nfc : Bytes → Bytes) (block : Bytes) (isDir : Bool) (bitmap : UInt16) :
    Except AfpErr DirEntry :=
  checked ((DirEntry.fields nfc block isDir bitmap { isDir := isDir }).on { b := block })

inductive ListErr
  | reply (e : AfpErr)
  | entry (i : Nat) (e : AfpErr)
  deriving DecidableEq, Repr

abbrev ListM := Proc Reader ListErr

def ListM.check : ListM Unit := do
  match (← get).err with
  | some e => throw (.reply e)
  | none => pure ()

/-- An entry's parameter block and whether it is a directory's. -/
def entryBlock (i : Nat) : ListM (Bytes × Bool) := do
  let length ← Reader.u16 "entry length"
  let kind ← Reader.u8 "entry isdir"
  let _ ← Reader.u8 "entry pad"
  ListM.check
  if length.toNat < 4 then
    throw (.reply (.text "afp: enumerate entry %d has bogus length %d" [i, length.toNat]))
  let block ← Reader.take (length.toNat - 4) "entry parameters"
  ListM.check
  return (block, kind ≠ 0)

def readEntry (nfc : Bytes → Bytes) (fileBitmap dirBitmap : UInt16) (i : Nat) : ListM DirEntry := do
  let (block, isDir) ← entryBlock i
  match parseEntryParams nfc block isDir (if isDir then dirBitmap else fileBitmap) with
  | .ok e => return e
  | .error e => throw (.entry i e)

def readEntries (nfc : Bytes → Bytes) (fileBitmap dirBitmap : UInt16) :
    Nat → Nat → ListM (List DirEntry)
  | 0, _ => return []
  | n + 1, i => do
    let e ← readEntry nfc fileBitmap dirBitmap i
    let rest ← readEntries nfc fileBitmap dirBitmap n (i + 1)
    return e :: rest

def enumerateReply (nfc : Bytes → Bytes) : ListM (List DirEntry) := do
  let fileBitmap ← Reader.u16 "file bitmap"
  let dirBitmap ← Reader.u16 "dir bitmap"
  let count ← Reader.u16 "entry count"
  ListM.check
  readEntries nfc fileBitmap dirBitmap count.toNat 0

def parseEnumerateReply (nfc : Bytes → Bytes) (payload : Bytes) : Except ListErr (List DirEntry) :=
  ((enumerateReply nfc).on { b := payload }).1

end GoAfp
