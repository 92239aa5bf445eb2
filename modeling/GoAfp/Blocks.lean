import GoAfp.Listing
import GoAfp.ReadDir
import GoAfp.Volume

/-! The request blocks of a volume's operations, byte by byte. What sends a
block and returns the reply is a parameter of the operations. -/

namespace GoAfp

def cmdCloseFork : UInt8 := 4
def cmdCreateDir : UInt8 := 6
def cmdCreateFile : UInt8 := 7
def cmdDelete : UInt8 := 8
def cmdMoveAndRename : UInt8 := 23
def cmdOpenFork : UInt8 := 26
def cmdSetForkParms : UInt8 := 31
def cmdGetFileDirParms : UInt8 := 34
def cmdSetFileDirParms : UInt8 := 35
def cmdReadExt : UInt8 := 60

def createSoft : UInt8 := 0x00
def createHard : UInt8 := 0x80

def forkRead : UInt16 := 0x01
def forkWrite : UInt16 := 0x02
def forkTypeData : UInt8 := 0x00

def evenPad (b : Bytes) : Bytes :=
  if b.length % 2 = 1 then b ++ [0] else b

structure AfpVolume extends Volume, VolumeRef where
  nfc : Bytes → Bytes

namespace AfpVolume

variable (v : AfpVolume) (dirID : UInt32)

def createFileBlock (path : Bytes) (overwrite : Bool) : Bytes :=
  [cmdCreateFile, if overwrite then createHard else createSoft] ++
    (putU16 v.id ++ (putU32 dirID ++ putPath v.nfd path))

def mkdirBlock (path : Bytes) : Bytes :=
  [cmdCreateDir, 0] ++ (putU16 v.id ++ (putU32 dirID ++ putPath v.nfd path))

def deleteBlock (path : Bytes) : Bytes :=
  [cmdDelete, 0] ++ (putU16 v.id ++ (putU32 dirID ++ putPath v.nfd path))

def renameBlock (source dest : Bytes) : Bytes :=
  let (destDir, newName) := splitPath dest
  [cmdMoveAndRename, 0] ++ (putU16 v.id ++ (putU32 dirID ++ (putU32 dirID ++
    (putPath v.nfd source ++ (putPath v.nfd destDir ++ putPath v.nfd newName)))))

def openForkBlock (path : Bytes) (mode : UInt16) : Bytes :=
  [cmdOpenFork, forkTypeData] ++ (putU16 v.id ++ (putU32 dirID ++
    (putU16 kFPExtDataForkLenBit ++ (putU16 mode ++ putPath v.nfd path))))

def writeParamsHeader (bitmap : UInt16) (path : Bytes) : Bytes :=
  evenPad
    ([cmdSetFileDirParms, 0] ++
      (putU16 v.id ++ (putU32 dirID ++ (putU16 bitmap ++ putPath v.nfd path))))

def setFinderInfoBlock (path fi : Bytes) : Bytes :=
  v.writeParamsHeader dirID kFPFinderInfoBit path ++ fi

/-- The access rights at the end are left unset. -/
def setUnixPrivsBlock (path : Bytes) (privs : UnixPrivs) : Bytes :=
  v.writeParamsHeader dirID kFPUnixPrivsBit path ++
    (putU32 privs.uid ++ (putU32 privs.gid ++ (putU32 privs.permissions ++ putU32 0)))

def setModTimeBlock (path : Bytes) (date : UInt32) : Bytes :=
  v.writeParamsHeader dirID kFPModDateBit path ++ putU32 date

def statBlock (path : Bytes) : Bytes :=
  let (fileBitmap, dirBitmap) := v.entryBitmaps
  [cmdGetFileDirParms, 0] ++ (putU16 v.id ++ (putU32 dirID ++
    (putU16 fileBitmap ++ (putU16 dirBitmap ++ putPath v.nfd path))))

end AfpVolume

/-- `uint32(int32(mtime.Unix() - afpEpochDelta))`. -/
def modDate (unix : Int) : UInt32 :=
  (Int32.ofInt (wrap64 (unix - afpEpochDelta))).toUInt32

def closeForkBlock (id : UInt16) : Bytes :=
  [cmdCloseFork, 0] ++ putU16 id

def readChunkBlock (id : UInt16) (off count : Nat) : Bytes :=
  [cmdReadExt, 0] ++ (putU16 id ++ (putU64 (UInt64.ofNat off) ++ putU64 (UInt64.ofNat count)))

/-- The request block of a read. -/
def ReadRange.block (q : ReadRange) (id : UInt16) : Bytes :=
  readChunkBlock id q.offset q.count

def truncateBlock (id : UInt16) (size : Int) : Bytes :=
  [cmdSetForkParms, 0] ++ (putU16 id ++
    if size ≤ 0xFFFFFFFF then putU16 kFPDataForkLenBit ++ putU32 (UInt32.ofInt size)
    else putU16 kFPExtDataForkLenBit ++ putU64 (UInt64.ofInt size))

section Operations

variable {σ : Type} (command : Bytes → Proc σ AfpErr (Bytes × Result))

/-- A request whose reply is only its result code. -/
def codeOnly (op : String) (block : Bytes) : Proc σ AfpErr Unit := do
  let (_, code) ← command block
  resultErr op code

def forkTruncate (id : UInt16) (size : Int) : Proc σ AfpErr Unit :=
  codeOnly command "truncate" (truncateBlock id size)

namespace AfpVolume

variable (v : AfpVolume) (dirID : UInt32)

def createFile (path : Bytes) (overwrite : Bool) : Proc σ AfpErr Unit :=
  codeOnly command ("create " ++ goText path) (v.createFileBlock dirID path overwrite)

def mkdir (path : Bytes) : Proc σ AfpErr Unit :=
  codeOnly command ("mkdir " ++ goText path) (v.mkdirBlock dirID path)

def delete (path : Bytes) : Proc σ AfpErr Unit :=
  codeOnly command ("delete " ++ goText path) (v.deleteBlock dirID path)

def rename (source dest : Bytes) : Proc σ AfpErr Unit :=
  codeOnly command ("rename " ++ goText source) (v.renameBlock dirID source dest)

def setFinderInfo (path fi : Bytes) : Proc σ AfpErr Unit :=
  codeOnly command ("set finder info " ++ goText path) (v.setFinderInfoBlock dirID path fi)

def setUnixPrivs (path : Bytes) (privs : UnixPrivs) : Proc σ AfpErr Unit :=
  codeOnly command ("set unix privs " ++ goText path) (v.setUnixPrivsBlock dirID path privs)

def setModTime (path : Bytes) (mtime : Int) : Proc σ AfpErr Unit :=
  codeOnly command ("set mod time " ++ goText path) (v.setModTimeBlock dirID path (modDate mtime))

end AfpVolume

end Operations

def readWirePaths : Nat → StateM Reader (List (UInt8 × UInt32 × Bytes))
  | 0 => return []
  | n + 1 => do
    let path ← readWirePath
    let rest ← readWirePaths n
    return path :: rest

theorem run_readWirePaths_cons (nfd : Bytes → Bytes) (p : Bytes) (n : Nat) (pre post : Bytes)
    {r : Reader} {paths : List (UInt8 × UInt32 × Bytes)} (h : (readWirePaths n).run
      ⟨pre ++ (putPath nfd p ++ post), pre.length + (pathField (sentPath nfd p)).length, none⟩ =
      (paths, r)) :
    (readWirePaths (n + 1)).run ⟨pre ++ (putPath nfd p ++ post), pre.length, none⟩ =
      ((kFPUTF8Name, utf8PathHint, sentPath nfd p) :: paths, r) := by
  have hfirst : readWirePath.run ⟨pre ++ (putPath nfd p ++ post), pre.length, none⟩ =
      ((kFPUTF8Name, utf8PathHint, sentPath nfd p),
        ⟨pre ++ (putPath nfd p ++ post), pre.length + (pathField (sentPath nfd p)).length, none⟩) :=
    (reads_wirePath (sentPath_length_lt nfd p)).run_at pre (unsentPath nfd p ++ post)
      (by rw [putPath_eq, List.append_assoc]) rfl
  rw [readWirePaths, Reader.run_bind_eq hfirst, Reader.run_bind_eq h]
  rfl

/-- Pathnames in a row are read as they were written iff each length fits in
its field: a longer one ends early, and what is left of it is read as the next. -/
theorem run_readWirePaths_iff (nfd : Bytes → Bytes) (paths : List Bytes) (pre : Bytes) :
    (readWirePaths paths.length).run ⟨pre ++ paths.flatMap (putPath nfd), pre.length, none⟩ =
        (paths.map fun p => (kFPUTF8Name, utf8PathHint, wirePath nfd p),
          ⟨pre ++ paths.flatMap (putPath nfd), (pre ++ paths.flatMap (putPath nfd)).length, none⟩) ↔
      ∀ p ∈ paths, (wirePath nfd p).length < 65536 := by
  induction paths generalizing pre with
  | nil =>
    rw [List.flatMap_nil, List.append_nil]
    exact iff_of_true rfl (List.forall_mem_nil _)
  | cons p paths ih =>
    have hflat : pre ++ (putPath nfd p ++ paths.flatMap (putPath nfd)) =
        (pre ++ putPath nfd p) ++ paths.flatMap (putPath nfd) := (List.append_assoc ..).symm
    -- a pathname that is read as a whole leaves the cursor at the next one
    have hnext (hp : sentPath nfd p = wirePath nfd p) :
        pre.length + (pathField (sentPath nfd p)).length = (pre ++ putPath nfd p).length := by
      rw [putPath_eq, unsentPath_eq_nil (sentPath_eq_iff.mp hp), List.append_nil,
        List.length_append]
    rcases hrest : (readWirePaths paths.length).run
        ⟨pre ++ (putPath nfd p ++ paths.flatMap (putPath nfd)),
          pre.length + (pathField (sentPath nfd p)).length, none⟩ with ⟨xs, r⟩
    rw [List.length_cons, List.flatMap_cons, run_readWirePaths_cons nfd p paths.length pre _ hrest,
      List.map_cons, Prod.mk.injEq, List.cons_eq_cons, List.forall_mem_cons, ← sentPath_eq_iff]
    constructor
    · rintro ⟨⟨hhead, htail⟩, hr⟩
      have hsent : sentPath nfd p = wirePath nfd p := (Prod.mk.inj (Prod.mk.inj hhead).2).2
      rw [hnext hsent, htail, hr, hflat] at hrest
      exact ⟨hsent, (ih _).mp hrest⟩
    · rintro ⟨hsent, hshort⟩
      rw [hnext hsent, hflat, (ih _).mpr hshort] at hrest
      obtain ⟨htail, hr⟩ := Prod.mk.inj hrest
      rw [hsent, hflat]
      exact ⟨⟨rfl, htail.symm⟩, hr.symm⟩

/-- The fields of FPMoveAndRename before its pathnames: command, pad, volume
and the two directories. -/
def readMoveHeader : StateM Reader (UInt8 × UInt8 × UInt16 × UInt32 × UInt32) := do
  let command ← Reader.u8 "command"
  let pad ← Reader.u8 "pad"
  let volID ← Reader.u16 "volume id"
  let sourceDirID ← Reader.u32 "source directory id"
  let destDirID ← Reader.u32 "destination directory id"
  return (command, pad, volID, sourceDirID, destDirID)

def readMoveAndRename :
    StateM Reader ((UInt8 × UInt8 × UInt16 × UInt32 × UInt32) × List (UInt8 × UInt32 × Bytes)) := do
  let header ← readMoveHeader
  let paths ← readWirePaths 3
  return (header, paths)

def moveHeader (volID : UInt16) (dirID : UInt32) : Bytes :=
  [cmdMoveAndRename] ++ ([0] ++ (putU16 volID ++ (putU32 dirID ++ putU32 dirID)))

theorem reads_moveHeader (volID : UInt16) (dirID : UInt32) :
    Reader.Reads readMoveHeader (moveHeader volID dirID)
      (cmdMoveAndRename, 0, volID, dirID, dirID) := by
  have h : Reader.Reads readMoveHeader _ (cmdMoveAndRename, 0, volID, dirID, dirID) :=
    (Reader.reads_u8 cmdMoveAndRename _).bind <| (Reader.reads_u8 0 _).bind <|
      (Reader.reads_u16 volID _).bind <|
    (Reader.reads_u32 dirID _).bind <| (Reader.reads_u32 dirID _).bind (Reader.Reads.pure _)
  rwa [List.append_nil] at h

theorem run_readMoveAndRename {volID : UInt16} {dirID : UInt32} {rest : Bytes} {r : Reader}
    {paths : List (UInt8 × UInt32 × Bytes)}
    (h : (readWirePaths 3).run
      ⟨moveHeader volID dirID ++ rest, (moveHeader volID dirID).length, none⟩ = (paths, r)) :
    readMoveAndRename.run { b := moveHeader volID dirID ++ rest } =
      (((cmdMoveAndRename, 0, volID, dirID, dirID), paths), r) := by
  have hheader := (reads_moveHeader volID dirID) [] rest
  rw [List.nil_append, List.length_nil, Nat.zero_add] at hheader
  rw [readMoveAndRename, Reader.run_bind_eq hheader, Reader.run_bind_eq h]
  rfl

/-- The parent part and the last component of a path. -/
def ParentAndLast (p dir name : Bytes) : Prop :=
  slash ∉ name ∧ (trimSlash p = dir ++ slash :: name ∨ dir = [] ∧ trimSlash p = name)

theorem rtakeWhile_slash (dir : Bytes) {name : Bytes} (h : slash ∉ name) :
    (dir ++ slash :: name).rtakeWhile (· ≠ slash) = name ∧
      (dir ++ slash :: name).rdropWhile (· ≠ slash) = dir ++ [slash] := by
  induction name using List.reverseRecOn with
  | nil =>
    rw [List.rtakeWhile_concat_neg _ _ _ (by simp), List.rdropWhile_concat_neg _ _ _ (by simp)]
    exact ⟨rfl, rfl⟩
  | append_singleton name c ih =>
    rw [List.mem_append, not_or, List.mem_singleton] at h
    obtain ⟨htake, hdrop⟩ := ih h.1
    have hc : c ≠ slash := fun he => h.2 he.symm
    rw [← List.cons_append, ← List.append_assoc,
      List.rtakeWhile_concat_pos _ _ _ (by simpa using hc),
      List.rdropWhile_concat_pos _ _ _ (by simpa using hc), htake, hdrop]
    exact ⟨rfl, rfl⟩

theorem splitPath_of_parentAndLast {p dir name : Bytes} (h : ParentAndLast p dir name) :
    splitPath p = (dir, name) := by
  obtain ⟨hname, hp | ⟨rfl, hp⟩⟩ := h
  · obtain ⟨htake, hdrop⟩ := rtakeWhile_slash dir hname
    rw [← hp] at htake hdrop
    have hmem : slash ∈ trimSlash p := by
      rw [hp]
      simp
    rw [splitPath, if_pos hmem, htake, hdrop, List.dropLast_concat]
  · rw [splitPath, if_neg (by rwa [hp]), hp]

theorem renameBlock_eq (v : AfpVolume) (dirID : UInt32) {source dest destDir newName : Bytes}
    (hdest : ParentAndLast dest destDir newName) :
    v.renameBlock dirID source dest = moveHeader v.id dirID ++ [source, destDir, newName].flatMap
      (putPath v.nfd) := by
  rw [AfpVolume.renameBlock, splitPath_of_parentAndLast hdest]
  simp [moveHeader]

theorem rename_sent (peer : Peer) (v : AfpVolume) (dirID : UInt32) (source dest : Bytes) :
    ((v.rename (Session.command peer) dirID source dest).on []).2 =
      [v.renameBlock dirID source dest] := by
  rw [AfpVolume.rename, codeOnly, Proc.on_bind, Session.command_on]
  cases (peer ([] ++ [v.renameBlock dirID source dest])).result <;> rfl

/-- Rename's request reads as what it was made of iff every pathname in it
fits in its length field. Rename sends it in any case. -/
theorem rename_request_iff (peer : Peer) (v : AfpVolume) (dirID : UInt32) (source : Bytes)
    {dest destDir newName : Bytes} (hdest : ParentAndLast dest destDir newName) :
    ((∃ block, ((v.rename (Session.command peer) dirID source dest).on []).2 = [block] ∧
        readMoveAndRename.run { b := block } =
          (((cmdMoveAndRename, 0, v.id, dirID, dirID),
            [source, destDir, newName].map fun p => (kFPUTF8Name, utf8PathHint, wirePath v.nfd p)),
            ⟨block, block.length, none⟩)) ∨
      ((v.rename (Session.command peer) dirID source dest).on []).2 = [] ∧
        ∃ e, ((v.rename (Session.command peer) dirID source dest).on []).1 = .error e) ↔
      ∀ p ∈ [source, destDir, newName], (wirePath v.nfd p).length < 65536 := by
  have hthree : [source, destDir, newName].length = 3 := rfl
  rw [rename_sent, ← run_readWirePaths_iff v.nfd [source, destDir, newName] (moveHeader v.id dirID),
    ← renameBlock_eq v dirID hdest, hthree]
  rcases hpaths : (readWirePaths 3).run
      ⟨v.renameBlock dirID source dest, (moveHeader v.id dirID).length, none⟩
    with ⟨paths, r⟩
  have hrun : readMoveAndRename.run { b := v.renameBlock dirID source dest } =
      (((cmdMoveAndRename, 0, v.id, dirID, dirID), paths), r) := by
    rw [renameBlock_eq v dirID hdest] at hpaths ⊢
    exact run_readMoveAndRename hpaths
  constructor
  · rintro (⟨block, hsent, hread⟩ | ⟨hsent, -⟩)
    · obtain rfl := List.singleton_inj.mp hsent
      rw [hrun] at hread
      obtain ⟨hvalue, hr⟩ := Prod.mk.inj hread
      rw [(Prod.mk.inj hvalue).2, hr]
    · cases hsent
  · intro hread
    obtain ⟨hvalue, hr⟩ := Prod.mk.inj hread
    exact Or.inl ⟨_, rfl, by rw [hrun, hvalue, hr]⟩

def plainVolume : AfpVolume := ⟨⟨1, 0, id⟩, ⟨7, 0⟩, id⟩

theorem rename_request_iff_short :
    ParentAndLast (ascii "d/b") (ascii "d") (ascii "b") ∧
      ∃ block,
        ((plainVolume.rename (Session.command fun _ => .cancelled) 2 (ascii "a") (ascii "d/b")).on
          []).2 = [block] ∧
        readMoveAndRename.run { b := block } =
          (((cmdMoveAndRename, 0, 7, 2, 2),
            [(kFPUTF8Name, utf8PathHint, ascii "a"), (kFPUTF8Name, utf8PathHint, ascii "d"),
              (kFPUTF8Name, utf8PathHint, ascii "b")]), ⟨block, block.length, none⟩) := by
  have hdest : ParentAndLast (ascii "d/b") (ascii "d") (ascii "b") :=
    ⟨by decide, Or.inl (by decide)⟩
  refine ⟨hdest, ?_⟩
  rcases (rename_request_iff (fun _ => .cancelled) plainVolume 2 (ascii "a") hdest).mpr
    (by decide) with h | ⟨hsent, -⟩
  · exact h
  · rw [rename_sent] at hsent
    cases hsent

def longName : Bytes := List.replicate 65536 97

theorem wirePath_longName : wirePath id longName = longName := by
  have hends : trimSlash longName = longName := by
    apply trimSlash_of_ends
    · rw [longName, List.head?_replicate]
      decide
    · rw [longName, List.getLast?_replicate]
      decide
  rw [wirePath, hends, id, longName, List.map_replicate]
  rfl

/-- The length field of a name of 65536 bytes is 0, and the server reads an
empty source path. -/
theorem rename_longName :
    ∃ block,
      ((plainVolume.rename (Session.command fun _ => .cancelled) 2 longName (ascii "b")).on []).2 =
        [block] ∧
      (readMoveAndRename.run { b := block }).1.2.head? = some (kFPUTF8Name, utf8PathHint, []) ∧
      wirePath id longName = longName ∧ longName.length = 65536 := by
  have hdest : ParentAndLast (ascii "b") [] (ascii "b") := ⟨by decide, Or.inr ⟨rfl, by decide⟩⟩
  have hlen : longName.length = 65536 := List.length_replicate
  have hsent : sentPath plainVolume.nfd longName = [] := by
    change sentPath id longName = []
    rw [sentPath, wirePath_longName, hlen]
    rfl
  refine ⟨_, rename_sent _ _ _ _ _, ?_, wirePath_longName, hlen⟩
  rw [renameBlock_eq plainVolume 2 hdest, List.flatMap_cons]
  rcases hrest : (readWirePaths 2).run
      ⟨moveHeader plainVolume.id 2 ++ (putPath plainVolume.nfd longName ++
    [[], ascii "b"].flatMap (putPath plainVolume.nfd)),
    (moveHeader plainVolume.id 2).length + (pathField (sentPath plainVolume.nfd longName)).length,
      none⟩ with ⟨paths, r⟩
  rw [run_readMoveAndRename (run_readWirePaths_cons _ _ 2 _ _ hrest), hsent]
  rfl

end GoAfp
