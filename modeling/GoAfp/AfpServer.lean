import GoAfp.Blocks
import GoAfp.EntryLayout
import GoAfp.ForkWrite

/-! A server that reads the request blocks and serves them on its volume. What
follows the last field of a block is ignored, and a fork gets the first ID that
is not in use. -/

namespace GoAfp

def resTooManyFilesOpen : Result := -5026

def rootDirID : UInt32 := 2

def VTree.createDir (t : VTree) (p : Path) : Except Refusal VTree :=
  match leafOf p with
  | none => .error .objectExists
  | some (dir, x) =>
    match t.find dir with
    | some (.dir a es) =>
      match getEntry es x with
      | some _ => .error .objectExists
      | none =>
        if a.writable then .ok (t.set dir x (some (.dir newAttrs []))) else .error .accessDenied
    | _ => .error .dirNotFound

inductive Call
  | vol (req : Request)
  | createDir (path : Bytes)
  | getParms (fileBitmap dirBitmap : UInt16) (path : Bytes)
  | readExt (id off count : Nat)

/-- The fields of a call that names an object: command and flag, volume,
directory, some words, and the pathname. -/
structure PathCall where
  flag : UInt8
  volID : UInt16
  dirID : UInt32
  words : List UInt16
  kind : UInt8
  path : Bytes
  deriving DecidableEq, Repr

def readWords : Nat → StateM Reader (List UInt16)
  | 0 => return []
  | n + 1 => do
    let word ← Reader.u16 "word"
    let rest ← readWords n
    return word :: rest

def readPathCall (n : Nat) : StateM Reader PathCall := do
  let _ ← Reader.u8 "command"
  let flag ← Reader.u8 "flag"
  let volID ← Reader.u16 "volume id"
  let dirID ← Reader.u32 "directory id"
  let words ← readWords n
  let (kind, _, path) ← readWirePath
  return ⟨flag, volID, dirID, words, kind, path⟩

/-- The parameters of a call stand at an even offset. -/
def readEvenPad : StateM Reader Unit := do
  let r ← get
  if r.pos % 2 = 1 then
    let _ ← Reader.u8 "pad"

def readSetParms : StateM Reader (PathCall × Bytes) := do
  let call ← readPathCall 1
  readEvenPad
  let info ← Reader.take 32 "finder info"
  return (call, info)

def readForkID : StateM Reader UInt16 := do
  let _ ← Reader.u8 "command"
  let _ ← Reader.u8 "pad"
  Reader.u16 "fork id"

def readSetForkParms : StateM Reader (UInt16 × UInt16 × Nat) := do
  let id ← readForkID
  let bitmap ← Reader.u16 "bitmap"
  if bitmap = kFPDataForkLenBit then
    let len ← Reader.u32 "data fork len"
    return (id, bitmap, len.toNat)
  else
    let len ← Reader.u64 "ext data fork len"
    return (id, bitmap, len.toNat)

def readReadExt : StateM Reader (UInt16 × Nat × Nat) := do
  let id ← readForkID
  let off ← Reader.u64 "offset"
  let count ← Reader.u64 "count"
  return (id, off.toNat, count.toNat)

/-- The volume and the directory that a server knows, its other parameters of
each object, and whether it flags the end of a fork with a read that ends there. -/
structure Site where
  volID : UInt16
  dirID : UInt32
  params : Path → Params
  exactEOF : Nat → Nat → Bool

namespace Site

variable (site : Site)

def knows (call : PathCall) : Prop :=
  call.volID = site.volID ∧ call.dirID = site.dirID ∧ call.kind = kFPUTF8Name

instance (call : PathCall) : Decidable (site.knows call) :=
  inferInstanceAs (Decidable (_ ∧ _ ∧ _))

def pathCall (n : Nat) (block : Bytes) (k : PathCall → Call) : Except Result Call :=
  match Reader.parse (readPathCall n) block with
  | .ok call => if site.knows call then .ok (k call) else .error resParamErr
  | .error _ => .error resParamErr

def openCall (block : Bytes) : Except Result Call :=
  match Reader.parse (readPathCall 2) block with
  | .ok call =>
    if site.knows call ∧ call.flag = forkTypeData ∧ call.words.headD 0 = kFPExtDataForkLenBit then
      .ok (.vol (.openFork (call.words.getD 1 0 &&& forkWrite ≠ 0) call.path))
    else .error resParamErr
  | .error _ => .error resParamErr

def setParmsCall (block : Bytes) : Except Result Call :=
  match Reader.parse readSetParms block with
  | .ok (call, info) =>
    if site.knows call ∧
      call.words = [kFPFinderInfoBit] then .ok (.vol (.setFinderInfo call.path info))
    else .error resParamErr
  | .error _ => .error resParamErr

def moveCall (block : Bytes) : Except Result Call :=
  match Reader.parse readMoveAndRename block with
  | .ok
      ((_, _, volID, sourceDirID, destDirID),
        [(kind, _, source), (kind', _, destDir), (kind'', _, newName)]) =>
    if volID = site.volID ∧ sourceDirID = site.dirID ∧ destDirID = site.dirID ∧
        kind = kFPUTF8Name ∧ kind' = kFPUTF8Name ∧ kind'' = kFPUTF8Name then
      .ok (.vol (.moveAndRename source destDir newName))
    else .error resParamErr
  | _ => .error resParamErr

def setForkCall (block : Bytes) : Except Result Call :=
  match Reader.parse readSetForkParms block with
  | .ok (id, bitmap, len) =>
    if bitmap = kFPDataForkLenBit ∨
      bitmap = kFPExtDataForkLenBit then .ok (.vol (.setForkLen id.toNat len))
    else .error resParamErr
  | .error _ => .error resParamErr

def forkCall {α : Type} (x : StateM Reader α) (block : Bytes) (k : α → Call) : Except Result Call :=
  match Reader.parse x block with
  | .ok a => .ok (k a)
  | .error _ => .error resParamErr

def decodeAs (cmd : UInt8) (block : Bytes) : Except Result Call :=
  if cmd = cmdCreateFile then
    site.pathCall 0 block fun call => .vol (.createFile (call.flag = createHard) call.path)
  else if cmd = cmdCreateDir then site.pathCall 0 block fun call => .createDir call.path
  else if cmd = cmdDelete then site.pathCall 0 block fun call => .vol (.delete call.path)
  else if cmd = cmdMoveAndRename then site.moveCall block
  else if cmd = cmdOpenFork then site.openCall block
  else if cmd = cmdSetFileDirParms then site.setParmsCall block
  else if cmd = cmdGetFileDirParms then
    site.pathCall 2 block fun call => .getParms (call.words.headD 0) (call.words.getD 1 0) call.path
  else if cmd = cmdCloseFork then forkCall readForkID block fun id => .vol (.closeFork id.toNat)
  else if cmd = cmdSetForkParms then setForkCall block
  else if cmd = cmdReadExt then forkCall readReadExt block fun (id, off, count) =>
    .readExt id.toNat off count
  else if cmd = cmdWriteExt then
    forkCall readWriteRequest block fun (_, id, off, data) => .vol (.writeExt id.toNat off data)
  else .error resCallNotSupported

def decode (block : Bytes) : Except Result Call :=
  site.decodeAs (block.headD 0) block

end Site

def freeFork (forks : List (Nat × ForkRef)) : Nat → Nat → Option Nat
  | 0, _ => none
  | fuel + 1, id => if (forks.lookup id).isNone then some id else freeFork forks fuel (id + 1)

namespace Site

variable (site : Site) (s : VolServer)

def openFork (write : Bool) (path : Bytes) : (Bytes × Result) × VolServer :=
  match freeFork s.forks 65536 0 with
  | none => (([], resTooManyFilesOpen), s)
  | some id =>
    match ({ s with nextFork := id } : VolServer).handle (.openFork write path) with
    | .ok (info, s') => ((putU16 kFPExtDataForkLenBit ++ (putU16 (UInt16.ofNat info.forkID) ++
        putU64 (UInt64.ofNat info.forkLen)), resNoErr), s')
    | .error r => (([], r.code), s)

/-- What a server says of an object: the parameters it keeps of its own, and
the Finder info and the length of the data fork as they were set. -/
def described (p : Path) (finder : Bytes) (len : Nat) : Params :=
  { site.params p with
    finderInfo := ⟨finder.takeD 32 0, List.takeD_length 32 finder 0⟩
    extDataForkLen := UInt64.ofNat len }

def parms (fileBitmap dirBitmap : UInt16) (p : Path) : Except Refusal Bytes :=
  match s.tree.find p with
  | none => .error .objectNotFound
  | some (.file f) => .ok (putU16 fileBitmap ++ (putU16 dirBitmap ++ ([0] ++ ([0] ++
      (site.described p f.attrs.finder f.content.length).layout false fileBitmap))))
  | some (.dir a _) => .ok (putU16 fileBitmap ++ (putU16 dirBitmap ++ ([0x80] ++ ([0] ++
      (site.described p a.finder 0).layout true dirBitmap))))

def readFork (id off count : Nat) : Bytes × Result :=
  match s.forks.lookup id with
  | none => ([], resParamErr)
  | some ref =>
    match s.tree.find ref.path with
    | some (.file f) =>
      match readReply f.content site.exactEOF off count with
      | .ok r => r
      | .error _ => ([], resParamErr)
    | _ => ([], resParamErr)

def respond : Call → (Bytes × Result) × VolServer
  | .vol (.openFork write path) => openFork s write path
  | .vol req =>
    match s.handle req with
    | .ok (_, s') => (([], resNoErr), s')
    | .error r => (([], r.code), s)
  | .createDir path =>
    match named path >>= s.tree.createDir with
    | .ok t => (([], resNoErr), { s with tree := t })
    | .error r => (([], r.code), s)
  | .getParms fileBitmap dirBitmap path =>
    match named path >>= site.parms s fileBitmap dirBitmap with
    | .ok payload => ((payload, resNoErr), s)
    | .error r => (([], r.code), s)
  | .readExt id off count => (site.readFork s id off count, s)

def receive (block : Bytes) : (Bytes × Result) × VolServer :=
  match site.decode block with
  | .ok call => site.respond s call
  | .error code => (([], code), s)

end Site

/-- A call that names an object, as it is sent. -/
def pathBlock (cmd flag : UInt8) (volID : UInt16) (dirID : UInt32) (words : List UInt16)
    (wire : Bytes) : Bytes :=
  [cmd] ++ ([flag] ++ (putU16 volID ++ (putU32 dirID ++ (words.flatMap putU16 ++ pathField wire))))

theorem reads_words (words : List UInt16) :
    Reader.Reads (readWords words.length) (words.flatMap putU16) words := by
  induction words with
  | nil => exact Reader.Reads.pure []
  | cons word words ih =>
    have h : Reader.Reads (readWords (words.length + 1)) _ (word :: words) :=
      (Reader.reads_u16 word "word").bind (ih.bind (Reader.Reads.pure _))
    rwa [List.append_nil] at h

section PathBlock

variable (cmd flag : UInt8) (volID : UInt16) (dirID : UInt32) (words : List UInt16) {wire : Bytes}

theorem reads_pathCall (h : wire.length < 65536) :
    Reader.Reads (readPathCall words.length) (pathBlock cmd flag volID dirID words wire)
      ⟨flag, volID, dirID, words, kFPUTF8Name, wire⟩ := by
  have hr :
      Reader.Reads (readPathCall words.length) _ ⟨flag, volID, dirID, words, kFPUTF8Name, wire⟩ :=
    (Reader.reads_u8 cmd "command").bind <| (Reader.reads_u8 flag "flag").bind <|
    (Reader.reads_u16 volID "volume id").bind <| (Reader.reads_u32 dirID "directory id").bind <|
    (reads_words words).bind <| (reads_wirePath h).bind (Reader.Reads.pure _)
  rwa [List.append_nil] at hr

theorem parse_pathCall (h : wire.length < 65536) {n : Nat} (hn : words.length = n) (rest : Bytes) :
    Reader.parse (readPathCall n) (pathBlock cmd flag volID dirID words wire ++ rest) =
      .ok ⟨flag, volID, dirID, words, kFPUTF8Name, wire⟩ := by
  subst hn
  exact (reads_pathCall cmd flag volID dirID words h).parse_eq rest

variable {volID dirID} {site : Site} (hvol : site.volID = volID) (hdir : site.dirID = dirID)

include hvol hdir

theorem pathCall_pathBlock (h : wire.length < 65536) {n : Nat} (hn : words.length = n)
    (rest : Bytes) (k : PathCall → Call) :
    site.pathCall n (pathBlock cmd flag volID dirID words wire ++ rest) k =
      .ok (k ⟨flag, volID, dirID, words, kFPUTF8Name, wire⟩) := by
  unfold Site.pathCall
  rw [parse_pathCall cmd flag volID dirID words h hn rest]
  exact if_pos ⟨hvol.symm, hdir.symm, rfl⟩

end PathBlock

namespace Site

variable {site : Site} {block : Bytes}

theorem decode_eq {cmd : UInt8} (h : block.headD 0 = cmd) :
    site.decode block = site.decodeAs cmd block := by
  rw [decode, h]

theorem decode_createFile (h : block.headD 0 = cmdCreateFile) : site.decode block =
    site.pathCall 0 block fun call => .vol (.createFile (call.flag = createHard) call.path) := by
  rw [decode_eq h]
  simp only [decodeAs, if_true]

theorem decode_createDir (h : block.headD 0 = cmdCreateDir) : site.decode block =
    site.pathCall 0 block fun call => .createDir call.path := by
  rw [decode_eq h]
  simp [decodeAs, cmdCreateFile, cmdCreateDir]

theorem decode_delete (h : block.headD 0 = cmdDelete) : site.decode block =
    site.pathCall 0 block fun call => .vol (.delete call.path) := by
  rw [decode_eq h]
  simp [decodeAs, cmdCreateFile, cmdCreateDir, cmdDelete]

theorem decode_move (h : block.headD 0 = cmdMoveAndRename) :
    site.decode block = site.moveCall block := by
  rw [decode_eq h]
  simp [decodeAs, cmdCreateFile, cmdCreateDir, cmdDelete, cmdMoveAndRename]

theorem decode_openFork (h : block.headD 0 = cmdOpenFork) :
    site.decode block = site.openCall block := by
  rw [decode_eq h]
  simp [decodeAs, cmdCreateFile, cmdCreateDir, cmdDelete, cmdMoveAndRename, cmdOpenFork]

theorem decode_setParms (h : block.headD 0 = cmdSetFileDirParms) :
    site.decode block = site.setParmsCall block := by
  rw [decode_eq h]
  simp [decodeAs, cmdCreateFile, cmdCreateDir, cmdDelete, cmdMoveAndRename, cmdOpenFork,
    cmdSetFileDirParms]

theorem decode_getParms (h : block.headD 0 = cmdGetFileDirParms) : site.decode block =
    site.pathCall 2 block fun call =>
      .getParms (call.words.headD 0) (call.words.getD 1 0) call.path := by
  rw [decode_eq h]
  simp [decodeAs, cmdCreateFile, cmdCreateDir, cmdDelete, cmdMoveAndRename, cmdOpenFork,
    cmdSetFileDirParms, cmdGetFileDirParms]

theorem decode_closeFork (h : block.headD 0 = cmdCloseFork) : site.decode block =
    forkCall readForkID block fun id => .vol (.closeFork id.toNat) := by
  rw [decode_eq h]
  simp [decodeAs, cmdCreateFile, cmdCreateDir, cmdDelete, cmdMoveAndRename, cmdOpenFork,
    cmdSetFileDirParms, cmdGetFileDirParms, cmdCloseFork]

theorem decode_setForkParms (h : block.headD 0 = cmdSetForkParms) :
    site.decode block = setForkCall block := by
  rw [decode_eq h]
  simp [decodeAs, cmdCreateFile, cmdCreateDir, cmdDelete, cmdMoveAndRename, cmdOpenFork,
    cmdSetFileDirParms, cmdGetFileDirParms, cmdCloseFork, cmdSetForkParms]

theorem decode_readExt (h : block.headD 0 = cmdReadExt) : site.decode block =
    forkCall readReadExt block fun (id, off, count) => .readExt id.toNat off count := by
  rw [decode_eq h]
  simp [decodeAs, cmdCreateFile, cmdCreateDir, cmdDelete, cmdMoveAndRename, cmdOpenFork,
    cmdSetFileDirParms, cmdGetFileDirParms, cmdCloseFork, cmdSetForkParms, cmdReadExt]

theorem decode_writeExt (h : block.headD 0 = cmdWriteExt) : site.decode block =
    forkCall readWriteRequest block fun (_, id, off, data) =>
      .vol (.writeExt id.toNat off data) := by
  rw [decode_eq h]
  simp [decodeAs, cmdCreateFile, cmdCreateDir, cmdDelete, cmdMoveAndRename, cmdOpenFork,
    cmdSetFileDirParms, cmdGetFileDirParms, cmdCloseFork, cmdSetForkParms, cmdReadExt, cmdWriteExt]

end Site

section Blocks

variable {site : Site} {v : AfpVolume} {dirID : UInt32}

theorem headD_pathBlock (cmd flag : UInt8) (volID : UInt16) (dirID : UInt32) (words : List UInt16)
    (wire rest : Bytes) :
    (pathBlock cmd flag volID dirID words wire ++ rest).headD 0 = cmd := rfl

theorem createFileBlock_eq (path : Bytes) (overwrite : Bool) :
    v.createFileBlock dirID path overwrite =
    pathBlock cmdCreateFile (if overwrite then createHard else createSoft) v.id dirID []
      (sentPath v.nfd path) ++ unsentPath v.nfd path := by
  simp [AfpVolume.createFileBlock, putPath_eq, pathBlock]

theorem mkdirBlock_eq (path : Bytes) : v.mkdirBlock dirID path =
    pathBlock cmdCreateDir 0 v.id dirID [] (sentPath v.nfd path) ++ unsentPath v.nfd path := by
  simp [AfpVolume.mkdirBlock, putPath_eq, pathBlock]

theorem deleteBlock_eq (path : Bytes) : v.deleteBlock dirID path =
    pathBlock cmdDelete 0 v.id dirID [] (sentPath v.nfd path) ++ unsentPath v.nfd path := by
  simp [AfpVolume.deleteBlock, putPath_eq, pathBlock]

theorem openForkBlock_eq (path : Bytes) (mode : UInt16) : v.openForkBlock dirID path mode =
    pathBlock cmdOpenFork forkTypeData v.id dirID [kFPExtDataForkLenBit, mode]
      (sentPath v.nfd path) ++ unsentPath v.nfd path := by
  simp [AfpVolume.openForkBlock, putPath_eq, pathBlock]

theorem statBlock_eq (path : Bytes) : v.statBlock dirID path =
    pathBlock cmdGetFileDirParms 0 v.id dirID [v.entryBitmaps.1, v.entryBitmaps.2]
      (sentPath v.nfd path) ++ unsentPath v.nfd path := by
  simp [AfpVolume.statBlock, putPath_eq, pathBlock]

variable (hvol : site.volID = v.id) (hdir : site.dirID = dirID)

include hvol hdir

theorem decode_createFileBlock (path : Bytes) (overwrite : Bool) :
    site.decode (v.createFileBlock dirID path overwrite) = .ok
      (.vol (.createFile overwrite (sentPath v.nfd path))) := by
  rw [createFileBlock_eq, Site.decode_createFile (headD_pathBlock ..),
    pathCall_pathBlock _ _ [] hvol hdir (sentPath_length_lt _ _) (n := 0) rfl]
  cases overwrite <;> rfl

theorem decode_mkdirBlock (path : Bytes) :
    site.decode (v.mkdirBlock dirID path) = .ok (.createDir (sentPath v.nfd path)) := by
  rw [mkdirBlock_eq, Site.decode_createDir (headD_pathBlock ..),
    pathCall_pathBlock _ _ [] hvol hdir (sentPath_length_lt _ _) (n := 0) rfl]

theorem decode_deleteBlock (path : Bytes) :
    site.decode (v.deleteBlock dirID path) = .ok (.vol (.delete (sentPath v.nfd path))) := by
  rw [deleteBlock_eq, Site.decode_delete (headD_pathBlock ..),
    pathCall_pathBlock _ _ [] hvol hdir (sentPath_length_lt _ _) (n := 0) rfl]

/-- The pathnames of a rename are read as they were sent if each of them fits
in its length field. -/
theorem decode_renameBlock {source dest : Bytes}
    (hfits : ∀ p ∈ [source, (splitPath dest).1, (splitPath dest).2],
      (wirePath v.nfd p).length < 65536) :
    site.decode (v.renameBlock dirID source dest) = .ok
      (.vol (.moveAndRename (sentPath v.nfd source)
      (sentPath v.nfd (splitPath dest).1) (sentPath v.nfd (splitPath dest).2))) := by
  have hblock : v.renameBlock dirID source dest = moveHeader v.id dirID ++
      [source, (splitPath dest).1, (splitPath dest).2].flatMap (putPath v.nfd) := by
    simp [AfpVolume.renameBlock, moveHeader]
  have hthree : [source, (splitPath dest).1, (splitPath dest).2].length = 3 := rfl
  have hpaths :=
    (run_readWirePaths_iff v.nfd [source, (splitPath dest).1, (splitPath dest).2]
      (moveHeader v.id dirID)).mpr hfits
  rw [hthree] at hpaths
  have hrun := run_readMoveAndRename hpaths
  have hsent : ∀ p ∈ [source, (splitPath dest).1, (splitPath dest).2],
      sentPath v.nfd p = wirePath v.nfd p :=
    fun p hp => sentPath_eq_iff.mpr (hfits p hp)
  simp only [List.forall_mem_cons] at hsent
  have hparse : Reader.parse readMoveAndRename (v.renameBlock dirID source dest) =
      .ok
        ((cmdMoveAndRename, 0, v.id, dirID, dirID),
          [(kFPUTF8Name, utf8PathHint, sentPath v.nfd source),
            (kFPUTF8Name, utf8PathHint, sentPath v.nfd (splitPath dest).1),
        (kFPUTF8Name, utf8PathHint, sentPath v.nfd (splitPath dest).2)]) := by
    rw [hblock, Reader.parse, hrun, hsent.1, hsent.2.1, hsent.2.2.1]
    rfl
  rw [Site.decode_move (by rw [hblock]; rfl)]
  unfold Site.moveCall
  rw [hparse]
  exact if_pos ⟨hvol.symm, hdir.symm, hdir.symm, rfl, rfl, rfl⟩

theorem decode_statBlock (path : Bytes) : site.decode (v.statBlock dirID path) =
    .ok (.getParms v.entryBitmaps.1 v.entryBitmaps.2 (sentPath v.nfd path)) := by
  rw [statBlock_eq, Site.decode_getParms (headD_pathBlock ..),
    pathCall_pathBlock _ _ [_, _] hvol hdir (sentPath_length_lt _ _) (n := 2) rfl]
  rfl

theorem decode_openForkBlock (path : Bytes) (mode : UInt16) :
    site.decode (v.openForkBlock dirID path mode) =
    .ok (.vol (.openFork (mode &&& forkWrite ≠ 0) (sentPath v.nfd path))) := by
  have hparse := parse_pathCall cmdOpenFork forkTypeData v.id dirID [kFPExtDataForkLenBit, mode]
    (sentPath_length_lt v.nfd path) (n := 2) rfl (unsentPath v.nfd path)
  have hknows :
      site.knows
        ⟨forkTypeData, v.id, dirID, [kFPExtDataForkLenBit, mode], kFPUTF8Name,
          sentPath v.nfd path⟩ :=
    ⟨hvol.symm, hdir.symm, rfl⟩
  rw [openForkBlock_eq, Site.decode_openFork (headD_pathBlock ..)]
  unfold Site.openCall
  rw [hparse]
  exact if_pos ⟨hknows, rfl, rfl⟩

end Blocks

theorem length_unsentPath (nfd : Bytes → Bytes) (p : Bytes) :
    unsentPath nfd p = [] ∨ 65536 ≤ (unsentPath nfd p).length := by
  rw [unsentPath, ← List.length_eq_zero_iff, List.length_drop]
  omega

theorem run_readEvenPad {block : Bytes} {pos : Nat} (h : pos + pos % 2 ≤ block.length) :
    readEvenPad.run ⟨block, pos, none⟩ = ((), ⟨block, pos + pos % 2, none⟩) := by
  have hget : (get : StateM Reader Reader).run ⟨block, pos, none⟩ =
      (⟨block, pos, none⟩, ⟨block, pos, none⟩) := rfl
  rw [readEvenPad, Reader.run_bind_eq hget]
  by_cases hodd : pos % 2 = 1
  · rw [hodd] at h ⊢
    have hu8 : (Reader.u8 "pad").run ⟨block, pos, none⟩ =
        (UInt8.ofNat (natOfBytes ((block.drop pos).take 1)), ⟨block, pos + 1, none⟩) := by
      rw [Reader.u8, Reader.run_bind_eq (Reader.take_fits "pad" h)]
      rfl
    rw [if_pos rfl, Reader.run_bind_eq hu8]
    rfl
  · have heven : pos % 2 = 0 := by omega
    rw [heven, if_neg (by decide)]
    rfl

theorem parse_readSetParms {call : PathCall} {enc rest : Bytes}
    (h : Reader.Reads (readPathCall 1) enc call)
    (hlen : enc.length + enc.length % 2 + 32 ≤ (enc ++ rest).length) :
    Reader.parse readSetParms (enc ++ rest) =
      .ok (call, ((enc ++ rest).drop (enc.length + enc.length % 2)).take 32) := by
  have hcall : (readPathCall 1).run { b := enc ++ rest } =
      (call, ⟨enc ++ rest, enc.length, none⟩) := by
    have hrun := h [] rest
    rwa [List.nil_append, List.length_nil, Nat.zero_add] at hrun
  have hrun : readSetParms.run { b := enc ++ rest } =
      ((call, ((enc ++ rest).drop (enc.length + enc.length % 2)).take 32),
        ⟨enc ++ rest, enc.length + enc.length % 2 + 32, none⟩) := by
    rw [readSetParms, Reader.run_bind_eq hcall, Reader.run_bind_eq (run_readEvenPad (by omega)),
      Reader.run_bind_eq (Reader.take_fits _ hlen)]
    rfl
  rw [Reader.parse, hrun]

section Fields

variable {site : Site} {v : AfpVolume} {dirID : UInt32}

theorem writeParamsHeader_eq (bitmap : UInt16) (path : Bytes) :
    v.writeParamsHeader dirID bitmap path =
    evenPad (pathBlock cmdSetFileDirParms 0 v.id dirID [bitmap] (sentPath v.nfd path) ++
      unsentPath v.nfd path) := by
  simp [AfpVolume.writeParamsHeader, putPath_eq, pathBlock]

theorem evenPad_eq (b : Bytes) : evenPad b = b ++ List.replicate (b.length % 2) 0 := by
  unfold evenPad
  split_ifs with h
  · rw [h]
    rfl
  · rw [show b.length % 2 = 0 by omega, List.replicate_zero, List.append_nil]

theorem setFinderInfoBlock_eq (v : AfpVolume) (dirID : UInt32) (path fi : Bytes) :
    v.setFinderInfoBlock dirID path fi =
    pathBlock cmdSetFileDirParms 0 v.id dirID [kFPFinderInfoBit] (sentPath v.nfd path) ++
      (unsentPath v.nfd path ++ (List.replicate
        ((pathBlock cmdSetFileDirParms 0 v.id dirID [kFPFinderInfoBit] (sentPath v.nfd path) ++
        unsentPath v.nfd path).length % 2) 0 ++ fi)) := by
  rw [AfpVolume.setFinderInfoBlock, writeParamsHeader_eq, evenPad_eq]
  simp only [List.append_assoc]

variable (hvol : site.volID = v.id) (hdir : site.dirID = dirID)

include hvol hdir

/-- The Finder info that is read is the one that was sent if the pathname is
read as a whole. -/
theorem decode_setFinderInfoBlock (path : Bytes) {fi : Bytes} (hfi : fi.length = 32) :
    ∃ info, site.decode (v.setFinderInfoBlock dirID path fi) = .ok
      (.vol (.setFinderInfo (sentPath v.nfd path) info)) ∧
      (unsentPath v.nfd path = [] → info = fi) := by
  have hblock := setFinderInfoBlock_eq v dirID path fi
  generalize henc : pathBlock cmdSetFileDirParms 0 v.id dirID [kFPFinderInfoBit]
    (sentPath v.nfd path) = enc at hblock
  obtain ⟨pad, hpad⟩ : ∃ pad, pad = List.replicate ((enc ++ unsentPath v.nfd path).length % 2)
      (0 : UInt8) := ⟨_, rfl⟩
  rw [← hpad] at hblock
  replace hpad : pad.length = (enc ++ unsentPath v.nfd path).length % 2 := by
    rw [hpad, List.length_replicate]
  have hreads : Reader.Reads (readPathCall 1) enc
      ⟨0, v.id, dirID, [kFPFinderInfoBit], kFPUTF8Name, sentPath v.nfd path⟩ := by
    rw [← henc]
    exact reads_pathCall _ _ _ _ [kFPFinderInfoBit] (sentPath_length_lt _ _)
  have hlen : enc.length + enc.length % 2 + 32 ≤
      (enc ++ (unsentPath v.nfd path ++ (pad ++ fi))).length := by
    simp only [List.length_append] at hpad ⊢
    rcases length_unsentPath v.nfd path with hnil | hlong
    · rw [hnil, List.length_nil, Nat.add_zero] at hpad
      omega
    · omega
  have hknows : site.knows ⟨0, v.id, dirID, [kFPFinderInfoBit], kFPUTF8Name, sentPath v.nfd path⟩ :=
    ⟨hvol.symm, hdir.symm, rfl⟩
  refine ⟨((enc ++ (unsentPath v.nfd path ++ (pad ++ fi))).drop (enc.length + enc.length % 2)).take
    32, ?_, fun hnil => ?_⟩
  · rw [hblock, Site.decode_setParms (by rw [← henc]; rfl)]
    unfold Site.setParmsCall
    rw [parse_readSetParms hreads hlen]
    exact if_pos ⟨hknows, rfl⟩
  · rw [hnil, List.append_nil] at hpad
    rw [hnil, List.nil_append, ← hpad, ← List.length_append, ← List.append_assoc, List.drop_left,
      List.take_of_length_le (Nat.le_of_eq hfi)]

end Fields

section ForkBlocks

variable {site : Site} (id : UInt16)

theorem reads_forkID (cmd : UInt8) : Reader.Reads readForkID ([cmd] ++ ([0] ++ putU16 id)) id :=
  (Reader.reads_u8 cmd "command").bind <|
    (Reader.reads_u8 0 "pad").bind (Reader.reads_u16 id "fork id")

theorem forkCall_parse {α : Type} {x : StateM Reader α} {block : Bytes} {a : α}
    (h : Reader.parse x block = .ok a) (k : α → Call) : Site.forkCall x block k = .ok (k a) := by
  rw [Site.forkCall, h]

theorem parse_reads {α : Type} {x : StateM Reader α} {enc : Bytes} {a : α}
    (h : Reader.Reads x enc a) :
    Reader.parse x enc = .ok a := by
  have hparse := h.parse_eq []
  rwa [List.append_nil] at hparse

theorem decode_closeForkBlock :
    site.decode (closeForkBlock id) = .ok (.vol (.closeFork id.toNat)) := by
  rw [Site.decode_closeFork rfl]
  exact forkCall_parse (parse_reads (reads_forkID id cmdCloseFork)) _

theorem reads_shortLength (len : UInt32) : Reader.Reads readSetForkParms
    (([cmdSetForkParms] ++ ([0] ++ putU16 id)) ++ (putU16 kFPDataForkLenBit ++ (putU32 len ++ [])))
    (id, kFPDataForkLenBit, len.toNat) := by
  refine (reads_forkID id cmdSetForkParms).bind
    ((Reader.reads_u16 kFPDataForkLenBit "bitmap").bind ?_)
  rw [if_pos rfl]
  exact (Reader.reads_u32 len "data fork len").bind (Reader.Reads.pure _)

theorem reads_longLength (len : UInt64) : Reader.Reads readSetForkParms
    (([cmdSetForkParms] ++ ([0] ++ putU16 id)) ++
      (putU16 kFPExtDataForkLenBit ++ (putU64 len ++ [])))
    (id, kFPExtDataForkLenBit, len.toNat) := by
  refine (reads_forkID id cmdSetForkParms).bind
    ((Reader.reads_u16 kFPExtDataForkLenBit "bitmap").bind ?_)
  rw [if_neg (by decide)]
  exact (Reader.reads_u64 len "ext data fork len").bind (Reader.Reads.pure _)

theorem setForkCall_reads {enc : Bytes} {bitmap : UInt16} {len : Nat}
    (h : Reader.Reads readSetForkParms enc (id, bitmap, len))
    (hbitmap : bitmap = kFPDataForkLenBit ∨ bitmap = kFPExtDataForkLenBit) :
    Site.setForkCall enc = .ok (.vol (.setForkLen id.toNat len)) := by
  unfold Site.setForkCall
  rw [parse_reads h]
  exact if_pos hbitmap

theorem toNat_ofInt32 (x : Int) : (UInt32.ofInt x).toNat = (x % 2 ^ 32).toNat := by
  rw [UInt32.ofInt, UInt32.toNat_ofNat']
  omega

theorem toNat_ofInt64 (x : Int) : (UInt64.ofInt x).toNat = (x % 2 ^ 64).toNat := by
  rw [UInt64.ofInt, UInt64.toNat_ofNat']
  omega

theorem setForkCall_truncateBlock (size : Int) :
    Site.setForkCall (truncateBlock id size) = .ok
      (.vol (.setForkLen id.toNat (File.truncateLen size))) := by
  by_cases hsize : size ≤ 0xFFFFFFFF
  · have hblock : truncateBlock id size = ([cmdSetForkParms] ++ ([0] ++ putU16 id)) ++
        (putU16 kFPDataForkLenBit ++ (putU32 (UInt32.ofInt size) ++ [])) := by
      simp [truncateBlock, hsize]
    rw [hblock, File.truncateLen, if_pos hsize, ← toNat_ofInt32]
    exact setForkCall_reads id (reads_shortLength id _) (Or.inl rfl)
  · have hblock : truncateBlock id size = ([cmdSetForkParms] ++ ([0] ++ putU16 id)) ++
        (putU16 kFPExtDataForkLenBit ++ (putU64 (UInt64.ofInt size) ++ [])) := by
      simp [truncateBlock, hsize]
    rw [hblock, File.truncateLen, if_neg hsize, ← toNat_ofInt64]
    exact setForkCall_reads id (reads_longLength id _) (Or.inr rfl)

theorem decode_truncateBlock (size : Int) :
    site.decode (truncateBlock id size) = .ok
      (.vol (.setForkLen id.toNat (File.truncateLen size))) := by
  rw [Site.decode_setForkParms rfl, setForkCall_truncateBlock]

theorem decode_readChunkBlock {off count : Nat} (hoff : off < 2 ^ 64) (hcount : count < 2 ^ 64) :
    site.decode (readChunkBlock id off count) = .ok (.readExt id.toNat off count) := by
  have hreads : Reader.Reads readReadExt
      (([cmdReadExt] ++ ([0] ++ putU16 id)) ++ (putU64 (UInt64.ofNat off) ++
      (putU64 (UInt64.ofNat count) ++ [])))
        (id, (UInt64.ofNat off).toNat, (UInt64.ofNat count).toNat) :=
    (reads_forkID id cmdReadExt).bind <| (Reader.reads_u64 _ "offset").bind <|
      (Reader.reads_u64 _ "count").bind (Reader.Reads.pure _)
  have hblock : readChunkBlock id off count = ([cmdReadExt] ++ ([0] ++ putU16 id)) ++
      (putU64 (UInt64.ofNat off) ++ (putU64 (UInt64.ofNat count) ++ [])) := by
    simp [readChunkBlock]
  rw [UInt64.toNat_ofNat_of_lt' hoff, UInt64.toNat_ofNat_of_lt' hcount, ← hblock] at hreads
  rw [Site.decode_readExt rfl]
  exact forkCall_parse (parse_reads hreads) _

theorem headD_writeRequest (off : Nat) (data : Bytes) :
    (writeRequest id off data).headD 0 = cmdWriteExt := rfl

theorem decode_writeRequest {off : Nat} {data : Bytes} (hoff : off < 2 ^ 64)
    (hdata : data.length < 2 ^ 64) :
    site.decode (writeRequest id off data) = .ok (.vol (.writeExt id.toNat off data)) := by
  rw [Site.decode_writeExt (headD_writeRequest id off data)]
  exact forkCall_parse (parse_writeRequest id hoff hdata) _

end ForkBlocks

namespace Site

variable {site : Site} {s : VolServer} {block : Bytes}

theorem receive_of_decode {call : Call} (h : site.decode block = .ok call) :
    site.receive s block = site.respond s call := by
  rw [receive, h]

theorem receive_vol {req : Request} (h : site.decode block = .ok (.vol req))
    (hreq : ∀ write path, req ≠ .openFork write path) :
    site.receive s block = (([], (s.serve req).1.2), (s.serve req).2) := by
  have hrespond : site.respond s (.vol req) = match s.handle req with
      | .ok (_, s') => (([], resNoErr), s')
      | .error r => (([], r.code), s) := by
    cases req with
    | openFork write path => exact absurd rfl (hreq write path)
    | _ => rfl
  rw [receive_of_decode h, hrespond, VolServer.serve]
  rcases s.handle req with r | ⟨info, s'⟩ <;> rfl

end Site

theorem freeFork_eq_some {forks : List (Nat × ForkRef)} {fuel start id : Nat}
    (h : freeFork forks fuel start = some id) :
    forks.lookup id = none ∧ id < start + fuel := by
  induction fuel generalizing start with
  | zero => cases h
  | succ fuel ih =>
    rw [freeFork] at h
    split_ifs at h with hfree
    · cases h
      exact ⟨Option.isNone_iff_eq_none.mp hfree, by omega⟩
    · obtain ⟨hlookup, hlt⟩ := ih h
      exact ⟨hlookup, by omega⟩

end GoAfp
