import GoAfp.HostRules

/-! A server that stores the dates and privileges it is sent, and the calls
that set and read them. A request may be refused or its answer be lost. -/

namespace GoAfp

open Proc

/-- The parameters that one request sets. -/
inductive AttrChange
  | unixPrivs (privs : UnixPrivs) (uaPermissions : UInt32)
  | modDate (date : UInt32)
  deriving DecidableEq, Repr

def AttrChange.apply (p : Params) : AttrChange → Params
  | .unixPrivs privs ua =>
    { p with
      uid := privs.uid, gid := privs.gid, permissions := privs.permissions, uaPermissions := ua }
  | .modDate date => { p with modDate := date }

def readUnixPrivs : StateM Reader AttrChange := do
  let uid ← Reader.u32 "uid"
  let gid ← Reader.u32 "gid"
  let permissions ← Reader.u32 "permissions"
  let ua ← Reader.u32 "ua_permissions"
  return .unixPrivs ⟨uid, gid, permissions⟩ ua

def readModDate : StateM Reader AttrChange := do
  let date ← Reader.u32 "mod date"
  return .modDate date

/-- The data of the request, if its bitmap names the privileges or the
modification date. -/
def readAttr (words : List UInt16) : StateM Reader (Option AttrChange) := do
  if words = [kFPUnixPrivsBit] then
    let change ← readUnixPrivs
    return some change
  else if words = [kFPModDateBit] then
    let change ← readModDate
    return some change
  else return none

def readSetAttr : StateM Reader (PathCall × Option AttrChange) := do
  let call ← readPathCall 1
  readEvenPad
  let change ← readAttr call.words
  return (call, change)

structure Keeper where
  site : Site
  vol : VolServer

namespace Keeper

variable (k : Keeper)

def setAttr (q : Path) (change : AttrChange) : Keeper :=
  { k with site.params := Function.update k.site.params q (change.apply (k.site.params q)) }

def change (path : Bytes) (change : AttrChange) : (Bytes × Result) × Keeper :=
  match named path with
  | .error r => (([], r.code), k)
  | .ok q =>
    if (k.vol.tree.find q).isSome then (([], resNoErr), k.setAttr q change)
    else (([], Refusal.objectNotFound.code), k)

def pass (block : Bytes) : (Bytes × Result) × Keeper :=
  let (r, vol) := k.site.receive k.vol block
  (r, { k with vol := vol })

def serve (block : Bytes) : (Bytes × Result) × Keeper :=
  if block.headD 0 = cmdSetFileDirParms then
    match Reader.parse readSetAttr block with
    | .ok (call, some change) =>
      if k.site.knows call then k.change call.path change else (([], resParamErr), k)
    | .ok (_, none) => k.pass block
    | .error _ => (([], resParamErr), k)
  else k.pass block

/-- What the server says of the object at `q`, and whether it is a directory. -/
def held (q : Path) : Option (Bool × Params) :=
  match k.vol.tree.find q with
  | none => none
  | some (.file f) => some (false, k.site.described q f.attrs.finder f.content.length)
  | some (.dir a _) => some (true, k.site.described q a.finder 0)

/-- The server knows the volume. -/
structure Serves (v : AfpVolume) : Prop where
  volID : k.site.volID = v.id
  dirID : k.site.dirID = rootDirID

variable {k}

theorem held_isSome {q : Path} : (k.held q).isSome = (k.vol.tree.find q).isSome := by
  unfold held
  rcases k.vol.tree.find q with _ | ⟨f⟩ | ⟨a, es⟩ <;> rfl

theorem held_setAttr (q : Path) (change : AttrChange) :
    (k.setAttr q change).held q = (k.held q).map fun x => (x.1, change.apply x.2) := by
  have hparams : (k.setAttr q change).site.params q = change.apply (k.site.params q) :=
    Function.update_self ..
  have hdescribed (finder : Bytes) (len : Nat) : (k.setAttr q change).site.described q finder len =
      change.apply (k.site.described q finder len) := by
    rw [Site.described, hparams]
    cases change <;> rfl
  have htree : (k.setAttr q change).vol = k.vol := rfl
  unfold held
  rw [htree]
  rcases k.vol.tree.find q with _ | ⟨f⟩ | ⟨a, es⟩
  · rfl
  · exact congrArg (fun p => some (false, p)) (hdescribed _ _)
  · exact congrArg (fun p => some (true, p)) (hdescribed _ _)

theorem Serves.setAttr {v : AfpVolume} (h : k.Serves v) (q : Path) (change : AttrChange) :
    (k.setAttr q change).Serves v :=
  ⟨h.volID, h.dirID⟩

end Keeper

section Blocks

variable {k : Keeper} {v : AfpVolume} {path : Bytes} {q : Path}

/-- A header whose pathname fits is read as a whole, and its padding with it. -/
theorem run_paramsHeader (dirID : UInt32) (bitmap : UInt16)
    (hw : (wirePath v.nfd path).length < 65536) (data : Bytes) :
    (readPathCall 1).run { b := v.writeParamsHeader dirID bitmap path ++ data } =
        (⟨0, v.id, dirID, [bitmap], kFPUTF8Name, wirePath v.nfd path⟩,
          ⟨v.writeParamsHeader dirID bitmap path ++ data,
            (pathBlock cmdSetFileDirParms 0 v.id dirID [bitmap] (wirePath v.nfd path)).length,
              none⟩) ∧
      readEvenPad.run ⟨v.writeParamsHeader dirID bitmap path ++ data,
          (pathBlock cmdSetFileDirParms 0 v.id dirID [bitmap] (wirePath v.nfd path)).length, none⟩ =
        ((), ⟨v.writeParamsHeader dirID bitmap path ++ data,
          (v.writeParamsHeader dirID bitmap path).length, none⟩) := by
  have hreads := reads_pathCall cmdSetFileDirParms 0 v.id dirID [bitmap] hw
  have hheader : v.writeParamsHeader dirID bitmap path =
      pathBlock cmdSetFileDirParms 0 v.id dirID [bitmap] (wirePath v.nfd path) ++
        List.replicate
          ((pathBlock cmdSetFileDirParms 0 v.id dirID [bitmap] (wirePath v.nfd path)).length % 2)
          0 := by
    rw [writeParamsHeader_eq, evenPad_eq, unsentPath_eq_nil hw, List.append_nil,
      sentPath_eq_iff.mpr hw]
  generalize pathBlock cmdSetFileDirParms 0 v.id dirID [bitmap] (wirePath v.nfd path) = enc
    at hreads hheader
  have hlen : (v.writeParamsHeader dirID bitmap path).length = enc.length + enc.length % 2 := by
    rw [hheader, List.length_append, List.length_replicate]
  constructor
  · have hrun := hreads [] (List.replicate (enc.length % 2) 0 ++ data)
    rwa [List.nil_append, List.length_nil, Nat.zero_add, ← List.append_assoc, ← hheader] at hrun
  · rw [hlen]
    apply run_readEvenPad
    rw [List.length_append, hlen]
    omega

theorem reads_unixPrivs (privs : UnixPrivs) : Reader.Reads (readAttr [kFPUnixPrivsBit])
    (putU32 privs.uid ++ (putU32 privs.gid ++ (putU32 privs.permissions ++ putU32 0)))
      (some (.unixPrivs privs 0)) := by
  have hfields : Reader.Reads readUnixPrivs _ (.unixPrivs privs 0) :=
    (Reader.reads_u32 privs.uid _).bind <| (Reader.reads_u32 privs.gid _).bind <|
    (Reader.reads_u32 privs.permissions _).bind <| (Reader.reads_u32 0 _).bind (Reader.Reads.pure _)
  have h : Reader.Reads (readAttr [kFPUnixPrivsBit]) _ (some (.unixPrivs privs 0)) :=
    hfields.bind (Reader.Reads.pure _)
  rwa [List.append_nil, List.append_nil] at h

theorem reads_modDate (date : UInt32) :
    Reader.Reads (readAttr [kFPModDateBit]) (putU32 date) (some (.modDate date)) := by
  have hfields : Reader.Reads readModDate _ (.modDate date) :=
    (Reader.reads_u32 date _).bind (Reader.Reads.pure _)
  have h : Reader.Reads (readAttr [kFPModDateBit]) _ (some (.modDate date)) :=
    hfields.bind (Reader.Reads.pure _)
  rwa [List.append_nil, List.append_nil] at h

section Attr

variable {bitmap : UInt16} {data : Bytes} {change : AttrChange}
  (hw : (wirePath v.nfd path).length < 65536)
  (hdata : Reader.Reads (readAttr [bitmap]) data (some change))

include hw hdata

theorem parse_attrBlock (dirID : UInt32) :
    Reader.parse readSetAttr (v.writeParamsHeader dirID bitmap path ++ data) =
    .ok (⟨0, v.id, dirID, [bitmap], kFPUTF8Name, wirePath v.nfd path⟩, some change) := by
  obtain ⟨hcall, hpad⟩ := run_paramsHeader dirID bitmap hw data
  have hfields :=
    hdata.run_at (v.writeParamsHeader dirID bitmap path) []
      (b := v.writeParamsHeader dirID bitmap path ++ data)
    (by rw [List.append_nil]) rfl
  rw [Reader.parse, readSetAttr, Reader.run_bind_eq hcall, Reader.run_bind_eq hpad,
    Reader.run_bind_eq hfields]
  rfl

theorem Keeper.serve_attrBlock (hs : k.Serves v) (hq : wireNames (wirePath v.nfd path) = some q) :
    k.serve (v.writeParamsHeader rootDirID bitmap path ++ data) =
      if (k.held q).isSome then (([], resNoErr), k.setAttr q change)
        else (([], Refusal.objectNotFound.code), k) := by
  have hhead : (v.writeParamsHeader rootDirID bitmap path ++ data).headD 0 =
      cmdSetFileDirParms := by
    rw [writeParamsHeader_eq, evenPad_eq]
    rfl
  have hknows : k.site.knows ⟨0, v.id, rootDirID, [bitmap], kFPUTF8Name, wirePath v.nfd path⟩ :=
    ⟨hs.volID.symm, hs.dirID.symm, rfl⟩
  rw [Keeper.serve, if_pos hhead, parse_attrBlock hw hdata]
  simp only [if_pos hknows, Keeper.change, named, hq, Keeper.held_isSome]

end Attr

theorem Keeper.serve_statBlock (hs : k.Serves v) :
    k.serve (v.statBlock rootDirID path) =
      (match named (sentPath v.nfd path) >>= k.site.parms k.vol v.entryBitmaps.1 v.entryBitmaps.2
        with
        | .ok payload => (payload, resNoErr)
        | .error r => ([], r.code), k) := by
  have hhead : ¬ (v.statBlock rootDirID path).headD 0 = cmdSetFileDirParms := nofun
  rw [Keeper.serve, if_neg hhead, Keeper.pass,
    Site.receive_of_decode (decode_statBlock hs.volID hs.dirID path), Site.respond]
  cases named (sentPath v.nfd path) >>= k.site.parms k.vol v.entryBitmaps.1 v.entryBitmaps.2 <;> rfl

/-- What a stat of the object at `q` gives. -/
def AfpVolume.entryOf (v : AfpVolume) (x : Bool × Params) : DirEntry :=
  x.2.entry x.1 (if x.1 then v.entryBitmaps.2 else v.entryBitmaps.1) v.nfc

theorem Keeper.parms_eq_ok {payload : Bytes}
    (h : k.site.parms k.vol v.entryBitmaps.1 v.entryBitmaps.2 q = .ok payload) :
    ∃ x, k.held q = some x ∧ statReply v.nfc payload = .ok (v.entryOf x) := by
  unfold Site.parms at h
  unfold Keeper.held
  rcases hfind : k.vol.tree.find q with _ | ⟨f⟩ | ⟨a, es⟩
  · simp only [hfind] at h
    cases h
  · simp only [hfind, Except.ok.injEq] at h
    refine ⟨_, rfl, ?_⟩
    rw [← h]
    exact statReply_ok v.nfc false _ _ _
  · simp only [hfind, Except.ok.injEq] at h
    refine ⟨_, rfl, ?_⟩
    rw [← h]
    exact statReply_ok v.nfc true _ _ _

end Blocks

/-- The link to a keeper. The requests that follow go as the script says: what
becomes of each of them, and whether the server refuses it. -/
structure KeeperLink where
  keeper : Keeper
  script : List (Fate × Option ErrCode)

namespace KeeperLink

def reply (l : KeeperLink) (block : Bytes) : (Bytes × Result) × Keeper :=
  match (l.script.headD (.answered, none)).2 with
  | some code => (([], code.val), l.keeper)
  | none => l.keeper.serve block

def send (l : KeeperLink) (block : Bytes) : Except AfpErr (Bytes × Result) × KeeperLink :=
  let fate := (l.script.headD (.answered, none)).1
  (fate.answer (.ok (l.reply block).1), ⟨if fate = .lost then l.keeper
    else (l.reply block).2, l.script.tail⟩)

def command (block : Bytes) : Proc KeeperLink AfpErr (Bytes × Result) :=
  ExceptT.mk fun l => l.send block

variable {l l' : KeeperLink} {block : Bytes}

theorem reply_cases (l : KeeperLink) (block : Bytes) :
    l.reply block = l.keeper.serve block ∨ ∃ code, code ≠ resNoErr ∧
      l.reply block = (([], code), l.keeper) := by
  unfold reply
  cases (l.script.headD (.answered, none)).2 with
  | none => exact .inl rfl
  | some code => exact .inr ⟨code.val, code.property, rfl⟩

theorem command_keeper (l : KeeperLink) (block : Bytes) :
    ((command block).on l).2.keeper = l.keeper ∨
      ((command block).on l).2.keeper = (l.keeper.serve block).2 := by
  have hkeeper : ((command block).on l).2.keeper =
      if (l.script.headD (.answered, none)).1 = .lost then l.keeper else (l.reply block).2 := rfl
  rw [hkeeper]
  split_ifs
  · exact .inl rfl
  · rcases l.reply_cases block with hserve | ⟨code, -, hrefused⟩
    · exact .inr (congrArg Prod.snd hserve)
    · exact .inl (congrArg Prod.snd hrefused)

/-- A request that was granted was answered by the server. -/
theorem command_granted {payload : Bytes}
    (h : (command block).on l = (.ok (payload, resNoErr), l')) :
    l.keeper.serve block = ((payload, resNoErr), l'.keeper) := by
  obtain ⟨hfate, hreply⟩ := Fate.answered_of_ok (congrArg Prod.fst h)
  have hkeeper : (if _ then l.keeper else (l.reply block).2) = l'.keeper :=
    congrArg (fun r => r.2.keeper) h
  rw [hfate, if_neg nofun] at hkeeper
  rcases l.reply_cases block with hserve | ⟨code, hcode, hrefused⟩
  · rw [← hserve]
    exact Prod.ext (Except.ok.inj hreply) hkeeper
  · rw [hrefused] at hreply
    exact absurd (congrArg Prod.snd (Except.ok.inj hreply)) hcode

theorem codeOnly_keeper (op : String) (l : KeeperLink) (block : Bytes) :
    ((codeOnly command op block).on l).2.keeper = l.keeper ∨
      ((codeOnly command op block).on l).2.keeper = (l.keeper.serve block).2 := by
  have hstate : ((codeOnly command op block).on l).2 = ((command block).on l).2 := by
    rw [codeOnly, on_bind]
    rcases (command block).on l with ⟨_ | r, l'⟩ <;> rfl
  rw [hstate]
  exact command_keeper l block

theorem codeOnly_granted {op : String} (h : (codeOnly command op block).on l = (.ok (), l')) :
    ∃ payload, l.keeper.serve block = ((payload, resNoErr), l'.keeper) := by
  obtain ⟨⟨payload, code⟩, mid, hcommand, hresult⟩ := ok_of_on_bind h
  have hcode : resultErr op code = .ok () := congrArg Prod.fst hresult
  have hmid : mid = l' := congrArg Prod.snd hresult
  rw [resultErr_eq_ok] at hcode
  subst hcode hmid
  exact ⟨payload, command_granted hcommand⟩

end KeeperLink

section Rules

variable {v : AfpVolume} {path : Bytes} {q : Path} {l l' : KeeperLink}

theorem statVia_keeps {k : Keeper} (hs : k.Serves v) :
    Keeps (fun l : KeeperLink => l.keeper = k) (v.statVia KeeperLink.command rootDirID path) := by
  have hcommand : Keeps (fun l : KeeperLink => l.keeper = k)
      (KeeperLink.command (v.statBlock rootDirID path)) := by
    rintro l rfl
    rcases KeeperLink.command_keeper l (v.statBlock rootDirID path) with h | h
    · exact h
    · rw [h, Keeper.serve_statBlock hs]
  exact hcommand.bind fun r => (Keeps.lift _).bind fun _ => Keeps.lift _

theorem statVia_ok {e : DirEntry} (hs : l.keeper.Serves v)
    (hw : (wirePath v.nfd path).length < 65536) (hq : wireNames (wirePath v.nfd path) = some q)
    (h : (v.statVia KeeperLink.command rootDirID path).on l = (.ok e, l')) :
    ∃ x, l.keeper.held q = some x ∧ e = v.entryOf x := by
  obtain ⟨⟨payload, code⟩, mid, hcommand, hrest⟩ := ok_of_on_bind h
  obtain ⟨u, mid', hcode, hparse⟩ := ok_of_on_bind hrest
  have hnoErr : code = resNoErr := resultErr_eq_ok.mp (congrArg Prod.fst hcode)
  subst hnoErr
  have hreply := KeeperLink.command_granted hcommand
  have hentry : (statReply v.nfc payload).mapError Fault.merged = .ok e := congrArg Prod.fst hparse
  rw [Keeper.serve_statBlock hs, sentPath_eq_iff.mpr hw, named, hq] at hreply
  replace hreply : (match l.keeper.site.parms l.keeper.vol v.entryBitmaps.1 v.entryBitmaps.2 q with
      | .ok payload => (payload, resNoErr)
      | .error r => ([], r.code)) = (payload, resNoErr) := congrArg Prod.fst hreply
  cases hparms : l.keeper.site.parms l.keeper.vol v.entryBitmaps.1 v.entryBitmaps.2 q with
  | error r =>
    rw [hparms] at hreply
    exact absurd (congrArg Prod.snd hreply) r.code_ne_noErr
  | ok given =>
    rw [hparms] at hreply
    cases hreply
    obtain ⟨x, hx, hstat⟩ := Keeper.parms_eq_ok hparms
    rw [hstat] at hentry
    exact ⟨x, hx, (Except.ok.inj hentry).symm⟩

/-- A request for a change that was granted made it, and one that was not may
have. -/
theorem codeOnly_attr {bitmap : UInt16} {data : Bytes} {change : AttrChange}
    (hs : l.keeper.Serves v) (hw : (wirePath v.nfd path).length < 65536)
    (hq : wireNames (wirePath v.nfd path) = some q)
    (hdata : Reader.Reads (readAttr [bitmap]) data (some change)) (op : String) :
    let r :=
      (codeOnly KeeperLink.command op (v.writeParamsHeader rootDirID bitmap path ++ data)).on l
    r.2.keeper = l.keeper ∧ (∃ e, r.1 = .error e) ∨
      (l.keeper.held q).isSome ∧ r.2.keeper = l.keeper.setAttr q change := by
  intro r
  have hserve := Keeper.serve_attrBlock hw hdata hs hq
  rcases hr : r.1 with e | ⟨⟩
  · have hkeeper :=
      KeeperLink.codeOnly_keeper op l (v.writeParamsHeader rootDirID bitmap path ++ data)
    rw [hserve] at hkeeper
    split_ifs at hkeeper with hheld
    · rcases hkeeper with h | h
      · exact .inl ⟨h, e, rfl⟩
      · exact .inr ⟨hheld, h⟩
    · exact .inl ⟨hkeeper.elim id id, e, rfl⟩
  · obtain ⟨payload, hgranted⟩ := KeeperLink.codeOnly_granted (Prod.ext hr rfl : r = (.ok (), r.2))
    rw [hserve] at hgranted
    split_ifs at hgranted with hheld
    · exact .inr ⟨hheld, (congrArg Prod.snd hgranted).symm⟩
    · exact absurd (congrArg (fun x => x.1.2) hgranted) Refusal.objectNotFound.code_ne_noErr

end Rules

end GoAfp
