import GoAfp.CheckedReader
import GoAfp.Entry

/-! The entry parser over the checked reader. It returns what the one without
checks returns, and never panics. -/

namespace GoAfp

namespace Checked

variable {α : Type}

def whenBit (bitmap bit : UInt16) (step : DirEntry → CheckedM AfpErr DirEntry) (e : DirEntry) :
    CheckedM AfpErr DirEntry :=
  if bitmap &&& bit ≠ 0 then step e else pure e

def stored (x : CheckedM AfpErr α) (set : DirEntry → α → DirEntry) (e : DirEntry) :
    CheckedM AfpErr DirEntry := do
  let v ← x
  return set e v

def skipped (x : CheckedM AfpErr α) : DirEntry → CheckedM AfpErr DirEntry := stored x fun e _ => e

def finderInfo (e : DirEntry) : CheckedM AfpErr DirEntry := do
  let fi ← taken 32 "finder info"
  if fi.length ≥ 4 then
    let finderType ← Fault.slice (ε := AfpErr) fi 0 4
    if finderType = ascii "slnk" then
      return { e with isSymlink := true }
  return e

def longName (block : Bytes) (e : DirEntry) : CheckedM AfpErr DirEntry := do
  let off ← u16 "long name offset"
  let r ← get
  if r.err.isNone then
    let name ← pascalAt block off.toNat
    return { e with name := name }
  return e

def utf8Name (nfc : Bytes → Bytes) (block : Bytes) (e : DirEntry) : CheckedM AfpErr DirEntry := do
  let off ← u16 "utf8 name offset"
  let _ ← u32 "utf8 name pad"
  let r ← get
  if r.err.isNone then
    let name ← pascal2At block (off.toNat + 4)
    return { e with name := nfc name }
  return e

def unixFields (e : DirEntry) : CheckedM AfpErr DirEntry := do
  let e ← stored (u32 "unix uid") DirEntry.setUid e
  let e ← stored (u32 "unix gid") DirEntry.setGid e
  let e ← stored (u32 "unix permissions") DirEntry.setPermissions e
  let e ← skipped (u32 "unix ua_permissions") e
  let r ← get
  return { e with hasUnix := r.err.isNone }

def leading (block : Bytes) (isDir : Bool) (bitmap : UInt16) (e : DirEntry) :
    CheckedM AfpErr DirEntry := do
  let e ← whenBit bitmap kFPAttributeBit (skipped (u16 "attributes")) e
  let e ← whenBit bitmap kFPParentDirIDBit
    (stored (u32 "parent dir id") fun e v => { e with parentDirID := v }) e
  let e ← whenBit bitmap kFPCreateDateBit
    (stored (u32 "create date") fun e v => { e with createTime := afpDate v }) e
  let e ← whenBit bitmap kFPModDateBit
    (stored (u32 "mod date") fun e v => { e with modTime := afpDate v }) e
  let e ← whenBit bitmap kFPBackupDateBit (skipped (u32 "backup date")) e
  let e ← whenBit bitmap kFPFinderInfoBit finderInfo e
  let e ← whenBit bitmap kFPLongNameBit (longName block) e
  let e ← whenBit bitmap kFPShortNameBit (skipped (u16 "short name offset")) e
  let e ← whenBit bitmap kFPNodeIDBit (stored (u32 "node id") fun e v => { e with nodeID := v }) e
  if isDir then
    let e ← whenBit bitmap kFPOffspringCountBit
      (stored (u16 "offspring count") fun e v => { e with offspring := v }) e
    let e ← whenBit bitmap kFPOwnerIDBit (stored (u32 "owner id") DirEntry.setUid) e
    let e ← whenBit bitmap kFPGroupIDBit (stored (u32 "group id") DirEntry.setGid) e
    whenBit bitmap kFPAccessRightsBit (skipped (u32 "access rights")) e
  else
    let e ← whenBit bitmap kFPDataForkLenBit
      (stored (u32 "data fork len") fun e v => { e with size := v.toUInt64 }) e
    let e ← whenBit bitmap kFPRsrcForkLenBit (skipped (u32 "rsrc fork len")) e
    let e ← whenBit bitmap kFPExtDataForkLenBit
      (stored (u64 "ext data fork len") fun e v => { e with size := v }) e
    whenBit bitmap kFPLaunchLimitBit (skipped (u16 "launch limit")) e

def trailing (isDir : Bool) (bitmap : UInt16) (e : DirEntry) : CheckedM AfpErr DirEntry := do
  let e ← whenBit bitmap kFPExtRsrcForkLenBit
    (if isDir then pure else skipped (u64 "ext rsrc fork len")) e
  whenBit bitmap kFPUnixPrivsBit unixFields e

def fields (nfc : Bytes → Bytes) (block : Bytes) (isDir : Bool) (bitmap : UInt16) (e : DirEntry) :
    CheckedM AfpErr DirEntry := do
  let e ← leading block isDir bitmap e
  let e ← whenBit bitmap kFPUTF8NameBit (utf8Name nfc block) e
  trailing isDir bitmap e

def parseEntryParams (nfc : Bytes → Bytes) (block : Bytes) (isDir : Bool) (bitmap : UInt16) :
    Except (Fault AfpErr) DirEntry :=
  decode block do
    let e ← fields nfc block isDir bitmap { isDir := isDir }
    check id
    return e

def entryBlock (i : Nat) : CheckedM ListErr (Bytes × Bool) := do
  let length ← u16 "entry length"
  let kind ← u8 "entry isdir"
  let _ ← u8 "entry pad"
  check .reply
  if length.toNat < 4 then
    throw (.error (.reply (.text "afp: enumerate entry %d has bogus length %d" [i, length.toNat])))
  let block ← taken (length.toNat - 4) "entry parameters"
  check .reply
  return (block, kind ≠ 0)

def readEntry (nfc : Bytes → Bytes) (fileBitmap dirBitmap : UInt16) (i : Nat) :
    CheckedM ListErr DirEntry := do
  let (block, isDir) ← entryBlock i
  (parseEntryParams nfc block isDir (if isDir then dirBitmap else fileBitmap)).mapError
    (Fault.map (ListErr.entry i))

def readEntries (nfc : Bytes → Bytes) (fileBitmap dirBitmap : UInt16) :
    Nat → Nat → CheckedM ListErr (List DirEntry)
  | 0, _ => return []
  | n + 1, i => do
    let e ← readEntry nfc fileBitmap dirBitmap i
    let rest ← readEntries nfc fileBitmap dirBitmap n (i + 1)
    return e :: rest

def enumerateReply (nfc : Bytes → Bytes) : CheckedM ListErr (List DirEntry) := do
  let fileBitmap ← u16 "file bitmap"
  let dirBitmap ← u16 "dir bitmap"
  let count ← u16 "entry count"
  check .reply
  readEntries nfc fileBitmap dirBitmap count.toNat 0

def parseEnumerateReply (nfc : Bytes → Bytes) (payload : Bytes) :
    Except (Fault ListErr) (List DirEntry) :=
  decode payload (enumerateReply nfc)

section Agree

variable (nfc : Bytes → Bytes) (bitmap bit : UInt16) (e : DirEntry) (block : Bytes) (isDir : Bool)

@[simp] theorem adapt_whenBit (step : DirEntry → EntryM DirEntry) :
    Proc.adapt Fault.error (DirEntry.whenBit bitmap bit step e) =
      whenBit bitmap bit (fun e => Proc.adapt Fault.error (step e)) e := by
  unfold DirEntry.whenBit whenBit
  split_ifs <;> rfl

@[simp] theorem adapt_stored (x : StateM Reader α) (set : DirEntry → α → DirEntry) :
    Proc.adapt Fault.error (DirEntry.stored x set e) = stored (liftM x) set e := by
  rw [DirEntry.stored, Proc.adapt_bind]
  rfl

@[simp] theorem adapt_skipped (x : StateM Reader α) :
    Proc.adapt Fault.error (DirEntry.skipped x e) = skipped (liftM x) e :=
  adapt_stored e x _

theorem finderInfo_eq :
    finderInfo = stored (liftM (Reader.take 32 "finder info")) DirEntry.setFinderInfo := by
  funext e
  rw [stored, finderInfo, taken_eq]
  refine congrArg (liftM (Reader.take 32 "finder info") >>= ·) (funext fun fi => ?_)
  by_cases hlen : fi.length ≥ 4
  · have hslice : (Fault.slice fi 0 4 : Except (Fault AfpErr) Bytes) = .ok (fi.take 4) :=
      Fault.slice_eq (by decide) hlen
    rw [if_pos hlen, hslice]
    by_cases htype : fi.take 4 = ascii "slnk"
    · rw [DirEntry.setFinderInfo, if_pos ⟨hlen, htype⟩]
      refine Proc.ext fun r => ?_
      rw [Proc.on_bind_ok (Proc.on_lift _ r), if_pos htype]
    · rw [DirEntry.setFinderInfo, if_neg fun h => htype h.2]
      refine Proc.ext fun r => ?_
      rw [Proc.on_bind_ok (Proc.on_lift _ r), if_neg htype]
  · rw [if_neg hlen, DirEntry.setFinderInfo, if_neg fun h => hlen h.1]

theorem adapt_longName : Proc.adapt Fault.error (DirEntry.longName block e) = longName block e := by
  simp only [longName, DirEntry.longName, Proc.adapt_bind, Proc.adapt_ite, Proc.adapt_lift,
    Proc.adapt_liftState, Proc.adapt_get, Proc.adapt_pure, pascalAt_eq, u16_eq]

theorem adapt_utf8Name :
    Proc.adapt Fault.error (DirEntry.utf8Name nfc block e) = utf8Name nfc block e := by
  simp only [utf8Name, DirEntry.utf8Name, Proc.adapt_bind, Proc.adapt_ite, Proc.adapt_lift,
    Proc.adapt_liftState, Proc.adapt_get, Proc.adapt_pure, pascal2At_eq, u16_eq, u32_eq]

theorem adapt_unixFields : Proc.adapt Fault.error (DirEntry.unixFields e) = unixFields e := by
  simp only [unixFields, DirEntry.unixFields, Proc.adapt_bind, adapt_stored, adapt_skipped,
    Proc.adapt_get, Proc.adapt_pure, u32_eq]

theorem adapt_leading :
    Proc.adapt Fault.error (DirEntry.leading block isDir bitmap e) =
      leading block isDir bitmap e := by
  simp only [leading, DirEntry.leading, Proc.adapt_bind, Proc.adapt_ite, adapt_whenBit,
    adapt_skipped, adapt_stored, adapt_longName, finderInfo_eq, u16_eq, u32_eq, u64_eq]

theorem adapt_trailing :
    Proc.adapt Fault.error (DirEntry.trailing isDir bitmap e) = trailing isDir bitmap e := by
  cases isDir <;>
    simp only [trailing, DirEntry.trailing, Proc.adapt_bind, adapt_whenBit, adapt_skipped,
      adapt_unixFields, Proc.adapt_pure, if_true, Bool.false_eq_true, if_false, u64_eq]

theorem adapt_fields :
    Proc.adapt Fault.error (DirEntry.fields nfc block isDir bitmap e) =
      fields nfc block isDir bitmap e := by
  simp only [fields, DirEntry.fields, Proc.adapt_bind, adapt_whenBit, adapt_leading, adapt_utf8Name,
    adapt_trailing]

theorem parseEntryParams_eq :
    parseEntryParams nfc block isDir bitmap =
      (GoAfp.parseEntryParams nfc block isDir bitmap).mapError Fault.error := by
  rw [parseEntryParams, GoAfp.parseEntryParams, decode, ← adapt_fields, Proc.on_bind, Proc.on_adapt]
  rcases (DirEntry.fields nfc block isDir bitmap { isDir := isDir }).on { b := block } with
    ⟨_ | e, b, pos, _ | err⟩ <;> rfl

theorem adapt_check : Proc.adapt Fault.error ListM.check = check ListErr.reply := by
  refine Proc.ext fun r => ?_
  rcases r with ⟨b, pos, _ | err⟩ <;> rfl

theorem adapt_entryBlock (i : Nat) :
    Proc.adapt Fault.error (GoAfp.entryBlock i) = entryBlock i := by
  simp only [entryBlock, GoAfp.entryBlock, Proc.adapt_bind, Proc.adapt_ite, Proc.adapt_throw,
    Proc.adapt_pure, Proc.adapt_liftState, adapt_check, u16_eq, u8_eq, taken_eq]

theorem adapt_readEntry (fileBitmap dirBitmap : UInt16) (i : Nat) :
    Proc.adapt Fault.error (GoAfp.readEntry nfc fileBitmap dirBitmap i) =
      readEntry nfc fileBitmap dirBitmap i := by
  rw [GoAfp.readEntry, readEntry, Proc.adapt_bind, adapt_entryBlock]
  refine congrArg (entryBlock i >>= ·) (funext fun x => ?_)
  obtain ⟨block, isDir⟩ := x
  simp only [parseEntryParams_eq]
  cases GoAfp.parseEntryParams nfc block isDir (if isDir then dirBitmap else fileBitmap) <;> rfl

theorem adapt_readEntries (fileBitmap dirBitmap : UInt16) (n i : Nat) :
    Proc.adapt Fault.error (GoAfp.readEntries nfc fileBitmap dirBitmap n i) =
      readEntries nfc fileBitmap dirBitmap n i := by
  induction n generalizing i with
  | zero => rfl
  | succ n ih =>
    simp only [readEntries, GoAfp.readEntries, Proc.adapt_bind, adapt_readEntry, ih,
      Proc.adapt_pure]

theorem adapt_enumerateReply :
    Proc.adapt Fault.error (GoAfp.enumerateReply nfc) = enumerateReply nfc := by
  simp only [enumerateReply, GoAfp.enumerateReply, Proc.adapt_bind, Proc.adapt_liftState,
    adapt_check, adapt_readEntries, u16_eq]

theorem parseEnumerateReply_eq (payload : Bytes) :
    parseEnumerateReply nfc payload =
      (GoAfp.parseEnumerateReply nfc payload).mapError Fault.error := by
  rw [parseEnumerateReply, GoAfp.parseEnumerateReply, decode, ← adapt_enumerateReply, Proc.on_adapt]

end Agree

section Names

variable {nfc : Bytes → Bytes} {block : Bytes} {bitmap bit : UInt16}

/-- A name that stands in `block`, as it is there or composed. -/
def NameIn (nfc : Bytes → Bytes) (block : Bytes) (e : DirEntry) : Prop :=
  ∃ s, s <:+: block ∧ (e.name = s ∨ e.name = nfc s)

def KeepsName (nfc : Bytes → Bytes) (block : Bytes) (step : DirEntry → CheckedM AfpErr DirEntry) :
    Prop :=
  ∀ e, NameIn nfc block e → Fault.Safe (Inside block) (step e) (NameIn nfc block)

theorem KeepsName.bind {x y : DirEntry → CheckedM AfpErr DirEntry} (hx : KeepsName nfc block x)
    (hy : KeepsName nfc block y) : KeepsName nfc block fun e => x e >>= y :=
  fun e he => (hx e he).bind hy

theorem keepsName_pure : KeepsName nfc block pure :=
  fun _ he => Fault.safe_pure he

theorem keepsName_ite {c : Prop} [Decidable c] {x y : DirEntry → CheckedM AfpErr DirEntry}
    (hx : KeepsName nfc block x) (hy : KeepsName nfc block y) :
    KeepsName nfc block fun e => if c then x e else y e :=
  fun e he => Fault.Safe.ite (fun _ => hx e he) fun _ => hy e he

theorem keepsName_whenBit {step : DirEntry → CheckedM AfpErr DirEntry}
    (h : KeepsName nfc block step) :
    KeepsName nfc block (whenBit bitmap bit step) :=
  keepsName_ite h keepsName_pure

theorem keepsName_stored {x : CheckedM AfpErr α} {Q : α → Prop} {set : DirEntry → α → DirEntry}
    (hx : Fault.Safe (Inside block) x Q) (hset : ∀ e v, (set e v).name = e.name) :
    KeepsName nfc block (stored x set) := by
  intro e he
  refine hx.bind fun v _ => Fault.safe_pure ?_
  unfold NameIn
  rwa [hset]

theorem keepsName_finderInfo : KeepsName nfc block finderInfo := by
  rw [finderInfo_eq, ← taken_eq]
  refine keepsName_stored (safe_taken 32 _) fun e fi => ?_
  unfold DirEntry.setFinderInfo
  split_ifs <;> rfl

theorem keepsName_longName : KeepsName nfc block (longName block) := by
  intro e he
  refine (safe_u16 _).bind fun off _ => Fault.safe_get.bind fun r _ =>
    Fault.Safe.ite (fun _ => ?_) fun _ => Fault.safe_pure he
  exact (Fault.safe_lift (sound_pascalAt block off.toNat)).bind fun s hs =>
    Fault.safe_pure ⟨s, hs, Or.inl rfl⟩

theorem keepsName_utf8Name : KeepsName nfc block (utf8Name nfc block) := by
  intro e he
  refine (safe_u16 _).bind fun off _ => (safe_u32 _).bind fun _ _ => Fault.safe_get.bind fun r _ =>
    Fault.Safe.ite (fun _ => ?_) fun _ => Fault.safe_pure he
  exact (Fault.safe_lift (sound_pascal2At block (off.toNat + 4))).bind fun s hs =>
    Fault.safe_pure ⟨s, hs, Or.inr rfl⟩

theorem keepsName_unixFields : KeepsName nfc block unixFields :=
  .bind (keepsName_stored (safe_u32 _) fun _ _ => rfl) <|
  .bind (keepsName_stored (safe_u32 _) fun _ _ => rfl) <|
  .bind (keepsName_stored (safe_u32 _) fun _ _ => rfl) <|
  .bind (keepsName_stored (safe_u32 _) fun _ _ => rfl) fun _ he =>
    Fault.safe_get.bind fun _ _ => Fault.safe_pure he

theorem keepsName_leading (isDir : Bool) : KeepsName nfc block (leading block isDir bitmap) :=
  .bind (keepsName_whenBit (keepsName_stored (safe_u16 _) fun _ _ => rfl)) <|
  .bind (keepsName_whenBit (keepsName_stored (safe_u32 _) fun _ _ => rfl)) <|
  .bind (keepsName_whenBit (keepsName_stored (safe_u32 _) fun _ _ => rfl)) <|
  .bind (keepsName_whenBit (keepsName_stored (safe_u32 _) fun _ _ => rfl)) <|
  .bind (keepsName_whenBit (keepsName_stored (safe_u32 _) fun _ _ => rfl)) <|
  .bind (keepsName_whenBit keepsName_finderInfo) <|
  .bind (keepsName_whenBit keepsName_longName) <|
  .bind (keepsName_whenBit (keepsName_stored (safe_u16 _) fun _ _ => rfl)) <|
  .bind (keepsName_whenBit (keepsName_stored (safe_u32 _) fun _ _ => rfl)) <|
  keepsName_ite
    (.bind (keepsName_whenBit (keepsName_stored (safe_u16 _) fun _ _ => rfl)) <|
      .bind (keepsName_whenBit (keepsName_stored (safe_u32 _) fun _ _ => rfl)) <|
      .bind (keepsName_whenBit (keepsName_stored (safe_u32 _) fun _ _ => rfl)) <|
      keepsName_whenBit (keepsName_stored (safe_u32 _) fun _ _ => rfl))
    (.bind (keepsName_whenBit (keepsName_stored (safe_u32 _) fun _ _ => rfl)) <|
      .bind (keepsName_whenBit (keepsName_stored (safe_u32 _) fun _ _ => rfl)) <|
      .bind (keepsName_whenBit (keepsName_stored (safe_u64 _) fun _ _ => rfl)) <|
      keepsName_whenBit (keepsName_stored (safe_u16 _) fun _ _ => rfl))

theorem keepsName_trailing (isDir : Bool) : KeepsName nfc block (trailing isDir bitmap) := by
  have hrsrc : KeepsName nfc block (if isDir then pure else skipped (u64 "ext rsrc fork len")) := by
    cases isDir
    · exact keepsName_stored (safe_u64 _) fun _ _ => rfl
    · exact keepsName_pure
  exact (keepsName_whenBit hrsrc).bind (keepsName_whenBit keepsName_unixFields)

theorem sound_parseEntryParams (nfc : Bytes → Bytes) (block : Bytes) (isDir : Bool)
    (bitmap : UInt16) :
    Fault.Sound (NameIn nfc block) (parseEntryParams nfc block isDir bitmap) := by
  have hfields : KeepsName nfc block (fields nfc block isDir bitmap) :=
    (keepsName_leading isDir).bind <|
      (keepsName_whenBit keepsName_utf8Name).bind (keepsName_trailing isDir)
  have hstart : NameIn nfc block { isDir := isDir } := ⟨[], List.nil_infix, Or.inl rfl⟩
  refine sound_decode ((hfields _ hstart).bind fun e he => ?_)
  exact (safe_check id).bind fun _ _ => Fault.safe_pure he

variable {payload : Bytes}

theorem NameIn.mono {e : DirEntry} (h : NameIn nfc block e) (hb : block <:+: payload) :
    NameIn nfc payload e := by
  obtain ⟨s, hs, hname⟩ := h
  exact ⟨s, hs.trans hb, hname⟩

theorem safe_entryBlock (i : Nat) :
    Fault.Safe (Inside payload) (entryBlock i) fun x => x.1 <:+: payload := by
  refine (safe_u16 _).bind fun length _ => (safe_u8 _).bind fun kind _ =>
    (safe_u8 _).bind fun _ _ =>
    (safe_check _).bind fun _ _ => Fault.Safe.ite (fun _ => ?_) fun _ => ?_
  · exact Fault.safe_throw _
  · exact (safe_taken _ _).bind fun block hblock => (safe_check _).bind fun _ _ =>
      Fault.safe_pure hblock

theorem safe_readEntry (fileBitmap dirBitmap : UInt16) (i : Nat) :
    Fault.Safe (Inside payload) (readEntry nfc fileBitmap dirBitmap i) (NameIn nfc payload) := by
  refine (safe_entryBlock i).bind fun x hblock => Fault.safe_lift ?_
  exact ((sound_parseEntryParams nfc x.1 x.2 _).weaken fun e he => he.mono hblock).map _

theorem safe_readEntries (fileBitmap dirBitmap : UInt16) (n i : Nat) :
    Fault.Safe (Inside payload) (readEntries nfc fileBitmap dirBitmap n i) fun es => ∀ e ∈ es,
      NameIn nfc payload e := by
  induction n generalizing i with
  | zero => exact Fault.safe_pure (by simp)
  | succ n ih =>
    refine (safe_readEntry fileBitmap dirBitmap i).bind fun e he =>
      (ih (i + 1)).bind fun rest hrest => ?_
    exact Fault.safe_pure (List.forall_mem_cons.mpr ⟨he, hrest⟩)

theorem sound_parseEnumerateReply (nfc : Bytes → Bytes) (payload : Bytes) :
    Fault.Sound (fun es => ∀ e ∈ es, NameIn nfc payload e) (parseEnumerateReply nfc payload) :=
  sound_decode <| (safe_u16 _).bind fun _ _ => (safe_u16 _).bind fun _ _ =>
    (safe_u16 _).bind fun _ _ =>
    (safe_check _).bind fun _ _ => safe_readEntries _ _ _ _

end Names

end Checked

end GoAfp
