import GoAfp.Entry

/-! The layout of a parameter block: the fields that the bitmap selects in
ascending order of their bits, with the names elsewhere in the block at the
offsets given. -/

namespace GoAfp

/-- A value for every parameter. The bits 9 to 12 stand for other parameters
in a directory than in a file, and bit 14 for none. -/
structure Params where
  attributes : UInt16
  parentDirID : UInt32
  createDate : UInt32
  modDate : UInt32
  backupDate : UInt32
  finderInfo : { fi : Bytes // fi.length = 32 }
  longName : { s : Bytes // s.length ≤ 255 }
  shortName : { s : Bytes // s.length ≤ 255 }
  nodeID : UInt32
  offspring : UInt16
  ownerID : UInt32
  groupID : UInt32
  accessRights : UInt32
  dataForkLen : UInt32
  rsrcForkLen : UInt32
  extDataForkLen : UInt64
  launchLimit : UInt16
  utf8Hint : UInt32
  utf8Name : { s : Bytes // s.length < 65536 }
  utf8Pad : UInt32
  extRsrcForkLen : UInt64
  uid : UInt32
  gid : UInt32
  permissions : UInt32
  uaPermissions : UInt32

structure NameOffsets where
  long : UInt16
  short : UInt16
  utf8 : UInt16

def field (bitmap bit : UInt16) (enc : Bytes) : Bytes :=
  if bitmap &&& bit ≠ 0 then enc else []

namespace Params

variable (p : Params) (isDir : Bool) (bitmap : UInt16)

def fixed (o : NameOffsets) : Bytes :=
  field bitmap kFPAttributeBit (putU16 p.attributes) ++
  field bitmap kFPParentDirIDBit (putU32 p.parentDirID) ++
  field bitmap kFPCreateDateBit (putU32 p.createDate) ++
  field bitmap kFPModDateBit (putU32 p.modDate) ++
  field bitmap kFPBackupDateBit (putU32 p.backupDate) ++
  field bitmap kFPFinderInfoBit p.finderInfo ++
  field bitmap kFPLongNameBit (putU16 o.long) ++
  field bitmap kFPShortNameBit (putU16 o.short) ++
  field bitmap kFPNodeIDBit (putU32 p.nodeID) ++
  (if isDir then
    field bitmap kFPOffspringCountBit (putU16 p.offspring) ++
    field bitmap kFPOwnerIDBit (putU32 p.ownerID) ++
    field bitmap kFPGroupIDBit (putU32 p.groupID) ++
    field bitmap kFPAccessRightsBit (putU32 p.accessRights)
  else
    field bitmap kFPDataForkLenBit (putU32 p.dataForkLen) ++
    field bitmap kFPRsrcForkLenBit (putU32 p.rsrcForkLen) ++
    field bitmap kFPExtDataForkLenBit (putU64 p.extDataForkLen) ++
    field bitmap kFPLaunchLimitBit (putU16 p.launchLimit)) ++
  field bitmap kFPUTF8NameBit (putU16 o.utf8 ++ putU32 p.utf8Pad) ++
  (if isDir then [] else field bitmap kFPExtRsrcForkLenBit (putU64 p.extRsrcForkLen)) ++
  field bitmap kFPUnixPrivsBit
    (putU32 p.uid ++ putU32 p.gid ++ putU32 p.permissions ++ putU32 p.uaPermissions)

def utf8String : Bytes :=
  putU32 p.utf8Hint ++ putU16 (UInt16.ofNat p.utf8Name.val.length) ++ p.utf8Name

/-- The block starts with the fixed fields and has the names at their offsets. -/
structure Laid (o : NameOffsets) (block : Bytes) : Prop where
  fixed : p.fixed isDir bitmap o <+: block
  long : bitmap &&& kFPLongNameBit ≠ 0 → putPascal p.longName <+: block.drop o.long.toNat
  utf8 : bitmap &&& kFPUTF8NameBit ≠ 0 → p.utf8String <+: block.drop o.utf8.toNat

/-- What the parameters say, of those that are selected. -/
def entry (nfc : Bytes → Bytes) : DirEntry where
  name :=
    if bitmap &&& kFPUTF8NameBit ≠ 0 then nfc p.utf8Name
    else if bitmap &&& kFPLongNameBit ≠ 0 then p.longName else []
  isDir := isDir
  size :=
    if isDir then 0
    else if bitmap &&& kFPExtDataForkLenBit ≠ 0 then p.extDataForkLen
    else if bitmap &&& kFPDataForkLenBit ≠ 0 then p.dataForkLen.toUInt64 else 0
  nodeID := if bitmap &&& kFPNodeIDBit ≠ 0 then p.nodeID else 0
  parentDirID := if bitmap &&& kFPParentDirIDBit ≠ 0 then p.parentDirID else 0
  offspring := if isDir ∧ bitmap &&& kFPOffspringCountBit ≠ 0 then p.offspring else 0
  createTime := if bitmap &&& kFPCreateDateBit ≠ 0 then afpDate p.createDate else none
  modTime := if bitmap &&& kFPModDateBit ≠ 0 then afpDate p.modDate else none
  unixPrivs :=
    if bitmap &&& kFPUnixPrivsBit ≠ 0 then ⟨p.uid, p.gid, p.permissions⟩
    else ⟨if isDir ∧ bitmap &&& kFPOwnerIDBit ≠ 0 then p.ownerID else 0,
      if isDir ∧ bitmap &&& kFPGroupIDBit ≠ 0 then p.groupID else 0, 0⟩
  hasUnix := bitmap &&& kFPUnixPrivsBit ≠ 0
  isSymlink := bitmap &&& kFPFinderInfoBit ≠ 0 ∧ p.finderInfo.val.take 4 = ascii "slnk"

end Params

/-- A part of the parser reads `enc` and changes the entry by `u`. -/
def Lays (block : Bytes) (x : DirEntry → EntryM DirEntry) (enc : Bytes)
    (u : DirEntry → DirEntry) : Prop :=
  ∀ pre post e, block = pre ++ (enc ++ post) →
    (x e).on ⟨block, pre.length, none⟩ = (.ok (u e), ⟨block, pre.length + enc.length, none⟩)

def updateIf (bitmap bit : UInt16) (u : DirEntry → DirEntry) (e : DirEntry) : DirEntry :=
  if bitmap &&& bit ≠ 0 then u e else e

section Lays

variable {block enc enc' : Bytes} {x y : DirEntry → EntryM DirEntry} {u u' : DirEntry → DirEntry}

theorem Lays.bind (hx : Lays block x enc u) (hy : Lays block y enc' u') :
    Lays block (fun e => x e >>= y) (enc ++ enc') fun e => u' (u e) := by
  intro pre post e hb
  have h := hy (pre ++ enc) post (u e) (by simpa using hb)
  rw [List.length_append] at h
  rw [Proc.on_bind_ok (hx pre (enc' ++ post) e (by simpa using hb)), h, List.length_append,
    Nat.add_assoc]

theorem lays_whenBit {bitmap bit : UInt16} (hx : bitmap &&& bit ≠ 0 → Lays block x enc u) :
    Lays block (DirEntry.whenBit bitmap bit x) (field bitmap bit enc) (updateIf bitmap bit u) := by
  intro pre post e hb
  unfold DirEntry.whenBit field updateIf
  unfold field at hb
  split_ifs at hb ⊢ with hbit
  · exact hx hbit pre post e hb
  · rfl

theorem Lays.ite (c : Bool) (hx : Lays block x enc u) (hy : Lays block y enc' u') :
    Lays block (fun e => if c then x e else y e) (if c then enc else enc') fun e => if c then u e
      else u' e := by
  cases c with
  | false => exact hy
  | true => exact hx

theorem on_reads {ε α : Type} {f : StateM Reader α} {v : α} (h : Reader.Reads f enc v)
    {pre post : Bytes} (hb : block = pre ++ (enc ++ post)) :
    (liftM f : Proc Reader ε α).on ⟨block, pre.length, none⟩ =
      (.ok v, ⟨block, pre.length + enc.length, none⟩) := by
  rw [Proc.on_liftState, h.run_at pre post hb rfl]

theorem lays_stored {α : Type} {f : StateM Reader α} {v : α} (h : Reader.Reads f enc v)
    (set : DirEntry → α → DirEntry) : Lays block (DirEntry.stored f set) enc fun e => set e v := by
  intro pre post e hb
  rw [DirEntry.stored, Proc.on_bind_ok (on_reads h hb)]
  rfl

theorem lays_skipped {α : Type} {f : StateM Reader α} {v : α} (h : Reader.Reads f enc v) :
    Lays block (DirEntry.skipped f) enc id :=
  lays_stored h fun e _ => e

theorem lays_finderInfo (fi : { fi : Bytes // fi.length = 32 }) :
    Lays block (DirEntry.stored (Reader.take 32 "finder info") DirEntry.setFinderInfo) fi
      fun e => { e with isSymlink := decide (fi.val.take 4 = ascii "slnk") || e.isSymlink } := by
  have hset (e : DirEntry) : DirEntry.setFinderInfo e fi =
      { e with isSymlink := decide (fi.val.take 4 = ascii "slnk") || e.isSymlink } := by
    have hlen : fi.val.length ≥ 4 := by
      rw [fi.property]
      decide
    by_cases hslnk : fi.val.take 4 = ascii "slnk"
    · simp [DirEntry.setFinderInfo, hlen, hslnk]
    · simp [DirEntry.setFinderInfo, hslnk]
  simp only [← hset]
  exact lays_stored (Reader.reads_take "finder info" fi.property) DirEntry.setFinderInfo

theorem lays_longName {off : UInt16} {name : Bytes} (h : pascalAt block off.toNat = .ok name) :
    Lays block (DirEntry.longName block) (putU16 off) fun e => { e with name := name } := by
  intro pre post e hb
  rw [DirEntry.longName, Proc.on_bind_ok (on_reads (Reader.reads_u16 off _) hb),
    Proc.on_bind_ok (Proc.on_get _), h]
  rfl

theorem lays_utf8Name {nfc : Bytes → Bytes} {off : UInt16} {name : Bytes}
    (h : pascal2At block (off.toNat + 4) = .ok name) (pad : UInt32) :
    Lays block (DirEntry.utf8Name nfc block) (putU16 off ++ putU32 pad) fun e =>
      { e with name := nfc name } := by
  intro pre post e hb
  have hoff : block = pre ++ (putU16 off ++ (putU32 pad ++ post)) := by simpa using hb
  have hrest : block = (pre ++ putU16 off) ++ (putU32 pad ++ post) := by simpa using hb
  have hpad : (liftM (Reader.u32 "utf8 name pad") : EntryM UInt32).on _ = _ :=
    on_reads (Reader.reads_u32 pad _) hrest
  rw [List.length_append] at hpad
  rw [DirEntry.utf8Name, Proc.on_bind_ok (on_reads (Reader.reads_u16 off _) hoff),
    Proc.on_bind_ok hpad, Proc.on_bind_ok (Proc.on_get _), h, List.length_append, ← Nat.add_assoc]
  rfl

theorem lays_unixFields (p : Params) :
    Lays block DirEntry.unixFields
      (putU32 p.uid ++ putU32 p.gid ++ putU32 p.permissions ++ putU32 p.uaPermissions)
      fun e => { e with unixPrivs := ⟨p.uid, p.gid, p.permissions⟩, hasUnix := true } := by
  have hflag : Lays block (fun e => do let r ← get; return { e with hasUnix := r.err.isNone }) []
      fun e => { e with hasUnix := true } := fun pre post e hb => rfl
  have h : Lays block DirEntry.unixFields _ _ :=
    (lays_stored (Reader.reads_u32 p.uid _) _).bind <|
      (lays_stored (Reader.reads_u32 p.gid _) _).bind <|
    (lays_stored (Reader.reads_u32 p.permissions _) _).bind <|
    (lays_skipped (Reader.reads_u32 p.uaPermissions _)).bind hflag
  rw [List.append_nil] at h
  simp only [List.append_assoc]
  exact h

end Lays

theorem lays_extRsrcForkLen (isDir : Bool) (bitmap : UInt16) (v : UInt64) :
    Lays block (DirEntry.whenBit bitmap kFPExtRsrcForkLenBit
        (if isDir then pure else DirEntry.skipped (Reader.u64 "ext rsrc fork len")))
      (if isDir then [] else field bitmap kFPExtRsrcForkLenBit (putU64 v)) id := by
  cases isDir with
  | false =>
    have h :
        Lays block
          (DirEntry.whenBit bitmap kFPExtRsrcForkLenBit (DirEntry.skipped (Reader.u64 _))) _ _ :=
      lays_whenBit fun _ => lays_skipped (Reader.reads_u64 v "ext rsrc fork len")
    have hid : updateIf bitmap kFPExtRsrcForkLenBit id = id := funext fun e => ite_self e
    rwa [hid] at h
  | true =>
    intro pre post e _
    by_cases hbit : bitmap &&& kFPExtRsrcForkLenBit ≠ 0
    · rw [DirEntry.whenBit, if_pos hbit]
      rfl
    · rw [DirEntry.whenBit, if_neg hbit]
      rfl

theorem updateIf_apply {β : Type} (π : DirEntry → β) (bitmap bit : UInt16) (u : DirEntry → DirEntry)
    (e : DirEntry) :
    π (updateIf bitmap bit u e) = if bitmap &&& bit ≠ 0 then π (u e) else π e :=
  apply_ite π _ _ _

attribute [ext] DirEntry

section Fields

variable {p : Params} {isDir : Bool} {bitmap : UInt16} {o : NameOffsets} {block : Bytes}

theorem lays_fields (nfc : Bytes → Bytes)
    (hlong : bitmap &&& kFPLongNameBit ≠ 0 → pascalAt block o.long.toNat = .ok p.longName)
    (hutf8 : bitmap &&& kFPUTF8NameBit ≠ 0 → pascal2At block (o.utf8.toNat + 4) = .ok p.utf8Name) :
    ∃ u, Lays block (DirEntry.fields nfc block isDir bitmap) (p.fixed isDir bitmap o) u ∧
      u { isDir := isDir } = p.entry isDir bitmap nfc := by
  have hlead : Lays block (DirEntry.leading block isDir bitmap) _ _ :=
    (lays_whenBit fun _ => lays_skipped (Reader.reads_u16 p.attributes _)).bind <|
    (lays_whenBit fun _ => lays_stored (Reader.reads_u32 p.parentDirID _) _).bind <|
    (lays_whenBit fun _ => lays_stored (Reader.reads_u32 p.createDate _) _).bind <|
    (lays_whenBit fun _ => lays_stored (Reader.reads_u32 p.modDate _) _).bind <|
    (lays_whenBit fun _ => lays_skipped (Reader.reads_u32 p.backupDate _)).bind <|
    (lays_whenBit fun _ => lays_finderInfo p.finderInfo).bind <|
    (lays_whenBit fun hbit => lays_longName (hlong hbit)).bind <|
    (lays_whenBit fun _ => lays_skipped (Reader.reads_u16 o.short _)).bind <|
    (lays_whenBit fun _ => lays_stored (Reader.reads_u32 p.nodeID _) _).bind <|
    Lays.ite isDir
      ((lays_whenBit fun _ => lays_stored (Reader.reads_u16 p.offspring _) _).bind <|
        (lays_whenBit fun _ => lays_stored (Reader.reads_u32 p.ownerID _) _).bind <|
        (lays_whenBit fun _ => lays_stored (Reader.reads_u32 p.groupID _) _).bind <|
        lays_whenBit fun _ => lays_skipped (Reader.reads_u32 p.accessRights _))
      ((lays_whenBit fun _ => lays_stored (Reader.reads_u32 p.dataForkLen _) _).bind <|
        (lays_whenBit fun _ => lays_skipped (Reader.reads_u32 p.rsrcForkLen _)).bind <|
        (lays_whenBit fun _ => lays_stored (Reader.reads_u64 p.extDataForkLen _) _).bind <|
        lays_whenBit fun _ => lays_skipped (Reader.reads_u16 p.launchLimit _))
  have htrail : Lays block (DirEntry.trailing isDir bitmap) _ _ :=
    (lays_extRsrcForkLen isDir bitmap p.extRsrcForkLen).bind <| lays_whenBit fun _ =>
      lays_unixFields p
  have hall : Lays block (DirEntry.fields nfc block isDir bitmap) _ _ :=
    hlead.bind <| (lays_whenBit fun hbit => lays_utf8Name (hutf8 hbit) p.utf8Pad).bind htrail
  refine ⟨?update, ?lays, ?entry⟩
  case lays =>
    rw [Params.fixed]
    simp only [List.append_assoc] at hall ⊢
    exact hall
  case entry =>
    -- of each component only the updates that touch it are left
    clear hlead htrail hall
    cases isDir <;> apply DirEntry.ext <;>
      simp only [updateIf_apply DirEntry.name, updateIf_apply DirEntry.isDir,
        updateIf_apply DirEntry.size, updateIf_apply DirEntry.nodeID,
        updateIf_apply DirEntry.parentDirID, updateIf_apply DirEntry.offspring,
        updateIf_apply DirEntry.createTime, updateIf_apply DirEntry.modTime,
          updateIf_apply DirEntry.unixPrivs,
        updateIf_apply DirEntry.hasUnix, updateIf_apply DirEntry.isSymlink, Params.entry,
          DirEntry.setUid,
        DirEntry.setGid, id, ite_self, if_true, if_false, Bool.false_eq_true, false_and, true_and,
          Bool.or_false,
        Bool.and_true, Bool.if_false_right, Bool.decide_and]
    by_cases hgroup : bitmap &&& kFPGroupIDBit = 0 <;> by_cases howner : bitmap &&&
      kFPOwnerIDBit = 0 <;>
      simp [hgroup, howner]

theorem pascalAt_putPascal {s : Bytes} {off : Nat} (hs : s.length ≤ 255)
    (h : putPascal s <+: block.drop off) :
    pascalAt block off = .ok s := by
  rw [putPascal, List.take_of_length_le hs] at h
  exact pascalAt_eq_ok_iff.mpr ⟨hs, h⟩

theorem pascal2At_utf8String {off : Nat} (h : p.utf8String <+: block.drop off) :
    pascal2At block (off + 4) = .ok p.utf8Name := by
  obtain ⟨t, ht⟩ := h
  refine pascal2At_eq_ok_iff.mpr ⟨p.utf8Name.property, t, ?_⟩
  rw [← List.drop_drop, ← ht, Params.utf8String, List.append_assoc, List.append_assoc,
    List.append_assoc, List.drop_left' (putU32_length p.utf8Hint)]

theorem parseEntryParams_laid (nfc : Bytes → Bytes) (h : p.Laid isDir bitmap o block) :
    parseEntryParams nfc block isDir bitmap = .ok (p.entry isDir bitmap nfc) := by
  obtain ⟨u, hlays, hentry⟩ := lays_fields nfc
    (fun hbit => pascalAt_putPascal p.longName.property (h.long hbit)) fun hbit =>
      pascal2At_utf8String (h.utf8 hbit)
  obtain ⟨post, hpost⟩ := h.fixed
  have hon := hlays [] post { isDir := isDir } (by rw [List.nil_append, hpost])
  rw [hentry] at hon
  exact checked_eq_ok.mpr ⟨_, hon, rfl⟩

end Fields

def wordAt (b : Bytes) (pos : Nat) : Nat := natOfBytes ((b.drop pos).take 2)

def PascalOutside (b : Bytes) (off : Nat) : Prop :=
  b.length ≤ off ∨ b.length < off + 1 + (b.getD off 0).toNat

def Pascal2Outside (b : Bytes) (off : Nat) : Prop :=
  b.length < off + 2 ∨ b.length < off + 2 + wordAt b off

theorem pascalAt_cases (b : Bytes) (off : Nat) :
    (PascalOutside b off ∧ ∃ err, pascalAt b off = .error err) ∨
      (¬ PascalOutside b off ∧ ∃ s, pascalAt b off = .ok s) := by
  simp only [pascalAt, PascalOutside]
  split_ifs with hoff hend
  · exact Or.inl ⟨Or.inl hoff, _, rfl⟩
  · exact Or.inl ⟨Or.inr hend, _, rfl⟩
  · exact Or.inr ⟨not_or.mpr ⟨hoff, hend⟩, _, rfl⟩

theorem pascal2At_cases (b : Bytes) (off : Nat) :
    (Pascal2Outside b off ∧ ∃ err, pascal2At b off = .error err) ∨
      (¬ Pascal2Outside b off ∧ ∃ s, pascal2At b off = .ok s) := by
  simp only [pascal2At, Pascal2Outside, wordAt]
  split_ifs with hoff hend
  · exact Or.inl ⟨Or.inl hoff, _, rfl⟩
  · exact Or.inl ⟨Or.inr hend, _, rfl⟩
  · exact Or.inr ⟨not_or.mpr ⟨hoff, hend⟩, _, rfl⟩

def Failed {α : Type} (x : Except AfpErr α × Reader) : Prop := ∃ err, checked x = .error err

theorem failed_iff {α : Type} {x : Except AfpErr α × Reader} :
    Failed x ↔ (∃ err r, x = (.error err, r)) ∨ ∃ v r, x = (.ok v, r) ∧ r.err ≠ none := by
  obtain ⟨_ | v, b, pos, _ | err⟩ := x <;> simp [Failed, checked]

/-- A part of the parser takes `w` bytes at the cursor and fails iff they are
not there or `bad` holds. What it does with them does not depend on what
follows the block. -/
structure Consumes (w : Nat) (bad : Bytes → Nat → Prop) (x : Bytes → DirEntry → EntryM DirEntry) :
    Prop where
  sticky : ∀ block e r, r.err ≠ none → ∃ e', (x block e).on r = (.ok e', r)
  fits : ∀ block e pos, pos + w ≤ block.length → ¬ bad block pos →
    ∃ e', ∀ pad, (x (block ++ pad) e).on ⟨block ++ pad, pos, none⟩ =
      (.ok e', ⟨block ++ pad, pos + w, none⟩)
  fails : ∀ block e pos, pos ≤ block.length → block.length < pos + w ∨ bad block pos →
    Failed ((x block e).on ⟨block, pos, none⟩)

def widthIf (bitmap bit : UInt16) (w : Nat) : Nat := if bitmap &&& bit ≠ 0 then w else 0

section Consumes

variable {w w' : Nat} {bad bad' : Bytes → Nat → Prop} {x y : Bytes → DirEntry → EntryM DirEntry}

theorem Consumes.fits_self (h : Consumes w bad x) {block : Bytes} (e : DirEntry) {pos : Nat}
    (hw : pos + w ≤ block.length) (hbad : ¬ bad block pos) :
    ∃ e', (x block e).on ⟨block, pos, none⟩ = (.ok e', ⟨block, pos + w, none⟩) := by
  obtain ⟨e', he⟩ := h.fits block e pos hw hbad
  have hnil := he []
  rw [List.append_nil] at hnil
  exact ⟨e', hnil⟩

theorem Consumes.congr (h : Consumes w bad x) (hw : w = w')
    (hbad : ∀ block pos, bad block pos ↔ bad' block pos) :
    Consumes w' bad' x := by
  obtain rfl : bad = bad' := funext fun block => funext fun pos => propext (hbad block pos)
  rwa [← hw]

theorem Consumes.bind (hx : Consumes w bad x) (hy : Consumes w' bad' y) :
    Consumes (w + w') (fun block pos => bad block pos ∨ bad' block (pos + w)) fun block e =>
      x block e >>= y block where
  sticky block e r hr := by
    obtain ⟨e₁, h₁⟩ := hx.sticky block e r hr
    rw [Proc.on_bind_ok h₁]
    exact hy.sticky block e₁ r hr
  fits block e pos hw hbad := by
    rw [not_or] at hbad
    obtain ⟨e₁, h₁⟩ := hx.fits block e pos (by omega) hbad.1
    obtain ⟨e₂, h₂⟩ := hy.fits block e₁ (pos + w) (by omega) hbad.2
    refine ⟨e₂, fun pad => ?_⟩
    rw [Proc.on_bind_ok (h₁ pad), h₂ pad, Nat.add_assoc]
  fails block e pos hpos hfail := by
    by_cases hfirst : block.length < pos + w ∨ bad block pos
    · rcases failed_iff.mp (hx.fails block e pos hpos hfirst) with ⟨err, r, h₁⟩ | ⟨e₁, r, h₁, hr⟩
      · rw [Proc.on_bind_error h₁]
        exact failed_iff.mpr (Or.inl ⟨err, r, rfl⟩)
      · obtain ⟨e₂, h₂⟩ := hy.sticky block e₁ r hr
        rw [Proc.on_bind_ok h₁, h₂]
        exact failed_iff.mpr (Or.inr ⟨e₂, r, rfl, hr⟩)
    · obtain ⟨hroom, hgood⟩ := not_or.mp hfirst
      obtain ⟨e₁, h₁⟩ := hx.fits_self e (Nat.le_of_not_lt hroom) hgood
      rw [Proc.on_bind_ok h₁]
      refine hy.fails block e₁ (pos + w) (Nat.le_of_not_lt hroom) ?_
      rcases hfail with hlen | hbad | hbad
      · exact Or.inl (by omega)
      · exact absurd hbad hgood
      · exact Or.inr hbad

theorem consumes_pure : Consumes 0 (fun _ _ => False) fun _ => pure where
  sticky _ e r _ := ⟨e, rfl⟩
  fits _ e _ _ _ := ⟨e, fun _ => rfl⟩
  fails block e pos hpos h := by
    rcases h with hlen | hbad
    · omega
    · exact hbad.elim

theorem consumes_whenBit {bitmap bit : UInt16} (hx : Consumes w bad x) :
    Consumes (widthIf bitmap bit w) (fun block pos => bitmap &&& bit ≠ 0 ∧ bad block pos)
      fun block => DirEntry.whenBit bitmap bit (x block) := by
  unfold DirEntry.whenBit widthIf
  by_cases hbit : bitmap &&& bit ≠ 0
  · simp only [if_pos hbit]
    exact hx.congr rfl fun block pos => ⟨fun h => ⟨hbit, h⟩, fun h => h.2⟩
  · simp only [if_neg hbit]
    exact consumes_pure.congr rfl fun block pos => ⟨fun h => h.elim, fun h => hbit h.1⟩

/-- A read of `w` bytes, and what they are taken for. -/
def Width {α : Type} (w : Nat) (decode : Bytes → α) (f : StateM Reader α) : Prop :=
  ∃ what, ∀ r, f.run r = (decode ((Reader.take w what).run r).1, ((Reader.take w what).run r).2)

theorem width_take (n : Nat) (what : String) :
    Width n id (Reader.take n what) := ⟨what, fun _ => rfl⟩

theorem width_u16 (what : String) :
    Width 2 (fun b => UInt16.ofNat (natOfBytes b)) (Reader.u16 what) :=
  ⟨what, fun _ => rfl⟩

theorem width_u32 (what : String) :
    Width 4 (fun b => UInt32.ofNat (natOfBytes b)) (Reader.u32 what) :=
  ⟨what, fun _ => rfl⟩

theorem width_u64 (what : String) :
    Width 8 (fun b => UInt64.ofNat (natOfBytes b)) (Reader.u64 what) :=
  ⟨what, fun _ => rfl⟩

section Width

variable {ε α : Type} {f : StateM Reader α} {decode : Bytes → α} (h : Width w decode f)

include h

theorem Width.sticky {r : Reader} (hr : r.err ≠ none) :
    (liftM f : Proc Reader ε α).on r = (.ok (decode []), r) := by
  obtain ⟨what, hf⟩ := h
  rw [Proc.on_liftState, hf, Reader.take_sticky w what hr]

theorem Width.short {b : Bytes} {pos : Nat} (hw : b.length < pos + w) :
    ∃ r, (liftM f : Proc Reader ε α).on ⟨b, pos, none⟩ = (.ok (decode []), r) ∧ r.err ≠ none := by
  obtain ⟨what, hf⟩ := h
  rw [Proc.on_liftState, hf, Reader.take_short what hw]
  exact ⟨_, rfl, by simp⟩

theorem Width.fits {b : Bytes} {pos : Nat} (hw : pos + w ≤ b.length) (pad : Bytes) :
    (liftM f : Proc Reader ε α).on ⟨b ++ pad, pos, none⟩ =
      (.ok (decode ((b.drop pos).take w)), ⟨b ++ pad, pos + w, none⟩) := by
  obtain ⟨what, hf⟩ := h
  have hlong : pos + w ≤ (b ++ pad).length := by
    rw [List.length_append]
    omega
  have htake : ((b ++ pad).drop pos).take w = (b.drop pos).take w := by
    rw [List.drop_append_of_le_length (by omega),
      List.take_append_of_le_length (by rw [List.length_drop]; omega)]
  rw [Proc.on_liftState, hf, Reader.take_fits what hlong, htake]

theorem Width.fits_self {b : Bytes} {pos : Nat} (hw : pos + w ≤ b.length) :
    (liftM f : Proc Reader ε α).on ⟨b, pos, none⟩ =
      (.ok (decode ((b.drop pos).take w)), ⟨b, pos + w, none⟩) := by
  have hnil : (liftM f : Proc Reader ε α).on _ = _ := h.fits hw []
  rwa [List.append_nil] at hnil

theorem consumes_stored (set : DirEntry → α → DirEntry) :
    Consumes w (fun _ _ => False) fun _ => DirEntry.stored f set where
  sticky block e r hr := by
    rw [DirEntry.stored, Proc.on_bind_ok (h.sticky hr)]
    exact ⟨_, rfl⟩
  fits block e pos hw _ := by
    refine ⟨set e (decode ((block.drop pos).take w)), fun pad => ?_⟩
    rw [DirEntry.stored, Proc.on_bind_ok (h.fits hw pad)]
    rfl
  fails block e pos hpos hfail := by
    obtain ⟨r, hread, hr⟩ := h.short (hfail.resolve_right id)
    rw [DirEntry.stored, Proc.on_bind_ok hread]
    exact failed_iff.mpr (Or.inr ⟨_, r, rfl, hr⟩)

end Width

theorem toNat_word {b : Bytes} {pos : Nat} :
    (UInt16.ofNat (natOfBytes ((b.drop pos).take 2))).toNat = wordAt b pos := by
  have hlt := natOfBytes_lt ((b.drop pos).take 2)
  have hle : 256 ^ ((b.drop pos).take 2).length ≤ 2 ^ 16 :=
    Nat.pow_le_pow_right (by decide) (List.length_take_le 2 _)
  rw [UInt16.toNat_ofNat', wordAt, Nat.mod_eq_of_lt (hlt.trans_le hle)]

theorem consumes_longName :
    Consumes 2 (fun block pos => PascalOutside block (wordAt block pos)) DirEntry.longName where
  sticky block e r hr := by
    rw [DirEntry.longName, Proc.on_bind_ok ((width_u16 _).sticky hr),
      Proc.on_bind_ok (Proc.on_get r), if_neg (by simpa using hr)]
    exact ⟨e, rfl⟩
  fits block e pos hw hgood := by
    obtain ⟨s, hs⟩ := ((pascalAt_cases block (wordAt block pos)).resolve_left fun h => hgood h.1).2
    refine ⟨{ e with name := s }, fun pad => ?_⟩
    rw [DirEntry.longName, Proc.on_bind_ok ((width_u16 _).fits hw pad),
      Proc.on_bind_ok (Proc.on_get _), toNat_word, pascalAt_append hs pad]
    rfl
  fails block e pos hpos hfail := by
    by_cases hw : pos + 2 ≤ block.length
    · have hbad := hfail.resolve_left (Nat.not_lt_of_le hw)
      obtain ⟨err, herr⟩ :=
        ((pascalAt_cases block (wordAt block pos)).resolve_right fun h => h.1 hbad).2
      rw [DirEntry.longName, Proc.on_bind_ok ((width_u16 _).fits_self hw),
        Proc.on_bind_ok (Proc.on_get _), toNat_word, herr]
      exact failed_iff.mpr (Or.inl ⟨err, _, rfl⟩)
    · obtain ⟨r, hread, hr⟩ := (width_u16 "long name offset").short (Nat.lt_of_not_le hw)
      rw [DirEntry.longName, Proc.on_bind_ok hread, Proc.on_bind_ok (Proc.on_get r),
        if_neg (by simpa using hr)]
      exact failed_iff.mpr (Or.inr ⟨e, r, rfl, hr⟩)

theorem consumes_utf8Name (nfc : Bytes → Bytes) :
    Consumes 6 (fun block pos => Pascal2Outside block (wordAt block pos + 4))
      (DirEntry.utf8Name nfc) where
  sticky block e r hr := by
    rw [DirEntry.utf8Name, Proc.on_bind_ok ((width_u16 _).sticky hr),
      Proc.on_bind_ok ((width_u32 _).sticky hr), Proc.on_bind_ok (Proc.on_get r),
      if_neg (by simpa using hr)]
    exact ⟨e, rfl⟩
  fits block e pos hw hgood := by
    obtain ⟨s, hs⟩ :=
      ((pascal2At_cases block (wordAt block pos + 4)).resolve_left fun h => hgood h.1).2
    refine ⟨{ e with name := nfc s }, fun pad => ?_⟩
    rw [DirEntry.utf8Name, Proc.on_bind_ok ((width_u16 _).fits (by omega) pad),
      Proc.on_bind_ok ((width_u32 _).fits (by omega) pad), Proc.on_bind_ok (Proc.on_get _),
      toNat_word,
      pascal2At_append hs pad]
    rfl
  fails block e pos hpos hfail := by
    by_cases hw : pos + 6 ≤ block.length
    · have hbad := hfail.resolve_left (Nat.not_lt_of_le hw)
      obtain ⟨err, herr⟩ :=
        ((pascal2At_cases block (wordAt block pos + 4)).resolve_right fun h => h.1 hbad).2
      rw [DirEntry.utf8Name, Proc.on_bind_ok ((width_u16 _).fits_self (by omega)),
        Proc.on_bind_ok ((width_u32 _).fits_self (by omega)), Proc.on_bind_ok (Proc.on_get _),
          toNat_word, herr]
      exact failed_iff.mpr (Or.inl ⟨err, _, rfl⟩)
    · rw [DirEntry.utf8Name]
      by_cases hoff : pos + 2 ≤ block.length
      · obtain ⟨r, hread, hr⟩ :=
          (width_u32 "utf8 name pad").short (show block.length < pos + 2 + 4 by omega)
        rw [Proc.on_bind_ok ((width_u16 _).fits_self hoff), Proc.on_bind_ok hread,
          Proc.on_bind_ok (Proc.on_get r), if_neg (by simpa using hr)]
        exact failed_iff.mpr (Or.inr ⟨e, r, rfl, hr⟩)
      · obtain ⟨r, hread, hr⟩ := (width_u16 "utf8 name offset").short (Nat.lt_of_not_le hoff)
        rw [Proc.on_bind_ok hread, Proc.on_bind_ok ((width_u32 _).sticky hr),
          Proc.on_bind_ok (Proc.on_get r), if_neg (by simpa using hr)]
        exact failed_iff.mpr (Or.inr ⟨e, r, rfl, hr⟩)

theorem consumes_unixFields : Consumes 16 (fun _ _ => False) fun _ => DirEntry.unixFields := by
  have hflag : Consumes 0 (fun _ _ => False)
      fun _ e => do let r ← get; return { e with hasUnix := r.err.isNone } :=
    ⟨fun _ _ _ _ => ⟨_, rfl⟩, fun _ e _ _ _ => ⟨{ e with hasUnix := true }, fun _ => rfl⟩,
      fun _ _ _ hpos h => absurd (h.resolve_right id) (Nat.not_lt_of_le hpos)⟩
  have h : Consumes _ _ fun _ => DirEntry.unixFields :=
    (consumes_stored (width_u32 _) _).bind <| (consumes_stored (width_u32 _) _).bind <|
    (consumes_stored (width_u32 _) _).bind <| (consumes_stored (width_u32 _) _).bind hflag
  exact h.congr rfl fun block pos => by simp only [or_false]

theorem consumes_extRsrcForkLen (isDir : Bool) (bitmap : UInt16) :
    Consumes (if isDir then 0 else widthIf bitmap kFPExtRsrcForkLenBit 8) (fun _ _ => False)
      fun _ => DirEntry.whenBit bitmap kFPExtRsrcForkLenBit
        (if isDir then pure else DirEntry.skipped (Reader.u64 "ext rsrc fork len")) := by
  cases isDir with
  | false =>
    exact (consumes_whenBit (consumes_stored (width_u64 _) _)).congr rfl fun _ _ => by
      rw [and_false]
  | true => exact (consumes_whenBit consumes_pure).congr (ite_self 0) fun _ _ => by rw [and_false]

theorem Consumes.ite {c : Bool} (hx : Consumes w bad x) (hy : Consumes w' bad' y) :
    Consumes (if c then w else w') (fun block pos => if c then bad block pos else bad' block pos)
      fun block e => if c then x block e else y block e := by
  cases c with
  | false => exact hy
  | true => exact hx

end Consumes

def longNamePos (bitmap : UInt16) : Nat :=
  widthIf bitmap kFPAttributeBit 2 + widthIf bitmap kFPParentDirIDBit 4 +
    widthIf bitmap kFPCreateDateBit 4 +
    widthIf bitmap kFPModDateBit 4 + widthIf bitmap kFPBackupDateBit 4 +
    widthIf bitmap kFPFinderInfoBit 32

def utf8NamePos (isDir : Bool) (bitmap : UInt16) : Nat :=
  longNamePos bitmap + widthIf bitmap kFPLongNameBit 2 + widthIf bitmap kFPShortNameBit 2 +
    widthIf bitmap kFPNodeIDBit 4 +
    if isDir then
      widthIf bitmap kFPOffspringCountBit 2 + widthIf bitmap kFPOwnerIDBit 4 +
        widthIf bitmap kFPGroupIDBit 4 + widthIf bitmap kFPAccessRightsBit 4
    else
      widthIf bitmap kFPDataForkLenBit 4 + widthIf bitmap kFPRsrcForkLenBit 4 +
        widthIf bitmap kFPExtDataForkLenBit 8 + widthIf bitmap kFPLaunchLimitBit 2

def fixedLength (isDir : Bool) (bitmap : UInt16) : Nat :=
  utf8NamePos isDir bitmap + widthIf bitmap kFPUTF8NameBit 6 +
    (if isDir then 0 else widthIf bitmap kFPExtRsrcForkLenBit 8) + widthIf bitmap kFPUnixPrivsBit 16

theorem consumes_fields (nfc : Bytes → Bytes) (isDir : Bool) (bitmap : UInt16) :
    Consumes (fixedLength isDir bitmap)
      (fun block pos =>
        (bitmap &&& kFPLongNameBit ≠ 0 ∧
          PascalOutside block (wordAt block (pos + longNamePos bitmap))) ∨
          bitmap &&& kFPUTF8NameBit ≠ 0 ∧
          Pascal2Outside block (wordAt block (pos + utf8NamePos isDir bitmap) + 4))
      fun block => DirEntry.fields nfc block isDir bitmap := by
  have hlead : Consumes _ _ fun block => DirEntry.leading block isDir bitmap :=
    (consumes_whenBit (consumes_stored (width_u16 _) _)).bind <|
    (consumes_whenBit (consumes_stored (width_u32 _) _)).bind <|
    (consumes_whenBit (consumes_stored (width_u32 _) _)).bind <|
    (consumes_whenBit (consumes_stored (width_u32 _) _)).bind <|
    (consumes_whenBit (consumes_stored (width_u32 _) _)).bind <|
    (consumes_whenBit (consumes_stored (width_take _ _) _)).bind <|
    (consumes_whenBit consumes_longName).bind <|
    (consumes_whenBit (consumes_stored (width_u16 _) _)).bind <|
    (consumes_whenBit (consumes_stored (width_u32 _) _)).bind <|
    Consumes.ite
      ((consumes_whenBit (consumes_stored (width_u16 _) _)).bind <|
        (consumes_whenBit (consumes_stored (width_u32 _) _)).bind <|
        (consumes_whenBit (consumes_stored (width_u32 _) _)).bind <|
        consumes_whenBit (consumes_stored (width_u32 _) _))
      ((consumes_whenBit (consumes_stored (width_u32 _) _)).bind <|
        (consumes_whenBit (consumes_stored (width_u32 _) _)).bind <|
        (consumes_whenBit (consumes_stored (width_u64 _) _)).bind <|
        consumes_whenBit (consumes_stored (width_u16 _) _))
  have hall : Consumes _ _ fun block => DirEntry.fields nfc block isDir bitmap :=
    hlead.bind <| (consumes_whenBit (consumes_utf8Name nfc)).bind <|
      (consumes_extRsrcForkLen isDir bitmap).bind (consumes_whenBit consumes_unixFields)
  refine hall.congr ?_ fun block pos => ?_
  · cases isDir <;> simp only [fixedLength, utf8NamePos, longNamePos, Nat.add_assoc]
  · cases isDir <;>
      simp only [utf8NamePos, longNamePos, Nat.add_assoc, and_false, or_false, false_or, ite_self]

section Errors

variable {nfc : Bytes → Bytes} {isDir : Bool} {bitmap : UInt16} {block : Bytes}

theorem parseEntryParams_fits (nfc : Bytes → Bytes) (hw : fixedLength isDir bitmap ≤ block.length)
    (hlong : ¬ (bitmap &&& kFPLongNameBit ≠ 0 ∧
      PascalOutside block (wordAt block (longNamePos bitmap))))
    (hutf8 : ¬ (bitmap &&& kFPUTF8NameBit ≠ 0 ∧
      Pascal2Outside block (wordAt block (utf8NamePos isDir bitmap) + 4))) :
    ∃ e, ∀ pad, parseEntryParams nfc (block ++ pad) isDir bitmap = .ok e := by
  obtain ⟨e, he⟩ := (consumes_fields nfc isDir bitmap).fits block { isDir := isDir } 0 (by omega)
    (by rw [Nat.zero_add, Nat.zero_add]; exact not_or.mpr ⟨hlong, hutf8⟩)
  exact ⟨e, fun pad => checked_eq_ok.mpr ⟨_, he pad, rfl⟩⟩

theorem parseEntryParams_error_iff :
    (∃ err, parseEntryParams nfc block isDir bitmap = .error err) ↔
      block.length < fixedLength isDir bitmap ∨
      (bitmap &&& kFPLongNameBit ≠ 0 ∧ PascalOutside block (wordAt block (longNamePos bitmap))) ∨
      bitmap &&& kFPUTF8NameBit ≠ 0 ∧
        Pascal2Outside block (wordAt block (utf8NamePos isDir bitmap) + 4) := by
  constructor
  · rintro ⟨err, herr⟩
    by_contra hgood
    rw [not_or, not_or] at hgood
    obtain ⟨e, he⟩ := parseEntryParams_fits nfc (Nat.le_of_not_lt hgood.1) hgood.2.1 hgood.2.2
    have hnil := he []
    rw [List.append_nil, herr] at hnil
    cases hnil
  · intro hbad
    have h := (consumes_fields nfc isDir bitmap).fails block { isDir := isDir } 0 (Nat.zero_le _)
    rw [Nat.zero_add, Nat.zero_add, Nat.zero_add] at h
    exact h hbad

/-- Bytes after a block that parses do not matter. -/
theorem parseEntryParams_append {e : DirEntry} (h : parseEntryParams nfc block isDir bitmap = .ok e)
    (pad : Bytes) :
    parseEntryParams nfc (block ++ pad) isDir bitmap = .ok e := by
  have hgood : ¬ ∃ err, parseEntryParams nfc block isDir bitmap = .error err := by
    rintro ⟨err, herr⟩
    rw [h] at herr
    cases herr
  rw [parseEntryParams_error_iff, not_or, not_or] at hgood
  obtain ⟨e', he⟩ := parseEntryParams_fits nfc (Nat.le_of_not_lt hgood.1) hgood.2.1 hgood.2.2
  have hnil := he []
  rw [List.append_nil, h] at hnil
  cases hnil
  exact he pad

end Errors

theorem widthIf_le (bitmap bit : UInt16) (w : Nat) : widthIf bitmap bit w ≤ w := by
  unfold widthIf
  split_ifs
  · exact Nat.le_refl w
  · exact Nat.zero_le w

theorem fixedLength_le (isDir : Bool) (bitmap : UInt16) : fixedLength isDir bitmap ≤ 106 := by
  cases isDir <;> grind [fixedLength, utf8NamePos, longNamePos, widthIf_le]

theorem length_field (bitmap bit : UInt16) (enc : Bytes) :
    (field bitmap bit enc).length = widthIf bitmap bit enc.length := by
  unfold field widthIf
  split_ifs <;> rfl

namespace Params

variable (p : Params) (isDir : Bool) (bitmap : UInt16)

theorem length_fixed (o : NameOffsets) :
    (p.fixed isDir bitmap o).length = fixedLength isDir bitmap := by
  cases isDir <;>
    simp [fixed, fixedLength, utf8NamePos, longNamePos, length_field, p.finderInfo.property,
      Nat.add_assoc]

def longString : Bytes := field bitmap kFPLongNameBit (putPascal p.longName)

def shortString : Bytes := field bitmap kFPShortNameBit (putPascal p.shortName)

def offsets : NameOffsets where
  long := UInt16.ofNat (fixedLength isDir bitmap)
  short := UInt16.ofNat (fixedLength isDir bitmap + (p.longString bitmap).length)
  utf8 :=
    UInt16.ofNat
      (fixedLength isDir bitmap + (p.longString bitmap).length + (p.shortString bitmap).length)

/-- The names in ascending order of their bits, right after the fixed fields. -/
def layout : Bytes :=
  p.fixed isDir bitmap (p.offsets isDir bitmap) ++ p.longString bitmap ++ p.shortString bitmap ++
    field bitmap kFPUTF8NameBit p.utf8String

theorem length_putPascal_le (s : Bytes) : (putPascal s).length ≤ 256 := by
  rw [putPascal, List.length_cons, List.length_take]
  omega

theorem laid_layout (trailing : Bytes) :
    p.Laid isDir bitmap (p.offsets isDir bitmap) (p.layout isDir bitmap ++ trailing) := by
  have hfixed := p.length_fixed isDir bitmap (p.offsets isDir bitmap)
  have hle := fixedLength_le isDir bitmap
  have hlong : (p.longString bitmap).length ≤ 256 := by
    rw [longString, length_field]
    exact (widthIf_le _ _ _).trans (length_putPascal_le _)
  have hshort : (p.shortString bitmap).length ≤ 256 := by
    rw [shortString, length_field]
    exact (widthIf_le _ _ _).trans (length_putPascal_le _)
  refine ⟨?_, fun hbit => ?_, fun hbit => ?_⟩
  · simp only [layout, List.append_assoc]
    exact List.prefix_append _ _
  · have hoff : (p.offsets isDir bitmap).long.toNat = fixedLength isDir bitmap := by
      rw [offsets, UInt16.toNat_ofNat', Nat.mod_eq_of_lt (by omega)]
    simp only [layout, List.append_assoc]
    rw [hoff, List.drop_left' hfixed, longString, field, if_pos hbit]
    exact List.prefix_append _ _
  · have hoff : (p.offsets isDir bitmap).utf8.toNat =
        (p.fixed isDir bitmap (p.offsets isDir bitmap) ++ p.longString bitmap ++
          p.shortString bitmap).length := by
      rw [offsets, UInt16.toNat_ofNat', Nat.mod_eq_of_lt (by omega), List.length_append,
        List.length_append, length_fixed]
    rw [layout, List.append_assoc, hoff, List.drop_left, field, if_pos hbit]
    exact List.prefix_append _ _

end Params

/-- The block of every list of parameters is parsed as what they say, with the
names anywhere in it and whatever follows; and a block is rejected iff the
fixed fields do not fit or a name that is selected runs outside. -/
theorem parseEntryParams_correct (nfc : Bytes → Bytes) (isDir : Bool) (bitmap : UInt16) :
    (∀ (p : Params) (trailing : Bytes),
      parseEntryParams nfc (p.layout isDir bitmap ++ trailing) isDir bitmap = .ok
        (p.entry isDir bitmap nfc)) ∧
    (∀ (p : Params) (o : NameOffsets) (block : Bytes), p.Laid isDir bitmap o block →
      parseEntryParams nfc block isDir bitmap = .ok (p.entry isDir bitmap nfc)) ∧
    ∀ block, (∃ err, parseEntryParams nfc block isDir bitmap = .error err) ↔
      block.length < fixedLength isDir bitmap ∨
      (bitmap &&& kFPLongNameBit ≠ 0 ∧ PascalOutside block (wordAt block (longNamePos bitmap))) ∨
      bitmap &&& kFPUTF8NameBit ≠ 0 ∧
        Pascal2Outside block (wordAt block (utf8NamePos isDir bitmap) + 4) :=
  ⟨fun p trailing => parseEntryParams_laid nfc (p.laid_layout isDir bitmap trailing),
    fun _ _ _ h => parseEntryParams_laid nfc h, fun _ => parseEntryParams_error_iff⟩

end GoAfp
