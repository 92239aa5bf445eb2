import GoAfp.CheckedEntry
import GoAfp.ReadDir
import GoAfp.ServerInfo

/-! The other replies that are decoded, and that no decoder reads outside of
the payload it is given. -/

namespace GoAfp

def kFPVolAttributeBit : UInt16 := 0x0001
def kFPVolIDBit : UInt16 := 0x0020

structure OpenedFork where
  id : UInt16
  size : UInt64
  deriving DecidableEq, Repr

structure FSInfo where
  totalBytes : UInt64
  freeBytes : UInt64
  blockSize : UInt32
  deriving DecidableEq, Repr

structure VolumeInfo where
  name : Bytes
  hasPassword : Bool
  deriving DecidableEq, Repr

/-- `sort.Slice` by name. It is not stable, so equal names may come in any order. -/
structure VolumeSort where
  sort : List VolumeInfo → List VolumeInfo
  perm : ∀ vols, (sort vols).Perm vols
  sorted : ∀ vols, (sort vols).Pairwise fun v w => ¬ w.name < v.name

def VolumeSort.merge : VolumeSort where
  sort vols := vols.mergeSort fun v w => decide (¬ w.name < v.name)
  perm vols := List.mergeSort_perm vols _
  sorted vols := by
    refine (List.pairwise_mergeSort ?_ ?_ vols).imp of_decide_eq_true
    · intro a b c hab hbc
      rw [decide_eq_true_iff] at *
      exact List.le_trans hab hbc
    · intro a b
      rw [Bool.or_eq_true, decide_eq_true_iff, decide_eq_true_iff]
      exact List.le_total a.name b.name

def statReply (nfc : Bytes → Bytes) (payload : Bytes) : Except (Fault AfpErr) DirEntry :=
  Checked.decode payload do
    let fileBitmap ← Checked.u16 "file bitmap"
    let dirBitmap ← Checked.u16 "dir bitmap"
    let kind ← Checked.u8 "isdir"
    let _ ← Checked.u8 "pad"
    Checked.check id
    let r ← get
    let block ← Fault.slice (ε := AfpErr) payload r.pos payload.length
    let isDir : Bool := kind ≠ 0
    Checked.parseEntryParams nfc block isDir (if isDir then dirBitmap else fileBitmap)

def volumeParam (bitmap bit : UInt16) (what : String) : CheckedM AfpErr UInt16 :=
  if bitmap &&& bit ≠ 0 then Checked.u16 what else pure 0

def openVolumeReply (payload : Bytes) : Except (Fault AfpErr) VolumeRef :=
  Checked.decode payload do
    let bitmap ← Checked.u16 "volume bitmap"
    let attributes ← volumeParam bitmap kFPVolAttributeBit "volume attributes"
    let volID ← volumeParam bitmap kFPVolIDBit "volume id"
    Checked.check id
    return ⟨volID, attributes⟩

def openForkReply (payload : Bytes) : Except (Fault AfpErr) OpenedFork :=
  Checked.decode payload do
    let _ ← Checked.u16 "open bitmap"
    let forkID ← Checked.u16 "fork id"
    let size ← Checked.u64 "fork length"
    Checked.check id
    return ⟨forkID, size⟩

def statFSReply (payload : Bytes) : Except (Fault AfpErr) FSInfo :=
  Checked.decode payload do
    let _ ← Checked.u16 "volume bitmap"
    let freeBytes ← Checked.u64 "ext bytes free"
    let totalBytes ← Checked.u64 "ext bytes total"
    let blockSize ← Checked.u32 "block size"
    Checked.check id
    return ⟨totalBytes, freeBytes, blockSize⟩

def readVolumes : Nat → CheckedM AfpErr (List VolumeInfo)
  | 0 => return []
  | n + 1 => do
    let flags ← Checked.u8 "volume flags"
    let name ← Checked.pascal "volume name"
    Checked.check id
    let rest ← readVolumes n
    return ⟨name, flags &&& 0x80 ≠ 0⟩ :: rest

/-- The reader's error is only looked at once a volume is read. -/
def listVolumesReply (byName : VolumeSort) (payload : Bytes) :
    Except (Fault AfpErr) (List VolumeInfo) :=
  Checked.decode payload do
    let _ ← Checked.u32 "server time"
    let n ← Checked.u8 "volume count"
    let vols ← readVolumes n.toNat
    return byName.sort vols

def optServerQuantum : UInt8 := 0x00

/-- The loop over the options in the reply to DSIOpenSession from `i` on. The
state is `ServerQuantum`. -/
def openSessionOptions (payload : Bytes) (i : Nat) : Proc UInt32 (Fault TextErr) Unit := do
  if i + 2 ≤ payload.length then
    let typ ← Fault.index (ε := TextErr) payload i
    let n ← Fault.index (ε := TextErr) payload (i + 1)
    if i + 2 + n.toNat > payload.length then
      throw (.error (.text "dsi: malformed OpenSession option %#x" [typ.toNat]))
    if typ = optServerQuantum ∧ n.toNat = 4 then
      let v ← Fault.slice (ε := TextErr) payload (i + 2) (i + 2 + 4)
      let quantum ← Checked.bigEndian (ε := TextErr) 4 v
      set (UInt32.ofNat quantum)
    openSessionOptions payload (i + 2 + n.toNat)
termination_by payload.length - i

open Checked Fault

theorem sound_statReply (nfc : Bytes → Bytes) (payload : Bytes) :
    Sound (NameIn nfc payload) (statReply nfc payload) := by
  refine sound_decode <| (safe_u16 _).bind fun fileBitmap _ => (safe_u16 _).bind fun dirBitmap _ =>
    (safe_u8 _).bind fun kind _ => (safe_u8 _).bind fun _ _ => (safe_check _).bind fun _ _ => ?_
  refine safe_get.bind fun r hr => (safe_lift (sound_slice hr.2 le_rfl)).bind fun block hblock =>
    safe_lift ?_
  exact (sound_parseEntryParams nfc block _ _).weaken fun e he => he.mono hblock.2

theorem safe_volumeParam {payload : Bytes} (bitmap bit : UInt16) (what : String) :
    Safe (Inside payload) (volumeParam bitmap bit what) fun _ => True :=
  Safe.ite (fun _ => safe_u16 what) fun _ => safe_pure trivial

theorem sound_openVolumeReply (payload : Bytes) : Sound (fun _ => True) (openVolumeReply payload) :=
  sound_decode <| (safe_u16 _).bind fun _ _ => (safe_volumeParam _ _ _).bind fun _ _ =>
    (safe_volumeParam _ _ _).bind fun _ _ => (safe_check _).bind fun _ _ => safe_pure trivial

theorem sound_openForkReply (payload : Bytes) : Sound (fun _ => True) (openForkReply payload) :=
  sound_decode <| (safe_u16 _).bind fun _ _ => (safe_u16 _).bind fun _ _ =>
    (safe_u64 _).bind fun _ _ =>
    (safe_check _).bind fun _ _ => safe_pure trivial

theorem sound_statFSReply (payload : Bytes) : Sound (fun _ => True) (statFSReply payload) :=
  sound_decode <| (safe_u16 _).bind fun _ _ => (safe_u64 _).bind fun _ _ =>
    (safe_u64 _).bind fun _ _ =>
    (safe_u32 _).bind fun _ _ => (safe_check _).bind fun _ _ => safe_pure trivial

theorem safe_readVolumes {payload : Bytes} (n : Nat) :
    Safe (Inside payload) (readVolumes n) fun vols => ∀ v ∈ vols, v.name <:+: payload := by
  induction n with
  | zero => exact safe_pure (List.forall_mem_nil _)
  | succ n ih =>
    refine (safe_u8 _).bind fun flags _ => (safe_pascal _).bind fun name hname =>
      (safe_check _).bind fun _ _ => ?_
    exact ih.bind fun rest hrest => safe_pure (List.forall_mem_cons.mpr ⟨hname, hrest⟩)

theorem sound_listVolumesReply (byName : VolumeSort) (payload : Bytes) :
    Sound (fun vols => ∀ v ∈ vols, v.name <:+: payload) (listVolumesReply byName payload) := by
  refine sound_decode <| (safe_u32 _).bind fun _ _ => (safe_u8 _).bind fun n _ => ?_
  refine (safe_readVolumes n.toNat).bind fun vols hvols => safe_pure fun v hv => ?_
  exact hvols v ((byName.perm vols).mem_iff.mp hv)

theorem safe_openSessionOptions (payload : Bytes) (i : Nat) :
    Safe (fun _ => True) (openSessionOptions payload i) fun _ => True := by
  rw [openSessionOptions]
  refine Safe.ite (fun hi => ?_) fun _ => safe_pure trivial
  refine (safe_lift (sound_index (by omega))).bind fun typ _ =>
    (safe_lift (sound_index (by omega))).bind fun n _ => ?_
  refine Safe.ite (fun _ => safe_throw _) fun hn => ?_
  have hrest := safe_openSessionOptions payload (i + 2 + n.toNat)
  refine Safe.ite (fun hq => ?_) fun _ => hrest
  refine (safe_lift (sound_slice (by omega) (by omega))).bind fun v hv => ?_
  refine (safe_lift (sound_bigEndian (by decide) (by omega))).bind fun quantum _ => ?_
  exact (safe_set trivial).bind fun _ _ => hrest
termination_by payload.length - i

/-- For every payload each decoder ends with a value or an error and not with
an access outside of the payload, and the strings in the value are parts of it. -/
theorem replies_in_bounds (nfc : Bytes → Bytes) (byName : VolumeSort) (payload : Bytes) :
    (Sound (ServerInfo.StringsIn payload) (parseServerInfo payload) ∧
      (∀ off, Sound (fun x => x.1 <:+: payload) (pascalString payload off)) ∧
      ∀ off, Sound (fun l => ∀ s ∈ l, s <:+: payload) (pascalList payload off)) ∧
    Sound (fun es => ∀ e ∈ es, NameIn nfc payload e) (Checked.parseEnumerateReply nfc payload) ∧
    (∀ isDir bitmap, Sound (NameIn nfc payload)
      (Checked.parseEntryParams nfc payload isDir bitmap)) ∧
    Sound (NameIn nfc payload) (statReply nfc payload) ∧
    Sound (fun _ => True) (openVolumeReply payload) ∧
    Sound (fun _ => True) (openForkReply payload) ∧
    Sound (fun _ => True) (statFSReply payload) ∧
    Sound (fun vols => ∀ v ∈ vols, v.name <:+: payload) (listVolumesReply byName payload) ∧
    ∀ quantum, Sound (fun _ => True) ((openSessionOptions payload 0).on quantum).1 :=
  ⟨⟨sound_parseServerInfo payload, sound_pascalString payload, sound_pascalList payload⟩,
    sound_parseEnumerateReply nfc payload, sound_parseEntryParams nfc payload,
      sound_statReply nfc payload,
    sound_openVolumeReply payload, sound_openForkReply payload, sound_statFSReply payload,
    sound_listVolumesReply byName payload,
      fun quantum => (safe_openSessionOptions payload 0 quantum trivial).1⟩

end GoAfp
