import GoAfp.CheckedLogin
import GoAfp.Replies

/-! The list of volumes. `ListVolumes` looks at the reader's error after each
volume, and so not at all if the count was not there to be read. -/

namespace GoAfp

def cmdGetSrvrParms : UInt8 := 16

/-- `ListVolumes` of a session. -/
def Session.listVolumes (byName : VolumeSort) (peer : Peer) :
    Proc (List Bytes) (Fault AfpErr) (List VolumeInfo) := do
  let (payload, code) ← Checked.command peer [cmdGetSrvrParms, 0]
  Checked.resultErr "list volumes" code
  listVolumesReply byName payload

/-- A volume in the reply to FPGetSrvrParms. -/
structure SentVolume where
  flags : UInt8
  name : { s : Bytes // s.length ≤ 255 }

namespace SentVolume

def encode (v : SentVolume) : Bytes :=
  [v.flags] ++ ([UInt8.ofNat v.name.val.length] ++ v.name.val)

/-- What `ListVolumes` is to say of the volume. -/
def info (v : SentVolume) : VolumeInfo :=
  ⟨v.name.val, v.flags &&& 0x80 ≠ 0⟩

end SentVolume

/-- The reply as a server sends it. -/
def serverParms (time : UInt32) (vols : List SentVolume) : Bytes :=
  putU32 time ++ ([UInt8.ofNat vols.length] ++ vols.flatMap SentVolume.encode)

open Proc Reader

/-- One round of the loop, before the reader's error is looked at. -/
def readVolume : StateM Reader (UInt8 × Bytes) := do
  let flags ← Reader.u8 "volume flags"
  let n ← Reader.u8 "volume name"
  let name ← Reader.take n.toNat "volume name"
  return (flags, name)

theorem reads_readVolume (v : SentVolume) : Reads readVolume v.encode (v.flags, v.name.val) := by
  have h : Reads readVolume _ (v.flags, v.name.val) :=
    (reads_u8 v.flags "volume flags").bind <| (reads_u8 _ "volume name").bind <|
      (reads_take "volume name" (toNat_ofNat8 v.name.property).symm).bind (Reads.pure _)
  rwa [List.append_nil] at h

theorem cuts_readVolume (v : SentVolume) : Cuts readVolume v.encode := by
  have hname (flags n : UInt8) : Sticky (do
      let name ← Reader.take n.toNat "volume name"
      return (flags, name)) :=
    (sticky_take _ _).bind fun _ => Sticky.pure _
  have h :
      Cuts readVolume ([v.flags] ++ ([UInt8.ofNat v.name.val.length] ++ (v.name.val ++ []))) := by
    apply (cuts_u8 v.flags "volume flags").bind (reads_u8 _ _) fun flags =>
      (sticky_u8 _).bind fun n => hname flags n
    apply (cuts_u8 _ "volume name").bind (reads_u8 _ _) fun n => hname _ n
    have hlen := (toNat_ofNat8 v.name.property).symm
    apply (cuts_take "volume name" hlen).bind (reads_take _ hlen) fun _ => Sticky.pure _
    exact cuts_pure _
  rwa [List.append_nil] at h

/-- The loop reads a volume and then looks at the error. -/
theorem readVolumes_succ (n : Nat) (r : Reader) : (readVolumes (n + 1)).on r =
    match readVolume.run r with
    | (v, r') =>
      match r'.err with
      | some e => (.error (.error e), r')
      | none =>
        (readVolumes n >>= fun rest =>
          pure ((⟨v.2, v.1 &&& 0x80 ≠ 0⟩ : VolumeInfo) :: rest)).on r' := by
  have hone : readVolumes (n + 1) = (do
      let v ← (liftM readVolume : CheckedM AfpErr (UInt8 × Bytes))
      Checked.check id
      let rest ← readVolumes n
      return ⟨v.2, v.1 &&& 0x80 ≠ 0⟩ :: rest) := by
    rw [readVolumes, readVolume, Checked.pascal]
    simp only [Checked.u8_eq, Checked.taken_eq]
    rfl
  rw [hone, on_bind_ok (on_liftState readVolume r)]
  rcases readVolume.run r with ⟨v, b, pos, err⟩
  cases err <;> rfl

theorem readVolumes_encode (vols : List SentVolume) (pre post : Bytes) :
    ∃ r, (readVolumes vols.length).on
      ⟨pre ++ (vols.flatMap SentVolume.encode ++ post), pre.length, none⟩ =
      (.ok (vols.map SentVolume.info), r) := by
  induction vols generalizing pre with
  | nil => exact ⟨_, rfl⟩
  | cons v vols ih =>
    obtain ⟨r, hrest⟩ := ih (pre ++ v.encode)
    rw [List.append_assoc, List.length_append] at hrest
    rw [List.flatMap_cons, List.append_assoc, List.length_cons, readVolumes_succ,
      reads_readVolume v pre]
    refine ⟨r, ?_⟩
    show (readVolumes vols.length >>= _).on _ = _
    rw [on_bind_ok hrest]
    rfl

/-- Wherever the volumes are cut off, the loop comes upon the error. -/
theorem readVolumes_cut (vols : List SentVolume) (pre : Bytes) {n : Nat}
    (hn : n < (vols.flatMap SentVolume.encode).length) :
    ∃ e r, (readVolumes vols.length).on
      ⟨pre ++ (vols.flatMap SentVolume.encode).take n, pre.length, none⟩ =
      (.error (.error e), r) := by
  induction vols generalizing pre n with
  | nil => exact absurd hn (Nat.not_lt_zero n)
  | cons v vols ih =>
    rw [List.flatMap_cons] at hn ⊢
    by_cases hcut : n < v.encode.length
    · have hfail := cuts_readVolume v pre n hcut
      rw [List.take_append_of_le_length hcut.le, List.length_cons, readVolumes_succ]
      rcases hrun : readVolume.run ⟨pre ++ v.encode.take n, pre.length, none⟩ with ⟨w, b, pos, err⟩
      rw [hrun] at hfail
      cases err with
      | none => exact absurd rfl hfail
      | some e => exact ⟨e, _, rfl⟩
    · obtain ⟨k, rfl⟩ := Nat.exists_eq_add_of_le (Nat.le_of_not_lt hcut)
      rw [List.length_append] at hn
      obtain ⟨e, r, hrest⟩ := ih (pre ++ v.encode) (n := k) (by omega)
      rw [List.append_assoc, List.length_append] at hrest
      rw [List.take_length_add_append, List.length_cons, readVolumes_succ, reads_readVolume v pre]
      refine ⟨e, r, ?_⟩
      show (readVolumes vols.length >>= _).on _ = _
      rw [on_bind_error hrest]

section Reply

variable (byName : VolumeSort) (time : UInt32) (vols : List SentVolume)

/-- The reply with the header whole and the rest as it may be. -/
theorem listVolumesReply_header (count : UInt8) (rest : Bytes) :
    listVolumesReply byName (putU32 time ++ ([count] ++ rest)) =
      (((readVolumes count.toNat).on
        ⟨(putU32 time ++ [count]) ++ rest, (putU32 time ++ [count]).length, none⟩).1).map
        byName.sort := by
  have htime := reads_u32 time "server time" [] ([count] ++ rest)
  have hcount := reads_u8 count "volume count" (putU32 time) rest
  rw [List.nil_append, List.length_nil, Nat.zero_add] at htime
  rw [listVolumesReply, Checked.decode]
  simp only [Checked.u32_eq, Checked.u8_eq]
  rw [on_bind_ok (Checked.on_read htime), on_bind_ok (Checked.on_read hcount), List.append_assoc,
    List.length_append, on_bind]
  rcases (readVolumes count.toNat).on
    ⟨putU32 time ++ ([count] ++ rest), (putU32 time).length + [count].length, none⟩ with
    ⟨_ | l, r⟩ <;> rfl

/-- Without the count there is nothing to read, and nobody looks. -/
theorem listVolumesReply_short {payload : Bytes} (h : payload.length < 5) :
    listVolumesReply byName payload = .ok [] := by
  have hnil : byName.sort [] = [] := (byName.perm []).eq_nil
  have hu32 (r : Reader) : (Reader.u32 "server time").run r =
      (UInt32.ofNat (natOfBytes ((Reader.take 4 "server time").run r).1),
        ((Reader.take 4 "server time").run r).2) := rfl
  have hu8 (r : Reader) : (Reader.u8 "volume count").run r =
      (UInt8.ofNat (natOfBytes ((Reader.take 1 "volume count").run r).1),
        ((Reader.take 1 "volume count").run r).2) := rfl
  have hzero :
      ((Reader.u8 "volume count").run ((Reader.u32 "server time").run { b := payload }).2).1 =
        0 := by
    rw [hu32, hu8]
    by_cases hfour : payload.length < 4
    · rw [take_short _ (by omega), take_sticky _ _ (by simp)]
      rfl
    · rw [take_fits _ (by omega), take_short _ (by omega)]
      rfl
  rw [listVolumesReply, Checked.decode]
  simp only [Checked.u32_eq, Checked.u8_eq]
  rw [on_bind_ok (on_liftState _ _), on_bind_ok (on_liftState _ _), hzero]
  show Except.ok (byName.sort []) = _
  rw [hnil]

end Reply

theorem listVolumes_on (byName : VolumeSort) (payload : Bytes) :
    ((Session.listVolumes byName (answering payload)).on []).1 = listVolumesReply byName payload :=
  rfl

/-- The whole reply gives the volumes by name, each with its own password flag.
A reply that is cut short is an error exactly if the cut is behind the count. -/
theorem listVolumes_prefix_iff (byName : VolumeSort) (time : UInt32) {vols : List SentVolume}
    (hcount : vols.length ≤ 255) {cut : Nat} (hcut : cut < (serverParms time vols).length) :
    (∃ l, ((Session.listVolumes byName (answering (serverParms time vols))).on []).1 = .ok l ∧
      l.Perm (vols.map SentVolume.info) ∧ l.Pairwise fun v w => ¬ w.name < v.name) ∧
    ((∃ e, ((Session.listVolumes byName (answering ((serverParms time vols).take cut))).on []).1 =
      .error (.error e)) ↔
      5 ≤ cut) := by
  have hnat := toNat_ofNat8 hcount
  constructor
  · obtain ⟨r, hread⟩ := readVolumes_encode vols (putU32 time ++ [UInt8.ofNat vols.length]) []
    rw [List.append_nil] at hread
    refine ⟨byName.sort (vols.map SentVolume.info), ?_, byName.perm _, byName.sorted _⟩
    rw [listVolumes_on, serverParms, listVolumesReply_header, hnat, hread]
    rfl
  · by_cases hshort : cut < 5
    · have hlen : ((serverParms time vols).take cut).length < 5 := by
        rw [List.length_take]
        omega
      rw [listVolumes_on, listVolumesReply_short byName hlen]
      exact iff_of_false (fun ⟨e, he⟩ => by cases he) (by omega)
    · obtain ⟨n, rfl⟩ := Nat.exists_eq_add_of_le (Nat.le_of_not_lt hshort)
      have hlen : (putU32 time ++ [UInt8.ofNat vols.length]).length = 5 := rfl
      have hparms : serverParms time vols =
          (putU32 time ++ [UInt8.ofNat vols.length]) ++ vols.flatMap SentVolume.encode := by
        rw [serverParms, List.append_assoc]
      have hn : n < (vols.flatMap SentVolume.encode).length := by
        rw [hparms, List.length_append, hlen] at hcut
        omega
      have htake : (serverParms time vols).take (5 + n) =
          putU32 time ++
            ([UInt8.ofNat vols.length] ++ (vols.flatMap SentVolume.encode).take n) := by
        rw [hparms, ← hlen, List.take_length_add_append, List.append_assoc]
      obtain ⟨e, r, hread⟩ := readVolumes_cut vols (putU32 time ++ [UInt8.ofNat vols.length]) hn
      rw [listVolumes_on, htake, listVolumesReply_header, hnat, hread]
      exact iff_of_true ⟨e, rfl⟩ (by omega)

def publicVolume : SentVolume := ⟨0, ⟨ascii "Public", by decide⟩⟩

theorem listVolumes_prefix_iff_public :
    ∃ e,
      ((Session.listVolumes .merge (answering ((serverParms 0 [publicVolume]).take 6))).on []).1 =
        .error (.error e) :=
  (listVolumes_prefix_iff .merge 0 (by decide) (by decide)).2.mpr (by decide)

/-- Cut in the server's time, the reply is taken for an empty list. -/
theorem listVolumes_headerCut : 3 < (serverParms 0 [publicVolume]).length ∧
    ∀ byName,
      ((Session.listVolumes byName (answering ((serverParms 0 [publicVolume]).take 3))).on []).1 =
        .ok [] :=
  ⟨by decide, fun byName => listVolumesReply_short byName (by decide)⟩

end GoAfp
