import GoAfp.ForkIO
import GoAfp.TaskGroup
import GoAfp.Wire

/-! `WriteAt` with its goroutines, one for each piece and at most
`maxParallel` at a time, and the requests that they send. The server applies
the requests in flight in any order. -/

namespace GoAfp

/-- The payload of one FPWriteExt request. -/
def writeRequest (id : UInt16) (offset : Nat) (data : Bytes) : Bytes :=
  [cmdWriteExt] ++ ([0] ++ (putU16 id ++ (putU64 (UInt64.ofNat offset) ++
    (putU64 (UInt64.ofNat data.length) ++ data))))

theorem writeRequest_length (id : UInt16) (offset : Nat) (data : Bytes) :
    (writeRequest id offset data).length = writeChunkHeaderLen + data.length := by
  simp only [writeRequest, writeChunkHeaderLen, List.length_append, List.length_singleton,
    putU16_length, putU64_length]
  omega

/-- A server's reading of it: fork, offset and as much data as the length
field says. -/
def readWriteRequest : StateM Reader (UInt8 × UInt16 × Nat × Bytes) := do
  let command ← Reader.u8 "command"
  let _ ← Reader.u8 "flag"
  let id ← Reader.u16 "fork id"
  let offset ← Reader.u64 "offset"
  let count ← Reader.u64 "count"
  let data ← Reader.take count.toNat "data"
  return (command, id, offset.toNat, data)

theorem parse_writeRequest (id : UInt16) {offset : Nat} {data : Bytes} (ho : offset < 2 ^ 64)
    (hd : data.length < 2 ^ 64) :
    Reader.parse readWriteRequest (writeRequest id offset data) = .ok
      (cmdWriteExt, id, offset, data) := by
  have hoff : (UInt64.ofNat offset).toNat = offset := UInt64.toNat_ofNat_of_lt' ho
  have hlen : (UInt64.ofNat data.length).toNat = data.length := UInt64.toNat_ofNat_of_lt' hd
  have h : Reader.Reads readWriteRequest (writeRequest id offset data ++ [])
      (cmdWriteExt, id, (UInt64.ofNat offset).toNat, data) := by
    simp only [writeRequest, List.append_assoc]
    exact (Reader.reads_u8 _ _).bind ((Reader.reads_u8 _ _).bind ((Reader.reads_u16 _ _).bind
      ((Reader.reads_u64 _ _).bind ((Reader.reads_u64 _ _).bind
        ((Reader.reads_take "data" hlen.symm).bind (Reader.Reads.pure _))))))
  have hp := h.parse_eq []
  rwa [List.append_nil, List.append_nil, hoff] at hp

def applyWrite (D : Bytes) : Except AfpErr (UInt8 × UInt16 × Nat × Bytes) → Bytes
  | .ok (_, _, offset, data) => overlay 0 D offset data
  | .error _ => D

/-- What a fork of contents `D` becomes. -/
def serveWrite (D req : Bytes) : Bytes := applyWrite D (Reader.parse readWriteRequest req)

abbrev WriteGroup := TaskGroup.State (Nat × Nat) (Except AfpErr Result)

/-- What has become of the requests once the group is done. -/
def writeRunOf (s : WriteGroup) : WriteRun where
  applied := s.acted
  reply := fun c => (s.result c).getD (.error .cancelled)
  order := fun _ => s.finished.map Prod.fst

/-- The request for one piece of `p`. -/
def pieceRequestBytes (id : UInt16) (p : Bytes) (off : Nat) (c : Nat × Nat) : Bytes :=
  writeRequest id (part off p c).1 (part off p c).2

/-- The fork after the requests that were applied, in that order. -/
def servedFork (id : UInt16) (D p : Bytes) (off : Nat) (s : WriteGroup) : Bytes :=
  s.acted.foldl (fun D c => serveWrite D (pieceRequestBytes id p off c)) D

namespace Fork

variable (f : Fork)

def writeGroup (p : Bytes) :
    System WriteGroup (TaskGroup.Label (Nat × Nat) (Except AfpErr Result)) :=
  TaskGroup.system f.maxParallel (f.pieces p)

/-- What `WriteAt` returns once the group is done. -/
def writeAtDone (p : Bytes) (s : WriteGroup) : Nat × Option AfpErr := f.writeAt (writeRunOf s) p

theorem pieces_nodup (p : Bytes) : (f.pieces p).Nodup := chunks_nodup f.writeChunkSize_pos p.length

variable {f}

theorem writeChunkSize_le (h : writeChunkHeaderLen < f.serverQuantum) :
    writeChunkHeaderLen + f.writeChunkSize ≤ f.serverQuantum := by
  have hpos := f.chunkSize_pos
  simp only [writeChunkSize]
  split_ifs <;> omega

end Fork

theorem part_length {p : Bytes} {off : Nat} {c : Nat × Nat} (h : c.1 + c.2 ≤ p.length) :
    (part off p c).2.length = c.2 := by
  simp only [part, List.length_take, List.length_drop]
  omega

section Requests

variable {f : Fork} (id : UInt16) {p : Bytes} {off : Nat} (hoff : off < 2 ^ 63)
  (hp : p.length < 2 ^ 63)

include hoff hp

theorem parse_pieceRequest {c : Nat × Nat} (hc : c ∈ f.pieces p) :
    Reader.parse readWriteRequest (pieceRequestBytes id p off c) =
      .ok (cmdWriteExt, id, off + c.1, (p.drop c.1).take c.2) := by
  have hend := chunks_end_le hc
  have hlen : (part off p c).2.length = c.2 := part_length hend
  exact parse_writeRequest id (by change off + c.1 < _; omega) (by omega)

theorem servedFork_eq (D : Bytes) {s : WriteGroup} (h : ∀ c ∈ s.acted, c ∈ f.pieces p) :
    servedFork id D p off s = overlayAll 0 D (s.acted.map (part off p)) := by
  rw [servedFork, overlayAll, List.foldl_map]
  refine List.foldl_ext _ _ _ fun D c hc => ?_
  rw [serveWrite, parse_pieceRequest id hoff hp (h c hc)]
  rfl

end Requests

/-- Every request is applied before it is acknowledged, and acknowledged
without an error. -/
def ServerApplies : WriteGroup → TaskGroup.Label (Nat × Nat) (Except AfpErr Result) → Prop
  | s, .finish c r => c ∈ s.acted ∧ r = .ok resNoErr
  | _, _ => True

section Done

variable {f : Fork} {p : Bytes}
  {ok : WriteGroup → TaskGroup.Label (Nat × Nat) (Except AfpErr Result) → Prop}
  {tr : List (TaskGroup.Label (Nat × Nat) (Except AfpErr Result))} {s : WriteGroup}

theorem writeRunOf_reply (h : (f.writeGroup p).Reach ok tr s) (hdone : s.Done)
    {x : (Nat × Nat) × Except AfpErr Result} (hx : x ∈ s.finished) :
    (writeRunOf s).reply x.1 = x.2 := by
  have hresult := (TaskGroup.Reach.result_iff h hdone (f.pieces_nodup p)).mpr hx
  simp only [writeRunOf, hresult, Option.getD_some]

theorem Fork.writeAtDone_applied (h : (f.writeGroup p).Reach ServerApplies tr s) (hdone : s.Done) :
    f.writeAtDone p s = (p.length, none) := by
  have hall : ∀ x ∈ s.finished, x.2 = .ok resNoErr :=
    TaskGroup.Reach.finished_of_guard (P := fun (_ : Nat × Nat) r => r = .ok resNoErr) h
      fun _ _ _ hok => hok.2
  have hreply (c : Nat × Nat) (hc : c ∈ f.pieces p) : (writeRunOf s).reply c = .ok resNoErr := by
    obtain ⟨r, hr⟩ := TaskGroup.Reach.exists_result h hdone hc
    rw [writeRunOf_reply h hdone hr]
    exact hall _ hr
  refine Prod.ext (Fork.writeAt_count hreply) (Fork.writeAt_err fun c hc => hreply c ?_)
  exact (TaskGroup.Reach.finished_perm h hdone).mem_iff.mp hc

end Done

/-- The requests of `WriteAt` carry the pieces of `p`, each within the
server's quantum, and applied in any order they write `p`. -/
theorem writeAt_correct (f : Fork)
    (hq : f.serverQuantum = 0 ∨ writeChunkHeaderLen < f.serverQuantum) (id : UInt16)
    (D p : Bytes) (off : Nat) (hoff : off < 2 ^ 63) (hp : p.length < 2 ^ 63) :
    ((f.pieces p).map fun c => (p.drop c.1).take c.2).flatten = p ∧
    (f.pieces p).Pairwise (fun c d => c.1 + c.2 ≤ d.1) ∧
    (∀ c ∈ f.pieces p, 0 < c.2 ∧ c.1 + c.2 ≤ p.length ∧
      Reader.parse readWriteRequest (pieceRequestBytes id p off c) =
        .ok (cmdWriteExt, id, off + c.1, (p.drop c.1).take c.2) ∧
      (pieceRequestBytes id p off c).length = writeChunkHeaderLen + c.2 ∧
      (f.serverQuantum ≠ 0 → (pieceRequestBytes id p off c).length ≤ f.serverQuantum)) ∧
    (∀ tr s, (f.writeGroup p).Reach ServerApplies tr s → tr.length ≤ 3 * (f.pieces p).length ∧
      ∃ as t, (f.writeGroup p).Reach ServerApplies (tr ++ as) t ∧ t.Done) ∧
    ∀ tr s, (f.writeGroup p).Reach ServerApplies tr s → s.Done →
      servedFork id D p off s = overlay 0 D off p ∧ f.writeAtDone p s = (p.length, none) := by
  refine ⟨chunks_flatten f.writeChunkSize_pos p, chunks_pairwise f.writeChunkSize_pos p.length,
    fun c hc => ?_, fun tr s h => ⟨TaskGroup.Reach.length_le h, ?_⟩, fun tr s h hdone =>
    ⟨?_, Fork.writeAtDone_applied h hdone⟩⟩
  · have hend := chunks_end_le hc
    have hlen : (pieceRequestBytes id p off c).length = writeChunkHeaderLen + c.2 := by
      rw [pieceRequestBytes, writeRequest_length, part_length hend]
    refine ⟨chunks_pos f.writeChunkSize_pos hc, hend, parse_pieceRequest id hoff hp hc, hlen,
      fun hne => ?_⟩
    have hsize := chunks_le_size hc
    have hquantum := Fork.writeChunkSize_le (hq.resolve_left hne)
    omega
  · exact TaskGroup.Reach.completes f.maxParallel_pos (fun _ => trivial) (fun _ _ => trivial)
      (fun _ _ hacted => ⟨.ok resNoErr, hacted, rfl⟩) h
  · have hperm := TaskGroup.Reach.acted_perm h hdone (f.pieces_nodup p) fun _ _ _ hok => hok.1
    rw [servedFork_eq id hoff hp D fun c hc => hperm.mem_iff.mp hc]
    by_cases hnil : p = []
    · rw [hnil, overlayAll_part_nil]
      simp [overlay]
    · exact f.overlayAll_pieces hnil off D fun c hc => hperm.mem_iff.mpr hc

/-- Three bytes at the end of a fork, two of them in one request. -/
theorem writeAt_correct_threeBytes :
    ∃ s, servedFork 7 [9] [1, 2, 3] 1 s = [9, 1, 2, 3] ∧
      Fork.writeAtDone ⟨5, 1, 22, by decide, by decide⟩ [1, 2, 3] s = (3, none) := by
  obtain ⟨-, -, -, hrun, hdone⟩ :=
    writeAt_correct ⟨5, 1, 22, by decide, by decide⟩ (Or.inr (by decide)) 7 [9] [1, 2, 3] 1
    (by decide) (by decide)
  obtain ⟨-, tr, s, hs, hd⟩ := hrun [] _ .nil
  exact ⟨s, hdone _ s hs hd⟩

/-- The server has answered the request for piece `c` without an error. -/
def Acknowledged (s : WriteGroup) (c : Nat × Nat) : Prop := (c, .ok resNoErr) ∈ s.finished

instance (s : WriteGroup) : DecidablePred (Acknowledged s) :=
  fun c => inferInstanceAs (Decidable ((c, .ok resNoErr) ∈ s.finished))

theorem writeChunk_count (r : Except AfpErr Result) (n : Nat) :
    (writeChunk r n).toOption.getD 0 = if r = .ok resNoErr then n else 0 := by
  by_cases hr : r = .ok resNoErr
  · rw [if_pos hr, hr]
    rfl
  · have hnone : (writeChunk r n).toOption = none := by
      cases he : writeChunk r n with
      | error e => rfl
      | ok k => exact absurd (writeChunk_errOf (by rw [he]; rfl)) hr
    rw [if_neg hr, hnone, Option.getD_none]

section Prefix

variable {A : Nat × Nat → Prop} [DecidablePred A]

/-- The bytes in the pieces with `A`. -/
def bytesIn (A : Nat × Nat → Prop) [DecidablePred A] (cs : List (Nat × Nat)) : Nat :=
  (cs.map fun c => if A c then c.2 else 0).sum

theorem bytesIn_eq_zero_iff {cs : List (Nat × Nat)} (hpos : ∀ c ∈ cs, 0 < c.2) :
    bytesIn A cs = 0 ↔ ∀ c ∈ cs, ¬ A c := by
  rw [bytesIn, List.sum_eq_zero_iff]
  constructor
  · intro h c hc hA
    have hzero := h c.2 (List.mem_map.mpr ⟨c, hc, if_pos hA⟩)
    have := hpos c hc
    omega
  · intro h x hx
    obtain ⟨c, hc, rfl⟩ := List.mem_map.mp hx
    exact if_neg (h c hc)

/-- The bytes from `pos` to `stop` all lie in pieces with `A`. -/
def Covers (A : Nat × Nat → Prop) (cs : List (Nat × Nat)) (pos stop : Nat) : Prop :=
  ∀ i, pos ≤ i → i < stop → ∃ c ∈ cs, c.1 ≤ i ∧ i < c.1 + c.2 ∧ A c

theorem bytesIn_cons (c : Nat × Nat) (cs : List (Nat × Nat)) :
    bytesIn A (c :: cs) = (if A c then c.2 else 0) + bytesIn A cs := by
  rw [bytesIn, List.map_cons, List.sum_cons]
  rfl

/-- A first piece with `A` covers its own part, so the others decide. -/
theorem covers_cons_iff {c : Nat × Nat} {cs : List (Nat × Nat)} {size : Nat} (hA : A c)
    (hwhole : bytesIn A cs ≠ 0 → c.2 = size) :
    Covers A (c :: cs) c.1 (c.1 + (c.2 + bytesIn A cs)) ↔
      Covers A cs (c.1 + size) (c.1 + size + bytesIn A cs) := by
  constructor
  · intro h i hlo hhi
    have hsize := hwhole (by omega)
    obtain ⟨d, hd, hdlo, hdhi, hdA⟩ := h i (by omega) (by omega)
    rcases List.mem_cons.mp hd with rfl | hd
    · omega
    · exact ⟨d, hd, hdlo, hdhi, hdA⟩
  · intro h i hlo hhi
    by_cases hi : i < c.1 + c.2
    · exact ⟨c, List.mem_cons_self, by omega, by omega, hA⟩
    · have hsize := hwhole (by omega)
      obtain ⟨d, hd, hd'⟩ := h i (by omega) (by omega)
      exact ⟨d, List.mem_cons_of_mem c hd, hd'⟩

/-- Nothing covers the first byte of a first piece without `A`, so there must
be no bytes to cover. -/
theorem covers_cons_iff_of_not {c : Nat × Nat} {cs : List (Nat × Nat)} (hA : ¬ A c)
    (hlater : ∀ d ∈ cs, c.1 < d.1) :
    Covers A (c :: cs) c.1 (c.1 + (0 + bytesIn A cs)) ↔ bytesIn A cs = 0 := by
  constructor
  · intro h
    by_contra hne
    obtain ⟨d, hd, hdlo, -, hdA⟩ := h c.1 (Nat.le_refl c.1) (by omega)
    rcases List.mem_cons.mp hd with rfl | hd
    · exact hA hdA
    · have := hlater d hd
      omega
  · intro h i hlo hhi
    omega

/-- As many bytes as there are in the pieces with `A` lie in such pieces, from
the start of the first one, iff no piece with `A` follows one without. -/
theorem covers_iff_pairwise {size len : Nat} (hs : 0 < size) {fuel pos : Nat} :
    Covers A (chunkLoop size len fuel pos) pos (pos + bytesIn A (chunkLoop size len fuel pos)) ↔
      (chunkLoop size len fuel pos).Pairwise fun c d => A d → A c := by
  induction fuel generalizing pos with
  | zero => simp [chunkLoop, Covers, bytesIn]
  | succ fuel ih =>
    by_cases hp : pos < len
    · obtain ⟨k, hk⟩ : ∃ k, k = min size (len - pos) := ⟨_, rfl⟩
      obtain ⟨rest, hrest⟩ : ∃ rest, rest = chunkLoop size len fuel (pos + size) := ⟨_, rfl⟩
      have hlater (d : Nat × Nat) (hd : d ∈ rest) : pos + size ≤ d.1 ∧ 0 < d.2 :=
        chunkLoop_pos hs (hrest ▸ hd)
      have hwhole : bytesIn A rest ≠ 0 → k = size := by
        intro hne
        by_contra hlt
        have hnil : rest = [] := by
          cases fuel with
          | zero => rw [hrest, chunkLoop]
          | succ fuel => rw [hrest, chunkLoop, if_neg (by omega)]
        exact hne (by rw [hnil]; rfl)
      rw [chunkLoop, if_pos hp, ← hk, ← hrest, bytesIn_cons, List.pairwise_cons]
      by_cases hA : A (pos, k)
      · rw [if_pos hA, covers_cons_iff hA hwhole, hrest, ih]
        exact ⟨fun h => ⟨fun _ _ _ => hA, h⟩, fun h => h.2⟩
      · rw [if_neg hA, covers_cons_iff_of_not hA
          fun d hd => Nat.lt_of_lt_of_le (Nat.lt_add_of_pos_right hs) (hlater d hd).1,
          bytesIn_eq_zero_iff fun d hd => (hlater d hd).2]
        constructor
        · intro h
          refine ⟨fun d hd hdA => absurd hdA (h d hd), ?_⟩
          exact List.pairwise_of_forall_mem_list fun d _ e he heA => absurd heA (h e he)
        · intro h d hd hdA
          exact hA (h.1 d hd hdA)
    · rw [chunkLoop, if_neg hp]
      simp [Covers, bytesIn]

end Prefix

section Acknowledged

variable {f : Fork} {p : Bytes} {tr : List (TaskGroup.Label (Nat × Nat) (Except AfpErr Result))}
  {s : WriteGroup}
  (h : (f.writeGroup p).Reach System.free tr s) (hdone : s.Done)

include h hdone

theorem writeRunOf_ok_iff {c : Nat × Nat} (hc : c ∈ f.pieces p) :
    (writeRunOf s).reply c = .ok resNoErr ↔ Acknowledged s c := by
  constructor
  · intro hreply
    obtain ⟨r, hr⟩ := TaskGroup.Reach.exists_result h hdone hc
    rw [writeRunOf_reply h hdone hr] at hreply
    have hack : (c, Except.ok resNoErr) ∈ s.finished := hreply ▸ hr
    exact hack
  · intro hack
    exact writeRunOf_reply h hdone hack

theorem Fork.writeAtDone_count : (f.writeAtDone p s).1 = bytesIn (Acknowledged s) (f.pieces p) := by
  rw [Fork.writeAtDone, Fork.writeAt]
  by_cases hp : p.length = 0
  · rw [if_pos hp, Fork.pieces, hp]
    rfl
  · rw [if_neg hp, bytesIn]
    refine congrArg List.sum (List.map_congr_left fun c hc => ?_)
    rw [writeChunk_count]
    simp only [writeRunOf_ok_iff h hdone hc]

end Acknowledged

/-- The bytes that `WriteAt` reports as written are a prefix the server has
acknowledged, iff no acknowledged piece follows one that was not. -/
theorem written_prefix_iff (f : Fork) (p : Bytes)
    {tr : List (TaskGroup.Label (Nat × Nat) (Except AfpErr Result))}
    {s : WriteGroup} (h : (f.writeGroup p).Reach System.free tr s) (hdone : s.Done) :
    (∀ i < (f.writeAtDone p s).1, ∃ c ∈ f.pieces p, c.1 ≤ i ∧ i < c.1 + c.2 ∧ Acknowledged s c) ↔
      (f.pieces p).Pairwise fun c d => Acknowledged s d → Acknowledged s c := by
  have hiff : Covers (Acknowledged s) (f.pieces p) 0 (0 + bytesIn (Acknowledged s) (f.pieces p)) ↔
      (f.pieces p).Pairwise fun c d => Acknowledged s d → Acknowledged s c :=
        covers_iff_pairwise f.writeChunkSize_pos
  rw [Nat.zero_add] at hiff
  rw [Fork.writeAtDone_count h hdone, ← hiff]
  exact ⟨fun hall i _ hi => hall i hi, fun hall i hi => hall i (Nat.zero_le i) hi⟩

/-- Both pieces of a two-byte write are in flight; the server writes the piece
at `i` and refuses the one at `j`. -/
def refuseOne (i j : Nat) : List (TaskGroup.Label (Nat × Nat) (Except AfpErr Result)) :=
  [.start, .start, .finish (j, 1) (.ok resAccessDenied), .act (i, 1), .finish (i, 1) (.ok resNoErr)]

def oneRefused (i j : Nat) : WriteGroup :=
  ⟨[], [], [(i, 1)], [((j, 1), .ok resAccessDenied), ((i, 1), .ok resNoErr)]⟩

theorem written_prefix_iff_secondRefused :
    (byteFork.writeAtDone [5, 6] (oneRefused 0 1)).1 = 1 ∧
    ∀ i < (byteFork.writeAtDone [5, 6] (oneRefused 0 1)).1,
      ∃ c ∈ byteFork.pieces [5, 6], c.1 ≤ i ∧ i < c.1 + c.2 ∧ Acknowledged (oneRefused 0 1) c := by
  have hreach : (byteFork.writeGroup [5, 6]).Reach System.free (refuseOne 0 1) (oneRefused 0 1) :=
    System.Reach.nil.exec (System.admits_of_forall fun _ _ _ => trivial) rfl
  exact ⟨by decide, (written_prefix_iff byteFork [5, 6] hreach ⟨rfl, rfl⟩).mpr (by decide)⟩

/-- One byte is reported as written, and it is not the first one. -/
theorem written_not_prefix :
    (byteFork.writeGroup [5, 6]).Reach System.free (refuseOne 1 0) (oneRefused 1 0) ∧
      (oneRefused 1 0).Done ∧
    byteFork.writeAtDone [5, 6] (oneRefused 1 0) = (1, some (.result "write" resAccessDenied)) ∧
    ¬ ∃ c ∈ byteFork.pieces [5, 6], c.1 ≤ 0 ∧ 0 < c.1 + c.2 ∧ Acknowledged (oneRefused 1 0) c :=
  ⟨System.Reach.nil.exec (System.admits_of_forall fun _ _ _ => trivial) rfl,
    ⟨rfl, rfl⟩, by decide, by decide⟩

end GoAfp
