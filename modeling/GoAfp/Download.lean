import GoAfp.ForkIO

/-! A download from a server that may answer a read with fewer bytes than it
holds. The first short reply ends the download, so what was written is all of
the fork iff the server answered every chunk in full. -/

namespace GoAfp

/-- A server that holds `D` and answers a read at `o` of `c` bytes with the
first `given o c` of them. -/
structure PrefixServer (D : Bytes) where
  given : Nat → Nat → Nat
  flagged : Nat → Nat → Bool
  given_le : ∀ o c, given o c ≤ min c (D.length - o)
  given_pos : ∀ o c, 0 < c → o < D.length → 0 < given o c
  flagged_end : ∀ o c, flagged o c = true → D.length ≤ o + given o c

namespace PrefixServer

variable {D : Bytes} (s : PrefixServer D)

def reply (o c : Nat) : Except AfpErr (Bytes × Result) :=
  .ok ((D.drop o).take (s.given o c), if s.flagged o c then resEOF else resNoErr)

/-- The `k`th chunk of the fork is taken to be its last one. -/
def Short (size k : Nat) : Prop :=
  s.flagged (k * size) size = true ∨ s.given (k * size) size < size

theorem readChunk_reply (o c : Nat) :
    readChunk (s.reply o c) = .ok ((D.drop o).take (s.given o c), s.flagged o c) := by
  cases h : s.flagged o c with
  | false => simp only [reply, h, readChunk]; rfl
  | true => simp only [reply, h, readChunk]; rfl

theorem reply_length (o c : Nat) : ((D.drop o).take (s.given o c)).length = s.given o c := by
  have := s.given_le o c
  rw [List.length_take, List.length_drop]
  omega

theorem chunkData_reply (off pos w : Nat) :
    chunkData s.reply off (pos, w) = (pos, (D.drop (off + pos)).take (s.given (off + pos) w),
      s.flagged (off + pos) w || decide (s.given (off + pos) w < w)) := by
  simp only [chunkData, readChunk_reply, reply_length]

theorem flag_iff_short (size k : Nat) :
    (s.flagged (k * size) size || decide (s.given (k * size) size < size)) = true ↔
      s.Short size k := by
  rw [Bool.or_eq_true, decide_eq_true_iff, Short]

theorem exists_short {size : Nat} (hs : 0 < size) : ∃ k, s.Short size k := by
  refine ⟨D.length, Or.inr ?_⟩
  have hle := s.given_le (D.length * size) size
  have := Nat.le_mul_of_pos_right D.length hs
  omega

section FirstShort

variable {s} {size K : Nat} (hbefore : ∀ k < K, ¬ s.Short size k)

include hbefore

theorem given_before {k : Nat} (hk : k < K) : s.given (k * size) size = size := by
  have hnot := hbefore k hk
  have hle := s.given_le (k * size) size
  rw [Short, not_or] at hnot
  omega

theorem mul_le_length (hs : 0 < size) : K * size ≤ D.length := by
  cases K with
  | zero => simp
  | succ k =>
    have hle := s.given_le (k * size) size
    rw [given_before hbefore (Nat.lt_succ_self k)] at hle
    rw [Nat.succ_mul]
    omega

/-- The chunks up to the first short one are all there is iff each chunk was
answered in full. -/
theorem take_eq_iff (hs : 0 < size) (hK : s.Short size K) :
    D.take (K * size + s.given (K * size) size) = D ↔
      ∀ k, k * size < D.length → s.given (k * size) size = min size (D.length - k * size) := by
  rw [List.take_eq_self_iff]
  constructor
  · intro hall k hk
    have hle := s.given_le (k * size) size
    rcases Nat.lt_trichotomy k K with hlt | rfl | hgt
    · have := given_before hbefore hlt
      omega
    · omega
    · have hnext := Nat.mul_le_mul_right size (Nat.succ_le_of_lt hgt)
      rw [Nat.succ_mul] at hnext
      have := s.given_le (K * size) size
      omega
  · intro hfull
    have hle := mul_le_length hbefore hs
    by_cases hend : K * size < D.length
    · have hgiven := hfull K hend
      rcases hK with hflag | hfew
      · exact s.flagged_end _ _ hflag
      · omega
    · omega

/-- Reading `m` chunks, of which the first `i` are in the buffer. -/
theorem reassemble_reply (hs : 0 < size) (hK : s.Short size K) {p : Bytes} {j m : Nat}
    (hp : p.length = m * size) {fuel i : Nat} (hi : i ≤ m) (hjK : j + i ≤ K) (hf : m - i ≤ fuel) :
    reassemble ((D.drop (j * size)).take (i * size) ++ p.drop (i * size)) (i * size)
        ((chunkLoop size p.length fuel (i * size)).map (chunkData s.reply (j * size))) =
      if K < j + m then
        let n := (K - j) * size + s.given (K * size) size
        ((D.drop (j * size)).take n ++ p.drop n, n, some .eof)
      else ((D.drop (j * size)).take (m * size) ++ p.drop (m * size), m * size, none) := by
  induction fuel generalizing i with
  | zero =>
    obtain rfl : i = m := by omega
    rw [if_neg (by omega), chunkLoop]
    rfl
  | succ fuel ih =>
    by_cases him : i < m
    · have hroom : (i + 1) * size ≤ m * size := Nat.mul_le_mul_right size him
      have hheld : (j + i) * size ≤ D.length :=
        Nat.le_trans (Nat.mul_le_mul_right size hjK) (mul_le_length hbefore hs)
      rw [Nat.succ_mul] at hroom
      rw [Nat.add_mul] at hheld
      obtain ⟨k, hk⟩ : ∃ k, k = s.given ((j + i) * size) size := ⟨_, rfl⟩
      have hle := s.given_le ((j + i) * size) size
      rw [← hk, Nat.add_mul] at hle
      have hwidth : min size (p.length - i * size) = size := by omega
      rw [chunkLoop, if_pos (by omega), hwidth, List.map_cons, chunkData_reply, ← Nat.add_mul, ← hk,
        Nat.add_mul, reassemble_chunk (k := k) (by omega) (by omega) (by omega)]
      have hflag : (s.flagged (j * size + i * size) size || decide (k < size)) = true ↔
          s.Short size (j + i) := by
        rw [← Nat.add_mul, hk]
        exact s.flag_iff_short size (j + i)
      rcases Nat.lt_or_eq_of_le hjK with hlt | heq
      · have hsize : k = size := by rw [hk, given_before hbefore hlt]
        have h := ih (i := i + 1) him (by omega) (by omega)
        rw [Nat.succ_mul] at h
        rw [if_neg (mt hflag.mp (hbefore _ hlt)), hsize, h]
      · rw [if_pos (hflag.mpr (heq ▸ hK)), if_pos (by omega), ← heq, Nat.add_sub_cancel_left, ← hk]
    · obtain rfl : i = m := by omega
      rw [if_neg (by omega), chunkLoop, if_neg (by omega)]
      rfl

end FirstShort

end PrefixServer

namespace Fork

variable (f : Fork) {D : Bytes} {s : PrefixServer D} {K : Nat} (hK : s.Short f.chunkSize K)
  (hbefore : ∀ k < K, ¬ s.Short f.chunkSize k)

include hK hbefore

theorem readAt_prefix (order : List (Nat × Nat) → List (Nat × Nat)) {p : Bytes} {j : Nat}
    (hp : p.length = f.maxParallel * f.chunkSize) (hj : j ≤ K) :
    f.readAt order s.reply p (j * f.chunkSize) =
      if K < j + f.maxParallel then
        let n := (K - j) * f.chunkSize + s.given (K * f.chunkSize) f.chunkSize
        ((D.drop (j * f.chunkSize)).take n ++ p.drop n, n, some .eof)
      else
        ((D.drop (j * f.chunkSize)).take (f.maxParallel * f.chunkSize) ++
          p.drop (f.maxParallel * f.chunkSize), f.maxParallel * f.chunkSize, none) := by
  have hpos : p.length ≠ 0 := by
    rw [hp]
    exact Nat.ne_of_gt (Nat.mul_pos f.maxParallel_pos f.chunkSize_pos)
  have hnone : ((order (chunks f.chunkSize p.length)).findSome? fun c =>
      errOf (readChunk (s.reply (j * f.chunkSize + c.1) c.2))) = none := by
    rw [List.findSome?_eq_none_iff]
    intro c _
    rw [s.readChunk_reply]
    rfl
  have hfuel : f.maxParallel - 0 ≤ p.length := by
    rw [hp]
    exact Nat.le_mul_of_pos_right _ f.chunkSize_pos
  have h := PrefixServer.reassemble_reply hbefore f.chunkSize_pos hK hp (Nat.zero_le _) hj hfuel
  rw [Nat.zero_mul, List.take_zero, List.nil_append, List.drop_zero] at h
  rw [readAt, if_neg hpos]
  simp only [hnone]
  exact h

/-- From the `j`th chunk on: the loop ends, and if the writer took everything
it has got all chunks up to the first short one. -/
theorem writeToLoop_prefix (order : Nat → List (Nat × Nat) → List (Nat × Nat))
    (sink : Bytes → Bytes → Option IoErr) {fuel : Nat} {buf : Bytes} {j : Nat}
    (hbuf : buf.length = f.maxParallel * f.chunkSize) (hj : j ≤ K) (hfuel : K - j < fuel) :
    ∃ total err out,
      f.writeToLoop order s.reply sink fuel buf (j * f.chunkSize) (D.take (j * f.chunkSize)) = some
        (total, err, out) ∧
      (err = none → out = D.take (K * f.chunkSize + s.given (K * f.chunkSize) f.chunkSize)) := by
  induction fuel generalizing buf j with
  | zero => omega
  | succ fuel ih =>
    have hheld := PrefixServer.mul_le_length hbefore f.chunkSize_pos
    have hread := f.readAt_prefix hK hbefore (order (j * f.chunkSize)) hbuf hj
    by_cases hlast : K < j + f.maxParallel
    · obtain ⟨n, hn⟩ : ∃ n, n = (K - j) * f.chunkSize + s.given (K * f.chunkSize) f.chunkSize :=
        ⟨_, rfl⟩
      have hend : j * f.chunkSize + n =
          K * f.chunkSize + s.given (K * f.chunkSize) f.chunkSize := by
        rw [hn, ← Nat.add_assoc, ← Nat.add_mul, Nat.add_sub_cancel' hj]
      have hle := s.given_le (K * f.chunkSize) f.chunkSize
      rw [if_pos hlast, ← hn] at hread
      simp only [writeToLoop, hread,
        take_window (show j * f.chunkSize + n ≤ D.length by omega), hend]
      split
      · exact ⟨_, _, _, rfl, fun h => absurd h (Option.some_ne_none _)⟩
      · exact ⟨_, _, _, rfl, fun _ => rfl⟩
    · obtain ⟨n, hn⟩ : ∃ n, n = f.maxParallel * f.chunkSize := ⟨_, rfl⟩
      have hend : j * f.chunkSize + n = (j + f.maxParallel) * f.chunkSize := by rw [hn, Nat.add_mul]
      have hle : (j + f.maxParallel) * f.chunkSize ≤ D.length :=
        Nat.le_trans (Nat.mul_le_mul_right _ (Nat.le_of_not_lt hlast)) hheld
      have hpos := Nat.mul_pos f.maxParallel_pos f.chunkSize_pos
      have hlen : ((D.drop (j * f.chunkSize)).take n ++ buf.drop n).length =
          f.maxParallel * f.chunkSize := by
        rw [List.length_append, List.length_take, List.length_drop, List.length_drop]
        omega
      rw [if_neg hlast, ← hn] at hread
      simp only [writeToLoop, hread,
        take_window (show j * f.chunkSize + n ≤ D.length by omega), hend,
        if_neg (show ¬ n = 0 by omega)]
      split
      · exact ⟨_, _, _, rfl, fun h => absurd h (Option.some_ne_none _)⟩
      · have := f.maxParallel_pos
        exact ih hlen (Nat.le_of_not_lt hlast) (by omega)

end Fork

/-- Against a server that may send less than it has, a download returns, and
one that reports no error has the whole fork iff every chunk was answered in
full. -/
theorem writeTo_complete_iff (f : Fork) {D : Bytes} (s : PrefixServer D)
    (order : Nat → List (Nat × Nat) → List (Nat × Nat)) (sink : Bytes → Bytes → Option IoErr)
    {fuel : Nat} (hfuel : D.length < fuel) :
    ∃ total err out, f.writeTo order s.reply sink fuel = some (total, err, out) ∧
      (err = none → (out = D ↔ ∀ k, k * f.chunkSize < D.length →
        s.given (k * f.chunkSize) f.chunkSize = min f.chunkSize (D.length - k * f.chunkSize))) := by
  classical
  have hex := s.exists_short f.chunkSize_pos
  have hK := Nat.find_spec hex
  have hbefore : ∀ k < Nat.find hex, ¬ s.Short f.chunkSize k := fun k hk => Nat.find_min hex hk
  have hheld := PrefixServer.mul_le_length hbefore f.chunkSize_pos
  have hle := Nat.le_mul_of_pos_right (Nat.find hex) f.chunkSize_pos
  have hbuf : (List.replicate (f.chunkSize * f.maxParallel) (0 : UInt8)).length =
      f.maxParallel * f.chunkSize := by
    rw [List.length_replicate, Nat.mul_comm]
  obtain ⟨total, err, out, hloop, hout⟩ :=
    f.writeToLoop_prefix hK hbefore order sink hbuf (Nat.zero_le _)
    (show Nat.find hex - 0 < fuel by omega)
  rw [Nat.zero_mul, List.take_zero] at hloop
  refine ⟨total, err, out, hloop, fun herr => ?_⟩
  rw [hout herr, PrefixServer.take_eq_iff hbefore f.chunkSize_pos hK]

/-- A server that sends at most `limit` bytes in one reply. -/
def atMost (D : Bytes) (limit : Nat) (hlimit : 0 < limit) : PrefixServer D where
  given o c := min limit (min c (D.length - o))
  flagged o c := decide (D.length ≤ o + min limit (min c (D.length - o)))
  given_le o c := Nat.min_le_right _ _
  given_pos o c := by omega
  flagged_end o c := of_decide_eq_true

theorem writeTo_complete_iff_atMost :
    ∃ total err out,
      Fork.writeTo ⟨2, 3, 0, by decide, by decide⟩ (fun _ cs => cs)
        (atMost [1, 2, 3] 2 (by decide)).reply (fun _ _ => none) 4 =
        some (total, err, out) ∧ (err = none → out = [1, 2, 3]) := by
  obtain ⟨total, err, out, hrun, hiff⟩ := writeTo_complete_iff ⟨2, 3, 0, by decide, by decide⟩
    (atMost [1, 2, 3] 2 (by decide)) (fun _ cs => cs) (fun _ _ => none) (show 3 < 4 by decide)
  exact ⟨total, err, out, hrun, fun herr => (hiff herr).mpr fun k _ => by simp only [atMost]; omega⟩

/-- One byte of two, and no error. -/
theorem writeTo_truncated :
    Fork.writeTo ⟨2, 1, 0, by decide, by decide⟩ (fun _ cs => cs)
      (atMost [1, 2] 1 (by decide)).reply (fun _ _ => none) 3 = some (1, none, [1]) := by
  decide

end GoAfp
