import GoAfp.Fork
import Mathlib.Data.List.Basic

/-! Reads and writes of a fork against a server that answers them all: the
chunks add up to the whole range for every chunking and every order of
completion, and so do the windows of an upload and of a download. -/

namespace GoAfp

/-- The answer of a server that holds `D`. It flags the end of the fork when
the range passes it, and when the range ends there as it pleases. -/
def readReply (D : Bytes) (exactEOF : Nat → Nat → Bool) (off count : Nat) :
    Except AfpErr (Bytes × Result) :=
  .ok ((D.drop off).take count,
    if off + count > D.length ∨ (off + count = D.length ∧ exactEOF off count = true) then resEOF
      else resNoErr)

theorem readChunk_readReply (D : Bytes) (exactEOF : Nat → Nat → Bool) (off count : Nat) :
    readChunk (readReply D exactEOF off count) = .ok ((D.drop off).take count,
      decide (off + count > D.length ∨ (off + count = D.length ∧ exactEOF off count = true))) := by
  by_cases h : off + count > D.length ∨ (off + count = D.length ∧ exactEOF off count = true)
  · simp only [readReply, readChunk, if_pos h, if_true, decide_eq_true h]
  · have hne : resNoErr ≠ resEOF := by decide
    simp only [readReply, readChunk, if_neg h, if_neg hne, resultErr_noErr, decide_eq_false h]
    rfl

/-- What a read of `len` bytes at `off` may report: the bytes that exist, and
the end of file if they are fewer, or possibly if they reach it. -/
structure ReadOk (D : Bytes) (off : Nat) (p : Bytes) (r : Bytes × Nat × Option IoErr) : Prop where
  count : r.2.1 = min p.length (D.length - off)
  buffer : r.1 = (D.drop off).take r.2.1 ++ p.drop r.2.1
  err : r.2.2 = none ∨ r.2.2 = some .eof
  short : r.2.1 < p.length → r.2.2 = some .eof
  atEnd : r.2.2 = some .eof → D.length ≤ off + r.2.1

theorem copyAt_take {d p : Bytes} {n k : Nat} (hd : n + k ≤ d.length) (hp : n + k ≤ p.length) :
    copyAt (d.take n ++ p.drop n) n ((d.drop n).take k) = d.take (n + k) ++ p.drop (n + k) := by
  have hn : (d.take n).length = n := by
    rw [List.length_take]
    omega
  have hk : ((d.drop n).take k).length = k := by
    rw [List.length_take, List.length_drop]
    omega
  have hlen : (d.take n ++ p.drop n).length = p.length := by
    rw [List.length_append, hn, List.length_drop]
    omega
  have htake : (d.take n ++ p.drop n).take n = d.take n := List.take_left' hn
  have hdrop : (d.take n ++ p.drop n).drop (n + k) = p.drop (n + k) := by
    rw [← List.drop_drop, List.drop_left' hn, List.drop_drop]
  have hdata : ((d.drop n).take k).take (p.length - n) = (d.drop n).take k :=
    List.take_of_length_le (by omega)
  rw [copyAt, hlen, hk, htake, hdrop, hdata, List.take_add]

theorem chunkData_readReply (D : Bytes) (exactEOF : Nat → Nat → Bool) (off pos w : Nat) :
    chunkData (readReply D exactEOF) off (pos, w) = (pos, (D.drop (off + pos)).take w,
      decide (off + pos + w > D.length ∨
        (off + pos + w = D.length ∧ exactEOF (off + pos) w = true)) ||
        decide (((D.drop (off + pos)).take w).length < w)) := by
  simp only [chunkData, readChunk_readReply]

theorem readOk_full {D p : Bytes} {off n : Nat} (hn : n = p.length) (hD : n ≤ D.length - off) :
    ReadOk D off p ((D.drop off).take n ++ p.drop n, n, none) where
  count := by
    change n = _
    omega
  buffer := rfl
  err := Or.inl rfl
  short := fun h => absurd h (by simp [hn])
  atEnd := fun h => by cases h

theorem readOk_eof {D p : Bytes} {off n : Nat} (hn : n ≤ p.length) (hD : n = D.length - off) :
    ReadOk D off p ((D.drop off).take n ++ p.drop n, n, some .eof) where
  count := by
    change n = _
    omega
  buffer := rfl
  err := Or.inr rfl
  short := fun _ => rfl
  atEnd := fun _ => by
    change _ ≤ off + n
    omega

/-- One chunk, of which the server has the first `k` bytes. -/
theorem reassemble_chunk {D p : Bytes} {off n w k : Nat} (hk : k = min w (D.length - off - n))
    (hw : n + w ≤ p.length) (hD : n ≤ D.length - off) (short : Bool)
    (rest : List (Nat × Bytes × Bool)) :
    reassemble ((D.drop off).take n ++ p.drop n) n ((n, (D.drop (off + n)).take w, short) :: rest) =
      if short then ((D.drop off).take (n + k) ++ p.drop (n + k), n + k, some .eof)
      else reassemble ((D.drop off).take (n + k) ++ p.drop (n + k)) (n + k) rest := by
  have hkp : n + k ≤ p.length := by omega
  have hkD : n + k ≤ D.length - off := by omega
  have hcount : n + min (p.length - n) k = n + k := by omega
  have hbuf : ((D.drop off).take n ++ p.drop n).length = p.length := by
    rw [List.length_append, List.length_take, List.length_drop, List.length_drop, min_eq_left hD]
    omega
  have hdata : (D.drop (off + n)).take w = ((D.drop off).drop n).take k := by
    rw [List.drop_drop, List.take_eq_take_min, List.length_drop, hk, Nat.sub_sub]
  have hlen : (((D.drop off).drop n).take k).length = k := by
    rw [List.length_take, List.length_drop, List.length_drop]
    omega
  have hcopy : copyAt ((D.drop off).take n ++ p.drop n) n (((D.drop off).drop n).take k) =
      (D.drop off).take (n + k) ++ p.drop (n + k) :=
        copyAt_take (by rw [List.length_drop]; exact hkD) hkp
  rw [hdata, reassemble, hcopy]
  simp only [hbuf, hlen, hcount]

theorem reassemble_ok {D p : Bytes} {exactEOF : Nat → Nat → Bool} {off size : Nat} (hs : 0 < size)
    {fuel pos n : Nat} (hf : p.length - pos ≤ fuel) (hn : n = min pos p.length)
    (hD : n ≤ D.length - off) :
    ReadOk D off p (reassemble ((D.drop off).take n ++ p.drop n) n
      ((chunkLoop size p.length fuel pos).map (chunkData (readReply D exactEOF) off))) := by
  -- the buffer holds what precedes the chunk at `pos`, none of which was short
  induction fuel generalizing pos n with
  | zero => exact readOk_full (by omega) hD
  | succ fuel ih =>
    by_cases hp : pos < p.length
    · obtain rfl : n = pos := by omega
      obtain ⟨w, hw⟩ : ∃ w, w = min size (p.length - n) := ⟨_, rfl⟩
      obtain ⟨k, hk⟩ : ∃ k, k = min w (D.length - off - n) := ⟨_, rfl⟩
      have hnext : n + w = min (n + size) p.length := by
        rw [hw, ← Nat.add_min_add_left, Nat.add_sub_cancel' (Nat.le_of_lt hp)]
      have hfits : n + w ≤ p.length := hnext ▸ Nat.min_le_right _ _
      have hlen : ((D.drop (off + n)).take w).length = k := by
        rw [List.length_take, List.length_drop, hk, Nat.sub_sub]
      rw [chunkLoop, if_pos hp, List.map_cons, chunkData_readReply, ← hw,
        reassemble_chunk hk hfits hD, hlen]
      have hkw : k ≤ w := hk ▸ Nat.min_le_left _ _
      clear hn hw hlen
      have hle : n + k ≤ D.length - off := by omega
      have hrest : k < w → n + k = D.length - off := by omega
      clear hk
      split_ifs with hshort
      · simp only [Bool.or_eq_true, decide_eq_true_eq] at hshort
        have hall : n + k = D.length - off := by
          rcases hshort with (hpast | ⟨hend, -⟩) | hfew
          · omega
          · omega
          · exact hrest hfew
        exact readOk_eof (Nat.le_trans (Nat.add_le_add_left hkw n) hfits) hall
      · rw [Bool.or_eq_true, not_or, decide_eq_true_eq, decide_eq_true_eq] at hshort
        have hfull : k = w := Nat.le_antisymm hkw (Nat.le_of_not_lt hshort.2)
        exact ih (by omega) (hfull ▸ hnext) hle
    · rw [chunkLoop, if_neg hp]
      exact readOk_full (by omega) hD

theorem reassemble_chunks {D p : Bytes} {exactEOF : Nat → Nat → Bool} {off size : Nat}
    (hs : 0 < size) :
    ReadOk D off p
      (reassemble p 0 ((chunks size p.length).map (chunkData (readReply D exactEOF) off))) := by
  have hstart : (D.drop off).take 0 ++ p.drop 0 = p := by
    rw [List.take_zero, List.nil_append, List.drop_zero]
  have h : ReadOk D off p (reassemble ((D.drop off).take 0 ++ p.drop 0) 0
      ((chunks size p.length).map (chunkData (readReply D exactEOF) off))) :=
    reassemble_ok hs (Nat.sub_le p.length 0) (Nat.zero_min _).symm (Nat.zero_le _)
  rwa [hstart] at h

theorem readOk_empty {D p : Bytes} {off : Nat} (hp : p.length = 0) :
    ReadOk D off p (p, 0, none) := by
  have h : ReadOk D off p ((D.drop off).take 0 ++ p.drop 0, 0, none) :=
    readOk_full hp.symm (Nat.zero_le _)
  rwa [List.take_zero, List.nil_append, List.drop_zero] at h

theorem Fork.readAt_ok (f : Fork) (order : List (Nat × Nat) → List (Nat × Nat)) (D : Bytes)
    (exactEOF : Nat → Nat → Bool) (p : Bytes) (off : Nat) :
    ReadOk D off p (f.readAt order (readReply D exactEOF) p off) := by
  by_cases hp : p.length = 0
  · rw [Fork.readAt, if_pos hp]
    exact readOk_empty hp
  · have herr : (order (chunks f.chunkSize p.length)).findSome?
        (fun c => errOf (readChunk (readReply D exactEOF (off + c.1) c.2))) = none := by
      apply List.findSome?_eq_none_iff.mpr
      intro c _
      rw [readChunk_readReply]
      rfl
    rw [Fork.readAt, if_neg hp]
    simp only [herr]
    exact reassemble_chunks f.chunkSize_pos

theorem Fork.writeChunkSize_pos (f : Fork) : 0 < f.writeChunkSize := by
  have h := f.chunkSize_pos
  simp only [Fork.writeChunkSize]
  split_ifs <;> omega

structure WriteRun.Complete (run : WriteRun) (f : Fork) (p : Bytes) : Prop where
  applied : run.applied.Perm (f.pieces p)
  reply : ∀ c, run.reply c = .ok resNoErr

theorem Fork.writeAt_count {f : Fork} {run : WriteRun} {p : Bytes}
    (h : ∀ c ∈ f.pieces p, run.reply c = .ok resNoErr) :
    (f.writeAt run p).1 = p.length := by
  by_cases hp : p.length = 0
  · rw [Fork.writeAt, if_pos hp, hp]
  · have hmap : ((f.pieces p).map fun c => (writeChunk (run.reply c) c.2).toOption.getD 0) =
        (f.pieces p).map Prod.snd := List.map_congr_left fun c hc => by rw [h c hc]; rfl
    rw [Fork.writeAt, if_neg hp]
    simp only [hmap]
    exact chunks_sum f.writeChunkSize_pos

theorem Fork.writeAt_err {f : Fork} {run : WriteRun} {p : Bytes}
    (h : ∀ c ∈ run.order (f.pieces p), run.reply c = .ok resNoErr) :
    (f.writeAt run p).2 = none := by
  by_cases hp : p.length = 0
  · rw [Fork.writeAt, if_pos hp]
  · rw [Fork.writeAt, if_neg hp]
    apply List.findSome?_eq_none_iff.mpr
    intro c hc
    rw [h c hc]
    rfl

theorem writeChunk_errOf {r : Except AfpErr Result} {n : Nat} (h : errOf (writeChunk r n) = none) :
    r = .ok resNoErr := by
  cases r with
  | error e => cases h
  | ok code =>
    by_cases hc : code = resNoErr
    · rw [hc]
    · simp only [writeChunk, resultErr, if_neg hc] at h
      cases h

theorem Fork.writeAt_replies {f : Fork} {run : WriteRun} {p : Bytes}
    (hperm : (run.order (f.pieces p)).Perm (f.pieces p)) (h : (f.writeAt run p).2 = none) :
    ∀ c ∈ f.pieces p, run.reply c = .ok resNoErr := by
  intro c hc
  by_cases hp : p.length = 0
  · rw [Fork.pieces, hp] at hc
    cases hc
  · rw [Fork.writeAt, if_neg hp] at h
    exact writeChunk_errOf (List.findSome?_eq_none_iff.mp h c (hperm.mem_iff.mpr hc))

/-- Applying at least all pieces of a write, in any order, applies the write. -/
theorem Fork.overlayAll_pieces (f : Fork) {p : Bytes} (hp : p ≠ []) (off : Nat) (D : Bytes)
    {cs : List (Nat × Nat)} (h : ∀ c ∈ f.pieces p, c ∈ cs) :
    overlayAll 0 D (cs.map (part off p)) = overlay 0 D off p := by
  apply overlayAll_eq off hp
  intro i hi
  obtain ⟨c, hc, hr⟩ := chunks_cover f.writeChunkSize_pos hi
  exact ⟨c, h c hc, hr⟩

namespace Source

open IoReader (readFullLoop)

theorem read_eq (s : Source) (m : Nat) : IoReader.read s m = s.read m := rfl

def rest (s : Source) : Bytes := s.pieces.flatten

structure FullRead (m : Nat) (R : Bytes) (e : IoErr) (r : Bytes × Option IoErr × Source) :
    Prop where
  data : r.1 = R.take m
  rest : r.2.2.rest = R.drop m
  same : r.2.2.final = e
  more : m ≤ R.length → r.2.1 = none
  done : R.length < m → r.2.1 = some (if R.length > 0 ∧ e = .eof then .unexpectedEOF else e)

theorem fullRead_more {m : Nat} {got : Bytes} {s : Source} (h : got.length = m) :
    FullRead m (got ++ s.rest) s.final (got, none, s) where
  data := (List.take_left' h).symm
  rest := (List.drop_left' h).symm
  same := rfl
  more := fun _ => rfl
  done := fun hlt => by
    rw [List.length_append] at hlt
    omega

theorem fullRead_last {m : Nat} {got : Bytes} {s : Source} (hle : got.length ≤ m)
    (hrest : s.pieces = []) :
    FullRead m got s.final (if got.length ≥ m then (got, none, s)
      else
        (got, some (if got.length > 0 ∧ s.final = .eof then .unexpectedEOF else s.final), s)) := by
  have hr : s.rest = [] := by rw [rest, hrest, List.flatten_nil]
  by_cases hm : got.length ≥ m
  · rw [if_pos hm]
    have h : FullRead m (got ++ s.rest) s.final (got, none, s) := fullRead_more (by omega)
    rwa [hr, List.append_nil] at h
  · rw [if_neg hm]
    refine ⟨(List.take_of_length_le hle).symm, ?_, rfl, fun h => absurd h hm, fun _ => rfl⟩
    rw [List.drop_of_length_le hle]
    exact hr

theorem readFullLoop_spec {m fuel : Nat} {s : Source} {got : Bytes} (hle : got.length ≤ m)
    (hfuel : s.pieces.length < fuel ∨ got.length = m) :
    FullRead m (got ++ s.rest) s.final (readFullLoop m fuel s got) := by
  induction fuel generalizing s got with
  | zero => exact fullRead_more (hfuel.resolve_left (Nat.not_lt_zero _))
  | succ fuel ih =>
    by_cases hm : got.length < m
    · rw [readFullLoop, if_pos hm]
      obtain ⟨pieces, final, withLast⟩ := s
      cases pieces with
      | nil =>
        have h := fullRead_last (s := ⟨[], final, withLast⟩) hle rfl
        simpa [read_eq, read, rest] using h
      | cons x pieces =>
        have hlen : pieces.length < fuel := by
          rcases hfuel with h | h
          · exact Nat.lt_of_succ_lt_succ h
          · omega
        by_cases hx : x.length ≤ m - got.length
        · have hx' : (got ++ x).length ≤ m := by
            rw [List.length_append]
            omega
          by_cases hlast : pieces = [] ∧ withLast = true
          · have h := fullRead_last (s := ⟨pieces, final, withLast⟩) hx' hlast.1
            simp only [read_eq, read, hx, if_true, if_pos hlast]
            simpa [rest, hlast.1] using h
          · have h := ih (s := ⟨pieces, final, withLast⟩) hx' (Or.inl hlen)
            simp only [read_eq, read, hx, if_true, if_neg hlast]
            simpa [rest, List.append_assoc] using h
        · -- the piece is cut to the room that is left, so the next round is the last
          have hx' : (got ++ x.take (m - got.length)).length = m := by
            rw [List.length_append, List.length_take]
            omega
          have h :=
            ih (s := ⟨x.drop (m - got.length) :: pieces, final, withLast⟩) hx'.le (Or.inr hx')
          have hjoin : x.take (m - got.length) ++ (x.drop (m - got.length) ++ pieces.flatten) =
              x ++ pieces.flatten := by
            rw [← List.append_assoc, List.take_append_drop]
          simp only [read_eq, read, hx, if_false]
          simpa [rest, List.append_assoc, hjoin] using h
    · have hm' : got.length = m := by omega
      rw [readFullLoop, if_neg hm]
      exact fullRead_more hm'

theorem readFull_spec (s : Source) (m : Nat) :
    FullRead m s.rest s.final (IoReader.readFull s m) := by
  have h : FullRead m ([] ++ s.rest) s.final (readFullLoop m (s.pieces.length + 1) s []) :=
    readFullLoop_spec (Nat.zero_le m) (Or.inl (Nat.lt_succ_self _))
  exact h

end Source

namespace Fork

variable {f : Fork}

theorem window_pos (f : Fork) : 0 < f.writeChunkSize * f.maxParallel :=
  Nat.mul_pos f.writeChunkSize_pos f.maxParallel_pos

theorem append_window {run : WriteRun} {D data : Bytes} (h : run.Complete f data) :
    (if data.length > 0 then overlayAll 0 D (run.applied.map (part D.length data)) else D) =
      D ++ data := by
  by_cases hd : data = []
  · simp [hd]
  · have hpos : data.length > 0 := List.length_pos_iff.mpr hd
    rw [if_pos hpos, f.overlayAll_pieces hd _ _ fun c hc => h.applied.mem_iff.mpr hc,
      overlay_length]

theorem readFromLoop_ok {runs : Nat → Bytes → WriteRun}
    (hruns : ∀ total data, (runs total data).Complete f data) {fuel : Nat} {src : Source}
    {D : Bytes} (hsrc : src.final = .eof) (hfuel : src.rest.length < fuel) :
    f.readFromLoop runs fuel src D D.length = some
      (D.length + src.rest.length, none, D ++ src.rest) := by
  induction fuel generalizing src D with
  | zero => omega
  | succ fuel ih =>
    have hw := f.window_pos
    have hspec := src.readFull_spec (f.writeChunkSize * f.maxParallel)
    rcases hr : IoReader.readFull src (f.writeChunkSize * f.maxParallel) with ⟨data, err, src'⟩
    rw [hr] at hspec
    obtain ⟨hdata, hrest, hsame, hmore, hdone⟩ := hspec
    simp only at hdata hrest hsame hmore hdone
    have hwrite : (if data.length > 0 then (f.writeAt (runs D.length data) data).2 else none) =
        none := by
      rw [writeAt_err fun c _ => (hruns D.length data).reply c, ite_self]
    simp only [readFromLoop, hr, append_window (hruns D.length data), hwrite]
    by_cases hm : f.writeChunkSize * f.maxParallel ≤ src.rest.length
    · have hlen : src'.rest.length < fuel := by
        rw [hrest, List.length_drop]
        omega
      have hjoin : data ++ src'.rest = src.rest := by rw [hdata, hrest, List.take_append_drop]
      have h := ih (D := D ++ data) (hsame.trans hsrc) hlen
      rw [hmore hm, ← List.length_append]
      simp only [h]
      rw [List.append_assoc, hjoin, List.length_append, Nat.add_assoc, ← List.length_append, hjoin]
    · have hall : data = src.rest := by
        rw [hdata, List.take_of_length_le (by omega)]
      rw [hdone (by omega), hall]
      by_cases he : src.rest.length > 0
      · simp [he, hsrc]
      · simp [he, hsrc]

theorem take_window {D buf : Bytes} {off n : Nat} (h : off + n ≤ D.length) :
    D.take off ++ ((D.drop off).take n ++ buf).take n = D.take (off + n) := by
  have hlen : ((D.drop off).take n).length = n := by
    rw [List.length_take, List.length_drop]
    omega
  rw [List.take_left' hlen, List.take_add]

theorem writeToLoop_ok {order : Nat → List (Nat × Nat) → List (Nat × Nat)} {D : Bytes}
    {exactEOF : Nat → Nat → Bool} {fuel : Nat} {buf : Bytes} {off : Nat} (hbuf : 0 < buf.length)
    (hoff : off ≤ D.length) (hfuel : D.length - off < fuel) :
    f.writeToLoop order (readReply D exactEOF) (fun _ _ => none) fuel buf off (D.take off) =
      some (D.length, none, D) := by
  induction fuel generalizing buf off with
  | zero => omega
  | succ fuel ih =>
    have hspec := f.readAt_ok (order off) D exactEOF buf off
    rcases hr : f.readAt (order off) (readReply D exactEOF) buf off with ⟨buf', n, err⟩
    rw [hr] at hspec
    obtain ⟨hcount, hbuffer, herr, hshort, hend⟩ := hspec
    simp only at hcount hbuffer herr hshort hend
    have hout : D.take off ++ buf'.take n = D.take (off + n) := by
      rw [hbuffer, take_window (by omega)]
    simp only [writeToLoop, hr, ite_self, hout]
    rcases herr with rfl | rfl
    · have hfull : n = buf.length := by
        by_contra hne
        exact absurd (hshort (by omega)) (by simp)
      have hbuf' : buf'.length = buf.length := by
        rw [hbuffer, List.length_append, List.length_take, List.length_drop, List.length_drop]
        omega
      have hn : n ≠ 0 := by omega
      simp only [hn, if_false]
      exact ih (by omega) (by omega) (by omega)
    · have hall : off + n = D.length := by
        have := hend rfl
        omega
      simp only [hall, List.take_length]

end Fork

/-- An order in which the requests of one window complete. -/
structure Schedule where
  order : List (Nat × Nat) → List (Nat × Nat)
  perm : ∀ cs, (order cs).Perm cs

def inOrder : Schedule := ⟨id, List.Perm.refl⟩

/-- Chunks of one byte, two of them at a time. -/
def byteFork : Fork := ⟨1, 2, 0, by decide, by decide⟩

def Schedule.writes (sched : Schedule) (f : Fork) (p : Bytes) : WriteRun :=
  ⟨sched.order (f.pieces p), fun _ => .ok resNoErr, sched.order⟩

theorem Schedule.writes_complete (sched : Schedule) (f : Fork) (p : Bytes) :
    (sched.writes f p).Complete f p :=
  ⟨sched.perm _, fun _ => rfl⟩

/-- Uploading to an empty fork and downloading it again is the identity, for
any sizes and schedules on either side, and both loops end. -/
theorem upload_download (up down : Fork) (writes reads : Nat → Schedule)
    (exactEOF : Nat → Nat → Bool) (src : Source) (hsrc : src.final = .eof) :
    ∃ k, ∀ fuel ≥ k, ∃ content,
      up.readFrom (fun total data => (writes total).writes up data) fuel src [] =
        some (src.pieces.flatten.length, none, content) ∧
      down.writeTo (fun off => (reads off).order) (readReply content exactEOF)
        (fun _ _ => none) fuel = some (src.pieces.flatten.length, none, src.pieces.flatten) := by
  refine ⟨src.rest.length + 1, fun fuel hfuel => ⟨src.rest, ?_, ?_⟩⟩
  · have h :=
      Fork.readFromLoop_ok (f := up) (D := [])
        (fun total data => (writes total).writes_complete up data) hsrc hfuel
    rw [List.length_nil, Nat.zero_add, List.nil_append] at h
    exact h
  · have hpos : 0 < (List.replicate (down.chunkSize * down.maxParallel) (0 : UInt8)).length := by
      rw [List.length_replicate]
      exact Nat.mul_pos down.chunkSize_pos down.maxParallel_pos
    exact Fork.writeToLoop_ok hpos (Nat.zero_le _) hfuel

def reversed : Schedule := ⟨List.reverse, List.reverse_perm⟩

/-- Chunks of two bytes in one direction and of three in the other. -/
def pairFork : Fork := ⟨2, 2, 0, by decide, by decide⟩

def tripleFork : Fork := ⟨3, 1, 0, by decide, by decide⟩

def fiveBytes : Source := ⟨[[1, 2, 3], [4, 5]], .eof, true⟩

theorem upload_download_reversed :
    ∃ fuel content,
      pairFork.readFrom (fun _ data => reversed.writes pairFork data) fuel fiveBytes [] =
        some (5, none, content) ∧
      tripleFork.writeTo (fun _ => reversed.order) (readReply content fun _ _ => false)
        (fun _ _ => none) fuel = some (5, none, [1, 2, 3, 4, 5]) :=
  let ⟨k, h⟩ := upload_download pairFork tripleFork (fun _ => reversed) (fun _ => reversed)
    (fun _ _ => false) fiveBytes rfl
  ⟨k, h k (Nat.le_refl k)⟩

end GoAfp
