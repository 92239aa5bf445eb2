import Mathlib.Algebra.GroupWithZero.Nat
import Mathlib.Data.List.GetD
import Mathlib.Tactic.Common

/-! A growing store: writing at an offset fills the gap before it, and
setting the length cuts or fills. Writes that are all parts of one larger
write add up to it in any order, also when some are made twice. -/

namespace GoAfp

variable {α : Type*} (z : α)

def overlay (D : List α) (off : Nat) (data : List α) : List α :=
  if data = [] then D
  else (D ++ List.replicate (off - D.length) z).take off ++ data ++ D.drop (off + data.length)

def setLength (D : List α) (n : Nat) : List α :=
  D.take n ++ List.replicate (n - D.length) z

def part (off : Nat) (p : List α) (c : Nat × Nat) : Nat × List α :=
  (off + c.1, (p.drop c.1).take c.2)

def overlayAll (D : List α) (ws : List (Nat × List α)) : List α :=
  ws.foldl (fun D w => overlay z D w.1 w.2) D

variable {z}

theorem eq_of_getD {l m : List α} (hlen : l.length = m.length) (h : ∀ i, l.getD i z = m.getD i z) :
    l = m := by
  apply List.ext_getElem hlen
  intro i hl hm
  have hi := h i
  rwa [List.getD_eq_getElem l z hl, List.getD_eq_getElem m z hm] at hi

theorem getD_take {l : List α} {n i : Nat} (h : i < n) : (l.take n).getD i z = l.getD i z := by
  simp only [List.getD_eq_getElem?_getD, List.getElem?_take_of_lt h]

theorem getD_drop (l : List α) (n i : Nat) : (l.drop n).getD i z = l.getD (n + i) z := by
  simp only [List.getD_eq_getElem?_getD, List.getElem?_drop]

theorem getD_append_fill (l : List α) (k i : Nat) :
    (l ++ List.replicate k z).getD i z = l.getD i z := by
  by_cases h : i < l.length
  · exact List.getD_append _ _ _ _ h
  · rw [List.getD_append_right _ _ _ _ (by omega), List.getD_eq_default l z (by omega)]
    by_cases hk : i - l.length < k
    · exact List.getD_replicate z hk
    · exact List.getD_eq_default _ _ (by rw [List.length_replicate]; omega)

theorem length_overlay (D : List α) (off : Nat) (data : List α) :
    (overlay z D off data).length =
      if data = [] then D.length else max D.length (off + data.length) := by
  by_cases h : data = []
  · simp [overlay, h]
  · simp only [overlay, h, if_false, List.length_append, List.length_take, List.length_replicate,
      List.length_drop]
    omega

theorem getD_overlay (D : List α) (off : Nat) (data : List α) (i : Nat) :
    (overlay z D off data).getD i z =
      if off ≤ i ∧ i < off + data.length then data.getD (i - off) z else D.getD i z := by
  by_cases h : data = []
  · have hn : ¬ (off ≤ i ∧ i < off + data.length) := by
      simp only [h, List.length_nil]
      omega
    rw [if_neg hn, overlay, if_pos h]
  · have hlen : ((D ++ List.replicate (off - D.length) z).take off).length = off := by
      simp only [List.length_take, List.length_append, List.length_replicate]
      omega
    rw [overlay, if_neg h, List.append_assoc]
    by_cases hlo : i < off
    · have hn : ¬ (off ≤ i ∧ i < off + data.length) := by omega
      rw [if_neg hn, List.getD_append _ _ _ _ (by omega), getD_take hlo, getD_append_fill]
    · by_cases hhi : i < off + data.length
      · rw [if_pos ⟨by omega, hhi⟩, List.getD_append_right _ _ _ _ (by omega), hlen,
          List.getD_append _ _ _ _ (by omega)]
      · have hn : ¬ (off ≤ i ∧ i < off + data.length) := by omega
        rw [if_neg hn, List.getD_append_right _ _ _ _ (by omega), hlen,
          List.getD_append_right _ _ _ _ (by omega), getD_drop]
        congr 1
        omega

theorem length_setLength (D : List α) (n : Nat) : (setLength z D n).length = n := by
  simp only [setLength, List.length_append, List.length_take, List.length_replicate]
  omega

theorem getD_part {off : Nat} {p : List α} {c : Nat × Nat} {i : Nat} (hlo : (part off p c).1 ≤ i)
    (hhi : i < (part off p c).1 + (part off p c).2.length) :
    (part off p c).2.getD (i - (part off p c).1) z = p.getD (i - off) z := by
  simp only [part, List.length_take, List.length_drop] at hlo hhi ⊢
  rw [getD_take (by omega), getD_drop]
  congr 1
  omega

theorem part_end_le {off : Nat} {p : List α} {c : Nat × Nat} (h : (part off p c).2 ≠ []) :
    (part off p c).1 + (part off p c).2.length ≤ off + p.length := by
  have hpos := List.length_pos_iff.mpr h
  simp only [part, List.length_take, List.length_drop] at hpos ⊢
  omega

theorem getD_overlayAll (off : Nat) (p : List α) (cs : List (Nat × Nat)) (D : List α) (i : Nat) :
    (overlayAll z D (cs.map (part off p))).getD i z =
      if ∃ c ∈ cs, (part off p c).1 ≤ i ∧
        i < (part off p c).1 + (part off p c).2.length then p.getD (i - off) z
      else D.getD i z := by
  induction cs generalizing D with
  | nil => simp [overlayAll]
  | cons c cs ih =>
    rw [List.map_cons, overlayAll, List.foldl_cons]
    change (overlayAll z _ (cs.map (part off p))).getD i z = _
    rw [ih, getD_overlay]
    by_cases hcs : ∃ c ∈ cs, (part off p c).1 ≤ i ∧ i < (part off p c).1 + (part off p c).2.length
    · have hc : ∃ c' ∈ c :: cs, (part off p c').1 ≤ i ∧
          i < (part off p c').1 + (part off p c').2.length := by
        obtain ⟨d, hd, hi⟩ := hcs
        exact ⟨d, List.mem_cons_of_mem c hd, hi⟩
      rw [if_pos hcs, if_pos hc]
    · rw [if_neg hcs]
      by_cases hc : (part off p c).1 ≤ i ∧ i < (part off p c).1 + (part off p c).2.length
      · rw [if_pos hc, if_pos ⟨c, List.mem_cons_self, hc⟩, getD_part hc.1 hc.2]
      · have hn : ¬ ∃ c' ∈ c :: cs, (part off p c').1 ≤ i ∧
            i < (part off p c').1 + (part off p c').2.length := by
          rintro ⟨d, hd, hi⟩
          rcases List.mem_cons.mp hd with rfl | hd
          · exact hc hi
          · exact hcs ⟨d, hd, hi⟩
        rw [if_neg hc, if_neg hn]

theorem length_overlayAll (off : Nat) (p : List α) (cs : List (Nat × Nat)) (D : List α) :
    D.length ≤ (overlayAll z D (cs.map (part off p))).length ∧
      (overlayAll z D (cs.map (part off p))).length ≤ max D.length (off + p.length) ∧
      ∀ c ∈ cs, (part off p c).2 ≠ [] →
        (part off p c).1 + (part off p c).2.length ≤
          (overlayAll z D (cs.map (part off p))).length := by
  induction cs generalizing D with
  | nil => exact ⟨Nat.le_refl _, Nat.le_max_left _ _, fun c hc => absurd hc List.not_mem_nil⟩
  | cons c cs ih =>
    rw [List.map_cons, overlayAll, List.foldl_cons]
    obtain ⟨hlo, hhi, hall⟩ := ih (overlay z D (part off p c).1 (part off p c).2)
    simp only [overlayAll] at hlo hhi hall
    rw [length_overlay] at hlo hhi
    by_cases hc : (part off p c).2 = []
    · rw [if_pos hc] at hlo hhi
      refine ⟨hlo, hhi, fun d hd hne => ?_⟩
      rcases List.mem_cons.mp hd with rfl | hd
      · exact absurd hc hne
      · exact hall d hd hne
    · rw [if_neg hc] at hlo hhi
      have hend := part_end_le hc
      refine ⟨by omega, by omega, fun d hd hne => ?_⟩
      rcases List.mem_cons.mp hd with rfl | hd
      · omega
      · exact hall d hd hne

theorem overlayAll_length_le {off : Nat} {p D : List α} {cs : List (Nat × Nat)} {bound : Nat}
    (hD : D.length ≤ bound) (h : ∀ c ∈ cs, off + c.1 + c.2 ≤ bound) :
    (overlayAll z D (cs.map (part off p))).length ≤ bound := by
  induction cs generalizing D with
  | nil => exact hD
  | cons c cs ih =>
    rw [List.map_cons, overlayAll, List.foldl_cons]
    refine ih ?_ fun d hd => h d (List.mem_cons_of_mem _ hd)
    have hc := h c List.mem_cons_self
    rw [length_overlay]
    split_ifs
    · exact hD
    · simp only [part, List.length_take, List.length_drop]
      omega

/-- Parts of `p` that together reach all of it write `p`, in any order and
any number of times. -/
theorem overlayAll_eq (off : Nat) {p : List α} (hp : p ≠ []) (cs : List (Nat × Nat)) (D : List α)
    (hcover : ∀ i < p.length, ∃ c ∈ cs, c.1 ≤ i ∧ i < c.1 + c.2) :
    overlayAll z D (cs.map (part off p)) = overlay z D off p := by
  have hreach (i : Nat) (hi : i < p.length) : ∃ c ∈ cs, (part off p c).1 ≤ off + i ∧
      off + i < (part off p c).1 + (part off p c).2.length := by
    obtain ⟨c, hc, hlo, hhi⟩ := hcover i hi
    refine ⟨c, hc, ?_, ?_⟩ <;> simp only [part, List.length_take, List.length_drop] <;> omega
  have hlen := length_overlayAll (z := z) off p cs D
  have hpos := List.length_pos_iff.mpr hp
  apply eq_of_getD (z := z)
  · obtain ⟨c, hc, hlo, hhi⟩ := hreach (p.length - 1) (by omega)
    have hne : (part off p c).2 ≠ [] := List.length_pos_iff.mp (by omega)
    have hend := hlen.2.2 c hc hne
    rw [length_overlay, if_neg hp]
    omega
  · intro i
    rw [getD_overlayAll, getD_overlay]
    by_cases hi : off ≤ i ∧ i < off + p.length
    · obtain ⟨c, hc, hr⟩ := hreach (i - off) (by omega)
      rw [Nat.add_sub_cancel' hi.1] at hr
      rw [if_pos ⟨c, hc, hr⟩, if_pos hi]
    · rw [if_neg hi, if_neg]
      rintro ⟨c, hc, hr⟩
      have hne : (part off p c).2 ≠ [] := List.length_pos_iff.mp (by omega)
      have hend := part_end_le hne
      have hlo : off ≤ (part off p c).1 := Nat.le_add_right _ _
      omega

theorem overlayAll_append (D : List α) (ws ws' : List (Nat × List α)) :
    overlayAll z D (ws ++ ws') = overlayAll z (overlayAll z D ws) ws' :=
  List.foldl_append

theorem overlayAll_part_nil (off : Nat) (cs : List (Nat × Nat)) (D : List α) :
    overlayAll z D (cs.map (part off [])) = D := by
  induction cs generalizing D with
  | nil => rfl
  | cons c cs ih =>
    have hc : overlay z D (part off ([] : List α) c).1 (part off ([] : List α) c).2 = D := by
      simp [overlay, part]
    rw [List.map_cons, overlayAll, List.foldl_cons, hc]
    exact ih D

theorem setLength_setLength (D : List α) (n : Nat) :
    setLength z (setLength z D n) n = setLength z D n := by
  have hlen := length_setLength (z := z) D n
  rw [setLength, List.take_of_length_le (Nat.le_of_eq hlen), hlen, Nat.sub_self,
    List.replicate_zero, List.append_nil]

theorem overlay_length (D data : List α) : overlay z D D.length data = D ++ data := by
  by_cases h : data = []
  · simp [overlay, h]
  · simp [overlay, h]

def chunkLoop (size len : Nat) : Nat → Nat → List (Nat × Nat)
  | 0, _ => []
  | fuel + 1, pos =>
    if pos < len then (pos, min size (len - pos)) :: chunkLoop size len fuel (pos + size) else []

def chunks (size len : Nat) : List (Nat × Nat) :=
  chunkLoop size len len 0

theorem chunkLoop_cover {size len : Nat} (hs : 0 < size) {fuel pos i : Nat} (hf : len - pos ≤ fuel)
    (hlo : pos ≤ i) (hi : i < len) :
    ∃ c ∈ chunkLoop size len fuel pos, c.1 ≤ i ∧ i < c.1 + c.2 := by
  induction fuel generalizing pos with
  | zero => omega
  | succ fuel ih =>
    rw [chunkLoop, if_pos (by omega)]
    by_cases hc : i < pos + size
    · refine ⟨(pos, min size (len - pos)), List.mem_cons_self, hlo, ?_⟩
      change i < pos + min size (len - pos)
      omega
    · have hnext : pos + size ≤ i := by omega
      obtain ⟨c, hc, hr⟩ := ih (by omega) hnext
      exact ⟨c, List.mem_cons_of_mem _ hc, hr⟩

theorem chunks_cover {size len i : Nat} (hs : 0 < size) (hi : i < len) :
    ∃ c ∈ chunks size len, c.1 ≤ i ∧ i < c.1 + c.2 :=
  chunkLoop_cover hs (Nat.sub_le _ _) (Nat.zero_le i) hi

theorem chunkLoop_end_le {size len fuel pos : Nat} {c : Nat × Nat}
    (hc : c ∈ chunkLoop size len fuel pos) :
    c.1 + c.2 ≤ len := by
  induction fuel generalizing pos with
  | zero => cases hc
  | succ fuel ih =>
    rw [chunkLoop] at hc
    split_ifs at hc with hpos
    · rcases List.mem_cons.mp hc with rfl | hc
      · change pos + min size (len - pos) ≤ len
        omega
      · exact ih hc
    · cases hc

theorem chunks_end_le {size len : Nat} {c : Nat × Nat} (hc : c ∈ chunks size len) :
    c.1 + c.2 ≤ len :=
  chunkLoop_end_le hc

theorem chunkLoop_le_size {size len fuel pos : Nat} {c : Nat × Nat}
    (hc : c ∈ chunkLoop size len fuel pos) : c.2 ≤ size := by
  induction fuel generalizing pos with
  | zero => cases hc
  | succ fuel ih =>
    rw [chunkLoop] at hc
    split_ifs at hc with hpos
    · rcases List.mem_cons.mp hc with rfl | hc
      · exact Nat.min_le_left _ _
      · exact ih hc
    · cases hc

theorem chunks_le_size {size len : Nat} {c : Nat × Nat} (hc : c ∈ chunks size len) : c.2 ≤ size :=
  chunkLoop_le_size hc

theorem chunkLoop_pos {size len fuel pos : Nat} (hs : 0 < size) {c : Nat × Nat}
    (hc : c ∈ chunkLoop size len fuel pos) :
    pos ≤ c.1 ∧ 0 < c.2 := by
  induction fuel generalizing pos with
  | zero => cases hc
  | succ fuel ih =>
    rw [chunkLoop] at hc
    split_ifs at hc with hpos
    · rcases List.mem_cons.mp hc with rfl | hc
      · refine ⟨Nat.le_refl pos, ?_⟩
        change 0 < min size (len - pos)
        omega
      · have h := ih hc
        exact ⟨by omega, h.2⟩
    · cases hc

theorem chunks_pos {size len : Nat} (hs : 0 < size) {c : Nat × Nat} (hc : c ∈ chunks size len) :
    0 < c.2 :=
  (chunkLoop_pos hs hc).2

theorem chunkLoop_pairwise {size len : Nat} (hs : 0 < size) (fuel pos : Nat) :
    (chunkLoop size len fuel pos).Pairwise fun c d => c.1 + c.2 ≤ d.1 := by
  induction fuel generalizing pos with
  | zero => exact .nil
  | succ fuel ih =>
    rw [chunkLoop]
    split_ifs with hpos
    · refine .cons (fun d hd => ?_) (ih (pos + size))
      have hle := (chunkLoop_pos hs hd).1
      change pos + min size (len - pos) ≤ d.1
      omega
    · exact .nil

/-- Chunks come in order and do not overlap. -/
theorem chunks_pairwise {size : Nat} (hs : 0 < size) (len : Nat) :
    (chunks size len).Pairwise fun c d => c.1 + c.2 ≤ d.1 :=
  chunkLoop_pairwise hs len 0

theorem chunks_nodup {size : Nat} (hs : 0 < size) (len : Nat) : (chunks size len).Nodup := by
  refine (chunks_pairwise hs len).imp_of_mem fun {c d} hc _ hle hcd => ?_
  have hpos := chunks_pos hs hc
  subst hcd
  omega

theorem chunkLoop_sum {size len : Nat} (hs : 0 < size) {fuel pos : Nat} (hf : len - pos ≤ fuel) :
    ((chunkLoop size len fuel pos).map Prod.snd).sum = len - pos := by
  induction fuel generalizing pos with
  | zero => simp [chunkLoop, Nat.le_zero.mp hf]
  | succ fuel ih =>
    by_cases hp : pos < len
    · rw [chunkLoop, if_pos hp, List.map_cons, List.sum_cons, ih (by omega)]
      change min size (len - pos) + _ = _
      omega
    · rw [chunkLoop, if_neg hp, List.map_nil, List.sum_nil]
      omega

theorem chunks_sum {size len : Nat} (hs : 0 < size) : ((chunks size len).map Prod.snd).sum = len :=
  chunkLoop_sum hs (Nat.sub_le _ _)

/-- The chunks that count, if any, add up to no more than where the last of
them ends. -/
theorem chunkLoop_sum_le {g : Nat × Nat → Nat} {off size len bound fuel pos : Nat}
    (h : ∀ c ∈ chunkLoop size len fuel pos, g c = 0 ∨ g c = c.2 ∧ off + c.1 + c.2 ≤ bound) :
    ((chunkLoop size len fuel pos).map g).sum = 0 ∨
      off + pos + ((chunkLoop size len fuel pos).map g).sum ≤ bound := by
  induction fuel generalizing pos with
  | zero => exact Or.inl rfl
  | succ fuel ih =>
    rw [chunkLoop] at h ⊢
    split_ifs at h ⊢ with hpos
    · have hrest := ih fun c hc => h c (List.mem_cons_of_mem _ hc)
      have hhead := h _ List.mem_cons_self
      simp only [List.map_cons, List.sum_cons]
      simp only at hhead
      omega
    · exact Or.inl rfl

theorem chunks_sum_le {g : Nat × Nat → Nat} {off size len bound : Nat}
    (h : ∀ c ∈ chunks size len, g c = 0 ∨ g c = c.2 ∧ off + c.1 + c.2 ≤ bound) :
    ((chunks size len).map g).sum = 0 ∨ off + ((chunks size len).map g).sum ≤ bound :=
  chunkLoop_sum_le h

/-- Laid end to end the chunks of a list are the list. -/
theorem chunkLoop_flatten {size : Nat} (hs : 0 < size) (p : List α) {fuel pos : Nat}
    (hf : p.length - pos ≤ fuel) :
    ((chunkLoop size p.length fuel pos).map fun c => (p.drop c.1).take c.2).flatten =
      p.drop pos := by
  induction fuel generalizing pos with
  | zero => rw [List.drop_of_length_le (by omega)]; rfl
  | succ fuel ih =>
    by_cases hp : pos < p.length
    · have htake : (p.drop pos).take (min size (p.length - pos)) = (p.drop pos).take size := by
        rw [List.take_eq_take_iff, List.length_drop]
        omega
      rw [chunkLoop, if_pos hp, List.map_cons, List.flatten_cons, ih (by omega), htake,
        ← List.drop_drop, List.take_append_drop]
    · rw [chunkLoop, if_neg hp, List.drop_of_length_le (by omega)]
      rfl

theorem chunks_flatten {size : Nat} (hs : 0 < size) (p : List α) :
    ((chunks size p.length).map fun c => (p.drop c.1).take c.2).flatten = p :=
  chunkLoop_flatten hs p (Nat.sub_le _ _)

end GoAfp
