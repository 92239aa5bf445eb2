import GoAfp.ForkIO
import GoAfp.TaskGroup
import Mathlib.Algebra.Order.BigOperators.Group.List

/-! `ReadAt` with its goroutines, one for each chunk and at most `maxParallel`
at a time. Each keeps the reply to its own request; when all have returned the
replies are copied into the buffer in order. -/

namespace GoAfp

abbrev ReadReply := Except AfpErr (Bytes × Result)
abbrev ReadGroup := TaskGroup.State (Nat × Nat) ReadReply

/-- The reply that a chunk's goroutine has got. -/
def replyOf (s : ReadGroup) (c : Nat × Nat) : ReadReply := (s.result c).getD (.error .cancelled)

def chunkOf (s : ReadGroup) (c : Nat × Nat) : Nat × Bytes × Bool :=
  chunkData (fun _ _ => replyOf s c) 0 c

/-- The group's error: that of the first goroutine to fail. -/
def groupErr (s : ReadGroup) : Option AfpErr := s.finished.findSome? fun x => errOf (readChunk x.2)

namespace Fork

variable (f : Fork) (p : Bytes)

def readGroup : System ReadGroup (TaskGroup.Label (Nat × Nat) ReadReply) :=
  TaskGroup.system f.maxParallel (chunks f.chunkSize p.length)

/-- What `ReadAt` returns once the group is done. -/
def readAtDone (s : ReadGroup) : Bytes × Nat × Option IoErr :=
  if p.length = 0 then (p, 0, none)
  else
    match groupErr s with
    | some e => (p, 0, some (.afp e))
    | none => reassemble p 0 ((chunks f.chunkSize p.length).map (chunkOf s))

end Fork

theorem findSome?_congr {α β : Type} {l : List α} {g g' : α → Option β} (h : ∀ x ∈ l, g x = g' x) :
    l.findSome? g = l.findSome? g' := by
  rw [← List.head?_filterMap, ← List.head?_filterMap, List.filterMap_congr h]

section Done

variable {f : Fork} {p : Bytes} {ok : ReadGroup → TaskGroup.Label (Nat × Nat) ReadReply → Prop}
  {tr : List (TaskGroup.Label (Nat × Nat) ReadReply)} {s : ReadGroup}

theorem replyOf_mem (h : (f.readGroup p).Reach ok tr s) (hdone : s.Done)
    {x : (Nat × Nat) × ReadReply} (hx : x ∈ s.finished) : replyOf s x.1 = x.2 := by
  have hresult := (TaskGroup.Reach.result_iff h hdone (chunks_nodup f.chunkSize_pos _)).mpr hx
  rw [replyOf, hresult, Option.getD_some]

theorem mem_finished_iff (h : (f.readGroup p).Reach ok tr s) (hdone : s.Done) {c : Nat × Nat} :
    c ∈ chunks f.chunkSize p.length ↔ (c, replyOf s c) ∈ s.finished := by
  constructor
  · intro hc
    obtain ⟨r, hr⟩ := TaskGroup.Reach.exists_result h hdone hc
    rwa [replyOf_mem h hdone hr]
  · intro hx
    exact (TaskGroup.Reach.finished_perm h hdone).mem_iff.mp (List.mem_map_of_mem hx)

/-- The group computes what `readAt` does with its replies, in the order in
which the goroutines returned. -/
theorem Fork.readAtDone_eq (h : (f.readGroup p).Reach ok tr s) (hdone : s.Done) (off : Nat) :
    f.readAtDone p s = f.readAt (fun _ => s.finished.map Prod.fst)
      (fun o n => replyOf s (o - off, n)) p off := by
  have hreply (c : Nat × Nat) : replyOf s (off + c.1 - off, c.2) = replyOf s c := by
    rw [Nat.add_sub_cancel_left]
  have herr : groupErr s = (s.finished.map Prod.fst).findSome? fun c =>
      errOf (readChunk (replyOf s (off + c.1 - off, c.2))) := by
    rw [groupErr, List.findSome?_map]
    refine findSome?_congr fun x hx => ?_
    rw [Function.comp_apply, hreply, replyOf_mem h hdone hx]
  have hdata : chunkData (fun o n => replyOf s (o - off, n)) off = chunkOf s := by
    funext c
    simp only [chunkOf, chunkData, hreply]
  rw [Fork.readAtDone, herr, ← hdata]
  rfl

end Done

/-- The answer of a server that holds `D`: the bytes in the range, and the end
of the fork flagged when the range passes it, possibly also when it ends
there. -/
def Answers (D : Bytes) (q : ReadRange) (reply : ReadReply) : Prop :=
  ∃ code, reply = .ok ((D.drop q.offset).take q.count, code) ∧
    (D.length < q.offset + q.count → code = resEOF) ∧
    (q.offset + q.count < D.length → code = resNoErr) ∧ (code = resEOF ∨ code = resNoErr)

def ServerHolds (D : Bytes) (off : Nat) : ReadGroup → TaskGroup.Label (Nat × Nat) ReadReply → Prop
  | _, .finish c r => Answers D (chunkRange off c) r
  | _, _ => True

theorem Answers.eq_readReply {D : Bytes} {q : ReadRange} {reply : ReadReply} (h : Answers D q reply)
    {exactEOF : Nat → Nat → Bool}
    (hexact : exactEOF q.offset q.count =
      decide (reply = .ok ((D.drop q.offset).take q.count, resEOF))) :
    reply = readReply D exactEOF q.offset q.count := by
  obtain ⟨code, rfl, hpast, hbefore, hcode⟩ := h
  have hne : resNoErr ≠ resEOF := by decide
  rw [readReply, hexact]
  rcases Nat.lt_trichotomy (q.offset + q.count) D.length with hlt | heq | hgt
  · rw [if_neg (by omega), hbefore hlt]
  · rcases hcode with rfl | rfl
    · rw [if_pos (Or.inr ⟨heq, by simp⟩)]
    · rw [if_neg]
      rintro (h | ⟨-, h⟩)
      · omega
      · simp [hne] at h
  · rw [if_pos (Or.inl hgt), hpast hgt]

theorem answers_readReply (D : Bytes) (exactEOF : Nat → Nat → Bool) (q : ReadRange) :
    Answers D q (readReply D exactEOF q.offset q.count) := by
  refine ⟨_, rfl, fun hpast => if_pos (Or.inl hpast), fun hbefore => if_neg ?_, ?_⟩
  · rintro (hpast | ⟨hend, -⟩)
    · omega
    · omega
  · split
    · exact Or.inl rfl
    · exact Or.inr rfl

theorem Fork.readAt_congr (f : Fork) {p : Bytes} {off : Nat}
    {order : List (Nat × Nat) → List (Nat × Nat)} {reply reply' : Nat → Nat → ReadReply}
    (horder : ∀ c ∈ order (chunks f.chunkSize p.length), c ∈ chunks f.chunkSize p.length)
    (h : ∀ c ∈ chunks f.chunkSize p.length, reply (off + c.1) c.2 = reply' (off + c.1) c.2) :
    f.readAt order reply p off = f.readAt order reply' p off := by
  have herr :
      ((order (chunks f.chunkSize p.length)).findSome?
        fun c => errOf (readChunk (reply (off + c.1) c.2))) =
      (order (chunks f.chunkSize p.length)).findSome? fun c =>
        errOf (readChunk (reply' (off + c.1) c.2)) :=
    findSome?_congr fun c hc => by rw [h c (horder c hc)]
  have hmap : (chunks f.chunkSize p.length).map (chunkData reply off) =
      (chunks f.chunkSize p.length).map (chunkData reply' off) :=
    List.map_congr_left fun c hc => by rw [chunkData, chunkData, h c hc]
  simp only [Fork.readAt, herr, hmap]

theorem Fork.writeAt_congr (f : Fork) {p : Bytes} {run run' : WriteRun}
    (horder : run.order (f.pieces p) = run'.order (f.pieces p))
    (hmem : ∀ c ∈ run'.order (f.pieces p), c ∈ f.pieces p)
    (h : ∀ c ∈ f.pieces p, run.reply c = run'.reply c) : f.writeAt run p = f.writeAt run' p := by
  have hmap : ((f.pieces p).map fun c => (writeChunk (run.reply c) c.2).toOption.getD 0) =
      (f.pieces p).map fun c => (writeChunk (run'.reply c) c.2).toOption.getD 0 :=
    List.map_congr_left fun c hc => by rw [h c hc]
  have herr : ((run.order (f.pieces p)).findSome? fun c => errOf (writeChunk (run.reply c) c.2)) =
      (run'.order (f.pieces p)).findSome? fun c => errOf (writeChunk (run'.reply c) c.2) := by
    rw [horder]
    exact findSome?_congr fun c hc => by rw [h c (hmem c hc)]
  simp only [Fork.writeAt, hmap, herr]

theorem Fork.readAtDone_ok {f : Fork} {D p : Bytes} {off : Nat}
    {tr : List (TaskGroup.Label (Nat × Nat) ReadReply)} {s : ReadGroup}
    (h : (f.readGroup p).Reach (ServerHolds D off) tr s) (hdone : s.Done) :
    ReadOk D off p (f.readAtDone p s) := by
  let exactEOF (o n : Nat) : Bool :=
    decide (replyOf s (o - off, n) = .ok ((D.drop o).take n, resEOF))
  have hperm := TaskGroup.Reach.finished_perm h hdone
  have hall : ∀ x ∈ s.finished, Answers D (chunkRange off x.1) x.2 :=
    TaskGroup.Reach.finished_of_guard (P := fun (c : Nat × Nat) r => Answers D (chunkRange off c) r)
      h fun _ _ _ hok => hok
  rw [Fork.readAtDone_eq h hdone off]
  have hcongr : f.readAt (fun _ => s.finished.map Prod.fst)
      (fun o n => replyOf s (o - off, n)) p off =
      f.readAt (fun _ => s.finished.map Prod.fst) (readReply D exactEOF) p off := by
    refine f.readAt_congr (fun c hc => hperm.mem_iff.mp hc) fun c hc => ?_
    have hans := hall _ ((mem_finished_iff h hdone).mp hc)
    have hreply : replyOf s (off + c.1 - off, c.2) = replyOf s c := by rw [Nat.add_sub_cancel_left]
    refine Answers.eq_readReply (q := chunkRange off c) ?_ rfl
    rwa [hreply]
  rw [hcongr]
  exact f.readAt_ok _ D exactEOF p off

/-- `ReadAt` always comes to an end, and then it has read what there is. -/
theorem readAt_correct (f : Fork) (D p : Bytes) (off : Nat) :
    (∀ tr s, (f.readGroup p).Reach (ServerHolds D off) tr s →
      tr.length ≤ 3 * (chunks f.chunkSize p.length).length ∧
        ∃ as t, (f.readGroup p).Reach (ServerHolds D off) (tr ++ as) t ∧ t.Done) ∧
    ∀ tr s, (f.readGroup p).Reach (ServerHolds D off) tr s → s.Done →
      ∃ buf n err, f.readAtDone p s = (buf, n, err) ∧ n = min p.length (D.length - off) ∧
        buf.take n = (D.drop off).take n ∧ buf.drop n = p.drop n ∧
          (n < p.length → err = some .eof) ∧
        (off + p.length < D.length ∨ p = [] → err = none) ∧ (err = none ∨ err = some .eof) := by
  refine ⟨fun tr s h => ⟨TaskGroup.Reach.length_le h, ?_⟩, fun tr s h hdone => ?_⟩
  · exact TaskGroup.Reach.completes f.maxParallel_pos (fun _ => trivial) (fun _ _ => trivial)
      (fun _ c _ => ⟨_, answers_readReply D (fun _ _ => false) (chunkRange off c)⟩) h
  · obtain ⟨hcount, hbuffer, herr, hshort, hend⟩ := Fork.readAtDone_ok h hdone
    obtain ⟨buf, n, err, hr⟩ : ∃ buf n err, f.readAtDone p s = (buf, n, err) := ⟨_, _, _, rfl⟩
    simp only [hr] at hcount hbuffer herr hshort hend
    have hlen : ((D.drop off).take n).length = n := by
      rw [List.length_take, List.length_drop]
      omega
    refine ⟨buf, n, err, hr, hcount, ?_, ?_, hshort, fun hnone => ?_, herr⟩
    · rw [hbuffer, List.take_left' hlen]
    · rw [hbuffer, List.drop_left' hlen]
    · rcases hnone with hlt | rfl
      · refine herr.resolve_right fun heof => ?_
        have := hend heof
        omega
      · cases hr
        rfl

theorem copyAt_length {b : Bytes} {start : Nat} (h : start ≤ b.length) (data : Bytes) :
    (copyAt b start data).length = b.length := by
  simp only [copyAt, List.length_append, List.length_take, List.length_drop]
  omega

theorem copyAt_getElem? {b : Bytes} {start : Nat} (h : start ≤ b.length) (data : Bytes) (i : Nat) :
    (copyAt b start data)[i]? =
      if start ≤ i ∧ i < start + data.length ∧ i < b.length then data[i - start]? else b[i]? := by
  have hstart : (b.take start).length = start := List.length_take_of_le h
  rw [copyAt, List.append_assoc]
  by_cases hlo : i < start
  · rw [if_neg (by omega), List.getElem?_append_left (by omega), List.getElem?_take_of_lt hlo]
  · rw [List.getElem?_append_right (by omega), hstart]
    by_cases hhi : i < start + data.length ∧ i < b.length
    · have hlt : i - start < (data.take (b.length - start)).length := by
        rw [List.length_take]
        omega
      rw [if_pos ⟨by omega, hhi⟩, List.getElem?_append_left hlt,
        List.getElem?_take_of_lt (by omega)]
    · have hge : (data.take (b.length - start)).length ≤ i - start := by
        rw [List.length_take]
        omega
      rw [if_neg (by tauto), List.getElem?_append_right hge, List.getElem?_drop, List.length_take]
      by_cases hb : i < b.length
      · congr 1
        omega
      · rw [List.getElem?_eq_none (by omega), List.getElem?_eq_none (by omega)]

/-- The count stays within the buffer, and what a chunk's part of the buffer
holds was there before or is from that chunk's own reply. -/
structure Within (g : Nat × Nat → Nat × Bytes × Bool) (p : Bytes) (cs : List (Nat × Nat))
    (r : Bytes × Nat × Option IoErr) : Prop where
  count : r.2.1 ≤ p.length
  size : r.1.length = p.length
  own : ∀ c ∈ cs, ∀ j < c.2, r.1[c.1 + j]? = p[c.1 + j]? ∨ r.1[c.1 + j]? = (g c).2.1[j]?

/-- No reply that gets copied is longer than its chunk, but for the last one,
which the end of the buffer cuts. -/
def Fits (g : Nat × Nat → Nat × Bytes × Bool) (cs : List (Nat × Nat)) : Prop :=
  ∀ pre c post, cs = pre ++ c :: post → post ≠ [] → (∀ d ∈ pre, (g d).2.2 = false) →
    (g c).2.1.length ≤ c.2

theorem fits_of_forall {g : Nat × Nat → Nat × Bytes × Bool} {cs : List (Nat × Nat)}
    (h : ∀ c ∈ cs, (g c).2.1.length ≤ c.2) : Fits g cs := by
  intro pre c post hcs _ _
  exact h c (by simp [hcs])

theorem Fits.tail {g : Nat × Nat → Nat × Bytes × Bool} {c : Nat × Nat} {cs : List (Nat × Nat)}
    (h : Fits g (c :: cs)) (hc : (g c).2.2 = false) : Fits g cs := by
  intro pre d post hcs hpost hpre
  refine h (c :: pre) d post (by rw [hcs, List.cons_append]) hpost fun e he => ?_
  rcases List.mem_cons.mp he with rfl | he
  · exact hc
  · exact hpre e he

theorem reassemble_cons (b : Bytes) (n : Nat) (x : Nat × Bytes × Bool)
    (xs : List (Nat × Bytes × Bool)) :
    reassemble b n (x :: xs) =
      if x.2.2 then (copyAt b x.1 x.2.1, n + min (b.length - x.1) x.2.1.length, some .eof)
      else reassemble (copyAt b x.1 x.2.1) (n + min (b.length - x.1) x.2.1.length) xs := rfl

theorem chunkLoop_ne_nil {size len fuel pos : Nat} (hs : 0 < size) (hf : len - pos ≤ fuel)
    (hp : pos < len) :
    chunkLoop size len fuel pos ≠ [] := by
  obtain ⟨d, hd, -⟩ := chunkLoop_cover hs hf (Nat.le_refl _) hp
  exact List.ne_nil_of_mem hd

/-- After a chunk that was answered in full, the count is where the next one
starts. -/
theorem count_of_full {pos size len k : Nat} (hp : pos < len) (hwhole : min size (len - pos) ≤ k)
    (hmore : pos + size < len → k ≤ size) : pos + min (len - pos) k = min (pos + size) len := by
  by_cases hlast : pos + size < len
  · have hk : k = size := by
      have := hmore hlast
      omega
    rw [hk]
    omega
  · omega

section Reassemble

variable {g : Nat × Nat → Nat × Bytes × Bool} (hg : ∀ c, (g c).1 = c.1) {p : Bytes}

include hg

/-- A chunk's own part after its reply was copied. -/
theorem own_copyAt {b : Bytes} {c : Nat × Nat} (hb : b.length = p.length)
    (hc : c.1 + c.2 ≤ p.length) (hrest : ∀ i, c.1 ≤ i → b[i]? = p[i]?) (j : Nat) :
    (copyAt b (g c).1 (g c).2.1)[c.1 + j]? = p[c.1 + j]? ∨
      (copyAt b (g c).1 (g c).2.1)[c.1 + j]? = (g c).2.1[j]? := by
  rw [hg, copyAt_getElem? (by omega)]
  split_ifs with h
  · exact Or.inr (by rw [Nat.add_sub_cancel_left])
  · exact Or.inl (hrest _ (by omega))

/-- `Within`, and nothing before `pos` has changed. -/
def WithinFrom (g : Nat × Nat → Nat × Bytes × Bool) (p : Bytes) (cs : List (Nat × Nat)) (pos : Nat)
    (b : Bytes) (r : Bytes × Nat × Option IoErr) : Prop :=
  Within g p cs r ∧ ∀ i < pos, r.1[i]? = b[i]?

omit hg in
theorem withinFrom_nil {b : Bytes} (hb : b.length = p.length) (pos : Nat) :
    WithinFrom g p [] pos b (b, min pos p.length, none) :=
  ⟨⟨Nat.min_le_right _ _, hb, fun _ hc => by cases hc⟩, fun _ _ => rfl⟩

theorem copyAt_before {b : Bytes} {c : Nat × Nat} (hstart : c.1 ≤ b.length) {i : Nat}
    (hi : i < c.1) :
    (copyAt b (g c).1 (g c).2.1)[i]? = b[i]? := by
  rw [hg, copyAt_getElem? hstart, if_neg (by omega)]

theorem copyAt_after {b : Bytes} {c : Nat × Nat} (hstart : c.1 ≤ b.length) {i : Nat}
    (hi : i < b.length → c.1 + (g c).2.1.length ≤ i) :
    (copyAt b (g c).1 (g c).2.1)[i]? = b[i]? := by
  rw [hg, copyAt_getElem? hstart, if_neg]
  rintro ⟨-, hlt, hib⟩
  exact absurd hlt (Nat.not_lt.mpr (hi hib))

/-- The last chunk that is copied. Its reply may only be too long if no chunk
follows. -/
theorem withinFrom_stop {b : Bytes} {c : Nat × Nat} {cs : List (Nat × Nat)}
    (hb : b.length = p.length) (hc : c.1 + c.2 ≤ p.length) (hrest : ∀ i, c.1 ≤ i → b[i]? = p[i]?)
    (hcs : ∀ d ∈ cs, c.1 + c.2 ≤ d.1) (hdata : cs ≠ [] → (g c).2.1.length ≤ c.2)
    (err : Option IoErr) :
    WithinFrom g p (c :: cs) c.1 b
      (copyAt b (g c).1 (g c).2.1, c.1 + min (b.length - (g c).1) (g c).2.1.length, err) := by
  have hstart : (g c).1 ≤ b.length := by
    rw [hg]
    omega
  refine ⟨⟨?_, (copyAt_length hstart _).trans hb, fun d hd j _ => ?_⟩,
    fun i hi => copyAt_before hg (by omega) hi⟩
  · change c.1 + min (b.length - (g c).1) (g c).2.1.length ≤ p.length
    rw [hg]
    omega
  · rcases List.mem_cons.mp hd with rfl | hd
    · exact own_copyAt hg hb hc hrest j
    · have hlen := hdata (List.ne_nil_of_mem hd)
      have hlo := hcs d hd
      refine Or.inl ?_
      rw [copyAt_after hg (by omega) fun _ => by omega, hrest _ (by omega)]

/-- A chunk that is answered in full, when those after it are copied too. -/
theorem withinFrom_full {b : Bytes} {c : Nat × Nat} {cs : List (Nat × Nat)}
    {r : Bytes × Nat × Option IoErr} {pos : Nat} (hb : b.length = p.length)
    (hc : c.1 + c.2 ≤ p.length) (hrest : ∀ i, c.1 ≤ i → b[i]? = p[i]?) (hpos : c.1 + c.2 ≤ pos)
    (hnext : WithinFrom g p cs pos (copyAt b (g c).1 (g c).2.1) r) :
    WithinFrom g p (c :: cs) c.1 b r := by
  obtain ⟨hw, hbefore⟩ := hnext
  refine ⟨⟨hw.count, hw.size, fun d hd j hj => ?_⟩, fun i hi => ?_⟩
  · rcases List.mem_cons.mp hd with rfl | hd
    · rw [hbefore _ (by omega)]
      exact own_copyAt hg hb hc hrest j
    · exact hw.own d hd j hj
  · rw [hbefore i (by omega), copyAt_before hg (by omega) hi]

theorem reassemble_within {size : Nat} (hs : 0 < size) {fuel pos : Nat} {b : Bytes}
    (hf : p.length - pos ≤ fuel) (hb : b.length = p.length) (hrest : ∀ i, pos ≤ i → b[i]? = p[i]?)
    (hfull : ∀ c ∈ chunkLoop size p.length fuel pos, (g c).2.2 = false → c.2 ≤ (g c).2.1.length)
    (hfits : Fits g (chunkLoop size p.length fuel pos)) :
    WithinFrom g p (chunkLoop size p.length fuel pos) pos b
      (reassemble b (min pos p.length) ((chunkLoop size p.length fuel pos).map g)) := by
  -- the chunks before `pos` were answered in full, and nothing from `pos` on is touched yet
  induction fuel generalizing pos b with
  | zero => exact withinFrom_nil hb pos
  | succ fuel ih =>
    by_cases hp : pos < p.length
    · obtain ⟨c, hc⟩ : ∃ c : Nat × Nat, c = (pos, min size (p.length - pos)) := ⟨_, rfl⟩
      obtain rfl : c.1 = pos := congrArg Prod.fst hc
      have hsize : c.2 = min size (p.length - c.1) := congrArg Prod.snd hc
      have hloop : chunkLoop size p.length (fuel + 1) c.1 = c :: chunkLoop size p.length fuel
          (c.1 + size) := by
        rw [chunkLoop, if_pos hp, ← hc]
      have hstart : (g c).1 ≤ b.length := by
        rw [hg]
        omega
      rw [hloop] at hfull hfits ⊢
      rw [List.map_cons, reassemble_cons, Nat.min_eq_left hp.le]
      have hdata (hne : chunkLoop size p.length fuel (c.1 + size) ≠ []) : (g c).2.1.length ≤ c.2 :=
        hfits [] c _ rfl hne fun d hd => by cases hd
      cases hshort : (g c).2.2 with
      | true =>
        rw [if_pos rfl]
        refine withinFrom_stop hg hb (by omega) hrest (fun d hd => ?_) hdata _
        have := (chunkLoop_pos hs hd).1
        omega
      | false =>
        have hwhole := hfull c List.mem_cons_self hshort
        have hmore (hlast : c.1 + size < p.length) : (g c).2.1.length ≤ size :=
          (hdata (chunkLoop_ne_nil hs (by omega) hlast)).trans (hsize ▸ Nat.min_le_left _ _)
        have hcount : c.1 + min (b.length - (g c).1) (g c).2.1.length = min
            (c.1 + size) p.length := by
          rw [hg, hb]
          exact count_of_full hp (hsize ▸ hwhole) hmore
        have hafter (i : Nat) (hi : c.1 + size ≤ i) : (copyAt b (g c).1 (g c).2.1)[i]? = p[i]? := by
          refine (copyAt_after hg (by omega) fun hib => ?_).trans (hrest i (by omega))
          have := hmore (by omega)
          omega
        rw [if_neg Bool.false_ne_true, hcount]
        exact withinFrom_full hg hb (by omega) hrest (by omega)
          (ih (by omega) ((copyAt_length hstart _).trans hb) hafter
          (fun d hd => hfull d (List.mem_cons_of_mem c hd)) (hfits.tail hshort))
    · have hloop : chunkLoop size p.length (fuel + 1) pos = [] := by rw [chunkLoop, if_neg hp]
      rw [hloop]
      exact withinFrom_nil hb pos

end Reassemble

/-- Without a short chunk every reply is copied and counted. -/
theorem reassemble_count {b : Bytes} {n : Nat} {xs : List (Nat × Bytes × Bool)}
    (hx : ∀ x ∈ xs, x.1 ≤ b.length) (hshort : ∀ x ∈ xs, x.2.2 = false) :
    (reassemble b n xs).2.1 = n + (xs.map fun x => min (b.length - x.1) x.2.1.length).sum := by
  induction xs generalizing b n with
  | nil => rfl
  | cons x xs ih =>
    have hlen := copyAt_length (hx x (by simp)) x.2.1
    have hih := ih (b := copyAt b x.1 x.2.1) (n := n + min (b.length - x.1) x.2.1.length)
      (fun y hy => by rw [hlen]; exact hx y (by simp [hy])) fun y hy => hshort y (by simp [hy])
    rw [reassemble_cons, if_neg (by simp [hshort x (by simp)]), hih, hlen, List.map_cons,
      List.sum_cons, Nat.add_assoc]

/-- The first short chunk is the last one copied. -/
theorem reassemble_short {b : Bytes} (n : Nat) {pre : List (Nat × Bytes × Bool)}
    (post : List (Nat × Bytes × Bool)) {x : Nat × Bytes × Bool}
    (hpre : ∀ y ∈ pre, y.1 ≤ b.length ∧ y.2.2 = false) (hx : x.2.2 = true) :
    ∃ b', b'.length = b.length ∧ (reassemble b n (pre ++ x :: post)).1 = copyAt b' x.1 x.2.1 := by
  induction pre generalizing b n with
  | nil => exact ⟨b, rfl, by rw [List.nil_append, reassemble_cons, if_pos hx]⟩
  | cons y pre ih =>
    obtain ⟨hy, hyshort⟩ := hpre y (by simp)
    have hlen := copyAt_length hy y.2.1
    obtain ⟨b', hb', h⟩ := ih (b := copyAt b y.1 y.2.1) (n + min (b.length - y.1) y.2.1.length)
      fun z hz => by rw [hlen]; exact hpre z (by simp [hz])
    refine ⟨b', hb'.trans hlen, ?_⟩
    rw [List.cons_append, reassemble_cons, if_neg (by simp [hyshort]), h]

section Overrun

variable {g : Nat × Nat → Nat × Bytes × Bool} {p : Bytes} {size : Nat} {pre post : List (Nat × Nat)}
  {c : Nat × Nat}
  (hg : ∀ c, (g c).1 = c.1) (hs : 0 < size) (hcs : chunks size p.length = pre ++ c :: post)
    (hpost : post ≠ [])
  (hover : c.2 < (g c).2.1.length)

include hg hs hcs hpost hover

omit hg hover in
/-- The byte behind a chunk that is not the last belongs to a later one. -/
theorem exists_next_chunk :
    ∃ d ∈ post, d.1 ≤ c.1 + c.2 ∧ c.1 + c.2 < d.1 + d.2 ∧ c.1 + c.2 < p.length := by
  obtain ⟨e, he⟩ := List.exists_mem_of_ne_nil post hpost
  have hmem (d : Nat × Nat) (hd : d ∈ pre ++ c :: post) : d ∈ chunks size p.length := by rwa [hcs]
  have hpair := chunks_pairwise hs p.length
  rw [hcs] at hpair
  obtain ⟨-, hcpost, hprec⟩ := List.pairwise_append.mp hpair
  have hle := (List.pairwise_cons.mp hcpost).1 e he
  have hepos := chunks_pos hs (hmem e (by simp [he]))
  have heend := chunks_end_le (hmem e (by simp [he]))
  obtain ⟨d, hd, hlo, hhi⟩ := chunks_cover hs (by omega : c.1 + c.2 < p.length)
  refine ⟨d, ?_, hlo, hhi, by omega⟩
  rw [hcs] at hd
  rcases List.mem_append.mp hd with hd | hd
  · have := hprec d hd c (by simp)
    omega
  · rcases List.mem_cons.mp hd with rfl | hd
    · omega
    · exact hd

/-- When no chunk is short, an overrun is counted twice. -/
theorem count_overrun (hshort : ∀ d ∈ pre ++ c :: post, (g d).2.2 = false)
    (hfull : ∀ d ∈ pre ++ c :: post, d.2 ≤ (g d).2.1.length) :
    p.length < (reassemble p 0 ((chunks size p.length).map g)).2.1 := by
  obtain ⟨d, -, -, -, hlt⟩ := exists_next_chunk hs hcs hpost
  have hend (d : Nat × Nat) (hd : d ∈ pre ++ c :: post) : d.1 + d.2 ≤ p.length :=
    chunks_end_le (hcs ▸ hd)
  have hsum : ((chunks size p.length).map Prod.snd).sum = p.length := chunks_sum hs
  have hle (l : List (Nat × Nat)) (hl : ∀ d ∈ l, d ∈ pre ++ c :: post) :
      (l.map Prod.snd).sum ≤ (l.map fun d => min (p.length - (g d).1) (g d).2.1.length).sum := by
    refine List.sum_le_sum fun d hd => ?_
    have h₁ := hend d (hl d hd)
    have h₂ := hfull d (hl d hd)
    rw [hg]
    omega
  have hc : c.2 < min (p.length - (g c).1) (g c).2.1.length := by
    rw [hg]
    omega
  have hpre := hle pre fun d hd => by simp [hd]
  have hpo := hle post fun d hd => by simp [hd]
  rw [hcs] at hsum ⊢
  rw [reassemble_count]
  · simp only [List.map_append, List.map_cons, List.sum_append, List.sum_cons,
      List.map_map] at hsum ⊢
    simp only [Function.comp_def]
    omega
  · intro x hx
    obtain ⟨d, hd, rfl⟩ := List.mem_map.mp hx
    have := hend d hd
    rw [hg]
    omega
  · intro x hx
    obtain ⟨d, hd, rfl⟩ := List.mem_map.mp hx
    exact hshort d hd

/-- When the overrunning chunk is the first short one, its reply stays in the
next chunk's part. -/
theorem own_overrun (hpre : ∀ d ∈ pre, (g d).2.2 = false) (hshort : (g c).2.2 = true) :
    (reassemble p 0 ((chunks size p.length).map g)).1[c.1 + c.2]? = (g c).2.1[c.2]? := by
  obtain ⟨d, -, -, -, hlt⟩ := exists_next_chunk hs hcs hpost
  have hcopied : ∀ y ∈ pre.map g, y.1 ≤ p.length ∧ y.2.2 = false := by
    intro y hy
    obtain ⟨e, he, rfl⟩ := List.mem_map.mp hy
    have hend : e.1 + e.2 ≤ p.length := chunks_end_le (hcs ▸ List.mem_append_left _ he)
    exact ⟨by rw [hg]; omega, hpre e he⟩
  obtain ⟨b, hb, h⟩ := reassemble_short 0 (post.map g) hcopied hshort
  rw [hcs, List.map_append, List.map_cons, h, hg, copyAt_getElem? (by omega), if_pos (by omega),
    Nat.add_sub_cancel_left]

/-- If the later chunks, answered in full, and the buffer have a byte that is
not the one in excess, either the count or the next chunk's part is wrong. -/
theorem not_within_overrun {v w : UInt8} (hv : (g c).2.1[c.2]? = some v) (hvw : v ≠ w)
    (hp : p = List.replicate p.length w)
    (hpre : ∀ d ∈ pre, (g d).2.2 = false ∧ d.2 ≤ (g d).2.1.length)
    (hlater : ∀ d ∈ post, g d = (d.1, List.replicate d.2 w, false)) :
    ¬ Within g p (chunks size p.length) (reassemble p 0 ((chunks size p.length).map g)) := by
  intro hw
  cases hshort : (g c).2.2 with
  | true =>
    obtain ⟨d, hd, hlo, hhi, hlt⟩ := exists_next_chunk hs hcs hpost
    have hdmem : d ∈ chunks size p.length := by
      rw [hcs]
      simp [hd]
    have hbyte := own_overrun hg hs hcs hpost hover (fun e he => (hpre e he).1) hshort
    have hown := hw.own d hdmem (c.1 + c.2 - d.1) (by omega)
    rw [Nat.add_sub_cancel' hlo, hbyte, hv, hlater d hd] at hown
    have hbuf : p[c.1 + c.2]? = some w := by rw [hp, List.getElem?_replicate_of_lt hlt]
    have hdata : (List.replicate d.2 w)[c.1 + c.2 - d.1]? = some w :=
      List.getElem?_replicate_of_lt (by omega)
    rw [hbuf, hdata] at hown
    rcases hown with h | h
    · exact hvw (Option.some.inj h)
    · exact hvw (Option.some.inj h)
  | false =>
    have hall (d : Nat × Nat) (hd : d ∈ pre ++ c :: post) : (g d).2.2 = false ∧
        d.2 ≤ (g d).2.1.length := by
      rcases List.mem_append.mp hd with hd | hd
      · exact hpre d hd
      · rcases List.mem_cons.mp hd with rfl | hd
        · exact ⟨hshort, hover.le⟩
        · rw [hlater d hd]
          exact ⟨rfl, by rw [List.length_replicate]⟩
    have hcount := count_overrun hg hs hcs hpost hover (fun d hd => (hall d hd).1) fun d hd =>
      (hall d hd).2
    exact absurd hw.count (by omega)

end Overrun

theorem chunkOf_fst (s : ReadGroup) (c : Nat × Nat) : (chunkOf s c).1 = c.1 := by
  rw [chunkOf, chunkData]
  split <;> rfl

theorem chunkOf_ok {s : ReadGroup} {c : Nat × Nat} {data : Bytes} {eof : Bool}
    (h : readChunk (replyOf s c) = .ok (data, eof)) :
    chunkOf s c = (c.1, data, eof || decide (data.length < c.2)) := by
  rw [chunkOf, chunkData, h]

theorem chunkOf_congr {s t : ReadGroup} {c : Nat × Nat} (h : replyOf t c = replyOf s c) :
    chunkOf t c = chunkOf s c := by
  rw [chunkOf, chunkOf, h]

theorem chunkOf_filled {s : ReadGroup} {c : Nat × Nat} {w : UInt8}
    (h : replyOf s c = .ok (List.replicate c.2 w, resNoErr)) :
    chunkOf s c = (c.1, List.replicate c.2 w, false) := by
  have hread : readChunk (replyOf s c) = .ok (List.replicate c.2 w, false) := by
    rw [h]
    rfl
  rw [chunkOf_ok hread]
  simp

theorem chunkOf_full {s : ReadGroup} {c : Nat × Nat} (h : errOf (readChunk (replyOf s c)) = none)
    (hshort : (chunkOf s c).2.2 = false) : c.2 ≤ (chunkOf s c).2.1.length := by
  rcases hr : readChunk (replyOf s c) with e | ⟨data, eof⟩
  · rw [hr] at h
    cases h
  · rw [chunkOf_ok hr] at hshort ⊢
    simpa using (Bool.or_eq_false_iff.mp hshort).2

section Within

variable {f : Fork} {p : Bytes} {tr : List (TaskGroup.Label (Nat × Nat) ReadReply)} {s : ReadGroup}

theorem groupErr_eq_none (h : (f.readGroup p).Reach System.free tr s) (hdone : s.Done) :
    groupErr s = none ↔ ∀ c ∈ chunks f.chunkSize p.length,
      errOf (readChunk (replyOf s c)) = none := by
  rw [groupErr, List.findSome?_eq_none_iff]
  constructor
  · intro hall c hc
    exact hall _ ((mem_finished_iff h hdone).mp hc)
  · intro hall x hx
    have hc : x.1 ∈ chunks f.chunkSize p.length :=
      (TaskGroup.Reach.finished_perm h hdone).mem_iff.mp (List.mem_map_of_mem hx)
    have hreply := hall x.1 hc
    rwa [replyOf_mem h hdone hx] at hreply

theorem Fork.readAtDone_of_ok (herr : groupErr s = none) :
    f.readAtDone p s = reassemble p 0 ((chunks f.chunkSize p.length).map (chunkOf s)) := by
  by_cases hp : p.length = 0
  · rw [Fork.readAtDone, if_pos hp, hp]
    rfl
  · rw [Fork.readAtDone, if_neg hp, herr]

theorem Fork.readAtDone_of_error {e : AfpErr} (herr : groupErr s = some e) :
    (f.readAtDone p s).1 = p ∧ (f.readAtDone p s).2.1 = 0 := by
  rw [Fork.readAtDone, herr]
  split_ifs <;> exact ⟨rfl, rfl⟩

theorem Fork.within_of_fits (h : (f.readGroup p).Reach System.free tr s) (hdone : s.Done)
    (hfits : groupErr s = none → Fits (chunkOf s) (chunks f.chunkSize p.length)) :
    Within (chunkOf s) p (chunks f.chunkSize p.length) (f.readAtDone p s) := by
  cases herr : groupErr s with
  | some e =>
    obtain ⟨hbuf, hn⟩ := Fork.readAtDone_of_error (f := f) (p := p) herr
    exact ⟨hn ▸ Nat.zero_le _, by rw [hbuf], fun c _ j _ => Or.inl (by rw [hbuf])⟩
  | none =>
    have hall := (groupErr_eq_none h hdone).mp herr
    have hw :=
      reassemble_within (chunkOf_fst s) f.chunkSize_pos (Nat.sub_le p.length 0) rfl (fun _ _ => rfl)
      (fun c hc => chunkOf_full (hall c hc)) (hfits herr)
    rw [Nat.zero_min] at hw
    rw [Fork.readAtDone_of_ok herr]
    exact hw.1

theorem Fork.exists_answered (f : Fork) (p : Bytes) (answer : Nat × Nat → ReadReply) :
    ∃ tr s, (f.readGroup p).Reach System.free tr s ∧ s.Done ∧
      ∀ c ∈ chunks f.chunkSize p.length, replyOf s c = answer c := by
  obtain ⟨tr, s, hreach, hdone, hres⟩ := TaskGroup.exists_run f.maxParallel_pos
    (chunks_nodup f.chunkSize_pos p.length) answer
  refine ⟨tr, s, hreach, hdone, fun c hc => ?_⟩
  rw [replyOf, hres c hc, Option.getD_some]

/-- Replies that overrun a chunk can be followed by replies that do harm. -/
theorem Fork.overrun_of_not_fits (h : (f.readGroup p).Reach System.free tr s) (hdone : s.Done)
    (herr : groupErr s = none) {pre post : List (Nat × Nat)} {c : Nat × Nat}
    (hcs : chunks f.chunkSize p.length = pre ++ c :: post) (hpost : post ≠ [])
    (hpre : ∀ d ∈ pre, (chunkOf s d).2.2 = false) (hover : c.2 < (chunkOf s c).2.1.length) :
    ∃ p' tr' t, p'.length = p.length ∧ (f.readGroup p').Reach System.free tr' t ∧ t.Done ∧
      (∀ d ∈ pre ++ [c], replyOf t d = replyOf s d) ∧
      ¬ Within (chunkOf t) p' (chunks f.chunkSize p'.length) (f.readAtDone p' t) := by
  obtain ⟨v, hv⟩ : ∃ v, (chunkOf s c).2.1[c.2]? = some v := ⟨_, List.getElem?_eq_getElem hover⟩
  -- the buffer and the later replies hold a byte that is not the one in excess
  obtain ⟨w, hvw⟩ : ∃ w : UInt8, v ≠ w := by
    by_cases hzero : v = 0
    · exact ⟨1, by rw [hzero]; decide⟩
    · exact ⟨0, hzero⟩
  have hlen : (List.replicate p.length w).length = p.length := List.length_replicate
  have hnodup := chunks_nodup f.chunkSize_pos p.length
  rw [hcs, List.append_cons] at hnodup
  obtain ⟨tr', t, ht, htdone, hreply⟩ := f.exists_answered (List.replicate p.length w) fun d =>
    if d ∈ pre ++ [c] then replyOf s d else .ok (List.replicate d.2 w, resNoErr)
  rw [hlen, hcs, List.append_cons] at hreply
  have hsame (d : Nat × Nat) (hd : d ∈ pre ++ [c]) : replyOf t d = replyOf s d := by
    rw [hreply d (List.mem_append_left _ hd), if_pos hd]
  have hlater (d : Nat × Nat) (hd : d ∈ post) :
      replyOf t d = .ok (List.replicate d.2 w, resNoErr) := by
    rw [hreply d (List.mem_append_right _ hd),
      if_neg fun hmem => List.disjoint_of_nodup_append hnodup hmem hd]
  have hgood (d : Nat × Nat) (hd : d ∈ pre ++ [c]) : errOf (readChunk (replyOf s d)) = none :=
    (groupErr_eq_none h hdone).mp herr d
      (by rw [hcs, List.append_cons]; exact List.mem_append_left _ hd)
  have hterr : groupErr t = none := by
    refine (groupErr_eq_none ht htdone).mpr fun d hd => ?_
    rw [hlen, hcs, List.append_cons] at hd
    rcases List.mem_append.mp hd with hd | hd
    · rw [hsame d hd]
      exact hgood d hd
    · rw [hlater d hd]
      rfl
  refine ⟨List.replicate p.length w, tr', t, hlen, ht, htdone, hsame, ?_⟩
  rw [Fork.readAtDone_of_ok hterr]
  have hc := chunkOf_congr (hsame c (by simp))
  refine not_within_overrun (chunkOf_fst t) f.chunkSize_pos (hlen ▸ hcs) hpost (by rwa [hc])
    (by rwa [hc]) hvw (by rw [hlen]) (fun d hd => ?_) fun d hd => chunkOf_filled (hlater d hd)
  have hd' : d ∈ pre ++ [c] := List.mem_append_left _ hd
  rw [chunkOf_congr (hsame d hd')]
  exact ⟨hpre d hd, chunkOf_full (hgood d hd') (hpre d hd)⟩

end Within

/-- `ReadAt` stays within its buffer if no reply that is copied overruns its
chunk; and replies that do can be followed by replies that take it out. -/
theorem readAt_within (f : Fork) (p : Bytes) {tr : List (TaskGroup.Label (Nat × Nat) ReadReply)}
    {s : ReadGroup} (h : (f.readGroup p).Reach System.free tr s) (hdone : s.Done) :
    ((groupErr s = none → Fits (chunkOf s) (chunks f.chunkSize p.length)) →
      Within (chunkOf s) p (chunks f.chunkSize p.length) (f.readAtDone p s)) ∧
    (¬ (groupErr s = none → Fits (chunkOf s) (chunks f.chunkSize p.length)) →
      ∃ pre c post, chunks f.chunkSize p.length = pre ++ c :: post ∧
      ∃ p' tr' t, p'.length = p.length ∧
        (f.readGroup p').Reach System.free tr' t ∧ t.Done ∧
        (∀ d ∈ pre ++ [c], replyOf t d = replyOf s d) ∧
        ¬ Within (chunkOf t) p' (chunks f.chunkSize p'.length) (f.readAtDone p' t)) := by
  refine ⟨Fork.within_of_fits h hdone, fun hnot => ?_⟩
  obtain ⟨herr, hfits⟩ := Classical.not_imp.mp hnot
  simp only [Fits, not_forall, Nat.not_le] at hfits
  obtain ⟨pre, c, post, hcs, hpost, hpre, hover⟩ := hfits
  exact ⟨pre, c, post, hcs, Fork.overrun_of_not_fits h hdone herr hcs hpost hpre hover⟩

/-- Both chunks of a two-byte read are in flight; the second is answered
first. -/
def readBoth (first second : Bytes) : List (TaskGroup.Label (Nat × Nat) ReadReply) :=
  [.start, .start, .finish (1, 1) (.ok (second, resNoErr)), .finish (0, 1) (.ok (first, resNoErr))]

def bothRead (first second : Bytes) : ReadGroup :=
  ⟨[], [], [], [((1, 1), .ok (second, resNoErr)), ((0, 1), .ok (first, resNoErr))]⟩

theorem reach_bothRead (first second : Bytes) :
    (byteFork.readGroup [0, 0]).Reach System.free (readBoth first second) (bothRead first second) :=
  System.Reach.nil.exec (System.admits_of_forall fun _ _ _ => trivial) rfl

theorem readAt_within_bothRead :
    Within (chunkOf (bothRead [7] [9])) [0, 0] (chunks 1 2)
      (byteFork.readAtDone [0, 0] (bothRead [7] [9])) :=
  (readAt_within byteFork [0, 0] (reach_bothRead [7] [9]) ⟨rfl, rfl⟩).1 fun _ =>
    fits_of_forall (by decide)

/-- Two bytes in the reply to the first chunk are counted in full, as is the
second chunk: three bytes in a buffer of two, which is the one `writeTo`
makes. -/
theorem readAt_overruns :
    (byteFork.readGroup (List.replicate (byteFork.chunkSize * byteFork.maxParallel) 0)).Reach
      System.free (readBoth [7, 8] [9]) (bothRead [7, 8] [9]) ∧ (bothRead [7, 8] [9]).Done ∧
    byteFork.readAtDone (List.replicate (byteFork.chunkSize * byteFork.maxParallel) 0)
      (bothRead [7, 8] [9]) = ([7, 9], 3, none) :=
  ⟨reach_bothRead [7, 8] [9], ⟨rfl, rfl⟩, by decide⟩

end GoAfp
