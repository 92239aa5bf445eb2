import GoAfp.Framing

/-! A stream of frames that is read in pieces. The reader fills a header and
then the payload that the header announces. Whatever the pieces are, it gets
the frames of the stream as a whole. A header may be refused, and what follows
it is not read. -/

namespace GoAfp

namespace FrameFormat

variable {η β : Type*}

/-- What the reader holds of the frame that it is in. -/
inductive Filling (η β : Type*)
  | header (acc : List β)
  | payload (h : η) (acc : List β)

/-- What the reader does with a piece. -/
inductive Fed (η β : Type*)
  | more (p : Filling η β)
  | frame (f : η × List β)
  | refused (h : η)

variable (F : FrameFormat η β) (bad : η → Prop) [DecidablePred bad]

/-- How many symbols the reader asks for. -/
def want : Filling η β → Nat
  | .header acc => F.size - acc.length
  | .payload h acc => F.payload h - acc.length

def feed (p : Filling η β) (v : List β) : Fed η β :=
  match p with
  | .header acc =>
    if (acc ++ v).length < F.size then .more (.header (acc ++ v))
    else if bad (F.decode (acc ++ v)) then .refused (F.decode (acc ++ v))
    -- a read of nothing returns at once
    else if F.payload (F.decode (acc ++ v)) = 0 then .frame (F.decode (acc ++ v), [])
    else .more (.payload (F.decode (acc ++ v)) [])
  | .payload h acc =>
    if (acc ++ v).length < F.payload h then .more (.payload h (acc ++ v)) else .frame (h, acc ++ v)

/-- The frames of a stream. A refused header stands for all that follows it. -/
def scan (b : List β) : List (η × List β) :=
  if b.length < F.size then []
  else if bad (F.decode (b.take F.size)) then [(F.decode (b.take F.size), [])]
  else if (b.drop F.size).length < F.payload (F.decode (b.take F.size)) then []
  else
    (F.decode (b.take F.size), (b.drop F.size).take (F.payload (F.decode (b.take F.size)))) ::
      scan ((b.drop F.size).drop (F.payload (F.decode (b.take F.size))))
termination_by b.length
decreasing_by
  have := F.size_pos
  simp only [List.length_drop]
  omega

section Scan

variable {hb p rest : List β}

theorem scan_short {b : List β} (h : b.length < F.size) : F.scan bad b = [] := by
  rw [scan, if_pos h]

theorem scan_refused (hsize : hb.length = F.size) (hbad : bad (F.decode hb)) (rest : List β) :
    F.scan bad (hb ++ rest) = [(F.decode hb, [])] := by
  have hlen : ¬ (hb ++ rest).length < F.size := by
    rw [List.length_append]
    omega
  rw [scan, if_neg hlen, List.take_left' hsize, if_pos hbad]

theorem scan_partial (hsize : hb.length = F.size) (hbad : ¬ bad (F.decode hb))
    (hp : p.length < F.payload (F.decode hb)) : F.scan bad (hb ++ p) = [] := by
  have hlen : ¬ (hb ++ p).length < F.size := by
    rw [List.length_append]
    omega
  rw [scan, if_neg hlen, List.take_left' hsize, if_neg hbad, List.drop_left' hsize, if_pos hp]

theorem scan_frame (hsize : hb.length = F.size) (hbad : ¬ bad (F.decode hb))
    (hp : p.length = F.payload (F.decode hb)) (rest : List β) :
    F.scan bad (hb ++ (p ++ rest)) = (F.decode hb, p) :: F.scan bad rest := by
  have hlen : ¬ (hb ++ (p ++ rest)).length < F.size := by
    rw [List.length_append]
    omega
  have hpay : ¬ (p ++ rest).length < F.payload (F.decode hb) := by
    rw [List.length_append]
    omega
  rw [scan, if_neg hlen, List.take_left' hsize, if_neg hbad, List.drop_left' hsize, if_neg hpay,
    List.take_left' hp, List.drop_left' hp]

end Scan

/-- More of the stream adds frames at its end. -/
theorem scan_append (b c : List β) : ∃ fs, F.scan bad (b ++ c) = F.scan bad b ++ fs := by
  induction hn : b.length using Nat.strongRecOn generalizing b with
  | ind n ih =>
    by_cases hlen : b.length < F.size
    · exact ⟨_, by rw [F.scan_short bad hlen, List.nil_append]⟩
    · obtain ⟨hb, rest, hsize, rfl⟩ : ∃ hb rest, hb.length = F.size ∧ b = hb ++ rest :=
        ⟨b.take F.size, b.drop F.size, by rw [List.length_take]; omega,
          (List.take_append_drop _ _).symm⟩
      by_cases hbad : bad (F.decode hb)
      · exact ⟨[], by rw [List.append_assoc, F.scan_refused bad hsize hbad,
          F.scan_refused bad hsize hbad, List.append_nil]⟩
      · by_cases hp : rest.length < F.payload (F.decode hb)
        · exact ⟨_, by rw [F.scan_partial bad hsize hbad hp, List.nil_append]⟩
        · obtain ⟨p, tail, hplen, rfl⟩ : ∃ p tail, p.length = F.payload (F.decode hb) ∧
              rest = p ++ tail :=
            ⟨rest.take (F.payload (F.decode hb)), rest.drop (F.payload (F.decode hb)), by
              rw [List.length_take]
              omega, (List.take_append_drop _ _).symm⟩
          have hshorter : tail.length < n := by
            have := F.size_pos
            rw [← hn, List.length_append, List.length_append]
            omega
          obtain ⟨fs, hfs⟩ := ih tail.length hshorter tail rfl
          refine ⟨fs, ?_⟩
          rw [List.append_assoc, List.append_assoc, F.scan_frame bad hsize hbad hplen, hfs,
            F.scan_frame bad hsize hbad hplen, List.cons_append]

/-- The symbols read of the frame that the reader is in. -/
inductive Holding : Filling η β → List β → Prop
  | header {acc : List β} (h : acc.length < F.size) : Holding (.header acc) acc
  | payload {hb acc : List β} (hsize : hb.length = F.size) (hbad : ¬ bad (F.decode hb))
      (h : acc.length < F.payload (F.decode hb)) : Holding (.payload (F.decode hb) acc) (hb ++ acc)

variable {F bad} {p q : Filling η β} {b v : List β}

omit [DecidablePred bad] in
theorem holding_nil : F.Holding bad (.header []) [] :=
  .header F.size_pos

theorem Holding.more (h : F.Holding bad p b) (hv : v.length ≤ F.want p)
    (hfeed : F.feed bad p v = .more q) :
    F.Holding bad q (b ++ v) := by
  cases h with
  | @header acc hacc =>
    rw [feed] at hfeed
    split_ifs at hfeed with hlen hbad hzero
    · cases hfeed
      exact .header hlen
    · cases hfeed
      have hsize : (b ++ v).length = F.size := by
        rw [List.length_append] at hlen ⊢
        rw [want] at hv
        omega
      have hpay : F.Holding bad (.payload (F.decode (b ++ v)) []) (b ++ v ++ []) :=
        .payload hsize hbad (Nat.pos_of_ne_zero hzero)
      rwa [List.append_nil] at hpay
  | @payload hb acc hsize hbad hacc =>
    rw [feed] at hfeed
    split_ifs at hfeed with hlen
    cases hfeed
    rw [List.append_assoc]
    exact .payload hsize hbad hlen

/-- A piece that ends a frame: the frame is the first of the stream. -/
theorem Holding.frame (h : F.Holding bad p b) (hv : v.length ≤ F.want p) {f : η × List β}
    (hfeed : F.feed bad p v = .frame f) (rest : List β) :
    F.scan bad (b ++ v ++ rest) = f :: F.scan bad rest := by
  cases h with
  | @header acc hacc =>
    rw [feed] at hfeed
    split_ifs at hfeed with hlen hbad hzero
    cases hfeed
    have hsize : (b ++ v).length = F.size := by
      rw [List.length_append] at hlen ⊢
      rw [want] at hv
      omega
    exact F.scan_frame bad hsize hbad (p := []) hzero.symm rest
  | @payload hb acc hsize hbad hacc =>
    rw [feed] at hfeed
    split_ifs at hfeed with hlen
    cases hfeed
    have hp : (acc ++ v).length = F.payload (F.decode hb) := by
      rw [List.length_append] at hlen ⊢
      rw [want] at hv
      omega
    rw [← F.scan_frame bad hsize hbad hp rest]
    simp only [List.append_assoc]

theorem Holding.refused (h : F.Holding bad p b) (hv : v.length ≤ F.want p) {hd : η}
    (hfeed : F.feed bad p v = .refused hd) (rest : List β) :
    F.scan bad (b ++ v ++ rest) = [(hd, [])] := by
  cases h with
  | @header acc hacc =>
    rw [feed] at hfeed
    split_ifs at hfeed with hlen hbad
    cases hfeed
    have hsize : (b ++ v).length = F.size := by
      rw [List.length_append] at hlen ⊢
      rw [want] at hv
      omega
    exact F.scan_refused bad hsize hbad rest
  | payload =>
    rw [feed] at hfeed
    split_ifs at hfeed

/-- Part of a frame is none. -/
theorem Holding.scan (h : F.Holding bad p b) : F.scan bad b = [] := by
  cases h with
  | header h => exact F.scan_short bad h
  | payload hsize hbad h => exact F.scan_partial bad hsize hbad h

theorem feed_refused {hd : η} (hfeed : F.feed bad p v = .refused hd) : bad hd := by
  cases p with
  | header acc =>
    rw [feed] at hfeed
    split_ifs at hfeed with hlen hbad
    cases hfeed
    exact hbad
  | payload h acc =>
    rw [feed] at hfeed
    split_ifs at hfeed

section Prefix

omit [DecidablePred bad]

/-- Less than a frame holds no frame. -/
theorem next_short {f : η × List β} (hw : F.WellSized f) {b : List β} (hb : b <+: F.frame f)
    (hlt : b.length < (F.frame f).length) : F.next b = none := by
  by_cases hlen : b.length < F.size
  · rw [next, readFull_eq_none hlen, Option.bind_none]
  · have henc : F.encode f.1 <+: b := by
      refine List.prefix_of_prefix_length_le (List.prefix_append _ f.2) hb ?_
      rw [F.encode_length]
      omega
    obtain ⟨p, rfl⟩ := henc
    have hshort : p.length < F.payload f.1 := by
      rw [frame, List.length_append, List.length_append, hw] at hlt
      omega
    rw [next, readFull_append (F.encode_length f.1), Option.bind_some, F.decode_encode,
      readFull_eq_none hshort, Option.map_none]

/-- Whatever has come through of a stream of frames is cut into the first of
them, even if the last one is never completed. -/
theorem cut_partial {fs : List (η × List β)} (h : ∀ f ∈ fs, F.WellSized f) {g : η × List β}
    (hg : F.WellSized g) {part : List β} (hpart : part <+: F.frame g)
    (hlt : part.length < (F.frame g).length) {b : List β} (hb : b <+: fs.flatMap F.frame ++ part) :
    (F.cut b).1 <+: fs := by
  induction fs generalizing b with
  | nil =>
    have hnone := next_short hg (hb.trans hpart) (Nat.lt_of_le_of_lt hb.length_le hlt)
    have hnil : (F.cut b).1 = [] := congrArg Prod.fst (F.cut_of_none hnone)
    simp [hnil]
  | cons f fs ih =>
    have hf := h f List.mem_cons_self
    rw [List.flatMap_cons, List.append_assoc] at hb
    by_cases hlen : b.length < (F.frame f).length
    · have hbf : b <+: F.frame f :=
        List.prefix_of_prefix_length_le hb (List.prefix_append _ _) (Nat.le_of_lt hlen)
      rw [F.cut_of_none (next_short hf hbf hlen)]
      exact List.nil_prefix
    · obtain ⟨rest, rfl⟩ : F.frame f <+: b :=
        List.prefix_of_prefix_length_le (List.prefix_append _ _) hb (Nat.le_of_not_lt hlen)
      have hrest :=
        ih (fun g hg => h g (List.mem_cons_of_mem f hg)) ((List.prefix_append_right_inj _).mp hb)
      rw [F.cut_of_some (F.next_frame hf rest)]
      exact List.cons_prefix_cons.mpr ⟨rfl, hrest⟩

end Prefix

end FrameFormat

end GoAfp
