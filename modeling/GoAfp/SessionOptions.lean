import GoAfp.Replies

/-! Opening a session: the options in the reply are a sequence of a type, a
length and a value each, and one of them gives the server's request quantum. -/

namespace GoAfp

def cmdOpenSession : UInt8 := 4

def optAttentionQuantum : UInt8 := 0x01

def attentionQuantum : UInt32 := 1024

def openSessionPayload : Bytes :=
  [optAttentionQuantum, 4] ++ putU32 attentionQuantum

inductive OpenSessionErr
  | request (e : AfpErr)
  | option (e : TextErr)
  deriving DecidableEq, Repr

/-- `OpenSession` on a connection that sends the request and returns the
payload of the reply. The state is `ServerQuantum`. -/
def openSession (request : UInt8 → Bytes → Except AfpErr Bytes) :
    Proc UInt32 (Fault OpenSessionErr) Unit := do
  let payload ← (request cmdOpenSession openSessionPayload).mapError fun e =>
    Fault.error (OpenSessionErr.request e)
  Proc.adapt (Fault.map .option) (openSessionOptions payload 0)

/-- An option as a server sends it. -/
structure SessionOption where
  typ : UInt8
  value : { v : Bytes // v.length ≤ 255 }

namespace SessionOption

def encode (o : SessionOption) : Bytes :=
  o.typ :: UInt8.ofNat o.value.val.length :: o.value.val

/-- The quantum that the option gives. -/
def quantum (o : SessionOption) : Option UInt32 :=
  if o.typ = optServerQuantum ∧
    o.value.val.length = 4 then some (UInt32.ofNat (natOfBytes o.value.val)) else none

theorem encode_length (o : SessionOption) : o.encode.length = 2 + o.value.val.length := by
  rw [encode, List.length_cons, List.length_cons]
  omega

end SessionOption

def encodeOptions (opts : List SessionOption) : Bytes :=
  opts.flatMap SessionOption.encode

theorem encodeOptions_cons (o : SessionOption) (opts : List SessionOption) :
    encodeOptions (o :: opts) = o.encode ++ encodeOptions opts := rfl

theorem encodeOptions_append (opts opts' : List SessionOption) :
    encodeOptions (opts ++ opts') = encodeOptions opts ++ encodeOptions opts' :=
  List.flatMap_append

/-- The quantum of the last option that gives one. -/
def lastQuantum (opts : List SessionOption) (quantum : UInt32) : UInt32 :=
  (opts.filterMap SessionOption.quantum).getLast?.getD quantum

theorem lastQuantum_cons (o : SessionOption) (opts : List SessionOption) (quantum : UInt32) :
    lastQuantum (o :: opts) quantum = lastQuantum opts (o.quantum.getD quantum) := by
  unfold lastQuantum
  cases ho : o.quantum with
  | none => rw [List.filterMap_cons_none ho, Option.getD_none]
  | some q =>
    rw [List.filterMap_cons_some ho, List.getLast?_cons, Option.getD_some]
    rfl

open Proc

section Loop

variable (pre : Bytes) (typ n : UInt8) (rest : Bytes) (quantum : UInt32)

/-- One round of the loop at an option's type and length. -/
theorem openSessionOptions_round :
    (openSessionOptions (pre ++ typ :: n :: rest) pre.length).on quantum =
      if rest.length < n.toNat then
        (.error (.error (.text "dsi: malformed OpenSession option %#x" [typ.toNat])), quantum)
      else (openSessionOptions (pre ++ typ :: n :: rest) (pre.length + 2 + n.toNat)).on
        (if typ = optServerQuantum ∧ n.toNat = 4 then UInt32.ofNat (natOfBytes (rest.take 4))
          else quantum) := by
  have hlen : (pre ++ typ :: n :: rest).length = pre.length + 2 + rest.length := by
    simp only [List.length_append, List.length_cons]
    omega
  have hn :
      (Fault.index (pre ++ typ :: n :: rest) (pre.length + 1) : Except (Fault TextErr) UInt8) =
        .ok n := by
    have hindex := Fault.index_append (ε := TextErr) (pre ++ [typ]) n rest
    rwa [List.length_append, List.append_assoc] at hindex
  rw [openSessionOptions, if_pos (by omega), on_lift_bind (Fault.index_append pre typ _),
    on_lift_bind hn]
  by_cases hshort : rest.length < n.toNat
  · rw [if_pos hshort, if_pos (by omega)]
    rfl
  · rw [if_neg hshort, if_neg (by omega)]
    split_ifs with hq
    · have htake : (rest.take 4).length = 4 := by
        rw [List.length_take]
        omega
      have hslice : (Fault.slice (pre ++ typ :: n :: rest) (pre.length + 2) (pre.length + 2 + 4) :
          Except (Fault TextErr) Bytes) = .ok (rest.take 4) := by
        have h :=
          Fault.slice_append (ε := TextErr) (pre ++ [typ, n]) (rest.take 4)
            (rest.drop 4) List.length_append
          (congrArg _ htake)
        rwa [List.take_append_drop, List.append_assoc] at h
      refine (on_lift_bind hslice _ _).trans ?_
      rw [on_lift_bind (Checked.bigEndian_eq (by decide) htake)]
      rfl
    · rfl

theorem openSessionOptions_end :
    (openSessionOptions pre pre.length).on quantum = (.ok (), quantum) := by
  rw [openSessionOptions, if_neg (by omega)]
  rfl

end Loop

/-- The loop over whole options takes the quantum of each. -/
theorem openSessionOptions_encode (pre : Bytes) (opts : List SessionOption) (rest : Bytes)
    (quantum : UInt32) :
    (openSessionOptions (pre ++ (encodeOptions opts ++ rest)) pre.length).on quantum =
      (openSessionOptions (pre ++ (encodeOptions opts ++ rest))
        (pre.length + (encodeOptions opts).length)).on (lastQuantum opts quantum) := by
  induction opts generalizing pre quantum with
  | nil => rfl
  | cons o opts ih =>
    have hsplit : pre ++ (encodeOptions (o :: opts) ++ rest) =
        pre ++ o.typ :: UInt8.ofNat o.value.val.length ::
          (o.value.val ++ (encodeOptions opts ++ rest)) := by
      simp [encodeOptions_cons, SessionOption.encode]
    have hnext : pre ++ (encodeOptions (o :: opts) ++ rest) = (pre ++ o.encode) ++
        (encodeOptions opts ++ rest) := by
      rw [encodeOptions_cons, List.append_assoc, List.append_assoc]
    have hquantum : (if o.typ = optServerQuantum ∧ o.value.val.length = 4 then
        UInt32.ofNat (natOfBytes ((o.value.val ++ (encodeOptions opts ++ rest)).take 4))
          else quantum) =
        o.quantum.getD quantum := by
      unfold SessionOption.quantum
      split_ifs with hq
      · rw [List.take_left' hq.2, Option.getD_some]
      · rfl
    have hround := openSessionOptions_round pre o.typ (UInt8.ofNat o.value.val.length)
      (o.value.val ++ (encodeOptions opts ++ rest)) quantum
    rw [← hsplit, toNat_ofNat8 o.value.property, if_neg (by rw [List.length_append]; omega),
      hquantum] at hround
    have hih := ih (pre ++ o.encode) (o.quantum.getD quantum)
    rw [← hnext, List.length_append, o.encode_length] at hih
    rw [hround, Nat.add_assoc, hih, lastQuantum_cons]
    congr 2
    rw [encodeOptions_cons, List.length_append, o.encode_length]
    exact Nat.add_assoc _ _ _

section Session

variable {request : UInt8 → Bytes → Except AfpErr Bytes} {payload : Bytes}

theorem openSession_on (h : request cmdOpenSession openSessionPayload = .ok payload)
    (quantum : UInt32) :
    (openSession request).on quantum =
      (((openSessionOptions payload 0).on quantum).1.mapError (Fault.map .option),
        ((openSessionOptions payload 0).on quantum).2) := by
  rw [openSession, h]
  rfl

end Session

/-- On the options of a list, whatever their number, types and lengths, the
loop ends with the quantum of the last one that gives one. If the reply is cut
in the middle of an option's value, it ends with an error. -/
theorem openSession_reads_options (opts : List SessionOption) (quantum : UInt32) :
    (openSession fun _ _ => .ok (encodeOptions opts)).on quantum =
      (.ok (), lastQuantum opts quantum) ∧
      ∀ pre o post, opts = pre ++ o :: post → ∀ cut, (encodeOptions pre).length + 2 ≤ cut →
        cut < (encodeOptions (pre ++ [o])).length →
        ∃ e q, (openSession fun _ _ => .ok ((encodeOptions opts).take cut)).on quantum =
          (.error (.error (.option e)), q) := by
  constructor
  · have hloop := openSessionOptions_encode [] opts [] quantum
    rw [List.nil_append, List.append_nil, List.length_nil, Nat.zero_add,
      openSessionOptions_end] at hloop
    rw [openSession_on rfl, hloop]
    rfl
  · rintro pre o post rfl cut hlo hhi
    obtain ⟨k, rfl⟩ := Nat.exists_eq_add_of_le hlo
    rw [encodeOptions_append, encodeOptions_cons, List.length_append, List.length_append,
      o.encode_length] at hhi
    replace hhi : k < o.value.val.length := by
      change _ < _ + (_ + 0) at hhi
      omega
    have hcut : (encodeOptions (pre ++ o :: post)).take ((encodeOptions pre).length + 2 + k) =
        encodeOptions pre ++ o.typ :: UInt8.ofNat o.value.val.length :: o.value.val.take k := by
      rw [encodeOptions_append, encodeOptions_cons, Nat.add_assoc, List.take_length_add_append,
        Nat.add_comm 2 k, SessionOption.encode, List.cons_append, List.cons_append,
        List.take_succ_cons, List.take_succ_cons, List.take_append_of_le_length hhi.le]
    have hloop :=
      openSessionOptions_encode [] pre
        (o.typ :: UInt8.ofNat o.value.val.length :: o.value.val.take k) quantum
    rw [List.nil_append, List.length_nil, Nat.zero_add, openSessionOptions_round,
      toNat_ofNat8 o.value.property, if_pos (by rw [List.length_take]; omega)] at hloop
    rw [openSession_on rfl, hcut, hloop]
    exact ⟨_, _, rfl⟩

/-- The quantum of 1 MB from the reply, and an error if its value is cut short. -/
theorem openSession_reads_options_quantum :
    (openSession fun _ _ => .ok [0, 4, 0x00, 0x10, 0x00, 0x00]).on 0 = (.ok (), 0x100000) ∧
      ∃ e q, (openSession fun _ _ => .ok [0, 4, 0x00]).on 0 = (.error (.error (.option e)), q) := by
  have h := openSession_reads_options [⟨0, ⟨[0x00, 0x10, 0x00, 0x00], by decide⟩⟩] 0
  exact ⟨h.1, h.2 [] _ [] rfl 3 (by decide) (by decide)⟩

end GoAfp
