import GoAfp.Wire
import GoAfp.Fault

/-! The reply reader with every index and slice checked against the bytes it is
made on. It reads as the one without the checks does. -/

namespace GoAfp

abbrev CheckedM (ε : Type) := Proc Reader (Fault ε)

namespace Checked

variable {α ε : Type}

/-- `binary.BigEndian.Uint16` and its like on the first `n` bytes of `v`. -/
def bigEndian (n : Nat) (v : Bytes) : Except (Fault ε) Nat := do
  let _ ← Fault.index v (n - 1)
  return natOfBytes (v.take n)

/-- `none` is the nil slice. -/
def take (n : Nat) (what : String) : CheckedM ε (Option Bytes) := do
  let r ← get
  if r.err.isSome then
    return none
  if r.pos + n > r.b.length then
    Reader.fail what
    return none
  let v ← Fault.slice (ε := ε) r.b r.pos (r.pos + n)
  set { r with pos := r.pos + n }
  return some v

def taken (n : Nat) (what : String) : CheckedM ε Bytes := do
  let v ← take n what
  return v.getD []

def u8 (what : String) : CheckedM ε UInt8 := do
  match ← take 1 what with
  | none => return 0
  | some v => Fault.index (ε := ε) v 0

def number (n : Nat) (what : String) : CheckedM ε Nat := do
  match ← take n what with
  | none => return 0
  | some v => bigEndian (ε := ε) n v

def u16 (what : String) : CheckedM ε UInt16 := do
  return UInt16.ofNat (← number 2 what)

def u32 (what : String) : CheckedM ε UInt32 := do
  return UInt32.ofNat (← number 4 what)

def u64 (what : String) : CheckedM ε UInt64 := do
  return UInt64.ofNat (← number 8 what)

def pascal (what : String) : CheckedM ε Bytes := do
  let n ← u8 what
  taken n.toNat what

/-- `if r.err != nil { return r.err }`, with the error as the caller returns it. -/
def check (wrap : AfpErr → ε) : CheckedM ε Unit := do
  match (← get).err with
  | some e => throw (.error (wrap e))
  | none => pure ()

def decode (payload : Bytes) (x : CheckedM ε α) : Except (Fault ε) α :=
  (x.on { b := payload }).1

def pascalAt (b : Bytes) (off : Nat) : Except (Fault AfpErr) Bytes := do
  if off ≥ b.length then
    throw (.error (.text "afp: string offset %d outside %d-byte block" [off, b.length]))
  let n := (← Fault.index b off).toNat
  if off + 1 + n > b.length then
    throw (.error (.text "afp: string at %d overruns block" [off]))
  Fault.slice b (off + 1) (off + 1 + n)

def pascal2At (b : Bytes) (off : Nat) : Except (Fault AfpErr) Bytes := do
  if off + 2 > b.length then
    throw (.error (.text "afp: string offset %d outside %d-byte block" [off, b.length]))
  let n ← bigEndian 2 (← Fault.slice b off (off + 2))
  if off + 2 + n > b.length then
    throw (.error (.text "afp: string at %d overruns block" [off]))
  Fault.slice b (off + 2) (off + 2 + n)

theorem bigEndian_eq {n : Nat} {v : Bytes} (hn : 0 < n) (h : v.length = n) :
    (bigEndian n v : Except (Fault ε) Nat) = .ok (natOfBytes v) := by
  rw [bigEndian, Fault.index_eq (by omega), List.take_of_length_le (Nat.le_of_eq h)]
  rfl

theorem sound_bigEndian {n : Nat} {v : Bytes} (hn : 0 < n) (h : v.length = n) :
    Fault.Sound (fun _ => True) (bigEndian n v : Except (Fault ε) Nat) := by
  rw [bigEndian_eq hn h]
  trivial

theorem take_on (n : Nat) (what : String) (r : Reader) :
    (∃ r', (Reader.take n what).run r = ([], r') ∧
      (take n what : CheckedM ε _).on r = (.ok none, r')) ∨
    ∃ v r', v.length = n ∧ (Reader.take n what).run r = (v, r') ∧
      (take n what : CheckedM ε _).on r = (.ok (some v), r') := by
  obtain ⟨b, pos, err⟩ := r
  cases err with
  | some e => exact Or.inl ⟨_, rfl, rfl⟩
  | none =>
    by_cases hfit : pos + n ≤ b.length
    · refine Or.inr ⟨(b.drop pos).take n, ⟨b, pos + n, none⟩, ?_, Reader.take_fits what hfit, ?_⟩
      · rw [List.length_take, List.length_drop]
        omega
      · have hslice : (Fault.slice b pos (pos + n) : Except (Fault ε) Bytes) = .ok
            ((b.drop pos).take n) := by
          rw [Fault.slice_eq (by omega) hfit, Nat.add_sub_cancel_left]
        simp only [take, Proc.on_bind, Proc.on_get, Option.isSome_none, Bool.false_eq_true,
          if_false, Nat.not_lt_of_le hfit, hslice]
        rfl
    · refine Or.inl ⟨⟨b, pos, _⟩, Reader.take_short what (Nat.lt_of_not_le hfit), ?_⟩
      simp only [take, Proc.on_bind, Proc.on_get, Option.isSome_none, Bool.false_eq_true, if_false,
        Nat.lt_of_not_le hfit, if_true]
      rfl

theorem number_on {n : Nat} (hn : 0 < n) (what : String) (r : Reader) :
    (number n what : CheckedM ε Nat).on r =
      (.ok (natOfBytes ((Reader.take n what).run r).1), ((Reader.take n what).run r).2) := by
  rcases take_on (ε := ε) n what r with ⟨r', htake, hon⟩ | ⟨v, r', hlen, htake, hon⟩
  · rw [number, Proc.on_bind_ok hon, htake]
    rfl
  · rw [number, Proc.on_bind_ok hon, htake]
    change (liftM (bigEndian (ε := ε) n v) : CheckedM ε Nat).on r' = _
    rw [bigEndian_eq hn hlen, Proc.on_lift]

@[simp] theorem taken_eq (n : Nat) (what : String) :
    (taken n what : CheckedM ε Bytes) = liftM (Reader.take n what) := by
  refine Proc.ext fun r => ?_
  rw [Proc.on_liftState]
  rcases take_on (ε := ε) n what r with ⟨r', htake, hon⟩ | ⟨v, r', -, htake, hon⟩
  · rw [taken, Proc.on_bind_ok hon, htake]
    rfl
  · rw [taken, Proc.on_bind_ok hon, htake]
    rfl

@[simp] theorem u8_eq (what : String) : (u8 what : CheckedM ε UInt8) = liftM (Reader.u8 what) := by
  refine Proc.ext fun r => ?_
  have hu8 : (Reader.u8 what).run r =
    (UInt8.ofNat (natOfBytes ((Reader.take 1 what).run r).1), ((Reader.take 1 what).run r).2) := rfl
  rw [Proc.on_liftState, hu8]
  rcases take_on (ε := ε) 1 what r with ⟨r', htake, hon⟩ | ⟨v, r', hlen, htake, hon⟩
  · rw [u8, Proc.on_bind_ok hon, htake]
    rfl
  · obtain ⟨x, rfl⟩ := List.length_eq_one_iff.mp hlen
    rw [u8, Proc.on_bind_ok hon, htake]
    simp [natOfBytes, Fault.index, Proc.on_lift]

@[simp] theorem u16_eq (what : String) :
    (u16 what : CheckedM ε UInt16) = liftM (Reader.u16 what) := by
  refine Proc.ext fun r => ?_
  rw [u16, Proc.on_bind_ok (number_on (by decide) what r)]
  rfl

@[simp] theorem u32_eq (what : String) :
    (u32 what : CheckedM ε UInt32) = liftM (Reader.u32 what) := by
  refine Proc.ext fun r => ?_
  rw [u32, Proc.on_bind_ok (number_on (by decide) what r)]
  rfl

@[simp] theorem u64_eq (what : String) :
    (u64 what : CheckedM ε UInt64) = liftM (Reader.u64 what) := by
  refine Proc.ext fun r => ?_
  rw [u64, Proc.on_bind_ok (number_on (by decide) what r)]
  rfl

theorem on_read {x : StateM Reader α} {r r' : Reader} {a : α} (h : x.run r = (a, r')) :
    (liftM x : CheckedM AfpErr α).on r = (.ok a, r') := by
  rw [Proc.on_liftState, h]

theorem decode_check {x : StateM Reader α} {y : CheckedM AfpErr α} {payload : Bytes}
    (h : y = do let a ← liftM x; check (fun e => e); return a) :
    decode payload y = (Reader.parse x payload).mapError Fault.error := by
  rw [h, decode, Proc.on_bind_ok (Proc.on_liftState x _), Reader.parse]
  rcases x.run { b := payload } with ⟨a, b, pos, _ | e⟩ <;> rfl

theorem slice_or_throw (b : Bytes) (start n : Nat) (err : ε) :
    (do
      if start + n > b.length then throw (.error err)
      Fault.slice b start (start + n) : Except (Fault ε) Bytes) =
      (if start + n > b.length then .error err else .ok ((b.drop start).take n) :
        Except ε Bytes).mapError Fault.error := by
  by_cases hend : start + n > b.length
  · rw [if_pos hend, if_pos hend]
    rfl
  · rw [if_neg hend, if_neg hend, Fault.slice_eq (Nat.le_add_right _ _) (Nat.le_of_not_lt hend),
      Nat.add_sub_cancel_left]
    rfl

theorem pascalAt_eq (b : Bytes) (off : Nat) :
    pascalAt b off = (GoAfp.pascalAt b off).mapError Fault.error := by
  by_cases hoff : off < b.length
  · rw [pascalAt, GoAfp.pascalAt, if_neg (Nat.not_le_of_lt hoff), if_neg (Nat.not_le_of_lt hoff),
      Fault.index_eq hoff, List.getD_eq_getElem b 0 hoff]
    exact slice_or_throw b (off + 1) b[off].toNat _
  · rw [pascalAt, GoAfp.pascalAt, if_pos (Nat.le_of_not_lt hoff), if_pos (Nat.le_of_not_lt hoff)]
    rfl

theorem pascal2At_eq (b : Bytes) (off : Nat) :
    pascal2At b off = (GoAfp.pascal2At b off).mapError Fault.error := by
  by_cases hoff : off + 2 ≤ b.length
  · have htwo : ((b.drop off).take 2).length = 2 := by
      rw [List.length_take, List.length_drop]
      omega
    rw [pascal2At, GoAfp.pascal2At, if_neg (Nat.not_lt_of_le hoff), if_neg (Nat.not_lt_of_le hoff),
      Fault.slice_eq (Nat.le_add_right _ _) hoff, Nat.add_sub_cancel_left]
    change (bigEndian 2 ((b.drop off).take 2) >>= _) = _
    rw [bigEndian_eq (by decide) htwo]
    exact slice_or_throw b (off + 2) (natOfBytes ((b.drop off).take 2)) _
  · rw [pascal2At, GoAfp.pascal2At, if_pos (Nat.lt_of_not_le hoff), if_pos (Nat.lt_of_not_le hoff)]
    rfl

theorem sound_pascalAt (b : Bytes) (off : Nat) : Fault.Sound (· <:+: b) (pascalAt b off) := by
  rw [pascalAt_eq]
  refine Fault.sound_mapError fun s hs => ?_
  obtain ⟨-, hpre⟩ := pascalAt_eq_ok_iff.mp hs
  exact ((List.suffix_cons _ s).isInfix.trans hpre.isInfix).trans (List.drop_suffix off b).isInfix

theorem sound_pascal2At (b : Bytes) (off : Nat) : Fault.Sound (· <:+: b) (pascal2At b off) := by
  rw [pascal2At_eq]
  refine Fault.sound_mapError fun s hs => ?_
  obtain ⟨-, hpre⟩ := pascal2At_eq_ok_iff.mp hs
  exact ((List.suffix_append _ s).isInfix.trans hpre.isInfix).trans (List.drop_suffix off b).isInfix

/-- A reader of `payload` that has not passed its end. -/
def Inside (payload : Bytes) (r : Reader) : Prop :=
  r.b = payload ∧ r.pos ≤ payload.length

variable {payload : Bytes}

theorem inside_take (n : Nat) (what : String) {r : Reader} (h : Inside payload r) :
    ((Reader.take n what).run r).1 <:+: payload ∧
      Inside payload ((Reader.take n what).run r).2 := by
  obtain ⟨hb, hpos⟩ := h
  rw [Reader.take_run]
  split_ifs with hs hfit
  · exact ⟨List.nil_infix, hb, hpos⟩
  · exact ⟨List.nil_infix, hb, hpos⟩
  · rw [hb] at hfit ⊢
    exact ⟨Fault.infix_slice _ _ _, rfl, Nat.le_of_not_lt hfit⟩

theorem safe_taken (n : Nat) (what : String) :
    Fault.Safe (Inside payload) (taken n what : CheckedM ε Bytes) (· <:+: payload) := by
  rw [taken_eq]
  exact Fault.safe_liftState fun r hr => inside_take n what hr

theorem safe_u8 (what : String) :
    Fault.Safe (Inside payload) (u8 what : CheckedM ε UInt8) fun _ => True := by
  rw [u8_eq]
  exact Fault.safe_liftState fun r hr => ⟨trivial, (inside_take 1 what hr).2⟩

theorem safe_u16 (what : String) :
    Fault.Safe (Inside payload) (u16 what : CheckedM ε UInt16) fun _ => True := by
  rw [u16_eq]
  exact Fault.safe_liftState fun r hr => ⟨trivial, (inside_take 2 what hr).2⟩

theorem safe_u32 (what : String) :
    Fault.Safe (Inside payload) (u32 what : CheckedM ε UInt32) fun _ => True := by
  rw [u32_eq]
  exact Fault.safe_liftState fun r hr => ⟨trivial, (inside_take 4 what hr).2⟩

theorem safe_u64 (what : String) :
    Fault.Safe (Inside payload) (u64 what : CheckedM ε UInt64) fun _ => True := by
  rw [u64_eq]
  exact Fault.safe_liftState fun r hr => ⟨trivial, (inside_take 8 what hr).2⟩

theorem safe_pascal (what : String) :
    Fault.Safe (Inside payload) (pascal what : CheckedM ε Bytes) (· <:+: payload) :=
  (safe_u8 what).bind fun n _ => safe_taken n.toNat what

theorem safe_check (wrap : AfpErr → ε) :
    Fault.Safe (Inside payload) (check wrap) fun _ => True := by
  refine Fault.safe_get.bind fun r _ => ?_
  rcases r with ⟨b, pos, _ | e⟩
  · exact Fault.safe_pure trivial
  · exact Fault.safe_throw _

theorem sound_decode {x : CheckedM ε α} {Q : α → Prop} (h : Fault.Safe (Inside payload) x Q) :
    Fault.Sound Q (decode payload x) :=
  (h _ ⟨rfl, Nat.zero_le _⟩).1

end Checked

end GoAfp
