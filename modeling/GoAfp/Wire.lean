import GoAfp.Result
import Mathlib.Data.List.GetD

/-! The request builder and the reply reader. A request is the concatenation
of its fields; the reader walks a payload and keeps the first failure. -/

namespace GoAfp

def ascii (s : String) : Bytes :=
  s.toList.map fun c => UInt8.ofNat c.toNat

def goText (s : Bytes) : String :=
  String.ofList (s.map fun c => Char.ofNat c.toNat)

def putU16 (v : UInt16) : Bytes :=
  fillBytes 2 v.toNat

def putU32 (v : UInt32) : Bytes :=
  fillBytes 4 v.toNat

def putU64 (v : UInt64) : Bytes :=
  fillBytes 8 v.toNat

@[simp] theorem putU16_length (v : UInt16) : (putU16 v).length = 2 := fillBytes_length _ _

@[simp] theorem putU32_length (v : UInt32) : (putU32 v).length = 4 := fillBytes_length _ _

@[simp] theorem putU64_length (v : UInt64) : (putU64 v).length = 8 := fillBytes_length _ _

theorem natOfBytes_putU16 (v : UInt16) : UInt16.ofNat (natOfBytes (putU16 v)) = v := by
  rw [putU16, natOfBytes_fillBytes v.toNat_lt, UInt16.ofNat_toNat]

theorem natOfBytes_putU32 (v : UInt32) : UInt32.ofNat (natOfBytes (putU32 v)) = v := by
  rw [putU32, natOfBytes_fillBytes v.toNat_lt, UInt32.ofNat_toNat]

theorem putU16_natOfBytes {b : Bytes} (h : b.length = 2) :
    putU16 (UInt16.ofNat (natOfBytes b)) = b := by
  have hlt := natOfBytes_lt b
  rw [h] at hlt
  have hfill := fillBytes_natOfBytes b
  rwa [putU16, UInt16.toNat_ofNat', Nat.mod_eq_of_lt (show natOfBytes b < 2 ^ 16 from hlt), ← h]

theorem natOfBytes_putU64 (v : UInt64) : UInt64.ofNat (natOfBytes (putU64 v)) = v := by
  rw [putU64, natOfBytes_fillBytes v.toNat_lt, UInt64.ofNat_toNat]

theorem toNat_ofNat8 {n : Nat} (h : n ≤ 255) : (UInt8.ofNat n).toNat = n := by
  rw [UInt8.toNat_ofNat']
  exact Nat.mod_eq_of_lt (Nat.lt_succ_of_le h)

def putPascal (s : Bytes) : Bytes :=
  UInt8.ofNat (s.take 255).length :: s.take 255

theorem putPascal_eq {s : Bytes} (h : s.length ≤ 255) :
    putPascal s = UInt8.ofNat s.length :: s := by
  rw [putPascal, List.take_of_length_le h]

structure Reader where
  b : Bytes
  pos : Nat := 0
  err : Option AfpErr := none

namespace Reader

def fail (what : String) : StateM Reader Unit :=
  modify fun r =>
    if r.err.isNone then { r with err := some (.truncated what r.pos r.b.length) } else r

def take (n : Nat) (what : String) : StateM Reader Bytes := do
  let r ← get
  if r.err.isSome then
    return []
  if r.pos + n > r.b.length then
    fail what
    return []
  set { r with pos := r.pos + n }
  return (r.b.drop r.pos).take n

def u8 (what : String) : StateM Reader UInt8 := do
  let v ← take 1 what
  return UInt8.ofNat (natOfBytes v)

def u16 (what : String) : StateM Reader UInt16 := do
  let v ← take 2 what
  return UInt16.ofNat (natOfBytes v)

def u32 (what : String) : StateM Reader UInt32 := do
  let v ← take 4 what
  return UInt32.ofNat (natOfBytes v)

def u64 (what : String) : StateM Reader UInt64 := do
  let v ← take 8 what
  return UInt64.ofNat (natOfBytes v)

def sized (lengthName what : String) : StateM Reader Bytes := do
  let n ← u16 lengthName
  take n.toNat what

def parse {α : Type} (x : StateM Reader α) (payload : Bytes) : Except AfpErr α :=
  match x.run { b := payload } with
  | (v, { err := none, .. }) => .ok v
  | (_, { err := some e, .. }) => .error e

/-- Reading `v` off a payload, whatever stands before and after it. -/
def Reads {α : Type} (x : StateM Reader α) (enc : Bytes) (v : α) : Prop :=
  ∀ pre post, x.run { b := pre ++ (enc ++ post), pos := pre.length } =
    (v, { b := pre ++ (enc ++ post), pos := pre.length + enc.length })

variable {α β : Type}

theorem Reads.run_at {x : StateM Reader α} {enc : Bytes} {v : α} (h : Reads x enc v) {b : Bytes}
    {pos : Nat} (pre post : Bytes) (hb : b = pre ++ (enc ++ post)) (hp : pos = pre.length) :
    x.run ⟨b, pos, none⟩ = (v, ⟨b, pos + enc.length, none⟩) := by
  subst hb hp
  exact h pre post

theorem run_bind_eq {x : StateM Reader α} {f : α → StateM Reader β} {r r' : Reader} {v : α}
    (h : x.run r = (v, r')) : (x >>= f).run r = (f v).run r' := by
  rw [StateT.run_bind, h]
  rfl

theorem Reads.bind {x : StateM Reader α} {f : α → StateM Reader β} {e e' : Bytes} {v : α} {w : β}
    (hx : Reads x e v) (hf : Reads (f v) e' w) : Reads (x >>= f) (e ++ e') w := by
  intro pre post
  have h := hf (pre ++ e) post
  simp only [List.append_assoc, List.length_append] at h
  rw [List.append_assoc, run_bind_eq (hx pre (e' ++ post)), List.length_append, ← Nat.add_assoc]
  exact h

theorem Reads.pure (v : α) : Reads (Pure.pure v) [] v := by
  intro pre post
  rfl

theorem take_run (n : Nat) (what : String) (r : Reader) :
    (take n what).run r =
      if r.err.isSome then ([], r)
      else if r.pos + n > r.b.length then ([],
        { r with err := some (.truncated what r.pos r.b.length) })
      else ((r.b.drop r.pos).take n, { r with pos := r.pos + n }) := by
  obtain ⟨b, pos, err⟩ := r
  cases err with
  | some e => rfl
  | none =>
    by_cases hp : pos + n > b.length
    · simp only [take, StateT.run_bind, StateT.run_get, pure_bind, Option.isSome_none,
        Bool.false_eq_true, if_false, hp, if_true]
      rfl
    · simp only [take, StateT.run_bind, StateT.run_get, pure_bind, Option.isSome_none,
        Bool.false_eq_true, if_false, hp]
      rfl

theorem take_sticky (n : Nat) (what : String) {r : Reader} (h : r.err ≠ none) :
    (take n what).run r = ([], r) := by
  rw [take_run, if_pos (Option.isSome_iff_ne_none.mpr h)]

theorem take_fits {b : Bytes} {pos n : Nat} (what : String) (h : pos + n ≤ b.length) :
    (take n what).run ⟨b, pos, none⟩ = ((b.drop pos).take n, ⟨b, pos + n, none⟩) := by
  rw [take_run, if_neg (by simp), if_neg (Nat.not_lt_of_le h)]

theorem take_short {b : Bytes} {pos n : Nat} (what : String) (h : b.length < pos + n) :
    (take n what).run ⟨b, pos, none⟩ = ([], ⟨b, pos, some (.truncated what pos b.length)⟩) := by
  rw [take_run, if_neg (by simp), if_pos h]

theorem take_failed (n : Nat) (what : String) {r : Reader} (h : r.err ≠ none) :
    ((take n what).run r).2.err ≠ none := by
  rw [take_sticky n what h]
  exact h

/-- A reader fails only for running out of bytes. -/
def Truncates (r : Reader) : Prop :=
  ∀ e, r.err = some e → ∃ what pos len, e = .truncated what pos len

theorem Truncates.take {r : Reader} (h : r.Truncates) (n : Nat) (what : String) :
    ((take n what).run r).2.Truncates := by
  rw [take_run]
  split_ifs
  · exact h
  · intro e he
    exact ⟨_, _, _, (Option.some.inj he).symm⟩
  · exact h

theorem Truncates.u16 {r : Reader} (h : r.Truncates) (what : String) :
    ((u16 what).run r).2.Truncates :=
  h.take 2 what

theorem Truncates.sized {r : Reader} (h : r.Truncates) (lengthName what : String) :
    ((sized lengthName what).run r).2.Truncates :=
  (h.u16 lengthName).take _ what

theorem take_length_le (n : Nat) (what : String) (r : Reader) :
    ((take n what).run r).1.length ≤ n := by
  rw [take_run]
  split_ifs
  · exact Nat.zero_le n
  · exact Nat.zero_le n
  · exact List.length_take_le _ _

theorem take_length {n : Nat} {what : String} {r r' : Reader} {v : Bytes}
    (h : (take n what).run r = (v, r')) (he : r'.err = none) : v.length = n := by
  rw [take_run] at h
  split_ifs at h with hs hp
  · cases h
    simp [he] at hs
  · cases h
    simp at he
  · cases h
    rw [List.length_take, List.length_drop]
    omega

theorem sized_length_lt {lengthName what : String} {r r' : Reader} {v : Bytes}
    (h : (sized lengthName what).run r = (v, r')) : v.length < 65536 := by
  rcases hn : (u16 lengthName).run r with ⟨n, r₁⟩
  rw [sized, run_bind_eq hn] at h
  have hle := take_length_le n.toNat what r₁
  rw [h] at hle
  exact hle.trans_lt n.toNat_lt

theorem parse_ok {x : StateM Reader α} {payload : Bytes} {v : α} (h : parse x payload = .ok v) :
    ∃ r, x.run { b := payload } = (v, r) ∧ r.err = none := by
  rcases hx : x.run { b := payload } with ⟨w, b, pos, err⟩
  cases err with
  | some e => simp [parse, hx] at h
  | none =>
    simp only [parse, hx, Except.ok.injEq] at h
    subst h
    exact ⟨_, rfl, rfl⟩

theorem reads_take {v : Bytes} {n : Nat} (what : String) (h : v.length = n) :
    Reads (take n what) v v := by
  intro pre post
  subst h
  simp [take_run]

theorem Reads.parse_eq {x : StateM Reader α} {enc : Bytes} {v : α} (h : Reads x enc v)
    (post : Bytes) :
    parse x (enc ++ post) = .ok v := by
  have hr := h [] post
  simp only [List.nil_append, List.length_nil, Nat.zero_add] at hr
  simp [parse, hr]

/-- A field of fixed width, decoded from its bytes. -/
theorem reads_field {enc : Bytes} {n : Nat} (what : String) (decode : Bytes → α)
    (h : enc.length = n) :
    Reads (take n what >>= fun b => Pure.pure (decode b)) enc (decode enc) := by
  have hb := (reads_take what h).bind (f := fun b => Pure.pure (decode b)) (Reads.pure _)
  rwa [List.append_nil] at hb

theorem reads_u8 (v : UInt8) (what : String) : Reads (u8 what) [v] v := by
  have h := reads_field what (fun b => UInt8.ofNat (natOfBytes b)) (List.length_singleton (a := v))
  have hv : UInt8.ofNat (natOfBytes [v]) = v := by simp [natOfBytes]
  rwa [hv] at h

theorem reads_u16 (v : UInt16) (what : String) : Reads (u16 what) (putU16 v) v := by
  have h := reads_field what (fun b => UInt16.ofNat (natOfBytes b)) (putU16_length v)
  rwa [natOfBytes_putU16] at h

theorem reads_u32 (v : UInt32) (what : String) : Reads (u32 what) (putU32 v) v := by
  have h := reads_field what (fun b => UInt32.ofNat (natOfBytes b)) (putU32_length v)
  rwa [natOfBytes_putU32] at h

theorem reads_u64 (v : UInt64) (what : String) : Reads (u64 what) (putU64 v) v := by
  have h := reads_field what (fun b => UInt64.ofNat (natOfBytes b)) (putU64_length v)
  rwa [natOfBytes_putU64] at h

/-- Once it has failed, a reader stays so. -/
def Sticky (x : StateM Reader α) : Prop :=
  ∀ r : Reader, r.err ≠ none → (x.run r).2.err ≠ none

/-- Reading fails on every proper prefix of `enc` at the end of a payload. -/
def Cuts (x : StateM Reader α) (enc : Bytes) : Prop :=
  ∀ pre n, n < enc.length → (x.run ⟨pre ++ enc.take n, pre.length, none⟩).2.err ≠ none

theorem Sticky.pure (v : α) : Sticky (Pure.pure v) :=
  fun _ h => h

theorem Sticky.bind {x : StateM Reader α} {f : α → StateM Reader β} (hx : Sticky x)
    (hf : ∀ a, Sticky (f a)) :
    Sticky (x >>= f) := by
  intro r hr
  rcases hrun : x.run r with ⟨a, r'⟩
  rw [run_bind_eq hrun]
  apply hf
  have h := hx r hr
  rwa [hrun] at h

theorem sticky_take (n : Nat) (what : String) : Sticky (take n what) :=
  fun _ h => take_failed n what h

theorem cuts_take {v : Bytes} {n : Nat} (what : String) (h : v.length = n) :
    Cuts (take n what) v := by
  intro pre k hk
  have hshort : (pre ++ v.take k).length < pre.length + n := by
    rw [List.length_append, List.length_take]
    omega
  rw [take_short what hshort]
  exact Option.some_ne_none _

theorem cuts_pure (v : α) : Cuts (Pure.pure v) [] := by
  intro pre n hn
  exact absurd hn (Nat.not_lt_zero n)

theorem Cuts.bind {x : StateM Reader α} {f : α → StateM Reader β} {e e' : Bytes} {v : α}
    (hx : Cuts x e) (hr : Reads x e v) (hs : ∀ a, Sticky (f a)) (hf : Cuts (f v) e') :
    Cuts (x >>= f) (e ++ e') := by
  intro pre n hn
  by_cases hcut : n < e.length
  · rw [List.take_append_of_le_length hcut.le]
    have hfail := hx pre n hcut
    rcases hrun : x.run ⟨pre ++ e.take n, pre.length, none⟩ with ⟨a, r⟩
    rw [hrun] at hfail
    rw [run_bind_eq hrun]
    exact hs a r hfail
  · obtain ⟨k, rfl⟩ := Nat.exists_eq_add_of_le (Nat.le_of_not_lt hcut)
    rw [List.length_append] at hn
    have hnext := hf (pre ++ e) k (by omega)
    rw [List.append_assoc, List.length_append] at hnext
    rw [List.take_length_add_append, run_bind_eq (hr pre (e'.take k))]
    exact hnext

theorem sticky_u8 (what : String) : Sticky (u8 what) :=
  (sticky_take 1 what).bind fun _ => Sticky.pure _

theorem cuts_u8 (v : UInt8) (what : String) : Cuts (u8 what) [v] := by
  have htake : [v].length = 1 := rfl
  have h :=
    (cuts_take what htake).bind (f := fun b => Pure.pure (UInt8.ofNat (natOfBytes b)))
      (reads_take what htake)
    (fun _ => Sticky.pure _) (cuts_pure _)
  rwa [List.append_nil] at h

theorem reads_sized {v : Bytes} (lengthName what : String) (h : v.length < 65536) :
    Reads (sized lengthName what) (putU16 (UInt16.ofNat v.length) ++ v) v := by
  refine (reads_u16 _ lengthName).bind (reads_take what ?_)
  rw [UInt16.toNat_ofNat', Nat.mod_eq_of_lt h]

end Reader

/-- Reads a 1-byte-length-prefixed string at an absolute offset. -/
def pascalAt (b : Bytes) (off : Nat) : Except AfpErr Bytes :=
  if off ≥ b.length then .error
    (.text "afp: string offset %d outside %d-byte block" [off, b.length]) else
  let n := (b.getD off 0).toNat
  if off + 1 + n > b.length then .error (.text "afp: string at %d overruns block" [off]) else
  .ok ((b.drop (off + 1)).take n)

/-- Reads a 2-byte-length-prefixed string at an absolute offset. -/
def pascal2At (b : Bytes) (off : Nat) : Except AfpErr Bytes :=
  if off + 2 > b.length then .error
    (.text "afp: string offset %d outside %d-byte block" [off, b.length]) else
  let n := natOfBytes ((b.drop off).take 2)
  if off + 2 + n > b.length then .error (.text "afp: string at %d overruns block" [off]) else
  .ok ((b.drop (off + 2)).take n)

theorem pascalAt_eq_ok_iff {b s : Bytes} {off : Nat} :
    pascalAt b off = .ok s ↔ s.length ≤ 255 ∧ (UInt8.ofNat s.length :: s) <+: b.drop off := by
  constructor
  · intro h
    simp only [pascalAt] at h
    split_ifs at h with hoff hend
    cases h
    have hlt : off < b.length := Nat.lt_of_not_le hoff
    have hcons := List.drop_eq_getElem_cons hlt
    have hbyte : b.getD off 0 = b[off] := List.getD_eq_getElem b 0 hlt
    have hlen : ((b.drop (off + 1)).take (b.getD off 0).toNat).length = (b.getD off 0).toNat := by
      rw [List.length_take, List.length_drop]
      omega
    rw [hlen]
    have := (b.getD off 0).toNat_lt
    refine ⟨by omega, ?_⟩
    rw [UInt8.ofNat_toNat, hcons, hbyte]
    exact (List.prefix_cons_inj _).mpr (List.take_prefix _ _)
  · rintro ⟨hlen, t, ht⟩
    have hlt : off < b.length := by
      by_contra hge
      rw [List.drop_of_length_le (Nat.le_of_not_lt hge)] at ht
      cases ht
    rw [List.drop_eq_getElem_cons hlt, List.cons_append] at ht
    obtain ⟨hbyte, hrest⟩ := List.cons.inj ht
    have hn : (b.getD off 0).toNat = s.length := by
      rw [List.getD_eq_getElem b 0 hlt, ← hbyte, UInt8.toNat_ofNat']
      omega
    have hsize := congrArg List.length hrest
    rw [List.length_append, List.length_drop] at hsize
    rw [pascalAt, if_neg (by omega), hn, if_neg (by omega), ← hrest, List.take_left]

theorem pascal2At_eq_ok_iff {b s : Bytes} {off : Nat} :
    pascal2At b off = .ok s ↔
      s.length < 65536 ∧ putU16 (UInt16.ofNat s.length) ++ s <+: b.drop off := by
  constructor
  · intro h
    simp only [pascal2At] at h
    split_ifs at h with hoff hend
    cases h
    have htwo : ((b.drop off).take 2).length = 2 := by
      rw [List.length_take, List.length_drop]
      omega
    have hlen : ((b.drop (off + 2)).take (natOfBytes ((b.drop off).take 2))).length =
        natOfBytes ((b.drop off).take 2) := by
      rw [List.length_take, List.length_drop]
      omega
    have hlt := natOfBytes_lt ((b.drop off).take 2)
    rw [htwo] at hlt
    rw [hlen]
    have hpre := (List.prefix_append_right_inj ((b.drop off).take 2)).mpr
      (List.take_prefix (natOfBytes ((b.drop off).take 2)) ((b.drop off).drop 2))
    rw [List.take_append_drop, List.drop_drop] at hpre
    rw [putU16_natOfBytes htwo]
    exact ⟨hlt, hpre⟩
  · rintro ⟨hlen, t, ht⟩
    have hsize := congrArg List.length ht
    rw [List.length_append, List.length_append, putU16_length, List.length_drop] at hsize
    have htwo : (b.drop off).take 2 = putU16 (UInt16.ofNat s.length) := by
      rw [← ht, List.append_assoc, List.take_left' (putU16_length _)]
    have hn : natOfBytes ((b.drop off).take 2) = s.length := by
      rw [htwo, putU16, natOfBytes_fillBytes (UInt16.toNat_lt _), UInt16.toNat_ofNat',
        Nat.mod_eq_of_lt hlen]
    have hrest : b.drop (off + 2) = s ++ t := by
      rw [← List.drop_drop, ← ht, List.append_assoc, List.drop_left' (putU16_length _)]
    rw [pascal2At, if_neg (by omega), hn, if_neg (by omega), hrest, List.take_left]

theorem prefix_drop_append {b s : Bytes} {off : Nat} (h : s <+: b.drop off) (pad : Bytes) :
    s <+: (b ++ pad).drop off := by
  rw [List.drop_append]
  exact h.trans (List.prefix_append _ _)

theorem pascalAt_append {b s : Bytes} {off : Nat} (h : pascalAt b off = .ok s) (pad : Bytes) :
    pascalAt (b ++ pad) off = .ok s := by
  obtain ⟨hlen, hpre⟩ := pascalAt_eq_ok_iff.mp h
  exact pascalAt_eq_ok_iff.mpr ⟨hlen, prefix_drop_append hpre pad⟩

theorem pascal2At_append {b s : Bytes} {off : Nat} (h : pascal2At b off = .ok s) (pad : Bytes) :
    pascal2At (b ++ pad) off = .ok s := by
  obtain ⟨hlen, hpre⟩ := pascal2At_eq_ok_iff.mp h
  exact pascal2At_eq_ok_iff.mpr ⟨hlen, prefix_drop_append hpre pad⟩

end GoAfp
