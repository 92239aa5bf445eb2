import Mathlib.Data.Nat.Size
import Mathlib.Tactic.Positivity
import Mathlib.Tactic.Ring

/-! Big-endian byte strings as numbers: the value of a byte string, the
fixed-width encoding and the encoding without leading zeros. -/

namespace GoAfp

abbrev Bytes := List UInt8

def natOfBytes : Bytes → Nat
  | [] => 0
  | x :: b => x.toNat * 256 ^ b.length + natOfBytes b

def fillBytes : Nat → Nat → Bytes
  | 0, _ => []
  | n + 1, v => UInt8.ofNat (v / 256 ^ n) :: fillBytes n v

def byteLen (v : Nat) : Nat :=
  (v.size + 7) / 8

def natBytes (v : Nat) : Bytes :=
  fillBytes (byteLen v) v

theorem natOfBytes_lt (b : Bytes) : natOfBytes b < 256 ^ b.length := by
  induction b with
  | nil => simp [natOfBytes]
  | cons x b ih =>
    have hx : x.toNat + 1 ≤ 256 := x.toNat_lt
    calc natOfBytes (x :: b) < x.toNat * 256 ^ b.length + 256 ^ b.length := Nat.add_lt_add_left ih _
      _ = (x.toNat + 1) * 256 ^ b.length := by ring
      _ ≤ 256 * 256 ^ b.length := Nat.mul_le_mul_right _ hx
      _ = 256 ^ (x :: b).length := by rw [List.length_cons, pow_succ']

@[simp] theorem fillBytes_length (n v : Nat) : (fillBytes n v).length = n := by
  induction n with
  | zero => rfl
  | succ n ih => rw [fillBytes, List.length_cons, ih]

theorem natOfBytes_fillBytes_mod (n v : Nat) : natOfBytes (fillBytes n v) = v % 256 ^ n := by
  induction n with
  | zero => simp [fillBytes, natOfBytes, Nat.mod_one]
  | succ n ih =>
    have hx : (UInt8.ofNat (v / 256 ^ n)).toNat = v / 256 ^ n % 256 := by simp
    rw [fillBytes, natOfBytes, fillBytes_length, ih, hx, pow_succ, Nat.mod_mul]
    ring

theorem natOfBytes_fillBytes {n v : Nat} (h : v < 256 ^ n) : natOfBytes (fillBytes n v) = v :=
  (natOfBytes_fillBytes_mod n v).trans (Nat.mod_eq_of_lt h)

theorem fillBytes_add_mul (n v c : Nat) : fillBytes n (c * 256 ^ n + v) = fillBytes n v := by
  induction n generalizing c with
  | zero => rfl
  | succ n ih =>
    have hdiv : (c * 256 ^ (n + 1) + v) / 256 ^ n = v / 256 ^ n + 256 * c := by
      rw [pow_succ, Nat.mul_comm _ 256, ← Nat.mul_assoc, Nat.add_comm,
        Nat.add_mul_div_right _ _ (by positivity)]
      ring
    have hmul : c * 256 ^ (n + 1) = c * 256 * 256 ^ n := by ring
    have hx : UInt8.ofNat (v / 256 ^ n + 256 * c) = UInt8.ofNat (v / 256 ^ n) := by
      apply UInt8.toNat_inj.mp
      simp
    rw [fillBytes, hdiv, hx, hmul, ih, fillBytes]

theorem fillBytes_natOfBytes (b : Bytes) : fillBytes b.length (natOfBytes b) = b := by
  induction b with
  | nil => rfl
  | cons x b ih =>
    have hdiv : natOfBytes (x :: b) / 256 ^ b.length = x.toNat := by
      rw [natOfBytes, Nat.add_comm, Nat.add_mul_div_right _ _ (by positivity),
        Nat.div_eq_of_lt (natOfBytes_lt b), Nat.zero_add]
    rw [List.length_cons, fillBytes, hdiv, UInt8.ofNat_toNat, natOfBytes, fillBytes_add_mul, ih]

theorem fillBytes_mod (n v : Nat) : fillBytes n (v % 256 ^ n) = fillBytes n v := by
  have h := fillBytes_add_mul n (v % 256 ^ n) (v / 256 ^ n)
  rw [Nat.div_add_mod'] at h
  exact h.symm

theorem drop_fillBytes (k n v : Nat) : (fillBytes (k + n) v).drop k = fillBytes n v := by
  induction k with
  | zero => rw [Nat.zero_add, List.drop_zero]
  | succ k ih => rw [Nat.succ_add, fillBytes, List.drop_succ_cons, ih]

theorem replicate_fillBytes (k : Nat) {n v : Nat} (h : v < 256 ^ n) :
    List.replicate k 0 ++ fillBytes n v = fillBytes (k + n) v := by
  induction k with
  | zero => rw [Nat.zero_add, List.replicate_zero, List.nil_append]
  | succ k ih =>
    have hle : 256 ^ n ≤ 256 ^ (k + n) := Nat.pow_le_pow_right (by decide) (by omega)
    have hdiv : v / 256 ^ (k + n) = 0 := Nat.div_eq_of_lt (h.trans_le hle)
    rw [Nat.succ_add, fillBytes, hdiv, List.replicate_succ, List.cons_append, ih]
    rfl

theorem byteLen_le {v n : Nat} : byteLen v ≤ n ↔ v < 256 ^ n := by
  have hpow : (256 : Nat) ^ n = 2 ^ (8 * n) := by simp [pow_mul]
  rw [hpow, ← Nat.size_le, byteLen]
  omega

@[simp] theorem natBytes_length (v : Nat) : (natBytes v).length = byteLen v :=
  fillBytes_length _ _

theorem natOfBytes_natBytes (v : Nat) : natOfBytes (natBytes v) = v :=
  natOfBytes_fillBytes (byteLen_le.mp le_rfl)

end GoAfp
