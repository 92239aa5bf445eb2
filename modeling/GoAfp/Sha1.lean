import GoAfp.BigEndian

/-! The hash function SHA-1, over lists of bytes. -/

namespace GoAfp

namespace Sha1

def rotl (x : UInt32) (n : UInt32) : UInt32 := (x <<< n) ||| (x >>> (32 - n))

def words : Nat → Bytes → List UInt32
  | 0, _ => []
  | n + 1, b => UInt32.ofNat (natOfBytes (b.take 4)) :: words n (b.drop 4)

/-- Extends a message schedule, last word first, by `n` words. -/
def expand : Nat → List UInt32 → List UInt32
  | 0, ws => ws
  | n + 1, ws =>
    expand n (rotl (ws.getD 2 0 ^^^ ws.getD 7 0 ^^^ ws.getD 13 0 ^^^ ws.getD 15 0) 1 :: ws)

structure Chain where
  a : UInt32
  b : UInt32
  c : UInt32
  d : UInt32
  e : UInt32
  deriving DecidableEq

def start : Chain := ⟨0x67452301, 0xefcdab89, 0x98badcfe, 0x10325476, 0xc3d2e1f0⟩

/-- The function and the constant of round `t`. -/
def mix (t : Nat) (h : Chain) : UInt32 :=
  if t < 20 then ((h.b &&& h.c) ||| (~~~ h.b &&& h.d)) + 0x5a827999
  else if t < 40 then (h.b ^^^ h.c ^^^ h.d) + 0x6ed9eba1
  else if t < 60 then ((h.b &&& h.c) ||| (h.b &&& h.d) ||| (h.c &&& h.d)) + 0x8f1bbcdc
  else (h.b ^^^ h.c ^^^ h.d) + 0xca62c1d6

def rounds : Nat → List UInt32 → Chain → Chain
  | _, [], h => h
  | t, w :: ws, h => rounds (t + 1) ws ⟨rotl h.a 5 + mix t h + h.e + w, h.a, rotl h.b 30, h.c, h.d⟩

def block (h : Chain) (b : Bytes) : Chain :=
  let r := rounds 0 (expand 64 (words 16 b).reverse).reverse h
  ⟨h.a + r.a, h.b + r.b, h.c + r.c, h.d + r.d, h.e + r.e⟩

def blocks : Nat → Bytes → Chain → Chain
  | 0, _, h => h
  | n + 1, b, h => blocks n (b.drop 64) (block h (b.take 64))

def padded (b : Bytes) : Bytes :=
  b ++ 0x80 :: (List.replicate ((119 - b.length % 64) % 64) 0 ++ fillBytes 8 (8 * b.length))

def Chain.bytes (h : Chain) : Bytes :=
  [h.a, h.b, h.c, h.d, h.e].flatMap fun w => fillBytes 4 w.toNat

theorem Chain.bytes_length (h : Chain) : h.bytes.toArray.size = 20 := by
  simp [Chain.bytes, fillBytes_length]

def sum (b : Bytes) : Vector UInt8 20 :=
  let h := blocks ((padded b).length / 64) (padded b) start
  ⟨h.bytes.toArray, h.bytes_length⟩

-- the digest of "abc"
example : (sum [0x61, 0x62, 0x63]).toList =
  fillBytes 20 0xa9993e364706816aba3e25717850c26c9cd0d89d := by
  decide +kernel

end Sha1
end GoAfp
