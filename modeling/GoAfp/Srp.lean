import GoAfp.Session

/-! The client side of the SRP login. The long function of the source is cut
at its two requests: the parameters read from the first reply, the key and
proof computed from them, and the check of the final reply. -/

namespace GoAfp

def uamSRP : Bytes := ascii "SRP"
def srpClientProof : UInt16 := 3
def srpServerProof : UInt16 := 4
def srpHashLen : Nat := 20

structure SrpParams where
  context16 : UInt16
  nBytes : Bytes
  gBytes : Bytes
  salt : Bytes
  bBytes : Bytes
  deriving DecidableEq, Repr

structure SrpProof where
  A : Nat
  S : Nat
  K : Bytes
  m1 : Bytes
  deriving DecidableEq, Repr

def readSrpParams : StateM Reader SrpParams := do
  let context16 ← Reader.u16 "srp context"
  let _ ← Reader.u16 "srp group index"
  let nBytes ← Reader.sized "N length" "N"
  let gBytes ← Reader.sized "g length" "g"
  let salt ← Reader.sized "salt length" "salt"
  let bBytes ← Reader.sized "B length" "B"
  return ⟨context16, nBytes, gBytes, salt, bBytes⟩

def readSrpM2 : StateM Reader Bytes :=
  Reader.sized "M2 length" "M2"

namespace Crypto

def mgf1Loop (c : Crypto) (seed : Bytes) (outLen : Nat) : Nat → UInt32 → Bytes → Bytes
  | 0, _, out => out
  | fuel + 1, counter, out =>
    if out.length < outLen then
      mgf1Loop c seed outLen fuel (counter + 1) (out ++ c.sha1Sum [seed, putU32 counter])
    else out

def mgf1SHA1 (c : Crypto) (seed : Bytes) (outLen : Nat) : Bytes :=
  (c.mgf1Loop seed outLen outLen 0 []).take outLen

def srpX (c : Crypto) (salt username password : Bytes) : Nat :=
  natOfBytes (c.sha1Sum [salt, c.sha1Sum [username, ascii ":", password]])

def srpM1 (c : Crypto) (N g : Nat) (username salt : Bytes) (A B : Nat) (K : Bytes) : Bytes :=
  c.sha1Sum [List.zipWith (· ^^^ ·) (c.sha1Sum [natBytes N]) (c.sha1Sum [natBytes g]),
    c.sha1Sum [username], salt, natBytes A, natBytes B, K]

def srpM2 (c : Crypto) (A : Nat) (m1 K : Bytes) : Bytes :=
  c.sha1Sum [natBytes A, m1, K]

def srpProof (c : Crypto) (p : SrpParams) (username password : Bytes) : Except AfpErr SrpProof := do
  let N := natOfBytes p.nBytes
  let g := natOfBytes p.gBytes
  let B := natOfBytes p.bBytes
  let width := p.nBytes.length
  if N = 0 ∨ B = 0 then
    throw (.text "afp: SRP: degenerate parameters from server" [])
  let a := natOfBytes (c.rand 0 width).toList % N
  let A := g ^ a % N
  let x := c.srpX p.salt username password
  let k := natOfBytes (c.sha1Sum [p.nBytes, ← leftPad g width])
  let u := natOfBytes (c.sha1Sum [← leftPad A width, ← leftPad B width])
  if u = 0 then
    throw (.text "afp: SRP: u == 0" [])
  let gx := g ^ x % N
  let base := ((B : Int) - (k * gx : Nat)) % (N : Int)
  let S := base.toNat ^ (a + u * x) % N
  let K := c.mgf1SHA1 (natBytes S) 40
  return ⟨A, S, K, c.srpM1 N g username p.salt A B K⟩

def srpVerify (c : Crypto) (q : SrpProof) (payload : Bytes) : Except AfpErr Unit := do
  let (step, r) := (Reader.u16 "srp step").run { b := payload }
  if step ≠ srpServerProof then
    throw (.text "afp: SRP: unexpected final step marker %#04x" [step.toNat])
  let (m2, r) := readSrpM2.run r
  match r.err with
  | some e => throw e
  | none =>
    if m2 ≠ c.srpM2 q.A q.m1 q.K then
      throw (.text "afp: SRP: server proof (M2) mismatch" [])

end Crypto

theorem readSrpParams_width {payload : Bytes} {p : SrpParams}
    (h : Reader.parse readSrpParams payload = .ok p) :
    p.nBytes.length < 65536 := by
  obtain ⟨r, hrun, -⟩ := Reader.parse_ok h
  rcases h₁ : (Reader.u16 "srp context").run { b := payload } with ⟨context16, r₁⟩
  rcases h₂ : (Reader.u16 "srp group index").run r₁ with ⟨group, r₂⟩
  rcases h₃ : (Reader.sized "N length" "N").run r₂ with ⟨nBytes, r₃⟩
  rw [readSrpParams, Reader.run_bind_eq h₁, Reader.run_bind_eq h₂, Reader.run_bind_eq h₃] at hrun
  cases hrun
  exact Reader.sized_length_lt h₃

namespace SrpParams

variable (p : SrpParams) (c : Crypto)

def N : Nat := natOfBytes p.nBytes

def g : Nat := natOfBytes p.gBytes

def B : Nat := natOfBytes p.bBytes

def width : Nat := p.nBytes.length

/-- What the multiplier `k` is the hash of. -/
def multiplied : Bytes := p.nBytes ++ fillBytes p.width p.g

def k : Nat := natOfBytes (c.sha1 p.multiplied).toList

def secret : Nat := natOfBytes (c.rand 0 p.width).toList % p.N

def publicValue : Nat := p.g ^ p.secret c % p.N

def u : Nat :=
  natOfBytes (c.sha1 (fillBytes p.width (p.publicValue c) ++ fillBytes p.width p.B)).toList

/-- The difference may be negative, and `Mod` of `big.Int` is Euclidean. -/
def base (k x : Nat) : Nat := (((p.B : Int) - (k * (p.g ^ x % p.N) : Nat)) % (p.N : Int)).toNat

def S (x : Nat) : Nat := p.base (p.k c) x ^ (p.secret c + p.u c * x) % p.N

def proof (username password : Bytes) : SrpProof :=
  let S := p.S c (c.srpX p.salt username password)
  let K := c.mgf1SHA1 (natBytes S) 40
  ⟨p.publicValue c, S, K, c.srpM1 p.N p.g username p.salt (p.publicValue c) p.B K⟩

/-- The parameters that `loginSRP` goes on with. -/
structure Accepted : Prop where
  N_ne : p.N ≠ 0
  B_ne : p.B ≠ 0
  g_lt : p.g < 256 ^ p.width
  B_lt : p.B < 256 ^ p.width

variable {p}

theorem Accepted.mod_lt (h : p.Accepted) (n : Nat) : n % p.N < 256 ^ p.width :=
  (Nat.mod_lt n (Nat.pos_of_ne_zero h.N_ne)).trans (natOfBytes_lt p.nBytes)

theorem srpProof_of_accepted (h : p.Accepted) (username password : Bytes) :
    c.srpProof p username password =
      if p.u c = 0 then .error (.text "afp: SRP: u == 0" [])
        else .ok (p.proof c username password) := by
  have hg : leftPad p.g p.width = .ok (fillBytes p.width p.g) := if_pos h.g_lt
  have hA : leftPad (p.publicValue c) p.width = .ok (fillBytes p.width (p.publicValue c)) :=
    if_pos (h.mod_lt _)
  have hB : leftPad p.B p.width = .ok (fillBytes p.width p.B) := if_pos h.B_lt
  have hne : ¬ (p.N = 0 ∨ p.B = 0) := not_or.mpr ⟨h.N_ne, h.B_ne⟩
  have hk : natOfBytes (c.sha1Sum [p.nBytes, fillBytes p.width p.g]) = p.k c := by
    simp [Crypto.sha1Sum, k, multiplied]
  have hu : natOfBytes (c.sha1Sum [fillBytes p.width (p.publicValue c), fillBytes p.width p.B]) =
      p.u c := by
    simp [Crypto.sha1Sum, u]
  unfold Crypto.srpProof
  change (if p.N = 0 ∨ p.B = 0 then _ else _) = _
  rw [if_neg hne]
  change (leftPad p.g p.width >>= _) = _
  rw [hg]
  change (leftPad (p.publicValue c) p.width >>= _) = _
  rw [hA]
  change (leftPad p.B p.width >>= _) = _
  rw [hB]
  change (if natOfBytes (c.sha1Sum [fillBytes p.width (p.publicValue c), fillBytes p.width p.B]) =
    0 then _ else _) = _
  rw [hu]
  split_ifs
  · rfl
  · change Except.ok _ = _
    rw [hk]
    rfl

theorem srpProof_refused (h : ¬ p.Accepted) (username password : Bytes) :
    ∃ e, c.srpProof p username password = .error e ∧ e ≠ .text "afp: SRP: u == 0" [] := by
  unfold Crypto.srpProof
  by_cases hne : p.N = 0 ∨ p.B = 0
  · refine ⟨.text "afp: SRP: degenerate parameters from server" [], ?_, by simp⟩
    change (if p.N = 0 ∨ p.B = 0 then _ else _) = _
    rw [if_pos hne]
    rfl
  · have hpanic {v : Nat} (hv : ¬ v < 256 ^ p.width) :
        leftPad v p.width = .error (.panic "math/big: buffer too small to fit value") := if_neg hv
    refine ⟨.panic "math/big: buffer too small to fit value", ?_, by simp⟩
    change (if p.N = 0 ∨ p.B = 0 then _ else _) = _
    rw [if_neg hne]
    change (leftPad p.g p.width >>= _) = _
    by_cases hg : p.g < 256 ^ p.width
    · have hA : leftPad (p.publicValue c) p.width = .ok (fillBytes p.width (p.publicValue c)) :=
        if_pos
          ((Nat.mod_lt _ (Nat.pos_of_ne_zero (not_or.mp hne).1)).trans (natOfBytes_lt p.nBytes))
      have hB : ¬ p.B < 256 ^ p.width := fun hB => h ⟨(not_or.mp hne).1, (not_or.mp hne).2, hg, hB⟩
      rw [leftPad, if_pos hg]
      change (leftPad (p.publicValue c) p.width >>= _) = _
      rw [hA]
      change (leftPad p.B p.width >>= _) = _
      rw [hpanic hB]
      rfl
    · rw [hpanic hg]
      rfl

end SrpParams

def SrpProof.block (q : SrpProof) : Bytes :=
  putU16 srpClientProof ++ (putU16 (UInt16.ofNat (natBytes q.A).length) ++ natBytes q.A) ++
    (putU16 (UInt16.ofNat srpHashLen) ++ q.m1)

def Session.loginSRP (s : Session) (c : Crypto) (peer : Peer) (username password : Bytes) :
    Exchange Unit := do
  let (payload, code) ← s.login peer uamSRP (putPascal username)
  if code ≠ resAuthContinue then
    resultErr "SRP login" code
  else
    let p ← Reader.parse readSrpParams payload
    let q ← c.srpProof p username password
    let (payload, code) ← Session.loginCont peer p.context16 q.block
    resultErr "SRP login" code
    c.srpVerify q payload

end GoAfp
