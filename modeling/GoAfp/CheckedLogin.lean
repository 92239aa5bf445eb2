import GoAfp.CheckedReader
import GoAfp.Dhx2Server
import GoAfp.Fork

/-! The logins with every index, slice, padding, division and cipher input
checked. They do what the logins without the checks do; whether one of the
checks can fail is settled for both. -/

namespace GoAfp

namespace Checked

def putPascal (s : Bytes) : Except (Fault AfpErr) Bytes := do
  let s ← if s.length > 255 then Fault.slice s 0 255 else pure s
  return UInt8.ofNat s.length :: s

def leftPad (v n : Nat) : Except (Fault AfpErr) Bytes :=
  if v < 256 ^ n then .ok (fillBytes n v)
    else .error (.panic "math/big: buffer too small to fit value")

/-- `Mod` of `big.Int`. -/
def mod (x : Int) (y : Nat) : Except (Fault AfpErr) Nat :=
  if y = 0 then .error (.panic "division by zero") else .ok (x % (y : Int)).toNat

/-- `copy(p[start:], data)`. -/
def copyAt (p : Bytes) (start : Int) (data : Bytes) : Except (Fault AfpErr) Bytes :=
  if 0 ≤ start ∧ start ≤ p.length then .ok (GoAfp.copyAt p start.toNat data)
  else .error (.panic "slice bounds out of range")

def sized (lengthName what : String) : CheckedM AfpErr Bytes := do
  let n ← u16 lengthName
  taken n.toNat what

def command (peer : Peer) (payload : Bytes) : Proc (List Bytes) (Fault AfpErr) (Bytes × Result) :=
  Proc.adapt Fault.error (Session.command peer payload)

def login (s : Session) (peer : Peer) (uam authinfo : Bytes) :
    Proc (List Bytes) (Fault AfpErr) (Bytes × Result) := do
  let version ← putPascal s.version
  let uam ← putPascal uam
  command peer (cmdLogin :: version ++ uam ++ authinfo)

def loginCont (peer : Peer) (id : UInt16) (authinfo : Bytes) :
    Proc (List Bytes) (Fault AfpErr) (Bytes × Result) :=
  command peer (Session.loginContRequest id authinfo)

def resultErr (op : String) (code : Result) : Except (Fault AfpErr) Unit :=
  (GoAfp.resultErr op code).mapError Fault.error

section Srp

variable (c : Crypto)

def readSrpParams : CheckedM AfpErr SrpParams := do
  let context16 ← u16 "srp context"
  let _ ← u16 "srp group index"
  let nBytes ← sized "N length" "N"
  let gBytes ← sized "g length" "g"
  let salt ← sized "salt length" "salt"
  let bBytes ← sized "B length" "B"
  check id
  return ⟨context16, nBytes, gBytes, salt, bBytes⟩

def mgf1SHA1 (seed : Bytes) (outLen : Nat) : Except (Fault AfpErr) Bytes :=
  Fault.slice (c.mgf1Loop seed outLen outLen 0 []) 0 outLen

def xorHashes (hN hg : Bytes) : Except (Fault AfpErr) Bytes :=
  (List.range srpHashLen).mapM fun i => do
    return (← Fault.index hN i) ^^^ (← Fault.index hg i)

def srpM1 (N g : Nat) (username salt : Bytes) (A B : Nat) (K : Bytes) :
    Except (Fault AfpErr) Bytes := do
  let xorNg ← xorHashes (c.sha1Sum [natBytes N]) (c.sha1Sum [natBytes g])
  return c.sha1Sum [xorNg, c.sha1Sum [username], salt, natBytes A, natBytes B, K]

def srpProof (p : SrpParams) (username password : Bytes) : Except (Fault AfpErr) SrpProof := do
  let N := natOfBytes p.nBytes
  let g := natOfBytes p.gBytes
  let B := natOfBytes p.bBytes
  let width := p.nBytes.length
  if N = 0 ∨ B = 0 then
    throw (.error (.text "afp: SRP: degenerate parameters from server" []))
  let a ← mod (natOfBytes (c.rand 0 width).toList) N
  let A := g ^ a % N
  let x := c.srpX p.salt username password
  let k := natOfBytes (c.sha1Sum [p.nBytes, ← leftPad g width])
  let u := natOfBytes (c.sha1Sum [← leftPad A width, ← leftPad B width])
  if u = 0 then
    throw (.error (.text "afp: SRP: u == 0" []))
  let gx := g ^ x % N
  let base ← mod ((B : Int) - (k * gx : Nat)) N
  let S := base ^ (a + u * x) % N
  let K ← mgf1SHA1 c (natBytes S) 40
  return ⟨A, S, K, ← srpM1 c N g username p.salt A B K⟩

def srpVerify (q : SrpProof) (payload : Bytes) : Except (Fault AfpErr) Unit :=
  decode payload do
    let step ← u16 "srp step"
    if step ≠ srpServerProof then
      throw (.error (.text "afp: SRP: unexpected final step marker %#04x" [step.toNat]))
    let m2 ← sized "M2 length" "M2"
    check id
    if m2 ≠ c.srpM2 q.A q.m1 q.K then
      throw (.error (.text "afp: SRP: server proof (M2) mismatch" []))

def loginSRP (s : Session) (peer : Peer) (username password : Bytes) :
    Proc (List Bytes) (Fault AfpErr) Unit := do
  let user ← putPascal username
  let (payload, code) ← login s peer uamSRP user
  if code ≠ resAuthContinue then
    resultErr "SRP login" code
  else
    let p ← decode payload readSrpParams
    let q ← srpProof c p username password
    let (payload, code) ← loginCont peer p.context16 q.block
    resultErr "SRP login" code
    srpVerify c q payload

end Srp

section Dhx2

variable (c : Crypto)

def dhx2Params (payload : Bytes) : Except (Fault AfpErr) Dhx2Params :=
  decode payload do
    let id ← u16 "transaction id"
    let g ← taken 4 "g"
    let keyLen ← u16 "key length"
    let r ← get
    if r.err.isNone ∧ (keyLen.toNat = 0 ∨ keyLen.toNat > dhx2MaxKeyLen) then
      throw (.error (.text "afp: DHX2: unreasonable key length %d" [keyLen.toNat]))
    let p ← taken keyLen.toNat "p"
    let mb ← taken keyLen.toNat "Mb"
    check fun e => e
    if natOfBytes g = 0 ∨ (natOfBytes p).size < 64 then
      throw (.error (.text "afp: DHX2: degenerate DH parameters from server" []))
    return ⟨id, natOfBytes g, keyLen.toNat, natOfBytes p, natOfBytes mb⟩

def readDhx2Nonces : CheckedM AfpErr (UInt16 × Bytes) := do
  let id ← u16 "transaction id"
  let ct ← taken (dhx2NonceLen * 2) "nonce block"
  check fun e => e
  return (id, ct)

def incNonce (nonce : Bytes) : Except (Fault AfpErr) Bytes := do
  let out := List.replicate nonce.length 0
  let b := natBytes (natOfBytes nonce + 1)
  let b ← if b.length > out.length then Fault.slice b (b.length - out.length) b.length else pure b
  copyAt out ((out.length : Int) - b.length) b

def cbcEncrypt (block : Equiv.Perm Block) (iv : Block) (plain : Bytes) :
    Except (Fault AfpErr) Bytes :=
  if plain.length % 8 = 0 then .ok (cbcEncryptBlocks block iv (plain.length / 8) plain)
  else .error (.panic "crypto/cipher: input not full blocks")

def cbcDecrypt (block : Equiv.Perm Block) (iv : Block) (ct : Bytes) : Except (Fault AfpErr) Bytes :=
  if ct.length % 8 = 0 then .ok (cbcDecryptBlocks block iv (ct.length / 8) ct)
  else .error (.panic "crypto/cipher: input not full blocks")

def dhx2Keys (d : Dhx2Params) : Except (Fault AfpErr) Dhx2Keys := do
  let ra := natOfBytes (c.rand 0 d.keyLen).toList
  let ma := d.g ^ ra % d.p
  let k := d.mb ^ ra % d.p
  let keyHash := c.md5 (← leftPad k d.keyLen)
  return ⟨← leftPad ma d.keyLen, c.cast5 keyHash, (c.rand 1 dhx2NonceLen).toList⟩

def serverNonce (k : Dhx2Keys) (ct : Bytes) : Except (Fault AfpErr) Bytes := do
  let plain ← cbcDecrypt k.block dhxServerIV ct
  let wantNonce ← incNonce k.clientNonce
  if (← Fault.slice plain 0 dhx2NonceLen) ≠ wantNonce then
    throw (.error (.text "afp: DHX2: server failed nonce check (wrong DH result?)" []))
  Fault.slice plain dhx2NonceLen plain.length

def dhx2Final (serverNonce password : Bytes) : Except (Fault AfpErr) Bytes := do
  let final := List.replicate (dhx2NonceLen + 256) 0
  let final ← copyAt final 0 (← incNonce serverNonce)
  copyAt final dhx2NonceLen password

def loginDHX2 (s : Session) (peer : Peer) (username password : Bytes) :
    Proc (List Bytes) (Fault AfpErr) Unit := do
  let user ← putPascal username
  let (payload, code) ← login s peer uamDHX2 user
  if code ≠ resAuthContinue then
    resultErr "DHX2 login" code
  else
    let d ← dhx2Params payload
    let k ← dhx2Keys c d
    let enc ← cbcEncrypt k.block dhxClientIV k.clientNonce
    let (payload, code) ← loginCont peer d.id (k.ma ++ enc)
    if code ≠ resAuthContinue then
      resultErr "DHX2 exchange" code
    else
      let (id, ct) ← decode payload readDhx2Nonces
      let serverNonce ← serverNonce k ct
      let final ← dhx2Final serverNonce password
      let enc ← cbcEncrypt k.block dhxClientIV final
      let (_, code) ← loginCont peer id enc
      resultErr "DHX2 login" code

end Dhx2

section Agree

variable {α β σ : Type}

theorem lift_ok_bind (a : α) (f : α → Proc σ (Fault AfpErr) β) :
    ((liftM (Except.ok a : Except (Fault AfpErr) α) : Proc σ (Fault AfpErr) α) >>= f) = f a :=
  Proc.ext fun _ => Proc.on_bind_ok rfl

theorem bind_eq {x : Proc σ AfpErr α} {x' : Proc σ (Fault AfpErr) α} {f : α → Proc σ AfpErr β}
    {f' : α → Proc σ (Fault AfpErr) β} (hx : x' = Proc.adapt Fault.error x)
    (hf : ∀ a, f' a = Proc.adapt Fault.error (f a)) :
    (x' >>= f') = Proc.adapt Fault.error (x >>= f) := by
  rw [Proc.adapt_bind, hx, funext hf]

theorem ite_eq {q : Prop} [Decidable q] {x y : Proc σ AfpErr α} {x' y' : Proc σ (Fault AfpErr) α}
    (hx : x' = Proc.adapt Fault.error x) (hy : y' = Proc.adapt Fault.error y) :
    (if q then x' else y') = Proc.adapt Fault.error (if q then x else y) := by
  rw [Proc.adapt_ite, hx, hy]

/-- Only the values that come of `r` matter after it. -/
theorem lift_bind_eq {r : Except AfpErr α} {r' : Except (Fault AfpErr) α} {f : α → Proc σ AfpErr β}
    {f' : α → Proc σ (Fault AfpErr) β} (hr : r' = r.mapError Fault.error)
    (hf : ∀ a, r = .ok a → f' a = Proc.adapt Fault.error (f a)) :
    (liftM r' >>= f') = Proc.adapt Fault.error (liftM r >>= f) := by
  rw [Proc.adapt_bind, Proc.adapt_lift, hr]
  refine Proc.ext fun s => ?_
  cases r with
  | error e => rfl
  | ok a => exact congrArg (fun x => Proc.on x s) (hf a rfl)

theorem putPascal_eq (s : Bytes) : putPascal s = .ok (GoAfp.putPascal s) := by
  by_cases h : s.length > 255
  · rw [putPascal, if_pos h, Fault.slice_eq (by decide) (by omega)]
    rfl
  · rw [putPascal, if_neg h, GoAfp.putPascal, List.take_of_length_le (by omega)]
    rfl

theorem leftPad_eq {v n : Nat} (h : v < 256 ^ n) : leftPad v n = .ok (fillBytes n v) :=
  if_pos h

theorem leftPad_panic {v n : Nat} (h : ¬ v < 256 ^ n) :
    leftPad v n = .error (.panic "math/big: buffer too small to fit value") :=
  if_neg h

theorem mod_eq {y : Nat} (h : y ≠ 0) (x : Int) : mod x y = .ok (x % (y : Int)).toNat :=
  if_neg h

theorem copyAt_eq {p : Bytes} {start : Nat} (h : start ≤ p.length) (data : Bytes) :
    copyAt p start data = .ok (GoAfp.copyAt p start data) :=
  if_pos ⟨Int.natCast_nonneg _, Int.ofNat_le.mpr h⟩

@[simp] theorem sized_eq (lengthName what : String) :
    sized lengthName what = liftM (Reader.sized lengthName what) := by
  refine Proc.ext fun r => ?_
  rw [sized, u16_eq, Proc.on_bind_ok (Proc.on_liftState _ r), taken_eq]
  rfl

theorem login_eq (s : Session) (peer : Peer) (uam authinfo : Bytes) :
    login s peer uam authinfo = Proc.adapt Fault.error (s.login peer uam authinfo) := by
  rw [login, putPascal_eq, lift_ok_bind, putPascal_eq, lift_ok_bind]
  rfl

end Agree

section SrpAgree

variable (c : Crypto)

theorem decode_readSrpParams (payload : Bytes) :
    decode payload readSrpParams =
      (Reader.parse GoAfp.readSrpParams payload).mapError Fault.error := by
  refine decode_check ?_
  simp only [readSrpParams, u16_eq, sized_eq]
  rfl

theorem length_mgf1Loop (seed : Bytes) (outLen fuel : Nat) (counter : UInt32) (out : Bytes)
    (h : outLen ≤ out.length + fuel) :
    outLen ≤ (c.mgf1Loop seed outLen fuel counter out).length := by
  induction fuel generalizing counter out with
  | zero => exact h
  | succ fuel ih =>
    rw [Crypto.mgf1Loop]
    split_ifs with hshort
    · refine ih _ _ ?_
      have hblock : (c.sha1Sum [seed, putU32 counter]).length = 20 := Vector.length_toList
      rw [List.length_append, hblock]
      omega
    · exact Nat.le_of_not_lt hshort

theorem mgf1SHA1_eq (seed : Bytes) (outLen : Nat) :
    mgf1SHA1 c seed outLen = .ok (c.mgf1SHA1 seed outLen) := by
  have hlen := length_mgf1Loop c seed outLen outLen 0 [] (Nat.le_add_left _ _)
  rw [mgf1SHA1, Fault.slice_eq (Nat.zero_le _) hlen]
  rfl

theorem mapM_range_ok {α : Type} {f : Nat → Except (Fault AfpErr) α} {g : Nat → α} {n : Nat}
    (h : ∀ i < n, f i = .ok (g i)) : (List.range n).mapM f = .ok ((List.range n).map g) := by
  have hmem (l : List Nat) (hl : ∀ i ∈ l, i < n) : l.mapM f = .ok (l.map g) := by
    induction l with
    | nil => rfl
    | cons i l ih =>
      rw [List.mapM_cons, h i (hl i List.mem_cons_self),
        ih fun j hj => hl j (List.mem_cons_of_mem i hj)]
      rfl
  exact hmem _ fun i hi => List.mem_range.mp hi

theorem xorHashes_eq {hN hg : Bytes} (h : hN.length = srpHashLen) (h' : hg.length = srpHashLen) :
    xorHashes hN hg = .ok (List.zipWith (· ^^^ ·) hN hg) := by
  have hstep (i : Nat) (hi : i < srpHashLen) :
      (do return (← Fault.index hN i) ^^^ (← Fault.index hg i) : Except (Fault AfpErr) UInt8) =
        .ok (hN.getD i 0 ^^^ hg.getD i 0) := by
    rw [Fault.index_eq (h ▸ hi), Fault.index_eq (h' ▸ hi), List.getD_eq_getElem _ _ (h ▸ hi),
      List.getD_eq_getElem _ _ (h' ▸ hi)]
    rfl
  rw [xorHashes, mapM_range_ok hstep]
  congr 1
  refine List.ext_getElem ?_ fun i hi hi' => ?_
  · simp [h, h']
  · simp only [List.getElem_map, List.getElem_range, List.getElem_zipWith]
    rw [List.getD_eq_getElem, List.getD_eq_getElem]

theorem sha1Sum_length (parts : List Bytes) : (c.sha1Sum parts).length = srpHashLen :=
  Vector.length_toList

theorem srpM1_eq (N g : Nat) (username salt : Bytes) (A B : Nat) (K : Bytes) :
    srpM1 c N g username salt A B K = .ok (c.srpM1 N g username salt A B K) := by
  rw [srpM1, xorHashes_eq (sha1Sum_length c _) (sha1Sum_length c _)]
  rfl

variable {p : SrpParams}

/-- The paddings of the login fit, unless it has ended before them. -/
def FitsModulus (p : SrpParams) : Prop :=
  p.N ≠ 0 → p.B ≠ 0 → p.g < 256 ^ p.width ∧ p.B < 256 ^ p.width

/-- What `srpProof` makes of the paddings of `g`, `A` and `B`. -/
def padded (p : SrpParams) (username password padG padA padB : Bytes) :
    Except (Fault AfpErr) SrpProof :=
  let x := c.srpX p.salt username password
  let u := natOfBytes (c.sha1Sum [padA, padB])
  let S := p.base (natOfBytes (c.sha1Sum [p.nBytes, padG])) x ^ (p.secret c + u * x) % p.N
  let K := c.mgf1SHA1 (natBytes S) 40
  if u = 0 then .error (.error (.text "afp: SRP: u == 0" []))
  else .ok ⟨p.publicValue c, S, K, c.srpM1 p.N p.g username p.salt (p.publicValue c) p.B K⟩

theorem srpProof_padded (hN : p.N ≠ 0) (hB : p.B ≠ 0) (username password : Bytes) :
    srpProof c p username password = (do
      let padG ← leftPad p.g p.width
      let padA ← leftPad (p.publicValue c) p.width
      let padB ← leftPad p.B p.width
      padded c p username password padG padA padB) := by
  have hne : ¬ (natOfBytes p.nBytes = 0 ∨ natOfBytes p.bBytes = 0) := not_or.mpr ⟨hN, hB⟩
  have hmod (x : Int) : mod x (natOfBytes p.nBytes) = .ok (x % (p.N : Int)).toNat := mod_eq hN x
  simp only [srpProof, hne, if_false, hmod, mgf1SHA1_eq, srpM1_eq]
  rfl

theorem leftPad_publicValue (hN : p.N ≠ 0) :
    leftPad (p.publicValue c) p.width = .ok (fillBytes p.width (p.publicValue c)) :=
  leftPad_eq ((Nat.mod_lt _ (Nat.pos_of_ne_zero hN)).trans (natOfBytes_lt p.nBytes))

theorem srpProof_eq (h : FitsModulus p) (username password : Bytes) :
    srpProof c p username password = (c.srpProof p username password).mapError Fault.error := by
  by_cases hne : p.N = 0 ∨ p.B = 0
  · have hboth : natOfBytes p.nBytes = 0 ∨ natOfBytes p.bBytes = 0 := hne
    rw [srpProof, Crypto.srpProof]
    simp only [hboth, if_true]
    rfl
  · obtain ⟨hN, hB⟩ := not_or.mp hne
    obtain ⟨hg, hB'⟩ := h hN hB
    have hk : natOfBytes (c.sha1Sum [p.nBytes, fillBytes p.width p.g]) = p.k c := by
      simp [Crypto.sha1Sum, SrpParams.k, SrpParams.multiplied]
    have hu : natOfBytes (c.sha1Sum [fillBytes p.width (p.publicValue c), fillBytes p.width p.B]) =
        p.u c := by
      simp [Crypto.sha1Sum, SrpParams.u]
    rw [srpProof_padded c hN hB, SrpParams.srpProof_of_accepted c ⟨hN, hB, hg, hB'⟩, leftPad_eq hg,
      leftPad_publicValue c hN, leftPad_eq hB']
    change padded c p username password _ _ _ = _
    rw [padded, hk, hu]
    split_ifs <;> rfl

theorem srpProof_panic (h : ¬ FitsModulus p) (username password : Bytes) :
    srpProof c p username password = .error (.panic "math/big: buffer too small to fit value") := by
  unfold FitsModulus at h
  push Not at h
  obtain ⟨hN, hB, hfit⟩ := h
  rw [srpProof_padded c hN hB]
  by_cases hg : p.g < 256 ^ p.width
  · rw [leftPad_eq hg, leftPad_publicValue c hN, leftPad_panic (Nat.not_lt.mpr (hfit hg))]
    rfl
  · rw [leftPad_panic hg]
    rfl

theorem srpVerify_eq (q : SrpProof) (payload : Bytes) :
    srpVerify c q payload = (c.srpVerify q payload).mapError Fault.error := by
  simp only [srpVerify, Crypto.srpVerify, readSrpM2, decode, u16_eq, sized_eq]
  rcases hs : (Reader.u16 "srp step").run { b := payload } with ⟨step, r⟩
  rw [Proc.on_bind_ok (on_read hs)]
  by_cases hstep : step = srpServerProof
  · rcases hm : (Reader.sized "M2 length" "M2").run r with ⟨m2, b, pos, err⟩
    simp only [hstep, ne_eq, not_true_eq_false, if_false]
    rw [Proc.on_bind_ok (on_read hm), hm]
    cases err with
    | some e => rfl
    | none =>
      by_cases hne : m2 = c.srpM2 q.A q.m1 q.K
      · simp only [hne, not_true_eq_false, if_false]
        rfl
      · simp only [hne, not_false_eq_true, if_true]
        rfl
  · simp only [ne_eq, hstep, not_false_eq_true, if_true]
    rfl

end SrpAgree

theorem loginSRP_eq (c : Crypto) (s : Session) (peer : Peer) (username password : Bytes) :
    loginSRP c s peer username password = (do
      let (payload, code) ← Proc.adapt Fault.error (s.login peer uamSRP (GoAfp.putPascal username))
      if code ≠ resAuthContinue then
        resultErr "SRP login" code
      else
        let p ← (Reader.parse GoAfp.readSrpParams payload).mapError Fault.error
        let q ← srpProof c p username password
        Proc.adapt Fault.error (do
          let (payload, code) ← Session.loginCont peer p.context16 q.block
          GoAfp.resultErr "SRP login" code
          c.srpVerify q payload)) := by
  rw [loginSRP, putPascal_eq, lift_ok_bind, login_eq]
  simp only [decode_readSrpParams, Proc.adapt_bind, srpVerify_eq]
  rfl

section Dhx2Agree

variable (c : Crypto)

theorem dhx2Params_eq (payload : Bytes) :
    dhx2Params payload = (GoAfp.dhx2Params payload).mapError Fault.error := by
  simp only [dhx2Params, GoAfp.dhx2Params, decode, u16_eq, taken_eq]
  rcases h₁ : (Reader.u16 "transaction id").run { b := payload } with ⟨id, r₁⟩
  rcases h₂ : (Reader.take 4 "g").run r₁ with ⟨g, r₂⟩
  rcases h₃ : (Reader.u16 "key length").run r₂ with ⟨keyLen, r₃⟩
  rw [Proc.on_bind_ok (on_read h₁), Proc.on_bind_ok (on_read h₂), Proc.on_bind_ok (on_read h₃),
    Proc.on_bind_ok (Proc.on_get r₃)]
  by_cases hlen : r₃.err.isNone ∧ (keyLen.toNat = 0 ∨ keyLen.toNat > dhx2MaxKeyLen)
  · simp only [h₂, h₃, hlen]
    rfl
  · rcases h₄ : (Reader.take keyLen.toNat "p").run r₃ with ⟨p, r₄⟩
    rcases h₅ : (Reader.take keyLen.toNat "Mb").run r₄ with ⟨mb, b, pos, err⟩
    simp only [h₂, h₃, hlen, if_false, h₄, h₅]
    rw [Proc.on_bind_ok (on_read h₄), Proc.on_bind_ok (on_read h₅)]
    cases err with
    | some e => rfl
    | none =>
      by_cases hdeg : natOfBytes g = 0 ∨ (natOfBytes p).size < 64
      · simp only [hdeg, if_true]
        rfl
      · simp only [hdeg, if_false]
        rfl

theorem decode_readDhx2Nonces (payload : Bytes) :
    decode payload readDhx2Nonces =
      (Reader.parse GoAfp.readDhx2Nonces payload).mapError Fault.error := by
  refine decode_check ?_
  simp only [readDhx2Nonces, u16_eq, taken_eq]
  rfl

theorem copyAt_right {n : Nat} {b : Bytes} (h : b.length ≤ n) :
    copyAt (List.replicate n 0) ((n : Int) - b.length) b = .ok
      (List.replicate (n - b.length) 0 ++ b) := by
  have hstart : (n : Int) - b.length = ((n - b.length : Nat) : Int) := by omega
  rw [hstart, copyAt_eq (by simp), GoAfp.copyAt, List.take_replicate, List.length_replicate,
    List.drop_replicate, List.take_of_length_le (by omega), Nat.min_eq_left (Nat.sub_le _ _),
    Nat.sub_add_cancel h, Nat.sub_self]
  simp

theorem incNonce_eq (nonce : Bytes) : incNonce nonce = .ok (GoAfp.incNonce nonce) := by
  simp only [incNonce, GoAfp.incNonce, List.length_replicate]
  by_cases hlong : (natBytes (natOfBytes nonce + 1)).length > nonce.length
  · have hall (b : Bytes) (n : Nat) (h : n ≤ b.length) :
        (Fault.slice b (b.length - n) b.length : Except (Fault AfpErr) Bytes) = .ok
          (b.drop (b.length - n)) := by
      rw [Fault.slice_eq (Nat.sub_le _ _) le_rfl, List.take_of_length_le]
      rw [List.length_drop]
    rw [if_pos hlong, if_pos hlong, hall _ _ (Nat.le_of_lt hlong)]
    refine copyAt_right ?_
    rw [List.length_drop]
    omega
  · rw [if_neg hlong, if_neg hlong]
    exact copyAt_right (Nat.le_of_not_lt hlong)

theorem cbcEncrypt_eq {block : Equiv.Perm Block} {iv : Block} {plain : Bytes}
    (h : plain.length % 8 = 0) :
    cbcEncrypt block iv plain = (GoAfp.cbcEncrypt block iv plain).mapError Fault.error := by
  rw [cbcEncrypt, if_pos h, GoAfp.cbcEncrypt, wholeBlocks, if_pos h]
  rfl

theorem cbcDecrypt_eq {block : Equiv.Perm Block} {iv : Block} {ct : Bytes} (h : ct.length % 8 = 0) :
    cbcDecrypt block iv ct = (GoAfp.cbcDecrypt block iv ct).mapError Fault.error := by
  rw [cbcDecrypt, if_pos h, GoAfp.cbcDecrypt, wholeBlocks, if_pos h]
  rfl

theorem dhx2Keys_fits {payload : Bytes} {d : Dhx2Params} (h : GoAfp.dhx2Params payload = .ok d) :
    dhx2Keys c d = (c.dhx2Keys d).mapError Fault.error := by
  obtain ⟨hpos, hlt⟩ := dhx2Params_fits h
  have hfit (v : Nat) : v % d.p < 256 ^ d.keyLen := (Nat.mod_lt v hpos).trans hlt
  simp only [dhx2Keys, Crypto.dhx2Keys, leftPad_eq (hfit _), GoAfp.leftPad, hfit, if_true]
  rfl

theorem serverNonce_eq (k : Dhx2Keys) {ct : Bytes} (h : ct.length = 32) :
    serverNonce k ct = (k.serverNonce ct).mapError Fault.error := by
  rw [serverNonce, Dhx2Keys.serverNonce, cbcDecrypt_eq (by rw [h]), incNonce_eq]
  cases hd : GoAfp.cbcDecrypt k.block dhxServerIV ct with
  | error e => rfl
  | ok plain =>
    have hlen : plain.length = 32 := (cbcDecrypt_length hd).trans h
    have hfst : (Fault.slice plain 0 dhx2NonceLen : Except (Fault AfpErr) Bytes) = .ok
        (plain.take dhx2NonceLen) :=
      Fault.slice_eq (Nat.zero_le _) (by rw [hlen]; decide)
    have hsnd : (Fault.slice plain dhx2NonceLen plain.length : Except (Fault AfpErr) Bytes) =
        .ok (plain.drop dhx2NonceLen) := by
      rw [Fault.slice_eq (by rw [hlen]; decide) le_rfl, List.take_of_length_le]
      rw [List.length_drop]
    change (Fault.slice plain 0 dhx2NonceLen >>= _) = _
    rw [hfst, hsnd]
    change (if plain.take dhx2NonceLen ≠ GoAfp.incNonce k.clientNonce then _ else _) =
      Except.mapError Fault.error
      (if plain.take dhx2NonceLen ≠ GoAfp.incNonce k.clientNonce then _ else _)
    split_ifs <;> rfl

theorem copyAt_zeros (a : Bytes) (n : Nat) :
    GoAfp.copyAt (List.replicate (a.length + n) 0) 0 a = a ++ List.replicate n 0 := by
  simp [GoAfp.copyAt]

theorem copyAt_append_zeros (a data : Bytes) (n : Nat) :
    GoAfp.copyAt (a ++ List.replicate n 0) a.length data =
      a ++ (data.take n ++ List.replicate (n - data.length) 0) := by
  simp [GoAfp.copyAt]

theorem dhx2Final_eq {nonce : Bytes} (h : nonce.length = dhx2NonceLen) (password : Bytes) :
    dhx2Final nonce password = .ok (GoAfp.dhx2Final nonce password) := by
  have hinc : (GoAfp.incNonce nonce).length = dhx2NonceLen := by
    rw [GoAfp.incNonce_eq, fillBytes_length, h]
  have hfst := copyAt_zeros (GoAfp.incNonce nonce) 256
  have hsnd := copyAt_append_zeros (GoAfp.incNonce nonce) password 256
  have hfits : dhx2NonceLen ≤ (GoAfp.incNonce nonce ++ List.replicate 256 0).length := by
    rw [List.length_append, hinc]
    exact Nat.le_add_right _ _
  rw [hinc] at hfst hsnd
  have hstart : copyAt (List.replicate (dhx2NonceLen + 256) 0) 0 (GoAfp.incNonce nonce) =
      .ok (GoAfp.incNonce nonce ++ List.replicate 256 0) :=
    (copyAt_eq (Nat.zero_le _) _).trans (congrArg Except.ok hfst)
  simp only [dhx2Final, incNonce_eq, bind, Except.bind, hstart]
  rw [copyAt_eq hfits, hsnd]
  rfl

theorem clientNonce_whole {payload : Bytes} {d : Dhx2Params} {k : Dhx2Keys}
    (hd : GoAfp.dhx2Params payload = .ok d) (hk : c.dhx2Keys d = .ok k) :
    k.clientNonce.length % 8 = 0 := by
  obtain ⟨k', hk', hlen⟩ := dhx2Keys_eq (c := c) hd
  cases hk.symm.trans hk'
  rw [hlen]
  rfl

theorem dhx2Final_whole {nonce : Bytes} (h : nonce.length = dhx2NonceLen) (password : Bytes) :
    (GoAfp.dhx2Final nonce password).length % 8 = 0 := by
  have hlen : (GoAfp.dhx2Final nonce password).length = dhx2NonceLen + 256 := by
    rw [GoAfp.dhx2Final, GoAfp.incNonce_eq]
    simp only [List.length_append, fillBytes_length, h, List.length_take, List.length_replicate]
    omega
  rw [hlen]
  rfl

end Dhx2Agree

theorem loginDHX2_eq (c : Crypto) (s : Session) (peer : Peer) (username password : Bytes) :
    loginDHX2 c s peer username password = Proc.adapt Fault.error
      (s.loginDHX2 c peer username password) := by
  rw [loginDHX2, putPascal_eq, lift_ok_bind]
  refine bind_eq (login_eq s peer _ _) fun ⟨payload, code⟩ => ite_eq rfl ?_
  refine lift_bind_eq (dhx2Params_eq payload) fun d hd =>
    lift_bind_eq (dhx2Keys_fits c hd) fun k hk => ?_
  refine lift_bind_eq (cbcEncrypt_eq (clientNonce_whole c hd hk)) fun enc _ => ?_
  refine bind_eq rfl fun ⟨payload, code⟩ => ite_eq rfl ?_
  refine lift_bind_eq (decode_readDhx2Nonces payload) fun ⟨id, ct⟩ hct => ?_
  have hlen := readDhx2Nonces_length hct
  refine lift_bind_eq (serverNonce_eq k hlen) fun nonce hn => ?_
  have hnonce := (serverNonce_ok hlen hn).2
  rw [dhx2Final_eq hnonce, lift_ok_bind]
  exact lift_bind_eq (cbcEncrypt_eq (dhx2Final_whole hnonce password)) fun enc _ =>
    bind_eq rfl fun _ => rfl

end Checked

open Checked

theorem loginDHX2_never_panics (c : Crypto) (s : Session) (peer : Peer) (username password : Bytes)
    (sent : List Bytes) :
    Fault.Sound (fun _ => True) ((Checked.loginDHX2 c s peer username password).on sent).1 := by
  rw [loginDHX2_eq, Proc.on_adapt]
  exact Fault.sound_mapError fun _ _ => trivial

section Srp

variable (c : Crypto) (s : Session) {replies : Nat → Outcome} (username password : Bytes)

theorem loginSRP_ended {x : Except AfpErr (Bytes × Result)} (hr : (replies 0).result = x)
    (hx : ∀ payload, x ≠ .ok (payload, resAuthContinue)) :
    Fault.Sound (fun _ => True)
      ((Checked.loginSRP c s (scripted replies) username password).on []).1 := by
  rw [loginSRP_eq, Proc.on_bind, Proc.on_adapt, Session.login, command_scripted,
    List.length_nil, hr]
  rcases x with e | ⟨payload, code⟩
  · trivial
  · have hcode : code ≠ resAuthContinue := fun h => hx payload (h ▸ rfl)
    change Fault.Sound _ (Proc.on (if code ≠ resAuthContinue then _ else _) _).1
    rw [if_pos hcode]
    exact Fault.sound_mapError fun _ _ => trivial

theorem loginSRP_continued {payload : Bytes}
    (hr : (replies 0).result = .ok (payload, resAuthContinue)) :
    Fault.Sound (fun _ => True)
      ((Checked.loginSRP c s (scripted replies) username password).on []).1 ↔
      ∀ p, Reader.parse readSrpParams payload = .ok p → FitsModulus p := by
  rw [loginSRP_eq, Proc.on_bind, Proc.on_adapt, login_scripted hr]
  change Fault.Sound _ (Proc.on (if resAuthContinue ≠ resAuthContinue then _ else _) _).1 ↔ _
  rw [if_neg (not_not.mpr rfl)]
  cases hp : Reader.parse readSrpParams payload with
  | error e => exact iff_of_true trivial fun p h => nomatch h
  | ok p =>
    rw [show (Except.ok p : Except AfpErr SrpParams).mapError Fault.error = .ok p from rfl,
      lift_ok_bind]
    by_cases hfit : FitsModulus p
    · refine iff_of_true ?_ fun p' h => Except.ok.inj h ▸ hfit
      rw [srpProof_eq c hfit, ← Proc.adapt_lift, ← Proc.adapt_bind, Proc.on_adapt]
      exact Fault.sound_mapError fun _ _ => trivial
    · refine iff_of_false ?_ fun h => hfit (h p rfl)
      rw [srpProof_panic c hfit, Proc.on_bind_error (Proc.on_lift _ _)]
      exact id

end Srp

theorem loginSRP_never_panics_iff (c : Crypto) (s : Session) (replies : Nat → Outcome)
    (username password : Bytes) :
    Fault.Sound (fun _ => True)
      ((Checked.loginSRP c s (scripted replies) username password).on []).1 ↔
      ∀ payload p, (replies 0).result = .ok (payload, resAuthContinue) →
        Reader.parse readSrpParams payload = .ok p → p.N ≠ 0 → p.B ≠ 0 →
        p.g < 256 ^ p.width ∧ p.B < 256 ^ p.width := by
  by_cases hcont : ∃ payload, (replies 0).result = .ok (payload, resAuthContinue)
  · obtain ⟨payload, hr⟩ := hcont
    rw [loginSRP_continued c s username password hr]
    refine ⟨fun h payload' p hr' hp => ?_, fun h p hp => h payload p hr hp⟩
    obtain rfl : payload = payload' := congrArg Prod.fst (Except.ok.inj (hr.symm.trans hr'))
    exact h p hp
  · refine iff_of_true
      (loginSRP_ended c s username password rfl fun payload h => hcont ⟨payload, h⟩) ?_
    exact fun payload _ hr => absurd ⟨payload, hr⟩ hcont

/-- A modulus of one byte and a generator of two. -/
def wideGenerator : Nat → Outcome := fun _ =>
  .reply
    ⟨{ flags := flagReply, command := cmdCommand, requestID := 1, errCode := 0xFFFFEC77
       length := 19 },
      putU16 1 ++ putU16 2 ++ (putU16 1 ++ [7]) ++ (putU16 2 ++ [1, 0]) ++ putU16 0 ++
        (putU16 1 ++ [5]),
      none⟩

theorem loginSRP_wideGenerator :
    ((Checked.loginSRP constCrypto ⟨ascii "AFP3.4"⟩ (scripted wideGenerator) (ascii "alice")
      (ascii "hunter2")).on []).1 = .error (.panic "math/big: buffer too small to fit value") := by
  decide

end GoAfp
