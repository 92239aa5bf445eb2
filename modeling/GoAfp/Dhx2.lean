import GoAfp.Session

/-! The client side of the DHX2 login: a Diffie-Hellman exchange, a nonce
handshake under the key that it gives, and the password under the same key. -/

namespace GoAfp

def uamDHX2 : Bytes := ascii "DHX2"
def dhxClientIV : Vector UInt8 8 := #v[0x4C, 0x57, 0x61, 0x6C, 0x6C, 0x61, 0x63, 0x65]
def dhxServerIV : Vector UInt8 8 := #v[0x43, 0x4A, 0x61, 0x6C, 0x62, 0x65, 0x72, 0x74]
def dhx2MaxKeyLen : Nat := 1024
def dhx2NonceLen : Nat := 16

structure Dhx2Params where
  id : UInt16
  g : Nat
  keyLen : Nat
  p : Nat
  mb : Nat
  deriving DecidableEq, Repr

def dhx2Params (payload : Bytes) : Except AfpErr Dhx2Params := do
  let (id, r) := (Reader.u16 "transaction id").run { b := payload }
  let (g, r) := (Reader.take 4 "g").run r
  let (keyLen, r) := (Reader.u16 "key length").run r
  if r.err.isNone ∧ (keyLen.toNat = 0 ∨ keyLen.toNat > dhx2MaxKeyLen) then
    throw (.text "afp: DHX2: unreasonable key length %d" [keyLen.toNat])
  let (p, r) := (Reader.take keyLen.toNat "p").run r
  let (mb, r) := (Reader.take keyLen.toNat "Mb").run r
  match r.err with
  | some e => throw e
  | none =>
    if natOfBytes g = 0 ∨ (natOfBytes p).size < 64 then
      throw (.text "afp: DHX2: degenerate DH parameters from server" [])
    return ⟨id, natOfBytes g, keyLen.toNat, natOfBytes p, natOfBytes mb⟩

def readDhx2Nonces : StateM Reader (UInt16 × Bytes) := do
  let id ← Reader.u16 "transaction id"
  let ct ← Reader.take (dhx2NonceLen * 2) "nonce block"
  return (id, ct)

def incNonce (nonce : Bytes) : Bytes :=
  let b := natBytes (natOfBytes nonce + 1)
  let b := if b.length > nonce.length then b.drop (b.length - nonce.length) else b
  List.replicate (nonce.length - b.length) 0 ++ b

abbrev Block := Vector UInt8 8

def Block.ofBytes (b : Bytes) : Block :=
  Vector.ofFn fun i => b.getD i 0

def Block.xor (x y : Block) : Block :=
  Vector.zipWith (· ^^^ ·) x y

def cbcEncryptBlocks (block : Equiv.Perm Block) : Block → Nat → Bytes → Bytes
  | _, 0, _ => []
  | iv, n + 1, plain =>
    let ct := block (iv.xor (Block.ofBytes plain))
    ct.toList ++ cbcEncryptBlocks block ct n (plain.drop 8)

def cbcDecryptBlocks (block : Equiv.Perm Block) : Block → Nat → Bytes → Bytes
  | _, 0, _ => []
  | iv, n + 1, ct =>
    (iv.xor (block.symm (Block.ofBytes ct))).toList ++ cbcDecryptBlocks block (Block.ofBytes ct) n
      (ct.drop 8)

def wholeBlocks (b : Bytes) : Except AfpErr Nat :=
  if b.length % 8 = 0 then .ok (b.length / 8)
    else .error (.panic "crypto/cipher: input not full blocks")

def cbcEncrypt (block : Equiv.Perm Block) (iv : Block) (plain : Bytes) : Except AfpErr Bytes := do
  return cbcEncryptBlocks block iv (← wholeBlocks plain) plain

def cbcDecrypt (block : Equiv.Perm Block) (iv : Block) (ct : Bytes) : Except AfpErr Bytes := do
  return cbcDecryptBlocks block iv (← wholeBlocks ct) ct

structure Dhx2Keys where
  ma : Bytes
  block : Equiv.Perm Block
  clientNonce : Bytes

def Crypto.dhx2Keys (c : Crypto) (d : Dhx2Params) : Except AfpErr Dhx2Keys := do
  let ra := natOfBytes (c.rand 0 d.keyLen).toList
  let ma := d.g ^ ra % d.p
  let k := d.mb ^ ra % d.p
  let keyHash := c.md5 (← leftPad k d.keyLen)
  return ⟨← leftPad ma d.keyLen, c.cast5 keyHash, (c.rand 1 dhx2NonceLen).toList⟩

def Dhx2Keys.serverNonce (k : Dhx2Keys) (ct : Bytes) : Except AfpErr Bytes := do
  let plain ← cbcDecrypt k.block dhxServerIV ct
  if plain.take dhx2NonceLen ≠ incNonce k.clientNonce then
    throw (.text "afp: DHX2: server failed nonce check (wrong DH result?)" [])
  return plain.drop dhx2NonceLen

def dhx2Final (serverNonce password : Bytes) : Bytes :=
  incNonce serverNonce ++ (password.take 256 ++ List.replicate (256 - password.length) 0)

def Session.loginDHX2 (s : Session) (c : Crypto) (peer : Peer) (username password : Bytes) :
    Exchange Unit := do
  let (payload, code) ← s.login peer uamDHX2 (putPascal username)
  if code ≠ resAuthContinue then
    resultErr "DHX2 login" code
  else
    let d ← dhx2Params payload
    let k ← c.dhx2Keys d
    let enc ← cbcEncrypt k.block dhxClientIV k.clientNonce
    let (payload, code) ← Session.loginCont peer d.id (k.ma ++ enc)
    if code ≠ resAuthContinue then
      resultErr "DHX2 exchange" code
    else
      let (id, ct) ← Reader.parse readDhx2Nonces payload
      let serverNonce ← k.serverNonce ct
      let final ← cbcEncrypt k.block dhxClientIV (dhx2Final serverNonce password)
      let (_, code) ← Session.loginCont peer id final
      resultErr "DHX2 login" code

end GoAfp
