import GoAfp.Proc
import GoAfp.Wire

/-! The AFP session during login: requests go out one at a time, and the
peer's answer may depend on all that was sent. Hashes, the block cipher and
the random source are parameters. -/

namespace GoAfp

/-- The outcome of the last of the requests sent so far. -/
abbrev Peer := List Bytes → Outcome

def scripted (replies : Nat → Outcome) : Peer :=
  fun sent => replies (sent.length - 1)

/-- A server that answers every request with `payload`. -/
def answering (payload : Bytes) : Peer := fun sent =>
  .reply
    ⟨{ flags := flagReply, command := cmdCommand, requestID := UInt16.ofNat sent.length
       errCode := 0, length := UInt32.ofNat payload.length }, payload, none⟩

abbrev Exchange := Proc (List Bytes) AfpErr

structure Session where
  version : Bytes

namespace Session

def command (peer : Peer) (payload : Bytes) : Exchange (Bytes × Result) := do
  modify (· ++ [payload])
  let sent ← get
  (peer sent).result

def loginRequest (s : Session) (uam authinfo : Bytes) : Bytes :=
  cmdLogin :: putPascal s.version ++ putPascal uam ++ authinfo

def login (s : Session) (peer : Peer) (uam authinfo : Bytes) : Exchange (Bytes × Result) :=
  command peer (s.loginRequest uam authinfo)

def loginContRequest (id : UInt16) (authinfo : Bytes) : Bytes :=
  cmdLoginCont :: 0 :: putU16 id ++ authinfo

def loginCont (peer : Peer) (id : UInt16) (authinfo : Bytes) : Exchange (Bytes × Result) :=
  command peer (loginContRequest id authinfo)

theorem command_on (peer : Peer) (payload : Bytes) (sent : List Bytes) :
    (command peer payload).on sent = ((peer (sent ++ [payload])).result, sent ++ [payload]) := rfl

end Session

/-- SHA-1, MD5, CAST5 under a 16-byte key, and the outcomes of the successive
`rand.Read` calls. -/
structure Crypto where
  sha1 : Bytes → Vector UInt8 20
  md5 : Bytes → Vector UInt8 16
  cast5 : Vector UInt8 16 → Equiv.Perm (Vector UInt8 8)
  rand : Nat → (n : Nat) → Vector UInt8 n

def constCrypto : Crypto where
  sha1 := fun _ => Vector.ofFn fun i => if i = 19 then 1 else 0
  md5 := fun _ => Vector.replicate 16 1
  cast5 := fun _ => Equiv.refl _
  rand := fun _ n => Vector.replicate n 1

def Crypto.sha1Sum (c : Crypto) (parts : List Bytes) : Bytes :=
  (c.sha1 parts.flatten).toList

/-- `big.Int.FillBytes` panics when the value needs more bytes. -/
def leftPad (v n : Nat) : Except AfpErr Bytes :=
  if v < 256 ^ n then .ok (fillBytes n v)
    else .error (.panic "math/big: buffer too small to fit value")

end GoAfp
