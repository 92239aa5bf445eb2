import GoAfp.LoginProof
import GoAfp.Sha1
import GoAfp.SrpServer
import Mathlib.Data.Set.Card

/-! Servers that pass the SRP login's last check without the password. SHA-1
is one fixed function. The server sends its parameters, may try a bounded
number of keys once it knows the user name and `A`, and answers with one that
it chooses by the client's proof. It passes for every client exactly if the
clients that look alike to it have few enough keys. -/

namespace GoAfp

abbrev Digest := Vector UInt8 20

/-- Answers the first request with `payload` and asks the client to go on. -/
def forger (payload : Bytes) (final : List Bytes → Result × Bytes) : Peer :=
  fun sent => SrpServer.send (UInt16.ofNat sent.length)
    (if sent.length ≤ 1 then (resAuthContinue, payload) else final sent)

section Run

variable {payload : Bytes} {p : SrpParams} {s : Session} {c : Crypto} {username password : Bytes}
  {final : List Bytes → Result × Bytes}

theorem command_forger (req : Bytes) (sent : List Bytes) :
    (Session.command (forger payload final) req).on sent =
      (.ok (if sent = [] then (payload, resAuthContinue)
        else ((final (sent ++ [req])).2, (final (sent ++ [req])).1)),
        sent ++ [req]) := by
  rw [Session.command_on, forger, SrpServer.send_result]
  cases sent <;> simp

theorem loginSRP_forger (hp : Reader.parse readSrpParams payload = .ok p) {q : SrpProof}
    (hq : c.srpProof p username password = .ok q) :
    ((s.loginSRP c (forger payload final) username password).on []).1 =
      (resultErr "SRP login" (final [s.loginRequest uamSRP (putPascal username),
        Session.loginContRequest p.context16 q.block]).1 >>= fun _ =>
      c.srpVerify q (final [s.loginRequest uamSRP (putPascal username),
        Session.loginContRequest p.context16 q.block]).2) := by
  rw [Session.loginSRP, Session.login, Proc.on_bind_ok (command_forger _ _), if_pos rfl]
  simp only [ne_eq, not_true_eq_false, if_false]
  rw [hp, Proc.on_bind_ok (Proc.on_lift _ _), hq, Proc.on_bind_ok (Proc.on_lift _ _),
    Session.loginCont, Proc.on_bind_ok (command_forger _ _)]
  rw [if_neg (by simp), List.nil_append, List.singleton_append]
  generalize final
    [s.loginRequest uamSRP (putPascal username),
      Session.loginContRequest p.context16 q.block] = reply
  cases resultErr "SRP login" reply.1 with
  | error e => rfl
  | ok => rfl

end Run

def readSrpClientProof : StateM Reader (Bytes × Bytes) := do
  let _ ← Reader.u16 "step"
  let aBytes ← Reader.sized "A len" "A"
  let m1 ← Reader.sized "M1 len" "M1"
  return (aBytes, m1)

theorem parse_block {q : SrpProof} (hA : (natBytes q.A).length < 65536)
    (hm : q.m1.length = srpHashLen) :
    Reader.parse readSrpClientProof q.block = .ok (natBytes q.A, q.m1) := by
  have hM := Reader.reads_sized (v := q.m1) "M1 len" "M1" (by rw [hm]; decide)
  rw [hm] at hM
  have h : Reader.Reads readSrpClientProof _ (natBytes q.A, q.m1) :=
    (Reader.reads_u16 srpClientProof "step").bind ((Reader.reads_sized "A len" "A" hA).bind
      (hM.bind (Reader.Reads.pure _)))
  have hp := h.parse_eq []
  rw [List.append_nil, List.append_nil, ← List.append_assoc] at hp
  exact hp

/-- A client that uses the hash function `hash`. -/
structure SrpClient (hash : Bytes → Digest) where
  session : Session
  crypto : Crypto
  hashes : crypto.sha1 = hash
  username : Bytes
  password : Bytes

/-- A server that tries at most `n` keys for one first request and one `A`. It
may use the client's proof `M1` in any way to choose among them. -/
structure KeySearch (n : ℕ∞) where
  keys : Bytes → Bytes → Set Bytes
  few : ∀ req aBytes, (keys req aBytes).encard ≤ n
  pick : Bytes → Bytes → Bytes → Option Bytes
  mem : ∀ {req aBytes m1 K}, pick req aBytes m1 = some K → K ∈ keys req aBytes

namespace KeySearch

variable {n : ℕ∞} (w : KeySearch n) (hash : Bytes → Digest)

def answer (req : Bytes) : Except AfpErr (Bytes × Bytes) → Result × Bytes
  | .error _ => (resParamErr, [])
  | .ok (aBytes, m1) =>
    (w.pick req aBytes m1).elim (srpAuthFailure, []) fun K =>
      (resNoErr, putU16 srpServerProof ++ (putU16 (UInt16.ofNat srpHashLen) ++
        (hash [aBytes, m1, K].flatten).toList))

def reply (sent : List Bytes) : Result × Bytes :=
  w.answer hash (sent.headD []) (Reader.parse readSrpClientProof ((sent.getLastD []).drop 4))

end KeySearch

namespace SrpClient

variable {hash : Bytes → Digest} (x : SrpClient hash) (p : SrpParams)

def request : Bytes := x.session.loginRequest uamSRP (putPascal x.username)

def proof : SrpProof := p.proof x.crypto x.username x.password

/-- What the server learns from the client. -/
def shows : Bytes × Bytes × Bytes := (x.request, natBytes (x.proof p).A, (x.proof p).m1)

def login (payload : Bytes) {n : ℕ∞} (w : KeySearch n) : Except AfpErr Unit :=
  ((x.session.loginSRP x.crypto (forger payload (w.reply hash)) x.username x.password).on []).1

/-- The key that the server answers with. -/
def guess {n : ℕ∞} (w : KeySearch n) : Option Bytes :=
  w.pick x.request (natBytes (x.proof p).A) (x.proof p).m1

end SrpClient

/-- The keys of the clients that send this first request and this `A`. -/
def SrpParams.clientKeys (p : SrpParams) (hash : Bytes → Digest) (req aBytes : Bytes) : Set Bytes :=
  {K | ∃ x : SrpClient hash, p.u x.crypto ≠ 0 ∧ x.request = req ∧
    natBytes (x.proof p).A = aBytes ∧ (x.proof p).K = K}

theorem SrpParams.Accepted.public_length {p : SrpParams} (h : p.Accepted) (c : Crypto) :
    (natBytes (p.publicValue c)).length ≤ p.width := by
  rw [natBytes_length]
  exact byteLen_le.mpr (h.mod_lt _)

section Login

variable {hash : Bytes → Digest} {n : ℕ∞} {payload : Bytes} {p : SrpParams}
  (hp : Reader.parse readSrpParams payload = .ok p)

include hp

variable (hacc : p.Accepted) (x : SrpClient hash) (w : KeySearch n)

include hacc

theorem SrpClient.reply_eq :
    w.reply hash [x.request, Session.loginContRequest p.context16 (x.proof p).block] =
      (x.guess p w).elim (srpAuthFailure, []) fun K =>
        (resNoErr, putU16 srpServerProof ++ (putU16 (UInt16.ofNat srpHashLen) ++
          x.crypto.srpM2 (x.proof p).A (x.proof p).m1 K)) := by
  have hA : (natBytes (x.proof p).A).length < 65536 :=
    (hacc.public_length x.crypto).trans_lt (readSrpParams_width hp)
  have hparse := parse_block hA (SrpServer.sha1Sum_length x.crypto _)
  have hdrop (req block : Bytes) :
      ([req, Session.loginContRequest p.context16 block].getLastD []).drop 4 = block := rfl
  rw [KeySearch.reply, hdrop, hparse, SrpClient.guess]
  obtain ⟨s, c, rfl, username, password⟩ := x
  rfl

theorem SrpClient.login_eq (hu : p.u x.crypto ≠ 0) :
    x.login payload w = (x.guess p w).elim (.error (.result "SRP login" srpAuthFailure)) fun K =>
      if x.crypto.srpM2 (x.proof p).A (x.proof p).m1 K =
        x.crypto.srpM2 (x.proof p).A (x.proof p).m1 (x.proof p).K then .ok ()
      else .error (.text "afp: SRP: server proof (M2) mismatch" []) := by
  have hproof : x.crypto.srpProof p x.username x.password = .ok (x.proof p) :=
    (SrpParams.srpProof_of_accepted x.crypto hacc x.username x.password).trans (if_neg hu)
  have hreply := x.reply_eq hp hacc w
  rw [SrpClient.request] at hreply
  rw [SrpClient.login, loginSRP_forger hp hproof, hreply]
  cases x.guess p w with
  | none => rfl
  | some K =>
    have hm : (x.crypto.srpM2 (x.proof p).A (x.proof p).m1 K).length = srpHashLen :=
      SrpServer.sha1Sum_length x.crypto _
    have hbind (y : Except AfpErr Unit) :
        ((Except.ok () : Except AfpErr Unit) >>= fun _ => y) = y := rfl
    rw [Option.elim_some, Option.elim_some, resultErr_noErr, hbind]
    exact SrpServer.srpVerify_proof x.crypto (x.proof p) hm

end Login

section Forgery

variable {hash : Bytes → Digest} {n : ℕ∞} {payload : Bytes} {p : SrpParams}
  (hp : Reader.parse readSrpParams payload = .ok p)

include hp

omit hp in
/-- Tries the keys of all clients that look alike, and picks by what the client shows. -/
noncomputable def SrpParams.search (p : SrpParams) (hash : Bytes → Digest)
    (hfew : ∀ req aBytes, (p.clientKeys hash req aBytes).encard ≤ n) : KeySearch n where
  keys := p.clientKeys hash
  few := hfew
  pick req aBytes m1 :=
    open Classical in
    if h : ∃ x : SrpClient hash, p.u x.crypto ≠ 0 ∧ x.shows p = (req, aBytes, m1) then
      some (h.choose.proof p).K
    else none
  mem {req aBytes m1 K} hK := by
    split_ifs at hK with h
    obtain ⟨hu, hshows⟩ := h.choose_spec
    obtain ⟨hreq, hrest⟩ := Prod.mk.inj hshows
    exact ⟨_, hu, hreq, (Prod.mk.inj hrest).1, Option.some.inj hK⟩

end Forgery

/-- The first reply with these parameters. -/
def SrpParams.encode (p : SrpParams) (group : UInt16) : Bytes :=
  let sized (b : Bytes) := putU16 (UInt16.ofNat b.length) ++ b
  putU16 p.context16 ++ putU16 group ++ sized p.nBytes ++ sized p.gBytes ++ sized p.salt ++
    sized p.bBytes

/-- The shared secret is 1, whatever the password and the client's secret. -/
def SrpParams.Collapses (p : SrpParams) (k : Nat) : Prop :=
  p.B ≡ k + 1 [MOD p.N] ∧ k * p.g ≡ k [MOD p.N]

theorem SrpParams.base_eq_one {p : SrpParams} (hN : p.N ≠ 0) {k x : Nat}
    (h : p.B ≡ k * p.g ^ x + 1 [MOD p.N]) : p.base k x = 1 % p.N := by
  have hpos : (0 : Int) < p.N := by exact_mod_cast Nat.pos_of_ne_zero hN
  have hbase : (p.base k x : Int) = ((p.B : Int) - (k * (p.g ^ x % p.N) : Nat)) % (p.N : Int) :=
    Int.toNat_of_nonneg (Int.emod_nonneg _ hpos.ne')
  have hpow : k * (p.g ^ x % p.N) + 1 ≡ k * p.g ^ x + 1 [MOD p.N] :=
    ((Nat.mod_modEq _ _).mul_left k).add_right 1
  have hmod := Int.natCast_modEq_iff.mpr (h.trans hpow.symm)
  have hsub := hmod.sub_right ((k * (p.g ^ x % p.N) : Nat) : Int)
  rw [Nat.cast_add, add_sub_cancel_left] at hsub
  apply Int.ofNat.inj
  rw [Int.ofNat_eq_natCast, hbase, hsub.eq]
  push_cast
  rfl

theorem SrpParams.Collapses.S {p : SrpParams} {c : Crypto} (h : p.Collapses (p.k c)) (hN : p.N ≠ 0)
    (x : Nat) : p.S c x = 1 % p.N := by
  have hpow : p.k c * p.g ^ x ≡ p.k c [MOD p.N] := by
    induction x with
    | zero => rw [pow_zero, Nat.mul_one]
    | succ x ih =>
      rw [pow_succ, ← Nat.mul_assoc]
      exact (ih.mul_right p.g).trans h.2
  have hbase := SrpParams.base_eq_one hN (h.1.trans (hpow.add_right 1).symm)
  rw [SrpParams.S, hbase, ← Nat.pow_mod, one_pow]

end GoAfp
