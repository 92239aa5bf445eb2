import GoAfp.Srp
import Mathlib.Data.Int.ModEq
import Mathlib.Data.Nat.ModEq

/-! The server side of SRP, as in the server of the source's tests but for any
group, and the login of a client that knows the password. -/

namespace GoAfp

def srpAuthFailure : Result := -6754

/-- A server that holds the verifier for one user. The prime may have leading
zeros; its byte length is the padding width. -/
structure SrpServer where
  username : Bytes
  password : Bytes
  context16 : UInt16
  nBytes : Bytes
  gBytes : Bytes
  salt : Bytes
  b : Nat
  nBytes_pos : 0 < natOfBytes nBytes
  nBytes_length : nBytes.length < 65536
  gBytes_length : gBytes.length < 65536
  gBytes_lt : natOfBytes gBytes < 256 ^ nBytes.length
  salt_length : salt.length < 65536

def pascalParse : Bytes → Bytes × Bytes
  | [] => ([], [])
  | n :: b => if n.toNat > b.length then ([], []) else (b.take n.toNat, b.drop n.toNat)

def Crypto.srpU (c : Crypto) (width A B : Nat) : Nat :=
  natOfBytes (c.sha1Sum [fillBytes width A, fillBytes width B])

namespace SrpServer

variable (v : SrpServer) (c : Crypto)

def N : Nat := natOfBytes v.nBytes

def g : Nat := natOfBytes v.gBytes

def width : Nat := v.nBytes.length

def verifier : Nat := v.g ^ c.srpX v.salt v.username v.password % v.N

def k : Nat := natOfBytes (c.sha1Sum [fillBytes v.width v.N, fillBytes v.width v.g])

def B : Nat := (v.k c * v.verifier c + v.g ^ v.b % v.N) % v.N

def round1 : Result × Bytes :=
  (resAuthContinue, putU16 v.context16 ++ (putU16 2 ++
    ((putU16 (UInt16.ofNat v.width) ++ fillBytes v.width v.N) ++
    ((putU16 (UInt16.ofNat v.gBytes.length) ++ v.gBytes) ++
    ((putU16 (UInt16.ofNat v.salt.length) ++ v.salt) ++
    (putU16 (UInt16.ofNat v.width) ++ fillBytes v.width (v.B c)))))))

def S (A : Nat) : Nat := (A * (v.verifier c ^ c.srpU v.width A (v.B c) % v.N)) ^ v.b % v.N

def round2 (auth : Bytes) : Result × Bytes :=
  let (step, r) := (Reader.u16 "step").run { b := auth }
  if step ≠ srpClientProof then (resParamErr, []) else
  let (aBytes, r) := (Reader.sized "A len" "A").run r
  let (m1, r) := (Reader.sized "M1 len" "M1").run r
  if r.err.isSome then (resParamErr, []) else
  let A := natOfBytes aBytes
  let K := c.mgf1SHA1 (natBytes (v.S c A)) 40
  if m1 ≠ c.srpM1 v.N v.g v.username v.salt A (v.B c) K then (srpAuthFailure, [])
  else (resNoErr, putU16 srpServerProof ++ (putU16 (UInt16.ofNat srpHashLen) ++ c.srpM2 A m1 K))

def handle : Bytes → Result × Bytes
  | [] => (resCallNotSupported, [])
  | cmd :: rest =>
    if cmd = cmdLogin then
      let (_, rest) := pascalParse rest
      let (uam, rest) := pascalParse rest
      if uam ≠ uamSRP then (resBadUAM, []) else
      let (user, _) := pascalParse rest
      if user ≠ v.username then (resUserNotAuth, []) else v.round1 c
    else if cmd = cmdLoginCont then v.round2 c (rest.drop 3)
    else (resCallNotSupported, [])

def send (reqID : UInt16) (reply : Result × Bytes) : Outcome :=
  .reply
    ⟨{ flags := flagReply, command := cmdCommand, requestID := reqID, errCode := reply.1.toUInt32
       length := UInt32.ofNat reply.2.length }, reply.2, none⟩

def peer : Peer :=
  fun sent => send (UInt16.ofNat sent.length) (v.handle c (sent.getLastD []))

def params : SrpParams :=
  ⟨v.context16, v.nBytes, v.gBytes, v.salt, fillBytes v.width (v.B c)⟩

def clientSecret : Nat := natOfBytes (c.rand 0 v.width).toList % v.N

def clientPublic : Nat := v.g ^ v.clientSecret c % v.N

theorem N_lt : v.N < 256 ^ v.width := natOfBytes_lt v.nBytes

theorem mod_N_lt (n : Nat) : n % v.N < 256 ^ v.width :=
  (Nat.mod_lt n v.nBytes_pos).trans v.N_lt

theorem fillBytes_N : fillBytes v.width v.N = v.nBytes := fillBytes_natOfBytes v.nBytes

theorem base_eq :
    (((v.B c : Nat) : Int) - (v.k c * v.verifier c : Nat)) % (v.N : Int) =
      (v.g ^ v.b % v.N : Nat) := by
  have hB : ((v.B c : Nat) : Int) =
      ((v.k c * v.verifier c : Nat) + (v.g ^ v.b % v.N : Nat)) % (v.N : Int) := by
    simp [B]
  rw [hB, Int.emod_sub_emod, add_sub_cancel_left]
  exact_mod_cast Nat.mod_mod (v.g ^ v.b) v.N

theorem shared_eq (N g a b u x : Nat) :
    (g ^ b % N) ^ (a + u * x) % N = (g ^ a % N * ((g ^ x % N) ^ u % N)) ^ b % N := by
  have hl : (g ^ b % N) ^ (a + u * x) ≡ (g ^ b) ^ (a + u * x) [MOD N] := (Nat.mod_modEq _ _).pow _
  have hx : (g ^ x % N) ^ u % N ≡ (g ^ x) ^ u [MOD N] :=
    (Nat.mod_modEq _ _).trans ((Nat.mod_modEq _ _).pow _)
  have hr : (g ^ a % N * ((g ^ x % N) ^ u % N)) ^ b ≡ (g ^ a * (g ^ x) ^ u) ^ b [MOD N] :=
    ((Nat.mod_modEq _ _).mul hx).pow _
  have he : (g ^ b) ^ (a + u * x) = (g ^ a * (g ^ x) ^ u) ^ b := by ring
  exact hl.trans ((congrArg (· % N) he).trans hr.symm)

def clientProof : SrpProof :=
  let A := v.clientPublic c
  let K := c.mgf1SHA1 (natBytes (v.S c A)) 40
  ⟨A, v.S c A, K, c.srpM1 v.N v.g v.username v.salt A (v.B c) K⟩

theorem params_B : (v.params c).B = v.B c := natOfBytes_fillBytes (v.mod_N_lt _)

theorem params_accepted (hB : v.B c ≠ 0) : (v.params c).Accepted where
  N_ne := v.nBytes_pos.ne'
  B_ne := (v.params_B c).symm ▸ hB
  g_lt := v.gBytes_lt
  B_lt := (v.params_B c).symm ▸ v.mod_N_lt _

theorem params_u : (v.params c).u c = c.srpU v.width (v.clientPublic c) (v.B c) := by
  rw [SrpParams.u, v.params_B, Crypto.srpU, Crypto.sha1Sum, List.flatten_cons,
    List.flatten_singleton]
  rfl

theorem params_base : (v.params c).base ((v.params c).k c) (c.srpX v.salt v.username v.password) =
    v.g ^ v.b % v.N := by
  have hk : (v.params c).k c = v.k c := by
    rw [SrpParams.k, SrpParams.multiplied, k, Crypto.sha1Sum, List.flatten_cons,
      List.flatten_singleton, v.fillBytes_N]
    rfl
  rw [SrpParams.base, v.params_B, hk]
  exact (congrArg Int.toNat (v.base_eq c)).trans (Int.toNat_natCast _)

theorem params_S :
    (v.params c).S c (c.srpX v.salt v.username v.password) = v.S c (v.clientPublic c) := by
  rw [SrpParams.S, params_base, params_u]
  exact shared_eq v.N v.g (v.clientSecret c) v.b _ _

theorem srpProof_eq (hB : v.B c ≠ 0) (hu : c.srpU v.width (v.clientPublic c) (v.B c) ≠ 0) :
    c.srpProof (v.params c) v.username v.password = .ok (v.clientProof c) := by
  rw [SrpParams.srpProof_of_accepted c (v.params_accepted c hB), if_neg ((v.params_u c).symm ▸ hu)]
  have hS : (v.params c).S c (c.srpX (v.params c).salt v.username v.password) = v.S c
      (v.clientPublic c) := v.params_S c
  simp only [SrpParams.proof, clientProof, hS, v.params_B]
  rfl

theorem send_result (id : UInt16) (reply : Result × Bytes) :
    (send id reply).result = .ok (reply.2, reply.1) := by
  simp [send, Outcome.result]

theorem pascalParse_putPascal (b rest : Bytes) :
    pascalParse (putPascal b ++ rest) = (b.take 255, rest) := by
  have hlen : (b.take 255).length < 256 := by
    rw [List.length_take]
    omega
  have hn : (UInt8.ofNat (b.take 255).length).toNat = (b.take 255).length := by
    rw [UInt8.toNat_ofNat', Nat.mod_eq_of_lt hlen]
  have hle : ¬ (b.take 255).length > (b.take 255 ++ rest).length := by
    rw [List.length_append]
    omega
  simp only [putPascal, List.cons_append, pascalParse, hn, if_neg hle, List.take_left',
    List.drop_left']

theorem pascalParse_short {b : Bytes} (h : b.length ≤ 255) :
    pascalParse (putPascal b) = (b, []) := by
  have hp := pascalParse_putPascal b []
  rwa [List.append_nil, List.take_of_length_le h] at hp

theorem handle_login (s : Session) (h : v.username.length ≤ 255) :
    v.handle c (s.loginRequest uamSRP (putPascal v.username)) = v.round1 c := by
  have huam : uamSRP.take 255 = uamSRP := by decide
  simp only [Session.loginRequest, List.cons_append, List.append_assoc, handle, if_true,
    pascalParse_putPascal, huam, ne_eq, not_true_eq_false, if_false, pascalParse_short h]

theorem handle_loginCont (id : UInt16) (auth : Bytes) :
    v.handle c (Session.loginContRequest id auth) = v.round2 c auth := by
  have hdrop : (0 :: putU16 id ++ auth).drop 3 = auth := rfl
  have hcmd : cmdLoginCont ≠ cmdLogin := by decide
  simp only [Session.loginContRequest, List.cons_append, handle, if_neg hcmd, if_true]
  exact congrArg (v.round2 c) hdrop

theorem round1_parse : Reader.parse readSrpParams (v.round1 c).2 = .ok (v.params c) := by
  have hB : (fillBytes v.width (v.B c)).length = v.width := fillBytes_length _ _
  have hw : v.width < 65536 := v.nBytes_length
  have hbB : Reader.Reads (Reader.sized "B length" "B")
      (putU16 (UInt16.ofNat v.width) ++ fillBytes v.width (v.B c)) (fillBytes v.width (v.B c)) := by
    have h :=
      Reader.reads_sized (v := fillBytes v.width (v.B c)) "B length" "B" (by rw [hB]; exact hw)
    rwa [hB] at h
  have h : Reader.Reads readSrpParams _ (v.params c) :=
    (Reader.reads_u16 v.context16 _).bind ((Reader.reads_u16 2 _).bind
      ((Reader.reads_sized _ _ v.nBytes_length).bind ((Reader.reads_sized _ _ v.gBytes_length).bind
        ((Reader.reads_sized _ _ v.salt_length).bind (hbB.bind (Reader.Reads.pure _))))))
  have hp := h.parse_eq []
  simp only [List.append_nil] at hp
  rw [round1, fillBytes_N]
  exact hp

theorem clientPublic_bytes_length : (natBytes (v.clientPublic c)).length < 65536 := by
  have hle : byteLen (v.clientPublic c) ≤ v.width := byteLen_le.mpr (v.mod_N_lt _)
  rw [natBytes_length]
  exact hle.trans_lt v.nBytes_length

theorem sha1Sum_length (parts : List Bytes) : (c.sha1Sum parts).length = srpHashLen :=
  Vector.length_toList

def serverProof : Bytes :=
  putU16 srpServerProof ++ (putU16 (UInt16.ofNat srpHashLen) ++
    c.srpM2 (v.clientPublic c) (v.clientProof c).m1 (v.clientProof c).K)

theorem round2_accepts : v.round2 c (v.clientProof c).block = (resNoErr, v.serverProof c) := by
  let q := v.clientProof c
  have hm : q.m1.length = srpHashLen := sha1Sum_length c _
  have hA := Reader.reads_sized (v := natBytes q.A) "A len" "A" (v.clientPublic_bytes_length c)
  have hM : Reader.Reads (Reader.sized "M1 len" "M1")
      (putU16 (UInt16.ofNat srpHashLen) ++ q.m1) q.m1 := by
    have h := Reader.reads_sized (v := q.m1) "M1 len" "M1" (by rw [hm]; decide)
    rwa [hm] at h
  let encA := putU16 (UInt16.ofNat (natBytes q.A).length) ++ natBytes q.A
  let encM := putU16 (UInt16.ofNat srpHashLen) ++ q.m1
  have hb : q.block = putU16 srpClientProof ++ (encA ++ encM) := List.append_assoc ..
  have h₁ : (Reader.u16 "step").run { b := q.block } = (srpClientProof, ⟨q.block, 2, none⟩) :=
    (Reader.reads_u16 srpClientProof "step").run_at [] (encA ++ encM) hb rfl
  have h₂ : (Reader.sized "A len" "A").run ⟨q.block, 2, none⟩ =
      (natBytes q.A, ⟨q.block, 2 + encA.length, none⟩) :=
    hA.run_at (putU16 srpClientProof) encM hb rfl
  have h₃ : (Reader.sized "M1 len" "M1").run ⟨q.block, 2 + encA.length, none⟩ =
      (q.m1, ⟨q.block, 2 + encA.length + encM.length, none⟩) := by
    refine hM.run_at (putU16 srpClientProof ++ encA) [] ?_ ?_
    · rw [hb, List.append_nil]
      exact (List.append_assoc ..).symm
    · exact (@List.length_append _ (putU16 srpClientProof) encA).symm
  change v.round2 c q.block = _
  simp only [round2, h₁, h₂, h₃, natOfBytes_natBytes]
  simp only [ne_eq, not_true_eq_false, if_false, Option.isSome_none, Bool.false_eq_true]
  exact if_neg (not_not.mpr rfl)

/-- What the client makes of a well-formed final reply. -/
theorem srpVerify_proof (c : Crypto) (q : SrpProof) {m2 : Bytes} (hm : m2.length = srpHashLen) :
    c.srpVerify q (putU16 srpServerProof ++ (putU16 (UInt16.ofNat srpHashLen) ++ m2)) =
      if m2 = c.srpM2 q.A q.m1 q.K then .ok ()
      else .error (.text "afp: SRP: server proof (M2) mismatch" []) := by
  have hM : Reader.Reads readSrpM2 (putU16 (UInt16.ofNat srpHashLen) ++ m2) m2 := by
    have h := Reader.reads_sized (v := m2) "M2 length" "M2" (by rw [hm]; decide)
    rwa [hm] at h
  let encM := putU16 (UInt16.ofNat srpHashLen) ++ m2
  let b := putU16 srpServerProof ++ encM
  have h₁ : (Reader.u16 "srp step").run { b := b } = (srpServerProof, ⟨b, 2, none⟩) :=
    (Reader.reads_u16 srpServerProof "srp step").run_at [] encM rfl rfl
  have h₂ : readSrpM2.run ⟨b, 2, none⟩ = (m2, ⟨b, 2 + encM.length, none⟩) :=
    hM.run_at (putU16 srpServerProof) [] (by rw [List.append_nil]) rfl
  change c.srpVerify q b = _
  simp only [Crypto.srpVerify, h₁, h₂]
  rw [if_neg (not_not.mpr rfl)]
  by_cases he : m2 = c.srpM2 q.A q.m1 q.K
  · rw [if_pos he]
    exact if_neg (not_not.mpr he)
  · rw [if_neg he]
    exact if_pos he

theorem srpVerify_accepts (c : Crypto) (q : SrpProof) : c.srpVerify q
    (putU16 srpServerProof ++ (putU16 (UInt16.ofNat srpHashLen) ++ c.srpM2 q.A q.m1 q.K)) =
      .ok () := by
  have hm : (c.srpM2 q.A q.m1 q.K).length = srpHashLen := sha1Sum_length c _
  rw [srpVerify_proof c q hm, if_pos rfl]

theorem command_peer (req : Bytes) (sent : List Bytes) :
    (Session.command (v.peer c) req).on sent =
      (.ok ((v.handle c req).2, (v.handle c req).1), sent ++ [req]) := by
  rw [Session.command_on, peer, List.getLastD_concat, send_result]

end SrpServer

/-- An honest server and a client with the password agree on the key, and each
accepts the other's proof. -/
theorem srp_complete (s : Session) (c : Crypto) (v : SrpServer) (huser : v.username.length ≤ 255)
    (hB : v.B c ≠ 0) (hu : c.srpU v.width (v.clientPublic c) (v.B c) ≠ 0) :
    ∃ q, c.srpProof (v.params c) v.username v.password = .ok q ∧ q.S = v.S c q.A ∧
      (v.round2 c q.block).1 = resNoErr ∧
      (s.loginSRP c (v.peer c) v.username v.password).on [] =
        (.ok (),
          [s.loginRequest uamSRP (putPascal v.username),
            Session.loginContRequest v.context16 q.block]) := by
  have hq := v.srpProof_eq c hB hu
  refine ⟨v.clientProof c, hq, rfl, congrArg Prod.fst (v.round2_accepts c), ?_⟩
  let req := s.loginRequest uamSRP (putPascal v.username)
  have h₁ : (s.login (v.peer c) uamSRP (putPascal v.username)).on [] =
      (.ok ((v.round1 c).2, resAuthContinue), [req]) := by
    rw [Session.login, v.command_peer, v.handle_login c s huser]
    rfl
  have h₂ : (Session.loginCont (v.peer c) v.context16 (v.clientProof c).block).on [req] =
      (.ok (v.serverProof c, resNoErr),
        [req, Session.loginContRequest v.context16 (v.clientProof c).block]) := by
    rw [Session.loginCont, v.command_peer, v.handle_loginCont, v.round2_accepts]
    rfl
  rw [Session.loginSRP, Proc.on_bind_ok h₁]
  simp only [ne_eq, not_true_eq_false, if_false]
  rw [v.round1_parse c, Proc.on_bind_ok (Proc.on_lift _ _), hq, Proc.on_bind_ok (Proc.on_lift _ _)]
  change ((Session.loginCont (v.peer c) v.context16 (v.clientProof c).block) >>= _).on [req] = _
  have hverify : c.srpVerify (v.clientProof c) (v.serverProof c) = .ok () :=
    SrpServer.srpVerify_accepts c _
  rw [Proc.on_bind_ok h₂, resultErr_noErr, Proc.on_bind_ok (Proc.on_lift _ _), hverify]
  rfl

def smallServer : SrpServer where
  username := ascii "alice"
  password := ascii "hunter2"
  context16 := 7
  nBytes := [23]
  gBytes := [5]
  salt := [1, 2]
  b := 3
  nBytes_pos := by decide
  nBytes_length := by decide
  gBytes_length := by decide
  gBytes_lt := by decide
  salt_length := by decide

theorem srp_complete_smallServer :
    ∃ sent,
      (Session.loginSRP ⟨ascii "AFP3.4"⟩ constCrypto (smallServer.peer constCrypto) (ascii "alice")
      (ascii "hunter2")).on [] = (.ok (), sent) :=
  let ⟨_, _, _, _, h⟩ :=
    srp_complete ⟨ascii "AFP3.4"⟩ constCrypto smallServer (by decide) (by decide) (by decide)
  ⟨_, h⟩

end GoAfp
