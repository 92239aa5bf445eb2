import GoAfp.LoginProof
import GoAfp.SrpServer
import Mathlib.Data.List.DropRight

/-! The server side of DHX2, as in the server of the source's tests but for
any group and any nonces, and the login of a client against it. -/

namespace GoAfp

theorem incNonce_eq (nonce : Bytes) :
    incNonce nonce = fillBytes nonce.length (natOfBytes nonce + 1) := by
  unfold incNonce
  generalize natOfBytes nonce + 1 = v
  have hb := natBytes_length v
  by_cases hlen : (natBytes v).length > nonce.length
  · have hdrop : (natBytes v).drop ((natBytes v).length - nonce.length) =
        fillBytes nonce.length v := by
      have h := drop_fillBytes (byteLen v - nonce.length) nonce.length v
      rw [Nat.sub_add_cancel (by omega)] at h
      rw [hb]
      exact h
    simp only [if_pos hlen, hdrop, fillBytes_length, Nat.sub_self, List.replicate_zero,
      List.nil_append]
  · have hpad :=
      replicate_fillBytes (nonce.length - byteLen v) (byteLen_le.mp (le_refl (byteLen v)))
    rw [Nat.sub_add_cancel (by omega)] at hpad
    simp only [if_neg hlen]
    rw [hb]
    exact hpad

section Cbc

variable (block : Equiv.Perm Block)

theorem Block.ofBytes_append (x : Block) (rest : Bytes) : Block.ofBytes (x.toList ++ rest) = x := by
  ext i hi
  have hlt : i < x.toList.length := by simpa using hi
  simp [Block.ofBytes, List.getD_eq_getElem?_getD, List.getElem?_append_left hlt, hi]

theorem Block.toList_ofBytes {b : Bytes} (h : 8 ≤ b.length) :
    (Block.ofBytes b).toList = b.take 8 := by
  apply List.ext_getElem
  · simp
    omega
  · intro i hi hi'
    have hlt : i < b.length := by
      simp only [Vector.length_toList] at hi
      omega
    simp [Block.ofBytes, List.getD_eq_getElem?_getD, List.getElem?_eq_getElem hlt]

theorem Block.xor_xor (x y : Block) : x.xor (x.xor y) = y := by
  have hbyte (a b : UInt8) : a ^^^ (a ^^^ b) = b := by
    rw [← UInt8.xor_assoc, UInt8.xor_self, UInt8.zero_xor]
  ext i hi
  simp only [Block.xor, Vector.getElem_zipWith, hbyte]

theorem cbcEncryptBlocks_length (iv : Block) (n : Nat) (plain : Bytes) :
    (cbcEncryptBlocks block iv n plain).length = 8 * n := by
  induction n generalizing iv plain with
  | zero => rfl
  | succ n ih =>
    simp only [cbcEncryptBlocks, List.length_append, Vector.length_toList, ih]
    omega

theorem cbcDecryptBlocks_encrypt (iv : Block) (n : Nat) (plain : Bytes) (h : plain.length = 8 * n) :
    cbcDecryptBlocks block iv n (cbcEncryptBlocks block iv n plain) = plain := by
  induction n generalizing iv plain with
  | zero =>
    obtain rfl : plain = [] := List.length_eq_zero_iff.mp h
    rfl
  | succ n ih =>
    let ct := block (iv.xor (Block.ofBytes plain))
    let rest := cbcEncryptBlocks block ct n (plain.drop 8)
    have hdrop : (ct.toList ++ rest).drop 8 = rest := List.drop_left' Vector.length_toList
    have hfirst : (iv.xor (block.symm ct)).toList = plain.take 8 := by
      rw [show block.symm ct = iv.xor (Block.ofBytes plain) from block.symm_apply_apply _,
        Block.xor_xor, Block.toList_ofBytes (by omega)]
    have hrest := ih ct (plain.drop 8) (by rw [List.length_drop]; omega)
    change (iv.xor (block.symm (Block.ofBytes (ct.toList ++ rest)))).toList ++
      cbcDecryptBlocks block (Block.ofBytes (ct.toList ++ rest)) n
        ((ct.toList ++ rest).drop 8) = plain
    rw [Block.ofBytes_append, hdrop, hfirst, hrest, List.take_append_drop]

theorem cbcEncrypt_eq {iv : Block} {plain : Bytes} {n : Nat} (h : plain.length = 8 * n) :
    cbcEncrypt block iv plain = .ok (cbcEncryptBlocks block iv n plain) := by
  have hw : wholeBlocks plain = .ok n := by simp [wholeBlocks, h]
  rw [cbcEncrypt, hw]
  rfl

theorem cbcDecrypt_encrypt {iv : Block} {plain : Bytes} {n : Nat} (h : plain.length = 8 * n) :
    cbcDecrypt block iv (cbcEncryptBlocks block iv n plain) = .ok plain := by
  have hw : wholeBlocks (cbcEncryptBlocks block iv n plain) = .ok n := by
    simp [wholeBlocks, cbcEncryptBlocks_length]
  rw [cbcDecrypt, hw]
  exact congrArg Except.ok (cbcDecryptBlocks_encrypt block iv n plain h)

end Cbc

/-- A server that knows one account. The two replies may carry different
transaction IDs. -/
structure Dhx2Server where
  username : Bytes
  password : Bytes
  loginID : UInt16
  contID : UInt16
  g : Nat
  p : Nat
  keyLen : Nat
  b : Nat
  serverNonce : Vector UInt8 16
  g_ne : g ≠ 0
  g_lt : g < 256 ^ 4
  p_size : 64 ≤ p.size
  p_lt : p < 256 ^ keyLen
  keyLen_pos : 0 < keyLen
  keyLen_le : keyLen ≤ dhx2MaxKeyLen

inductive Dhx2Step
  | fresh
  | offered
  | keyed (key : Vector UInt8 16)
  deriving DecidableEq

/-- The nonce plus one as a 128-bit number. -/
def nextNonce (nonce : Bytes) : Bytes := fillBytes 16 ((natOfBytes nonce + 1) % 2 ^ 128)

namespace Dhx2Server

variable (v : Dhx2Server) (c : Crypto)

def mb : Nat := v.g ^ v.b % v.p

def step1 : Result × Bytes :=
  (resAuthContinue, putU16 v.loginID ++ (fillBytes 4 v.g ++ (putU16 (UInt16.ofNat v.keyLen) ++
    (fillBytes v.keyLen v.p ++ fillBytes v.keyLen v.mb))))

def sessionKey (ma : Bytes) : Vector UInt8 16 :=
  c.md5 (fillBytes v.keyLen (natOfBytes ma ^ v.b % v.p))

def nonceBlock (key : Vector UInt8 16) (ct : Bytes) : Bytes :=
  let clientNonce := cbcDecryptBlocks (c.cast5 key) dhxClientIV 2 ct
  cbcEncryptBlocks (c.cast5 key) dhxServerIV 4 (nextNonce clientNonce ++ v.serverNonce.toList)

def step2 (auth : Bytes) : Dhx2Step × (Result × Bytes) :=
  if auth.length ≠ v.keyLen + dhx2NonceLen then (.offered, resParamErr, []) else
  let key := v.sessionKey c (auth.take v.keyLen)
  (.keyed key, resAuthContinue, putU16 v.contID ++ v.nonceBlock c key (auth.drop v.keyLen))

/-- The password of the last message, once its nonce is the one expected. -/
def openFinal (key : Vector UInt8 16) (auth : Bytes) : Except Result Bytes :=
  let plain := cbcDecryptBlocks (c.cast5 key) dhxClientIV (auth.length / 8) auth
  if plain.length ≠ dhx2NonceLen + 256 then .error resParamErr
  else if plain.take dhx2NonceLen ≠ nextNonce v.serverNonce.toList then .error resUserNotAuth
  else .ok ((plain.drop dhx2NonceLen).rdropWhile (· = 0))

def step3 (key : Vector UInt8 16) (auth : Bytes) : Result × Bytes :=
  match v.openFinal c key auth with
  | .error code => (code, [])
  | .ok pw => if pw ≠ v.password then (resUserNotAuth, []) else (resNoErr, [])

def handle (st : Dhx2Step) : Bytes → Dhx2Step × (Result × Bytes)
  | [] => (st, resCallNotSupported, [])
  | cmd :: rest =>
    if cmd = cmdLogin then
      let (_, rest) := pascalParse rest
      let (uam, rest) := pascalParse rest
      if uam ≠ uamDHX2 then (st, resBadUAM, []) else
      let (user, _) := pascalParse rest
      if user ≠ v.username then (st, resUserNotAuth, []) else (.offered, v.step1)
    else if cmd = cmdLoginCont then
      let id := UInt16.ofNat (natOfBytes ((rest.drop 1).take 2))
      match st with
      | .fresh => (st, resParamErr, [])
      | .offered => if id ≠ v.loginID then (st, resParamErr, []) else v.step2 c (rest.drop 3)
      | .keyed key =>
        if id ≠ v.contID then (st, resParamErr, []) else (st, v.step3 c key (rest.drop 3))
    else (st, resCallNotSupported, [])

def serve (sent : List Bytes) : Dhx2Step × (Result × Bytes) :=
  sent.foldl (fun st req => v.handle c st.1 req) (.fresh, resCallNotSupported, [])

def peer : Peer :=
  fun sent => SrpServer.send (UInt16.ofNat sent.length) (v.serve c sent).2

def params : Dhx2Params := ⟨v.loginID, v.g, v.keyLen, v.p, v.mb⟩

def clientSecret : Nat := natOfBytes (c.rand 0 v.keyLen).toList

def clientKeys : Dhx2Keys where
  ma := fillBytes v.keyLen (v.g ^ v.clientSecret c % v.p)
  block := c.cast5 (c.md5 (fillBytes v.keyLen (v.mb ^ v.clientSecret c % v.p)))
  clientNonce := (c.rand 1 dhx2NonceLen).toList

theorem p_pos : 0 < v.p := by
  have h := v.p_size
  rcases Nat.eq_zero_or_pos v.p with hz | hpos
  · simp [hz] at h
  · exact hpos

theorem mod_p_lt (n : Nat) : n % v.p < 256 ^ v.keyLen := (Nat.mod_lt n v.p_pos).trans v.p_lt

theorem keyLen_lt : v.keyLen < 65536 := by
  have h := v.keyLen_le
  simp only [dhx2MaxKeyLen] at h
  omega

theorem step1_params : dhx2Params v.step1.2 = .ok v.params := by
  let b := v.step1.2
  let encG := fillBytes 4 v.g
  let encLen := putU16 (UInt16.ofNat v.keyLen)
  let encP := fillBytes v.keyLen v.p
  let encMb := fillBytes v.keyLen v.mb
  have hk : (UInt16.ofNat v.keyLen).toNat = v.keyLen := by
    rw [UInt16.toNat_ofNat', Nat.mod_eq_of_lt v.keyLen_lt]
  have hb : b = putU16 v.loginID ++ (encG ++ (encLen ++ (encP ++ encMb))) := rfl
  have h₁ : (Reader.u16 "transaction id").run { b := b } = (v.loginID, ⟨b, 2, none⟩) :=
    (Reader.reads_u16 v.loginID "transaction id").run_at [] _ hb rfl
  have h₂ : (Reader.take 4 "g").run ⟨b, 2, none⟩ = (encG, ⟨b, 2 + encG.length, none⟩) :=
    (Reader.reads_take "g" (fillBytes_length _ _)).run_at (putU16 v.loginID) _ hb rfl
  have h₃ : (Reader.u16 "key length").run ⟨b, 2 + encG.length, none⟩ =
      (UInt16.ofNat v.keyLen, ⟨b, 2 + encG.length + encLen.length, none⟩) := by
    refine (Reader.reads_u16 (UInt16.ofNat v.keyLen) "key length").run_at (putU16 v.loginID ++ encG)
      (encP ++ encMb) ?_ rfl
    rw [hb, List.append_assoc]
  have h₄ : (Reader.take v.keyLen "p").run ⟨b, 2 + encG.length + encLen.length, none⟩ =
      (encP, ⟨b, 2 + encG.length + encLen.length + encP.length, none⟩) := by
    refine (Reader.reads_take "p" (fillBytes_length _ _)).run_at
      (putU16 v.loginID ++ encG ++ encLen) encMb ?_ rfl
    rw [hb, List.append_assoc, List.append_assoc]
  have h₅ : (Reader.take v.keyLen "Mb").run
      ⟨b, 2 + encG.length + encLen.length + encP.length, none⟩ =
      (encMb, ⟨b, 2 + encG.length + encLen.length + encP.length + encMb.length, none⟩) := by
    refine (Reader.reads_take "Mb" (fillBytes_length _ _)).run_at
      (putU16 v.loginID ++ encG ++ encLen ++ encP) [] ?_ ?_
    · rw [hb, List.append_assoc, List.append_assoc, List.append_assoc, List.append_nil]
    · simp only [List.length_append]
      rfl
  have hlen : ¬ (v.keyLen = 0 ∨ v.keyLen > dhx2MaxKeyLen) := by
    have h := v.keyLen_pos
    have h' := v.keyLen_le
    omega
  have hg : natOfBytes encG = v.g := natOfBytes_fillBytes v.g_lt
  have hp : natOfBytes encP = v.p := natOfBytes_fillBytes v.p_lt
  have hmb : natOfBytes encMb = v.mb := natOfBytes_fillBytes (v.mod_p_lt _)
  have hsize : ¬ v.p.size < 64 := Nat.not_lt.mpr v.p_size
  change dhx2Params b = _
  simp only [dhx2Params, h₁, h₂, h₃, hk, h₄, h₅, hlen, and_false, if_false, hg, hp, hmb, v.g_ne,
    hsize, or_self]
  rfl

theorem dhx2Keys_params : c.dhx2Keys v.params = .ok (v.clientKeys c) := by
  unfold Crypto.dhx2Keys
  simp only [params]
  rw [leftPad_of_lt (v.mod_p_lt _), leftPad_of_lt (v.mod_p_lt _)]
  rfl

theorem shared_secret :
    natOfBytes (v.clientKeys c).ma ^ v.b % v.p = v.mb ^ v.clientSecret c % v.p := by
  have hma : natOfBytes (v.clientKeys c).ma = v.g ^ v.clientSecret c % v.p :=
    natOfBytes_fillBytes (v.mod_p_lt _)
  have hl : (v.g ^ v.clientSecret c % v.p) ^ v.b ≡ (v.g ^ v.clientSecret c) ^ v.b [MOD v.p] :=
    (Nat.mod_modEq _ _).pow _
  have hr : (v.g ^ v.b % v.p) ^ v.clientSecret c ≡ (v.g ^ v.b) ^ v.clientSecret c [MOD v.p] :=
    (Nat.mod_modEq _ _).pow _
  have he : (v.g ^ v.clientSecret c) ^ v.b = (v.g ^ v.b) ^ v.clientSecret c := by
    rw [← pow_mul, ← pow_mul, Nat.mul_comm]
  rw [hma, mb]
  exact hl.trans ((congrArg (· % v.p) he).trans hr.symm)

theorem clientKeys_block :
    (v.clientKeys c).block = c.cast5 (v.sessionKey c (v.clientKeys c).ma) := by
  rw [sessionKey, shared_secret]
  rfl

theorem nextNonce_eq {nonce : Bytes} (h : nonce.length = dhx2NonceLen) :
    incNonce nonce = nextNonce nonce := by
  rw [incNonce_eq, h, nextNonce]
  exact (fillBytes_mod dhx2NonceLen (natOfBytes nonce + 1)).symm

theorem incNonce_serverNonce : incNonce v.serverNonce.toList = nextNonce v.serverNonce.toList :=
  nextNonce_eq Vector.length_toList

theorem nextNonce_length (nonce : Bytes) :
    (nextNonce nonce).length = dhx2NonceLen := fillBytes_length _ _

theorem clientNonce_length : (v.clientKeys c).clientNonce.length = 8 * 2 := Vector.length_toList

/-- The second message's authentication block. -/
def clientBlock : Bytes :=
  (v.clientKeys c).ma ++ cbcEncryptBlocks (v.clientKeys c).block dhxClientIV 2
    (v.clientKeys c).clientNonce

theorem ma_length : (v.clientKeys c).ma.length = v.keyLen := fillBytes_length _ _

/-- The server's half of the second exchange: both nonces, the client's
incremented. -/
def nonces : Bytes := nextNonce (v.clientKeys c).clientNonce ++ v.serverNonce.toList

theorem nonces_length : (v.nonces c).length = 8 * 4 := by
  simp [nonces, nextNonce, fillBytes_length]

theorem nonceBlock_clientKeys :
    v.nonceBlock c (v.sessionKey c (v.clientKeys c).ma)
        (cbcEncryptBlocks (v.clientKeys c).block dhxClientIV 2 (v.clientKeys c).clientNonce) =
      cbcEncryptBlocks (v.clientKeys c).block dhxServerIV 4 (v.nonces c) := by
  unfold nonceBlock
  rw [← v.clientKeys_block c, cbcDecryptBlocks_encrypt _ _ _ _ (v.clientNonce_length c)]
  rfl

theorem step2_clientBlock :
    v.step2 c (v.clientBlock c) = (.keyed (v.sessionKey c (v.clientKeys c).ma), resAuthContinue,
      putU16 v.contID ++ cbcEncryptBlocks (v.clientKeys c).block dhxServerIV 4 (v.nonces c)) := by
  have hlen : (v.clientBlock c).length = v.keyLen + dhx2NonceLen := by
    rw [clientBlock, List.length_append, v.ma_length, cbcEncryptBlocks_length]
    rfl
  have htake : (v.clientBlock c).take v.keyLen = (v.clientKeys c).ma :=
    List.take_left' (v.ma_length c)
  unfold step2
  simp only [hlen, ne_eq, not_true_eq_false, if_false, htake]
  rw [clientBlock, List.drop_left' (v.ma_length c), v.nonceBlock_clientKeys]

theorem readDhx2Nonces_reply :
    Reader.parse readDhx2Nonces (v.step2 c (v.clientBlock c)).2.2 =
      .ok (v.contID, cbcEncryptBlocks (v.clientKeys c).block dhxServerIV 4 (v.nonces c)) := by
  have hct := cbcEncryptBlocks_length (v.clientKeys c).block dhxServerIV 4 (v.nonces c)
  have h :
      Reader.Reads readDhx2Nonces _ (v.contID, cbcEncryptBlocks (v.clientKeys c).block dhxServerIV 4
        (v.nonces c)) :=
    (Reader.reads_u16 v.contID _).bind
      ((Reader.reads_take "nonce block" hct).bind (Reader.Reads.pure _))
  have hp := h.parse_eq []
  simp only [List.append_nil] at hp
  rw [v.step2_clientBlock]
  exact hp

theorem serverNonce_reply :
    (v.clientKeys c).serverNonce
      (cbcEncryptBlocks (v.clientKeys c).block dhxServerIV 4 (v.nonces c)) =
      .ok v.serverNonce.toList := by
  have hn := nextNonce_length (v.clientKeys c).clientNonce
  have htake : (v.nonces c).take dhx2NonceLen = incNonce (v.clientKeys c).clientNonce := by
    rw [nextNonce_eq (v.clientNonce_length c)]
    exact List.take_left' hn
  have hdrop : (v.nonces c).drop dhx2NonceLen = v.serverNonce.toList := List.drop_left' hn
  rw [Dhx2Keys.serverNonce, cbcDecrypt_encrypt _ (v.nonces_length c)]
  change (if (v.nonces c).take dhx2NonceLen ≠ _ then _ else _) = _
  simp only [htake, ne_eq, not_true_eq_false, if_false, hdrop]
  rfl

theorem dhx2Final_length (password : Bytes) :
    (dhx2Final v.serverNonce.toList password).length = 8 * 34 := by
  rw [dhx2Final, v.incNonce_serverNonce]
  simp only [List.length_append, nextNonce_length, List.length_take, List.length_replicate,
    dhx2NonceLen]
  omega

theorem trimmed_password {password : Bytes} (n : Nat) (hnul : password.getLast? ≠ some 0) :
    (password ++ List.replicate n 0).rdropWhile (· = 0) = password := by
  induction n with
  | zero =>
    rw [List.replicate_zero, List.append_nil, List.rdropWhile_eq_self_iff]
    intro hne hz
    apply hnul
    rw [List.getLast?_eq_getLast_of_ne_nil hne]
    exact congrArg some (of_decide_eq_true hz)
  | succ n ih =>
    rw [List.replicate_succ', ← List.append_assoc, List.rdropWhile_concat_pos _ _ _ (by simp), ih]

theorem openFinal_password {password : Bytes} (hlen : password.length ≤ 256)
    (hnul : password.getLast? ≠ some 0) :
    v.openFinal c (v.sessionKey c (v.clientKeys c).ma)
      (cbcEncryptBlocks (v.clientKeys c).block dhxClientIV 34
      (dhx2Final v.serverNonce.toList password)) = .ok password := by
  have hl := v.dhx2Final_length password
  have hdiv : (cbcEncryptBlocks (v.clientKeys c).block dhxClientIV 34
      (dhx2Final v.serverNonce.toList password)).length / 8 = 34 := by
    rw [cbcEncryptBlocks_length]
  have hn := nextNonce_length v.serverNonce.toList
  have htake : (dhx2Final v.serverNonce.toList password).take dhx2NonceLen =
      nextNonce v.serverNonce.toList := by
    rw [dhx2Final, v.incNonce_serverNonce]
    exact List.take_left' hn
  have hdrop : (dhx2Final v.serverNonce.toList password).drop dhx2NonceLen =
      password ++ List.replicate (256 - password.length) 0 := by
    rw [dhx2Final, v.incNonce_serverNonce, List.drop_left' hn, List.take_of_length_le hlen]
  have hl' : 8 * 34 = dhx2NonceLen + 256 := rfl
  unfold openFinal
  rw [hdiv, ← v.clientKeys_block c, cbcDecryptBlocks_encrypt _ _ _ _ hl]
  simp only [hl, hl', htake, hdrop, trimmed_password _ hnul, ne_eq, not_true_eq_false, if_false]

theorem serve_concat (sent : List Bytes) (req : Bytes) :
    v.serve c (sent ++ [req]) = v.handle c (v.serve c sent).1 req := by
  rw [serve, List.foldl_append]
  rfl

theorem command_peer (req : Bytes) (sent : List Bytes) :
    (Session.command (v.peer c) req).on sent =
      (.ok ((v.serve c (sent ++ [req])).2.2, (v.serve c (sent ++ [req])).2.1), sent ++ [req]) := by
  rw [Session.command_on, peer, SrpServer.send_result]

theorem handle_login (s : Session) (st : Dhx2Step) (h : v.username.length ≤ 255) :
    v.handle c st (s.loginRequest uamDHX2 (putPascal v.username)) = (.offered, v.step1) := by
  have huam : uamDHX2.take 255 = uamDHX2 := by decide
  simp only [Session.loginRequest, List.cons_append, List.append_assoc, handle, if_true,
    SrpServer.pascalParse_putPascal, huam, ne_eq, not_true_eq_false, if_false,
      SrpServer.pascalParse_short h]

theorem handle_loginCont (st : Dhx2Step) (id : UInt16) (auth : Bytes) :
    v.handle c st (Session.loginContRequest id auth) = match st with
      | .fresh => (st, resParamErr, [])
      | .offered => if id ≠ v.loginID then (st, resParamErr, []) else v.step2 c auth
      | .keyed key =>
        if id ≠ v.contID then (st, resParamErr, []) else (st, v.step3 c key auth) := by
  have hdrop : (0 :: putU16 id ++ auth).drop 3 = auth := rfl
  have hid : UInt16.ofNat (natOfBytes (((0 :: putU16 id ++ auth).drop 1).take 2)) = id := by
    exact natOfBytes_putU16 id
  have hne : cmdLoginCont ≠ cmdLogin := by decide
  change v.handle c st (cmdLoginCont :: (0 :: putU16 id ++ auth)) = _
  simp only [handle, if_neg hne, if_true, hid, hdrop]

theorem step3_password {password : Bytes} (hlen : password.length ≤ 256)
    (hnul : password.getLast? ≠ some 0) :
    v.step3 c (v.sessionKey c (v.clientKeys c).ma)
      (cbcEncryptBlocks (v.clientKeys c).block dhxClientIV 34
      (dhx2Final v.serverNonce.toList password)) =
      (if password = v.password then resNoErr else resUserNotAuth, []) := by
  rw [step3, v.openFinal_password c hlen hnul]
  by_cases h : password = v.password <;> simp [h]

/-- The encrypted last message of a client that was given `password`. -/
def finalBlock (password : Bytes) : Bytes :=
  cbcEncryptBlocks (v.clientKeys c).block dhxClientIV 34 (dhx2Final v.serverNonce.toList password)

section Run

variable (s : Session) {password : Bytes} (huser : v.username.length ≤ 255)
  (hlen : password.length ≤ 256)
  (hnul : password.getLast? ≠ some 0)

def request₁ : Bytes := s.loginRequest uamDHX2 (putPascal v.username)

def request₂ : Bytes := Session.loginContRequest v.loginID (v.clientBlock c)

def request₃ (password : Bytes) : Bytes :=
  Session.loginContRequest v.contID (v.finalBlock c password)

include huser

theorem serve_first :
    v.serve c [v.request₁ s] = (.offered, v.step1) := v.handle_login c s .fresh huser

theorem serve_second :
    v.serve c [v.request₁ s, v.request₂ c] = (.keyed (v.sessionKey c (v.clientKeys c).ma),
    resAuthContinue, putU16 v.contID ++ cbcEncryptBlocks (v.clientKeys c).block dhxServerIV 4
      (v.nonces c)) := by
  have h := v.serve_concat c [v.request₁ s] (v.request₂ c)
  rw [v.serve_first c s huser, request₂, v.handle_loginCont] at h
  simp only [ne_eq, not_true_eq_false, if_false] at h
  exact h.trans (v.step2_clientBlock c)

include hlen hnul

theorem serve_third : v.serve c [v.request₁ s, v.request₂ c, v.request₃ c password] =
    (.keyed (v.sessionKey c (v.clientKeys c).ma),
      if password = v.password then resNoErr else resUserNotAuth, []) := by
  have h := v.serve_concat c [v.request₁ s, v.request₂ c] (v.request₃ c password)
  rw [v.serve_second c s huser, request₃, v.handle_loginCont] at h
  simp only [ne_eq, not_true_eq_false, if_false] at h
  rw [finalBlock, v.step3_password c hlen hnul] at h
  exact h

omit hlen hnul in
theorem login_first : (s.login (v.peer c) uamDHX2 (putPascal v.username)).on [] =
    (.ok (v.step1.2, resAuthContinue), [v.request₁ s]) := by
  have h := v.command_peer c (v.request₁ s) []
  rw [List.nil_append, v.serve_first c s huser] at h
  exact h

omit hlen hnul in
theorem loginCont_second :
    (Session.loginCont (v.peer c) v.loginID (v.clientBlock c)).on [v.request₁ s] =
    (.ok ((v.step2 c (v.clientBlock c)).2.2, resAuthContinue), [v.request₁ s, v.request₂ c]) := by
  have h := v.command_peer c (v.request₂ c) [v.request₁ s]
  rw [List.singleton_append, v.serve_second c s huser] at h
  rw [v.step2_clientBlock]
  exact h

theorem loginCont_third : (Session.loginCont (v.peer c) v.contID (v.finalBlock c password)).on
    [v.request₁ s, v.request₂ c] =
      (.ok ([], if password = v.password then resNoErr else resUserNotAuth),
      [v.request₁ s, v.request₂ c, v.request₃ c password]) := by
  have h := v.command_peer c (v.request₃ c password) [v.request₁ s, v.request₂ c]
  rw [List.cons_append, List.singleton_append, v.serve_third c s huser hlen hnul] at h
  exact h

theorem loginDHX2_peer : (s.loginDHX2 c (v.peer c) v.username password).on [] =
    (resultErr "DHX2 login" (if password = v.password then resNoErr else resUserNotAuth),
      [v.request₁ s, v.request₂ c, v.request₃ c password]) := by
  rw [Session.loginDHX2, Proc.on_bind_ok (v.login_first c s huser)]
  simp only [ne_eq, not_true_eq_false, if_false]
  rw [v.step1_params, Proc.on_bind_ok (Proc.on_lift _ _), v.dhx2Keys_params,
    Proc.on_bind_ok (Proc.on_lift _ _), cbcEncrypt_eq _ (v.clientNonce_length c),
    Proc.on_bind_ok (Proc.on_lift _ _)]
  change ((Session.loginCont (v.peer c) v.loginID (v.clientBlock c)) >>= _).on [v.request₁ s] = _
  rw [Proc.on_bind_ok (v.loginCont_second c s huser)]
  simp only [not_true_eq_false, if_false]
  rw [v.readDhx2Nonces_reply, Proc.on_bind_ok (Proc.on_lift _ _), v.serverNonce_reply,
    Proc.on_bind_ok (Proc.on_lift _ _), cbcEncrypt_eq _ (v.dhx2Final_length password),
    Proc.on_bind_ok (Proc.on_lift _ _)]
  change ((Session.loginCont (v.peer c) v.contID (v.finalBlock c password)) >>= _).on
    [v.request₁ s, v.request₂ c] = _
  rw [Proc.on_bind_ok (v.loginCont_third c s huser hlen hnul)]
  rfl

end Run

end Dhx2Server

/-- An honest server and a client agree on the session key, each accepts the
other's nonce, and the login succeeds exactly with the account's password. -/
theorem dhx2_complete (s : Session) (c : Crypto) (v : Dhx2Server) (password : Bytes)
    (huser : v.username.length ≤ 255) (hlen : password.length ≤ 256)
    (hnul : password.getLast? ≠ some 0) :
    ∃ k auth key ct final res, c.dhx2Keys v.params = .ok k ∧
      v.serve c
        [s.loginRequest uamDHX2 (putPascal v.username), Session.loginContRequest v.loginID auth] =
        (.keyed key, resAuthContinue, putU16 v.contID ++ ct) ∧
      key = c.md5 (fillBytes v.keyLen (v.mb ^ v.clientSecret c % v.p)) ∧ k.block = c.cast5 key ∧
      k.serverNonce ct = .ok v.serverNonce.toList ∧ v.openFinal c key final = .ok password ∧
      (s.loginDHX2 c (v.peer c) v.username password).on [] =
        (res,
          [s.loginRequest uamDHX2 (putPascal v.username), Session.loginContRequest v.loginID auth,
          Session.loginContRequest v.contID final]) ∧
      (res = .ok () ↔ password = v.password) := by
  have hkey : v.sessionKey c (v.clientKeys c).ma = c.md5
      (fillBytes v.keyLen (v.mb ^ v.clientSecret c % v.p)) :=
    congrArg (fun n => c.md5 (fillBytes v.keyLen n)) (v.shared_secret c)
  refine ⟨v.clientKeys c, v.clientBlock c, _, _, v.finalBlock c password, _, v.dhx2Keys_params c,
    v.serve_second c s huser, hkey, v.clientKeys_block c, v.serverNonce_reply c,
      v.openFinal_password c hlen hnul,
    v.loginDHX2_peer c s huser hlen hnul, ?_⟩
  rw [resultErr_eq_ok]
  by_cases h : password = v.password
  · simp [h]
  · have hne : resUserNotAuth ≠ resNoErr := by decide
    simp [h, hne]

def smallDhx2Server : Dhx2Server where
  username := ascii "alice"
  password := ascii "hunter2"
  loginID := 1
  contID := 2
  g := 5
  p := 2 ^ 63 + 29
  keyLen := 8
  b := 3
  serverNonce := Vector.replicate 16 255
  g_ne := by decide
  g_lt := by decide
  p_size := by decide
  p_lt := by decide
  keyLen_pos := by decide
  keyLen_le := by decide

theorem dhx2_complete_wrongPassword :
    ∃ sent res,
      (Session.loginDHX2 ⟨ascii "AFP3.4"⟩ constCrypto (smallDhx2Server.peer constCrypto)
        (ascii "alice")
      (ascii "hunter1")).on [] = (res, sent) ∧ res ≠ .ok () :=
  let ⟨_, _, _, _, _, res, _, _, _, _, _, _, hrun, hiff⟩ :=
    dhx2_complete ⟨ascii "AFP3.4"⟩ constCrypto smallDhx2Server
    (ascii "hunter1") (by decide) (by decide) (by decide)
  ⟨_, res, hrun, fun h => absurd (hiff.mp h) (by decide)⟩

end GoAfp
