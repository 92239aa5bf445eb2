import GoAfp.Dhx2
import GoAfp.Srp

/-! When a multi-step login succeeds only against a server that has proved
itself. Both clients pass a code other than "authentication continues" to
`resultErr`, which takes "no error" for success. -/

namespace GoAfp

open Proc

variable {s : Session} {c : Crypto} {replies : Nat → Outcome} {username password : Bytes}
  {sent : List Bytes}

/-- The client sent its proof for the first reply's parameters and got the
matching one back. -/
def SrpProved (s : Session) (c : Crypto) (replies : Nat → Outcome) (username password : Bytes)
    (sent : List Bytes) : Prop :=
  ∃ payload p q payload', (replies 0).result = .ok (payload, resAuthContinue) ∧
    Reader.parse readSrpParams payload = .ok p ∧ c.srpProof p username password = .ok q ∧
    sent =
      [s.loginRequest uamSRP (putPascal username), Session.loginContRequest p.context16 q.block] ∧
    (replies 1).result = .ok (payload', resNoErr) ∧
    Reader.parse (do let _ ← Reader.u16 "srp step"; readSrpM2) payload' = .ok
      (c.sha1Sum [natBytes q.A, q.m1, q.K])

/-- The client sent its encrypted nonce and got a block back that decrypts to
the incremented nonce and the server's own. -/
def Dhx2Proved (s : Session) (c : Crypto) (replies : Nat → Outcome) (username : Bytes)
    (sent : List Bytes) : Prop :=
  ∃ payload d k enc payload' id ct serverNonce,
    (replies 0).result = .ok (payload, resAuthContinue) ∧
    dhx2Params payload = .ok d ∧ c.dhx2Keys d = .ok k ∧
      cbcEncrypt k.block dhxClientIV k.clientNonce = .ok enc ∧
    [s.loginRequest uamDHX2 (putPascal username),
      Session.loginContRequest d.id (k.ma ++ enc)] <+: sent ∧
    (replies 1).result = .ok (payload', resAuthContinue) ∧
    Reader.parse readDhx2Nonces payload' = .ok (id, ct) ∧
    cbcDecrypt k.block dhxServerIV ct = .ok (incNonce k.clientNonce ++ serverNonce) ∧
    serverNonce.length = dhx2NonceLen

theorem command_scripted (payload : Bytes) (sent : List Bytes) :
    (Session.command (scripted replies) payload).on sent =
      ((replies sent.length).result, sent ++ [payload]) := by
  rw [Session.command_on, scripted, List.length_append, List.length_singleton, Nat.add_sub_cancel]

theorem login_scripted {uam auth : Bytes} {x : Bytes × Result} (h : (replies 0).result = .ok x) :
    (s.login (scripted replies) uam auth).on [] = (.ok x, [s.loginRequest uam auth]) := by
  rw [Session.login, command_scripted, List.length_nil, h, List.nil_append]

theorem not_continued {o : Outcome} {payload payload' : Bytes}
    (h : o.result = .ok (payload, resNoErr)) :
    o.result ≠ .ok (payload', resAuthContinue) := by
  rw [h]
  simp [resNoErr, resAuthContinue]

theorem command_bind_ok {α : Type} {payload : Bytes} {f : Bytes × Result → Exchange α} {b : α}
    {sent' : List Bytes}
    (h : (Session.command (scripted replies) payload >>= f).on sent = (.ok b, sent')) :
    ∃ x, (replies sent.length).result = .ok x ∧ (f x).on (sent ++ [payload]) = (.ok b, sent') := by
  obtain ⟨x, mid, hx, hf⟩ := ok_of_on_bind h
  rw [command_scripted] at hx
  obtain ⟨hr, rfl⟩ := Prod.mk.inj hx
  exact ⟨x, hr, hf⟩

theorem lift_ok {α : Type} {e : Except AfpErr α} {x : α} {sent' : List Bytes}
    (h : (liftM e : Exchange α).on sent = (.ok x, sent')) : e = .ok x ∧ sent = sent' :=
  Prod.mk.inj h

theorem lift_bind_ok {α β : Type} {e : Except AfpErr α} {f : α → Exchange β} {b : β}
    {sent' : List Bytes} (h : ((liftM e : Exchange α) >>= f).on sent = (.ok b, sent')) :
    ∃ x, e = .ok x ∧ (f x).on sent = (.ok b, sent') := by
  obtain ⟨x, mid, hx, hf⟩ := ok_of_on_bind h
  obtain ⟨he, rfl⟩ := lift_ok hx
  exact ⟨x, he, hf⟩

theorem srpVerify_ok {q : SrpProof} {payload : Bytes} (h : c.srpVerify q payload = .ok ()) :
    Reader.parse (do let _ ← Reader.u16 "srp step"; readSrpM2) payload = .ok
      (c.srpM2 q.A q.m1 q.K) := by
  rcases hs : (Reader.u16 "srp step").run { b := payload } with ⟨step, r⟩
  rcases hm : readSrpM2.run r with ⟨m2, b, pos, err⟩
  simp only [Crypto.srpVerify, hs, hm] at h
  have hrun : (do let _ ← Reader.u16 "srp step"; readSrpM2 : StateM Reader Bytes).run
      { b := payload } = (m2, ⟨b, pos, err⟩) := by
    rw [Reader.run_bind_eq hs, hm]
  by_cases hstep : step = srpServerProof
  · cases err with
    | some e => simp [hstep] at h
    | none =>
      by_cases hne : m2 = c.srpM2 q.A q.m1 q.K
      · rw [Reader.parse, hrun, hne]
      · simp [hstep, hne] at h
  · simp only [ne_eq, hstep, not_false_eq_true, if_true] at h
    cases h

theorem loginSRP_accepted {payload : Bytes} (h : (replies 0).result = .ok (payload, resNoErr)) :
    (s.loginSRP c (scripted replies) username password).on [] =
      (.ok (), [s.loginRequest uamSRP (putPascal username)]) := by
  rw [Session.loginSRP, on_bind_ok (login_scripted h)]
  rfl

theorem srpProved_of_ok (hno : ∀ payload, (replies 0).result ≠ .ok (payload, resNoErr))
    (h : (s.loginSRP c (scripted replies) username password).on [] = (.ok (), sent)) :
    SrpProved s c replies username password sent := by
  obtain ⟨⟨payload, code⟩, hr, h⟩ := command_bind_ok h
  by_cases hc : code = resAuthContinue
  · subst code
    simp only [ne_eq, not_true_eq_false, if_false] at h
    obtain ⟨p, hp, h⟩ := lift_bind_ok h
    obtain ⟨q, hq, h⟩ := lift_bind_ok h
    obtain ⟨⟨payload', code⟩, hr', h⟩ := command_bind_ok h
    obtain ⟨⟨⟩, he, h⟩ := lift_bind_ok h
    obtain ⟨hv, rfl⟩ := lift_ok h
    have hcode : code = resNoErr := resultErr_eq_ok.mp he
    exact ⟨payload, p, q, payload', hr, hp, hq, rfl, hcode ▸ hr', srpVerify_ok hv⟩
  · simp only [ne_eq, hc, not_false_eq_true, if_true] at h
    have hcode : code = resNoErr := resultErr_eq_ok.mp (lift_ok h).1
    exact absurd (hcode ▸ hr) (hno payload)

theorem dhx2Params_fits {payload : Bytes} {d : Dhx2Params} (h : dhx2Params payload = .ok d) :
    0 < d.p ∧ d.p < 256 ^ d.keyLen := by
  rcases h₁ : (Reader.u16 "transaction id").run { b := payload } with ⟨id, r₁⟩
  rcases h₂ : (Reader.take 4 "g").run r₁ with ⟨g, r₂⟩
  rcases h₃ : (Reader.u16 "key length").run r₂ with ⟨keyLen, r₃⟩
  rcases h₄ : (Reader.take keyLen.toNat "p").run r₃ with ⟨p, r₄⟩
  rcases h₅ : (Reader.take keyLen.toNat "Mb").run r₄ with ⟨mb, b, pos, err⟩
  simp only [dhx2Params, h₁, h₂, h₃, h₄, h₅] at h
  by_cases hlen : r₃.err.isNone ∧ (keyLen.toNat = 0 ∨ keyLen.toNat > dhx2MaxKeyLen)
  · simp only [hlen] at h
    cases h
  · simp only [hlen, if_false] at h
    cases err with
    | some e => cases h
    | none =>
      by_cases hdeg : natOfBytes g = 0 ∨ (natOfBytes p).size < 64
      · simp only [hdeg, if_true] at h
        cases h
      · simp only [hdeg, if_false] at h
        cases h
        have hle := Reader.take_length_le keyLen.toNat "p" r₃
        rw [h₄] at hle
        refine ⟨Nat.pos_of_ne_zero fun hz => hdeg (Or.inr ?_), ?_⟩
        · simp [show natOfBytes p = 0 from hz]
        · exact (natOfBytes_lt p).trans_le (Nat.pow_le_pow_right (by decide) hle)

theorem leftPad_of_lt {v n : Nat} (h : v < 256 ^ n) : leftPad v n = .ok (fillBytes n v) :=
  if_pos h

theorem dhx2Keys_eq {payload : Bytes} {d : Dhx2Params} (h : dhx2Params payload = .ok d) :
    ∃ k, c.dhx2Keys d = .ok k ∧ k.clientNonce.length = dhx2NonceLen := by
  obtain ⟨hpos, hlt⟩ := dhx2Params_fits h
  have hfit (v : Nat) : leftPad (v % d.p) d.keyLen = .ok (fillBytes d.keyLen (v % d.p)) :=
    leftPad_of_lt ((Nat.mod_lt v hpos).trans hlt)
  let ra := natOfBytes (c.rand 0 d.keyLen).toList
  refine ⟨⟨fillBytes d.keyLen (d.g ^ ra % d.p), c.cast5
    (c.md5 (fillBytes d.keyLen (d.mb ^ ra % d.p))), (c.rand 1 dhx2NonceLen).toList⟩, ?_,
      Vector.length_toList⟩
  simp only [Crypto.dhx2Keys, hfit]
  rfl

theorem cbcDecryptBlocks_length (block : Equiv.Perm Block) (iv : Block) (n : Nat) (ct : Bytes) :
    (cbcDecryptBlocks block iv n ct).length = 8 * n := by
  induction n generalizing iv ct with
  | zero => rfl
  | succ n ih =>
    rw [cbcDecryptBlocks, List.length_append, ih, Vector.length_toList]
    omega

theorem cbcDecrypt_length {block : Equiv.Perm Block} {iv : Block} {ct plain : Bytes}
    (h : cbcDecrypt block iv ct = .ok plain) : plain.length = ct.length := by
  by_cases hw : ct.length % 8 = 0
  · simp only [cbcDecrypt, wholeBlocks, hw, if_true] at h
    cases h
    rw [cbcDecryptBlocks_length]
    omega
  · simp only [cbcDecrypt, wholeBlocks, hw, if_false] at h
    cases h

theorem readDhx2Nonces_length {payload ct : Bytes} {id : UInt16}
    (h : Reader.parse readDhx2Nonces payload = .ok (id, ct)) : ct.length = 32 := by
  obtain ⟨r, hr, he⟩ := Reader.parse_ok h
  rcases h₁ : (Reader.u16 "transaction id").run { b := payload } with ⟨id', r₁⟩
  rcases h₂ : (Reader.take (dhx2NonceLen * 2) "nonce block").run r₁ with ⟨ct', r₂⟩
  have hrun : readDhx2Nonces.run { b := payload } = ((id', ct'), r₂) := by
    rw [readDhx2Nonces, Reader.run_bind_eq h₁, Reader.run_bind_eq h₂]
    rfl
  obtain ⟨hv, rfl⟩ := Prod.mk.inj (hr.symm.trans hrun)
  exact (Prod.mk.inj hv).2 ▸ Reader.take_length h₂ he

theorem serverNonce_ok {k : Dhx2Keys} {ct nonce : Bytes} (hct : ct.length = 32)
    (h : k.serverNonce ct = .ok nonce) :
    cbcDecrypt k.block dhxServerIV ct = .ok (incNonce k.clientNonce ++ nonce) ∧
      nonce.length = dhx2NonceLen := by
  cases hd : cbcDecrypt k.block dhxServerIV ct with
  | error e =>
    simp only [Dhx2Keys.serverNonce, hd] at h
    cases h
  | ok plain =>
    have hlen := cbcDecrypt_length hd
    by_cases hn : plain.take dhx2NonceLen = incNonce k.clientNonce
    · have hs : k.serverNonce ct = .ok (plain.drop dhx2NonceLen) := by
        rw [Dhx2Keys.serverNonce, hd]
        exact if_neg (not_not.mpr hn)
      cases hs.symm.trans h
      rw [← hn, List.take_append_drop, List.length_drop, hlen, hct]
      exact ⟨rfl, rfl⟩
    · have hs : k.serverNonce ct = .error
          (.text "afp: DHX2: server failed nonce check (wrong DH result?)" []) := by
        rw [Dhx2Keys.serverNonce, hd]
        exact if_pos hn
      cases hs.symm.trans h

def EndsEarly (replies : Nat → Outcome) : Prop :=
  ∃ payload d payload', (replies 0).result = .ok (payload, resAuthContinue) ∧
    dhx2Params payload = .ok d ∧
    (replies 1).result = .ok (payload', resNoErr)

theorem loginDHX2_accepted {payload : Bytes} (h : (replies 0).result = .ok (payload, resNoErr)) :
    (s.loginDHX2 c (scripted replies) username password).on [] =
      (.ok (), [s.loginRequest uamDHX2 (putPascal username)]) := by
  rw [Session.loginDHX2, on_bind_ok (login_scripted h)]
  rfl

theorem loginDHX2_endsEarly (s : Session) (c : Crypto) (username password : Bytes)
    (h : EndsEarly replies) :
    ∃ sent, (s.loginDHX2 c (scripted replies) username password).on [] = (.ok (), sent) := by
  obtain ⟨payload, d, payload', h₀, hd, h₁⟩ := h
  obtain ⟨k, hk, hlen⟩ := dhx2Keys_eq (c := c) hd
  have henc : cbcEncrypt k.block dhxClientIV k.clientNonce =
      .ok (cbcEncryptBlocks k.block dhxClientIV 2 k.clientNonce) := by
    rw [cbcEncrypt, wholeBlocks, hlen]
    rfl
  let req := s.loginRequest uamDHX2 (putPascal username)
  have hl' (id : UInt16) (auth : Bytes) : (Session.loginCont (scripted replies) id auth).on [req] =
      (.ok (payload', resNoErr), [req, Session.loginContRequest id auth]) := by
    rw [Session.loginCont, command_scripted, List.length_singleton, h₁]
    rfl
  refine ⟨[req,
    Session.loginContRequest d.id (k.ma ++ cbcEncryptBlocks k.block dhxClientIV 2 k.clientNonce)],
    ?_⟩
  rw [Session.loginDHX2, on_bind_ok (login_scripted h₀)]
  simp only [ne_eq, not_true_eq_false, if_false]
  rw [hd, on_bind_ok (on_lift _ _), hk, on_bind_ok (on_lift _ _), henc, on_bind_ok (on_lift _ _),
    on_bind_ok (hl' _ _)]
  rfl

theorem dhx2Proved_of_ok (hno : ∀ payload, (replies 0).result ≠ .ok (payload, resNoErr))
    (hend : ¬ EndsEarly replies)
    (h : (s.loginDHX2 c (scripted replies) username password).on [] = (.ok (), sent)) :
    Dhx2Proved s c replies username sent := by
  obtain ⟨⟨payload, code⟩, hr, h⟩ := command_bind_ok h
  by_cases hc : code = resAuthContinue
  · subst code
    simp only [ne_eq, not_true_eq_false, if_false] at h
    obtain ⟨d, hd, h⟩ := lift_bind_ok h
    obtain ⟨k, hk, h⟩ := lift_bind_ok h
    obtain ⟨enc, henc, h⟩ := lift_bind_ok h
    obtain ⟨⟨payload', code⟩, hr', h⟩ := command_bind_ok h
    by_cases hc : code = resAuthContinue
    · subst code
      simp only [not_true_eq_false, if_false] at h
      obtain ⟨⟨id, ct⟩, hct, h⟩ := lift_bind_ok h
      obtain ⟨nonce, hn, h⟩ := lift_bind_ok h
      obtain ⟨final, -, h⟩ := lift_bind_ok h
      obtain ⟨⟨_, code⟩, -, h⟩ := command_bind_ok h
      obtain ⟨-, rfl⟩ := lift_ok h
      obtain ⟨hdec, hlen⟩ := serverNonce_ok (readDhx2Nonces_length hct) hn
      exact ⟨payload, d, k, enc, payload', id, ct, nonce, hr, hd, hk, henc, List.prefix_append _ _,
        hr', hct, hdec, hlen⟩
    · -- the code is not the expected one, yet not an error: `resultErr` of it is nil
      simp only [hc, not_false_eq_true, if_true] at h
      have hcode : code = resNoErr := resultErr_eq_ok.mp (lift_ok h).1
      exact absurd ⟨payload, d, payload', hr, hd, hcode ▸ hr'⟩ hend
  · simp only [ne_eq, hc, not_false_eq_true, if_true] at h
    have hcode : code = resNoErr := resultErr_eq_ok.mp (lift_ok h).1
    exact absurd (hcode ▸ hr) (hno payload)

theorem login_proved_iff (s : Session) (c : Crypto) (replies : Nat → Outcome)
    (username password : Bytes) :
    ((∀ sent, (s.loginSRP c (scripted replies) username password).on [] = (.ok (), sent) →
        SrpProved s c replies username password sent) ↔
      ∀ payload, (replies 0).result ≠ .ok (payload, resNoErr)) ∧
    ((∀ sent, (s.loginDHX2 c (scripted replies) username password).on [] = (.ok (), sent) →
        Dhx2Proved s c replies username sent) ↔
      (∀ payload, (replies 0).result ≠ .ok (payload, resNoErr)) ∧
      ∀ payload d payload', (replies 0).result = .ok (payload, resAuthContinue) →
      dhx2Params payload = .ok d →
        (replies 1).result ≠ .ok (payload', resNoErr)) := by
  refine ⟨⟨fun h payload hr => ?_, fun hno sent => srpProved_of_ok hno⟩,
    ⟨fun h => ⟨fun payload hr => ?_, ?_⟩, ?_⟩⟩
  · obtain ⟨p, q, _, _, hr', _⟩ := h _ (loginSRP_accepted hr)
    exact not_continued hr hr'
  · obtain ⟨p, _, _, _, _, _, _, _, hr', _⟩ := h _ (loginDHX2_accepted hr)
    exact not_continued hr hr'
  · intro payload d payload' hr hd hr'
    obtain ⟨sent, hs⟩ :=
      loginDHX2_endsEarly s c username password ⟨payload, d, payload', hr, hd, hr'⟩
    obtain ⟨_, _, _, _, _, _, _, _, _, _, _, _, _, hr₁, _⟩ := h sent hs
    exact not_continued hr' hr₁
  · rintro ⟨hno, hend⟩ sent
    refine dhx2Proved_of_ok hno ?_
    rintro ⟨payload, d, payload', hr, hd, hr'⟩
    exact hend payload d payload' hr hd hr'

def acceptsAll : Nat → Outcome := fun _ =>
  .reply
    ⟨{ flags := flagReply, command := cmdCommand, requestID := 1, errCode := 0, length := 0 }, [],
      none⟩

theorem login_unproved :
    ∃ s username password sent sent',
      (Session.loginSRP s constCrypto (scripted acceptsAll) username password).on [] =
        (.ok (), sent) ∧ ¬ SrpProved s constCrypto acceptsAll username password sent ∧
      (Session.loginDHX2 s constCrypto (scripted acceptsAll) username password).on [] =
        (.ok (), sent') ∧
        ¬ Dhx2Proved s constCrypto acceptsAll username sent' := by
  have hr : (acceptsAll 0).result = .ok ([], resNoErr) := rfl
  refine ⟨⟨ascii "AFP3.4"⟩, ascii "alice", ascii "hunter2", _, _, loginSRP_accepted hr, ?_,
    loginDHX2_accepted hr, ?_⟩
  · rintro ⟨p, q, _, _, hr', _⟩
    exact not_continued hr hr'
  · rintro ⟨p, _, _, _, _, _, _, _, hr', _⟩
    exact not_continued hr hr'

end GoAfp
