import GoAfp.LoginProof
import GoAfp.ServerInfo
import GoAfp.SrpServer

/-! The choice of the version and of the login method, the guest login and the
login in cleartext; what `Login` sends to a server, and what of it the password
decides. -/

namespace GoAfp

def uamNoAuth : Bytes := ascii "No User Authent"
def uamCleartext : Bytes := ascii "Cleartxt Passwrd"

def versionPreference : List Bytes :=
  [ascii "AFP3.4", ascii "AFP3.3", ascii "AFP3.2", ascii "AFP3.1"]

/-- An error of a request, or a text about what the server offers. -/
inductive LoginErr
  | afp (e : AfpErr)
  | offers (format : String) (offered : List Bytes)
  deriving DecidableEq, Repr

def pickVersion (offered : List Bytes) : Except LoginErr Bytes :=
  match versionPreference.find? (· ∈ offered) with
  | some v => .ok v
  | none =>
    .error (.offers "afp: no supported AFP version (server offers %v; AFP 3.1+ required)" offered)

namespace Session

def loginGuest (s : Session) (peer : Peer) : Exchange Unit := do
  let (_, code) ← s.login peer uamNoAuth []
  resultErr "guest login" code

/-- The field of the password, cut or filled up to its eight bytes. -/
def passwordField (password : Bytes) : Bytes :=
  password.take 8 ++ List.replicate (8 - password.length) 0

/-- The password's field starts at an even offset of the FPLogin block. -/
def cleartextAuth (s : Session) (username password : Bytes) : Bytes :=
  let w := putPascal username
  let before := 1 + (1 + s.version.length) + (1 + uamCleartext.length)
  (if (before + w.length) % 2 = 1 then w ++ [0] else w) ++ passwordField password

def loginCleartext (s : Session) (peer : Peer) (username password : Bytes) : Exchange Unit := do
  let (_, code) ← s.login peer uamCleartext (s.cleartextAuth username password)
  resultErr "cleartext login" code

end Session

def ServerInfo.login (info : ServerInfo) (c : Crypto) (peer : Peer) (username password : Bytes) :
    Proc (List Bytes) LoginErr Unit := do
  let version ← pickVersion info.afpVersions
  let s : Session := ⟨version⟩
  if username = [] then
    if uamNoAuth ∉ info.uams then
      throw (.offers "afp: server does not allow guest login (UAMs: %v)" info.uams)
    else Proc.adapt .afp (s.loginGuest peer)
  else if uamDHX2 ∈ info.uams then Proc.adapt .afp (s.loginDHX2 c peer username password)
  else if uamSRP ∈ info.uams then Proc.adapt .afp (s.loginSRP c peer username password)
  else if uamCleartext ∈ info.uams then Proc.adapt .afp (s.loginCleartext peer username password)
  else throw (.offers "afp: no mutually supported UAM (server offers %v)" info.uams)

/-- The methods that a user may log in with, the strongest first. -/
def methodPreference (username : Bytes) : List Bytes :=
  if username = [] then [uamNoAuth] else [uamDHX2, uamSRP, uamCleartext]

/-- The first of the preferences that is offered. -/
def Preferred (preference offered : List Bytes) (v : Bytes) : Prop :=
  v ∈ offered ∧ ∃ better worse, preference = better ++ v :: worse ∧ ∀ w ∈ better, w ∉ offered

/-- The version, the method and the rest of an FPLogin block, as a server reads
them. -/
def readLogin : Bytes → Option (Bytes × Bytes × Bytes)
  | [] => none
  | cmd :: rest =>
    if cmd = cmdLogin then
      let (version, rest) := pascalParse rest
      let (uam, rest) := pascalParse rest
      some (version, uam, rest)
    else none

theorem pickVersion_ok {offered : List Bytes} {v : Bytes} (h : pickVersion offered = .ok v) :
    Preferred versionPreference offered v := by
  rw [pickVersion] at h
  split at h
  · rename_i w hfind
    cases h
    obtain ⟨hmem, better, worse, hsplit, hbetter⟩ := List.find?_eq_some_iff_append.mp hfind
    refine ⟨by simpa using hmem, better, worse, hsplit, fun w hw => ?_⟩
    simpa using hbetter w hw
  · cases h

theorem Preferred.mem {preference offered : List Bytes} {v : Bytes}
    (h : Preferred preference offered v) : v ∈ preference := by
  obtain ⟨-, better, worse, rfl, -⟩ := h
  simp

theorem readLogin_loginRequest {s : Session} {uam : Bytes} (hversion : s.version.length ≤ 255)
    (huam : uam.length ≤ 255) (auth : Bytes) :
    readLogin (s.loginRequest uam auth) = some (s.version, uam, auth) := by
  simp only [Session.loginRequest, List.cons_append, List.append_assoc, readLogin, if_true,
    SrpServer.pascalParse_putPascal, List.take_of_length_le hversion, List.take_of_length_le huam]

theorem length_of_preferred {offered : List Bytes} {v : Bytes}
    (h : Preferred versionPreference offered v) :
    v.length ≤ 255 := by
  have hall : ∀ w ∈ versionPreference, w.length ≤ 255 := by decide
  exact hall v h.mem

section Sent

variable {s : Session} {c : Crypto} {peer : Peer} {username password : Bytes}

/-- All that is sent is a request to log in and requests to go on with it. -/
def OneLogin (block : Bytes) (sent : List Bytes) : Prop :=
  ∃ rest, sent = block :: rest ∧ ∀ b ∈ rest, b.headD 0 = cmdLoginCont

theorem OneLogin.keeps_loginCont {block : Bytes} (id : UInt16) (auth : Bytes) :
    Proc.Keeps (OneLogin block) (Session.loginCont peer id auth) := by
  rintro sent ⟨rest, rfl, hrest⟩
  refine ⟨rest ++ [Session.loginContRequest id auth], rfl, fun b hb => ?_⟩
  rcases List.mem_append.mp hb with hb | hb
  · exact hrest b hb
  · rw [List.mem_singleton.mp hb]
    rfl

/-- A login whose later requests only go on with it. -/
theorem oneLogin_of_login {α : Type} {uam auth : Bytes} {f : Bytes × Result → Exchange α}
    (hf : ∀ r, Proc.Keeps (OneLogin (s.loginRequest uam auth)) (f r)) :
    OneLogin (s.loginRequest uam auth) ((s.login peer uam auth >>= f).on []).2 := by
  have hlogin : OneLogin (s.loginRequest uam auth) ((s.login peer uam auth).on []).2 :=
    ⟨[], rfl, List.forall_mem_nil _⟩
  rw [Proc.on_bind]
  rcases hx : (s.login peer uam auth).on [] with ⟨e | r, sent⟩
  · rwa [hx] at hlogin
  · rw [hx] at hlogin
    exact hf r sent hlogin

theorem oneLogin_dhx2 : OneLogin (s.loginRequest uamDHX2 (putPascal username))
    ((s.loginDHX2 c peer username password).on []).2 := by
  apply oneLogin_of_login
  rintro ⟨payload, code⟩
  simp only
  split
  · exact Proc.Keeps.lift _
  · refine (Proc.Keeps.lift _).bind fun d => (Proc.Keeps.lift _).bind fun k =>
      (Proc.Keeps.lift _).bind fun enc => ?_
    refine (OneLogin.keeps_loginCont _ _).bind fun r => ?_
    split
    · exact Proc.Keeps.lift _
    · refine (Proc.Keeps.lift _).bind fun x => (Proc.Keeps.lift _).bind fun nonce =>
        (Proc.Keeps.lift _).bind fun final => ?_
      exact (OneLogin.keeps_loginCont _ _).bind fun r => Proc.Keeps.lift _

theorem oneLogin_srp : OneLogin (s.loginRequest uamSRP (putPascal username))
    ((s.loginSRP c peer username password).on []).2 := by
  apply oneLogin_of_login
  rintro ⟨payload, code⟩
  simp only
  split
  · exact Proc.Keeps.lift _
  · refine (Proc.Keeps.lift _).bind fun p => (Proc.Keeps.lift _).bind fun q => ?_
    refine (OneLogin.keeps_loginCont _ _).bind fun r => ?_
    exact (Proc.Keeps.lift _).bind fun _ => Proc.Keeps.lift _

theorem oneLogin_guest : OneLogin (s.loginRequest uamNoAuth []) ((s.loginGuest peer).on []).2 :=
  oneLogin_of_login fun _ => Proc.Keeps.lift _

theorem oneLogin_cleartext :
    OneLogin (s.loginRequest uamCleartext (s.cleartextAuth username password))
    ((s.loginCleartext peer username password).on []).2 :=
  oneLogin_of_login fun _ => Proc.Keeps.lift _

end Sent

/-- Whatever the server answers, `Login` makes one attempt: with the newest
version and the strongest method that the server offers. It goes on with that
attempt and never falls back to another; or it sends nothing, for want of a
version or a method. -/
theorem login_negotiates (info : ServerInfo) (c : Crypto) (peer : Peer)
    (username password : Bytes) :
    (((info.login c peer username password).on []).2 = [] ∧
      ∃ format offered, ((info.login c peer username password).on []).1 = .error
        (.offers format offered)) ∨
    ∃ block rest v u auth, ((info.login c peer username password).on []).2 = block :: rest ∧
      readLogin block = some (v, u, auth) ∧ Preferred versionPreference info.afpVersions v ∧
      Preferred (methodPreference username) info.uams u ∧ ∀ b ∈ rest, b.headD 0 = cmdLoginCont := by
  cases hversion : pickVersion info.afpVersions with
  | error e =>
    left
    have herror : (info.login c peer username password).on [] = (.error e, []) := by
      rw [ServerInfo.login, hversion]
      rfl
    rw [pickVersion] at hversion
    split at hversion
    · cases hversion
    · cases hversion
      rw [herror]
      exact ⟨rfl, _, _, rfl⟩
  | ok v =>
    have hv := pickVersion_ok hversion
    -- one attempt with a method that is the first on offer
    have hattempt {u auth : Bytes} {sent : List Bytes}
        (h : OneLogin (Session.loginRequest ⟨v⟩ u auth) sent)
        (hu : Preferred (methodPreference username) info.uams u) (hlen : u.length ≤ 255) :
        ∃ block rest v u auth, sent = block :: rest ∧ readLogin block = some (v, u, auth) ∧
          Preferred versionPreference info.afpVersions v ∧
            Preferred (methodPreference username) info.uams u ∧
            ∀ b ∈ rest, b.headD 0 = cmdLoginCont := by
      obtain ⟨rest, hsent, hrest⟩ := h
      exact ⟨_, rest, v, u, auth, hsent, readLogin_loginRequest (length_of_preferred hv) hlen auth,
        hv, hu, hrest⟩
    simp only [ServerInfo.login, hversion]
    rw [Proc.on_lift_bind rfl]
    by_cases huser : username = []
    · have hmethods : methodPreference username = [uamNoAuth] := if_pos huser
      simp only [if_pos huser]
      by_cases hguest : uamNoAuth ∉ info.uams
      · rw [if_pos hguest]
        exact .inl ⟨rfl, _, _, rfl⟩
      · rw [if_neg hguest, Proc.on_adapt]
        refine .inr
          (hattempt oneLogin_guest ⟨not_not.mp hguest, [], [], hmethods, List.forall_mem_nil _⟩
            (by decide))
    · have hmethods : methodPreference username = [uamDHX2, uamSRP, uamCleartext] := if_neg huser
      simp only [if_neg huser]
      by_cases hdhx2 : uamDHX2 ∈ info.uams
      · rw [if_pos hdhx2, Proc.on_adapt]
        exact .inr
          (hattempt oneLogin_dhx2 ⟨hdhx2, [], _, hmethods, List.forall_mem_nil _⟩ (by decide))
      rw [if_neg hdhx2]
      by_cases hsrp : uamSRP ∈ info.uams
      · rw [if_pos hsrp, Proc.on_adapt]
        exact .inr
          (hattempt oneLogin_srp ⟨hsrp, [uamDHX2], _, hmethods, by simpa using hdhx2⟩ (by decide))
      rw [if_neg hsrp]
      by_cases hclear : uamCleartext ∈ info.uams
      · rw [if_pos hclear, Proc.on_adapt]
        exact .inr
          (hattempt oneLogin_cleartext
            ⟨hclear, [uamDHX2, uamSRP], _, hmethods, by simp [hdhx2, hsrp]⟩ (by decide))
      · rw [if_neg hclear]
        exact .inl ⟨rfl, _, _, rfl⟩

section Flow

variable {s : Session} {c : Crypto} {peer : Peer} {username p q : Bytes} {u w : List Bytes}

/-- The answers to the first requests of a run. -/
def Peer.along (peer : Peer) (sent : List Bytes) : Nat → Outcome :=
  fun i => peer (sent.take (i + 1))

/-- The server has sent parameters that the client computes its proof from. -/
def SrpAsked (s : Session) (peer : Peer) (username : Bytes) (sent : List Bytes) : Prop :=
  sent = [s.loginRequest uamSRP (putPascal username)] ∧
    ∃ payload params, (peer sent).result = .ok (payload, resAuthContinue) ∧
      Reader.parse readSrpParams payload = .ok params ∧ params.Accepted

theorem grows_loginCont (sent : List Bytes) (id : UInt16) (auth : Bytes) :
    Proc.Keeps (sent <+: ·) (Session.loginCont peer id auth) :=
  fun s h => h.trans (List.prefix_append s _)

theorem dhx2_password
    (h : Proc.Diverge (s.loginDHX2 c peer username p) (s.loginDHX2 c peer username q) [] u w) :
    ∃ common, common <+: u ∧ common <+: w ∧ Dhx2Proved s c (peer.along common) username common := by
  obtain ⟨⟨payload, code⟩, mid, hlogin, h⟩ := h.bind
  obtain ⟨hfirst, rfl⟩ := Prod.mk.inj hlogin
  simp only at h
  split at h
  · exact h.irrefl.elim
  rename_i hcode
  obtain rfl : code = resAuthContinue := not_not.mp hcode
  obtain ⟨d, hd, h⟩ := h.lift_bind
  obtain ⟨k, hk, h⟩ := h.lift_bind
  obtain ⟨enc, henc, h⟩ := h.lift_bind
  obtain ⟨⟨payload', code⟩, mid, hcont, h⟩ := h.bind
  obtain ⟨hsecond, rfl⟩ := Prod.mk.inj hcont
  simp only at h
  split at h
  · exact h.irrefl.elim
  rename_i hcode
  obtain rfl : code = resAuthContinue := not_not.mp hcode
  obtain ⟨⟨id, ct⟩, hparse, h⟩ := h.lift_bind
  obtain ⟨serverNonce, hnonce, h⟩ := h.lift_bind
  -- only what is sent from here on depends on the password
  have hgrows (password : Bytes) : Proc.Keeps
      ([s.loginRequest uamDHX2 (putPascal username),
        Session.loginContRequest d.id (k.ma ++ enc)] <+: ·) (do
        let final ← liftM (cbcEncrypt k.block dhxClientIV (dhx2Final serverNonce password))
        let (_, code) ← Session.loginCont peer id final
        liftM (resultErr "DHX2 login" code) : Exchange Unit) := by
    refine (Proc.Keeps.lift _).bind fun final => ?_
    exact (grows_loginCont _ _ _).bind fun r => Proc.Keeps.lift _
  obtain ⟨hleft, hright, -⟩ := h
  refine ⟨_, hleft ▸ hgrows p _ List.prefix_rfl, hright ▸ hgrows q _ List.prefix_rfl, ?_⟩
  exact ⟨payload, d, k, enc, payload', id, ct, serverNonce, hfirst, hd, hk, henc, List.prefix_rfl,
    hsecond, hparse, serverNonce_ok (readDhx2Nonces_length hparse) hnonce⟩

theorem srp_password
    (h : Proc.Diverge (s.loginSRP c peer username p) (s.loginSRP c peer username q) [] u w) :
    ∃ common, common <+: u ∧ common <+: w ∧ SrpAsked s peer username common := by
  obtain ⟨⟨payload, code⟩, mid, hlogin, h⟩ := h.bind
  obtain ⟨hfirst, rfl⟩ := Prod.mk.inj hlogin
  simp only at h
  split at h
  · exact h.irrefl.elim
  rename_i hcode
  obtain rfl : code = resAuthContinue := not_not.mp hcode
  obtain ⟨params, hparams, h⟩ := h.lift_bind
  have hgrows (password : Bytes) :
      Proc.Keeps ([s.loginRequest uamSRP (putPascal username)] <+: ·) (do
        let r ← liftM (c.srpProof params username password)
        let (payload, code) ← Session.loginCont peer params.context16 r.block
        liftM (resultErr "SRP login" code)
        liftM (c.srpVerify r payload) : Exchange Unit) := by
    refine (Proc.Keeps.lift _).bind fun r => (grows_loginCont _ _ _).bind fun x => ?_
    exact (Proc.Keeps.lift _).bind fun _ => Proc.Keeps.lift _
  refine ⟨_, h.left ▸ hgrows p _ List.prefix_rfl, h.right ▸ hgrows q _ List.prefix_rfl, rfl,
    payload, params, hfirst, hparams, ?_⟩
  -- parameters that are refused end both logins before the proof
  by_contra haccepted
  obtain ⟨e, he, -⟩ := SrpParams.srpProof_refused c haccepted username p
  obtain ⟨e', he', -⟩ := SrpParams.srpProof_refused c haccepted username q
  rw [he, he'] at h
  exact h.ne (h.left.symm.trans h.right)

end Flow

/-- Two passwords that make a difference to what is sent to a server, whatever
it answers: a user has logged in, and up to the difference the server has shown
that it can decrypt the client's nonce (DHX2), or has sent parameters for a
proof (SRP, if it offers no DHX2), or the passwords differ in their first eight
bytes (in cleartext, if it offers neither). -/
theorem login_password_flow (info : ServerInfo) (c : Crypto) (peer : Peer) (username : Bytes)
    {p q : Bytes}
    (h : ((info.login c peer username p).on []).2 ≠ ((info.login c peer username q).on []).2) :
    username ≠ [] ∧ ∃ v common, pickVersion info.afpVersions = .ok v ∧
      common <+: ((info.login c peer username p).on []).2 ∧
        common <+: ((info.login c peer username q).on []).2 ∧
      (uamDHX2 ∈ info.uams ∧ Dhx2Proved ⟨v⟩ c (peer.along common) username common ∨
        uamDHX2 ∉ info.uams ∧ uamSRP ∈ info.uams ∧ SrpAsked ⟨v⟩ peer username common ∨
        uamDHX2 ∉ info.uams ∧ uamSRP ∉ info.uams ∧ uamCleartext ∈ info.uams ∧
          Session.passwordField p ≠ Session.passwordField q) := by
  have hdiverge : Proc.Diverge (info.login c peer username p) (info.login c peer username q)
      [] _ _ := ⟨rfl, rfl, h⟩
  obtain ⟨v, hv, hdiverge⟩ := hdiverge.lift_bind
  by_cases huser : username = []
  · simp only [if_pos huser] at hdiverge
    exact hdiverge.irrefl.elim
  refine ⟨huser, v, ?_⟩
  simp only [if_neg huser] at hdiverge
  by_cases hdhx2 : uamDHX2 ∈ info.uams
  · simp only [if_pos hdhx2] at hdiverge
    obtain ⟨common, hp, hq, hproved⟩ := dhx2_password hdiverge.adapt
    exact ⟨common, hv, hp, hq, .inl ⟨hdhx2, hproved⟩⟩
  simp only [if_neg hdhx2] at hdiverge
  by_cases hsrp : uamSRP ∈ info.uams
  · simp only [if_pos hsrp] at hdiverge
    obtain ⟨common, hp, hq, hasked⟩ := srp_password hdiverge.adapt
    exact ⟨common, hv, hp, hq, .inr (.inl ⟨hdhx2, hsrp, hasked⟩)⟩
  simp only [if_neg hsrp] at hdiverge
  by_cases hclear : uamCleartext ∈ info.uams
  · refine ⟨[], hv, List.nil_prefix, List.nil_prefix, .inr
      (.inr ⟨hdhx2, hsrp, hclear, fun hsame => ?_⟩)⟩
    simp only [if_pos hclear, Session.loginCleartext, Session.cleartextAuth, hsame] at hdiverge
    exact hdiverge.irrefl
  · simp only [if_neg hclear] at hdiverge
    exact hdiverge.irrefl.elim

/-- A server that offers the login in cleartext only. -/
def cleartextInfo : ServerInfo := ⟨ascii "s", ascii "m", [ascii "AFP3.1"], [uamCleartext], 0⟩

theorem login_password_flow_cleartext :
    ((cleartextInfo.login constCrypto (answering []) (ascii "u") (ascii "a")).on []).2 ≠
      ((cleartextInfo.login constCrypto (answering []) (ascii "u") (ascii "b")).on []).2 ∧
    Session.passwordField (ascii "a") ≠ Session.passwordField (ascii "b") := by
  have hne : ((cleartextInfo.login constCrypto (answering []) (ascii "u") (ascii "a")).on []).2 ≠
      ((cleartextInfo.login constCrypto (answering []) (ascii "u") (ascii "b")).on []).2 := by
    decide +kernel
  obtain ⟨-, v, common, -, -, -, hcases⟩ :=
    login_password_flow cleartextInfo constCrypto (answering []) (ascii "u") hne
  rcases hcases with ⟨hdhx2, -⟩ | ⟨-, hsrp, -⟩ | ⟨-, -, -, hfield⟩
  · exact absurd hdhx2 (by decide)
  · exact absurd hsrp (by decide)
  · exact ⟨hne, hfield⟩

end GoAfp
