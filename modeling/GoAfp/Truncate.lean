import GoAfp.FileRefine
import GoAfp.HostFS

/-! `Truncate` of a file over any peers: the requests that set a length, and
the length they ask for. -/

namespace GoAfp

open Proc

def ForkOps.withFork {σ : Type} (c : ForkOps σ) (path : Bytes) (writable : Bool)
    (fn : OpenFork → Proc σ AfpErr Unit) : Proc (File × σ) AfpErr Unit := do
  let o ← c.openOn path writable
  onConn (fn o)

/-- What one call of `do` meets: the volume it finds and the peer behind it,
whether the connection is alive after a failure on it, and the volume that
`reconnect` leaves or its error. -/
structure SessionNet where
  first : Option (AfpVolume × Peer)
  alive : Bool
  second : Except IoErr (AfpVolume × Peer)

section Do

variable {τ : Type} (net : SessionNet) (fn : AfpVolume → Peer → Proc (τ × List Bytes) AfpErr Unit)

def SessionNet.again (x : τ) (sent : List Bytes) : Option IoErr × τ × List Bytes :=
  match net.second with
  | .error e => (some e, x, sent)
  | .ok (v, peer) =>
    let (r, x, later) := (fn v peer).on (x, [])
    ((errOf r).map .afp, x, sent ++ later)

/-- The requests of the two runs are in one list, those of the first in front. -/
def SessionNet.do (x : τ) : Option IoErr × τ × List Bytes :=
  match net.first with
  | none => net.again fn x []
  | some (v, peer) =>
    match (fn v peer).on (x, []) with
    | (.ok (), x, sent) => (none, x, sent)
    | (.error e, x, sent) => if net.alive then (some (.afp e), x, sent) else net.again fn x sent

namespace SessionNet

variable {net fn}

theorem again_sent (net : SessionNet)
    (fn : AfpVolume → Peer → Proc (τ × List Bytes) AfpErr Unit) (x : τ)
    (sent : List Bytes) : ∃ later, (net.again fn x sent).2.2 = sent ++ later := by
  rw [again]
  cases net.second with
  | error e => exact ⟨[], (List.append_nil sent).symm⟩
  | ok run => exact ⟨_, rfl⟩

/-- What holds of the requests of every run holds of those of the call. -/
theorem do_sent {P : List Bytes → Prop} (hnil : P [])
    (happend : ∀ sent later, P sent → P later → P (sent ++ later))
    (hfn : ∀ v peer x, P ((fn v peer).on (x, [])).2.2) (x : τ) : P (net.do fn x).2.2 := by
  have hagain (x : τ) (sent : List Bytes) (hsent : P sent) : P (net.again fn x sent).2.2 := by
    rw [again]
    cases net.second with
    | error e => exact hsent
    | ok run => exact happend _ _ hsent (hfn run.1 run.2 x)
  rw [SessionNet.do]
  cases net.first with
  | none => exact hagain x [] hnil
  | some run =>
    have hrun := hfn run.1 run.2 x
    rcases hon : (fn run.1 run.2).on (x, []) with ⟨e | ⟨⟩, y, sent⟩
    · rw [hon] at hrun
      simp only [hon]
      split_ifs
      · exact hrun
      · exact hagain y sent hrun
    · rw [hon] at hrun
      simp only [hon]
      exact hrun

/-- A call succeeds with its last run. -/
theorem do_ok {x : τ} (h : (net.do fn x).1 = none) :
    ∃ v peer y z before sent, (fn v peer).on (y, []) = (.ok (), z, sent) ∧
      net.do fn x = (none, z, before ++ sent) := by
  have hagain {x : τ} {sent : List Bytes} (h : (net.again fn x sent).1 = none) :
      ∃ v peer z later, (fn v peer).on (x, []) = (.ok (), z, later) ∧
        net.again fn x sent = (none, z, sent ++ later) := by
    cases hsecond : net.second with
    | error e =>
      rw [again, hsecond] at h
      cases h
    | ok run =>
      obtain ⟨v, peer⟩ := run
      rcases hon : (fn v peer).on (x, []) with ⟨e | ⟨⟩, z, later⟩
      · simp only [again, hsecond, hon, errOf] at h
        cases h
      · exact ⟨v, peer, z, later, hon, by simp only [again, hsecond, hon]; rfl⟩
  cases hfirst : net.first with
  | none =>
    have hdo : net.do fn x = net.again fn x [] := by rw [SessionNet.do, hfirst]
    rw [hdo] at h ⊢
    obtain ⟨v, peer, z, later, hon, heq⟩ := hagain h
    exact ⟨v, peer, x, z, [], later, hon, heq⟩
  | some run =>
    obtain ⟨v, peer⟩ := run
    rcases hon : (fn v peer).on (x, []) with ⟨e | ⟨⟩, z, sent⟩
    · have hdo : net.do fn x =
          if net.alive then (some (.afp e), z, sent) else net.again fn z sent := by
        simp only [SessionNet.do, hfirst, hon]
      rw [hdo] at h ⊢
      split_ifs at h ⊢
      obtain ⟨v', peer', y, later, hon', heq⟩ := hagain h
      exact ⟨v', peer', z, y, sent, later, hon', heq⟩
    · exact ⟨v, peer, x, z, [], sent,
        hon, by simp only [SessionNet.do, hfirst, hon, List.nil_append]⟩

end SessionNet

end Do

def File.truncateRun (path : Bytes) (writable : Bool) (size : Int) (v : AfpVolume) (peer : Peer) :
    Proc (File × List Bytes) AfpErr Unit :=
  (v.forkOpsVia (Session.command peer)).withFork path writable fun o =>
    forkTruncate (Session.command peer) (UInt16.ofNat o.id) size

def File.truncate (f : File) (net : SessionNet) (path : Bytes) (writable : Bool) (size : Int) :
    Option OsErr × File × List Bytes :=
  match net.do (File.truncateRun path writable size) f with
  | (some e, f, sent) => (some (mapErr e), f, sent)
  | (none, f, sent) => (none, { f with size := size }, sent)

/-- The requests that set the parameters of a fork. -/
def setForkBlocks (sent : List Bytes) : List Bytes :=
  sent.filter fun block => block.headD 0 = cmdSetForkParms

/-- The length field that the bitmap of the block names holds `len`. -/
def AsksLength (len : Int) (block : Bytes) : Prop :=
  ∃ (id n : Nat), Site.setForkCall block = .ok (.vol (.setForkLen id n)) ∧ (n : Int) = len

/-- The call failed without asking for a length, or asked for this one only. -/
def AskedExactly (size : Int) (failed : Prop) (sent : List Bytes) : Prop :=
  setForkBlocks sent = [] ∧ failed ∨ setForkBlocks sent ≠ [] ∧ ∀ block ∈ setForkBlocks sent,
    AsksLength size block

theorem truncateLen_eq_iff {size : Int} (h : IsInt64 size) :
    (File.truncateLen size : Int) = size ↔ 0 ≤ size := by
  obtain ⟨hlo, hhi⟩ := h
  rw [File.truncateLen]
  split_ifs <;> omega

theorem asksLength_truncateBlock (id : UInt16) (size len : Int) :
    AsksLength len (truncateBlock id size) ↔ (File.truncateLen size : Int) = len := by
  constructor
  · rintro ⟨id', n, hcall, hn⟩
    rw [setForkCall_truncateBlock] at hcall
    cases hcall
    exact hn
  · intro h
    exact ⟨id.toNat, File.truncateLen size, setForkCall_truncateBlock id size, h⟩

section Sent

variable (size : Int)

/-- Every request for a length comes from this call. -/
def Requested (sent : List Bytes) : Prop :=
  ∀ block ∈ setForkBlocks sent, ∃ id, block = truncateBlock id size

variable {size}

theorem Requested.nil : Requested size [] := List.forall_mem_nil _

theorem Requested.append {sent later : List Bytes} (h : Requested size sent)
    (h' : Requested size later) :
    Requested size (sent ++ later) := by
  intro block hblock
  rw [setForkBlocks, List.filter_append] at hblock
  rcases List.mem_append.mp hblock with hmem | hmem
  · exact h block hmem
  · exact h' block hmem

theorem Requested.keeps_command {peer : Peer} {block : Bytes} (h : Requested size [block]) :
    Keeps (Requested size) (Session.command peer block) :=
  fun _ hsent => hsent.append h

theorem keeps_openForkVia (peer : Peer) (v : AfpVolume) (path : Bytes) (mode : UInt16) :
    Keeps (Requested size) (v.openForkVia (Session.command peer) rootDirID path mode) := by
  have hother : Requested size [v.openForkBlock rootDirID path mode] := List.forall_mem_nil _
  exact hother.keeps_command.bind fun x => (Keeps.lift _).bind fun _ => (Keeps.lift _).bind fun f =>
    Keeps.pure _

theorem keeps_forkTruncate (peer : Peer) (id : UInt16) :
    Keeps (Requested size) (forkTruncate (Session.command peer) id size) := by
  have hown : Requested size [truncateBlock id size] := by
    intro block hblock
    exact ⟨id, List.mem_singleton.mp (List.mem_of_mem_filter hblock)⟩
  exact hown.keeps_command.bind fun x => Keeps.lift _

theorem keeps_reopen (peer : Peer) (v : AfpVolume) (path : Bytes) (writable : Bool) :
    Keeps (fun s : File × List Bytes => Requested size s.2)
      ((v.forkOpsVia (Session.command peer)).reopen path writable) := by
  have hopen : Keeps (Requested size)
      ((v.forkOpsVia (Session.command peer)).openFork path writable) := by
    cases writable with
    | true => exact keeps_openForkVia peer v path _
    | false => exact keeps_openForkVia peer v path _
  exact (keeps_onConn hopen).bind fun o => Keeps.bind (fun _ h => h) fun _ => Keeps.pure o

theorem keeps_truncateRun (path : Bytes) (writable : Bool) (v : AfpVolume) (peer : Peer) :
    Keeps (fun s : File × List Bytes => Requested size s.2)
      (File.truncateRun path writable size v peer) :=
  (ForkOps.keeps_openOn (keeps_reopen peer v path writable)).bind fun o =>
    keeps_onConn (keeps_forkTruncate peer (UInt16.ofNat o.id))

theorem forkTruncate_sent (peer : Peer) (id : UInt16) (sent : List Bytes) :
    ((forkTruncate (Session.command peer) id size).on sent).2 = sent ++
      [truncateBlock id size] := by
  rw [forkTruncate, codeOnly, on_bind, Session.command_on]
  cases (peer (sent ++ [truncateBlock id size])).result <;> rfl

theorem truncateRun_ok {path : Bytes} {writable : Bool} {v : AfpVolume} {peer : Peer} {f f' : File}
    {sent : List Bytes}
    (h : (File.truncateRun path writable size v peer).on (f, []) = (.ok (), f', sent)) :
    ∃ id, truncateBlock id size ∈ setForkBlocks sent := by
  obtain ⟨o, mid, -, htruncate⟩ := ok_of_on_bind h
  have hsent : ((forkTruncate (Session.command peer) (UInt16.ofNat o.id) size).on mid.2).2 = sent :=
    congrArg (fun r => r.2.2) htruncate
  rw [forkTruncate_sent] at hsent
  refine ⟨UInt16.ofNat o.id, List.mem_filter.mpr ⟨?_, rfl⟩⟩
  rw [← hsent]
  exact List.mem_append_right _ (List.mem_singleton_self _)

theorem askedExactly_iff {failed : Prop} {sent : List Bytes} (hsize : IsInt64 size)
    (hreq : Requested size sent) (hfailed : setForkBlocks sent = [] → failed) :
    AskedExactly size failed sent ↔ 0 ≤ size ∨ setForkBlocks sent = [] := by
  have hasks (id : UInt16) : AsksLength size (truncateBlock id size) ↔ 0 ≤ size :=
    (asksLength_truncateBlock id size size).trans (truncateLen_eq_iff hsize)
  by_cases hnone : setForkBlocks sent = []
  · exact iff_of_true (Or.inl ⟨hnone, hfailed hnone⟩) (Or.inr hnone)
  · rw [AskedExactly, or_iff_right fun h => hnone h.1, or_iff_left hnone, and_iff_right hnone]
    constructor
    · intro h
      obtain ⟨block, hblock⟩ := List.exists_mem_of_ne_nil _ hnone
      obtain ⟨id, rfl⟩ := hreq block hblock
      exact (hasks id).mp (h _ hblock)
    · intro h block hblock
      obtain ⟨id, rfl⟩ := hreq block hblock
      exact (hasks id).mpr h

variable (f : File) (net : SessionNet) (path : Bytes) (writable : Bool)

theorem truncate_requested : Requested size (f.truncate net path writable size).2.2 := by
  have hdo : Requested size (net.do (File.truncateRun path writable size) f).2.2 := by
    apply SessionNet.do_sent Requested.nil (fun _ _ h h' => h.append h')
    intro v peer f
    exact keeps_truncateRun path writable v peer (f, []) Requested.nil
  rw [File.truncate]
  rcases hrun : net.do (File.truncateRun path writable size) f with ⟨_ | e, f', sent⟩
  all_goals
    rw [hrun] at hdo
    exact hdo

variable {f net path writable}

theorem truncate_nil (h : (f.truncate net path writable size).1 = none) :
    (∃ id, truncateBlock id size ∈ setForkBlocks (f.truncate net path writable size).2.2) ∧
      (f.truncate net path writable size).2.1.size = size := by
  have herr : (net.do (File.truncateRun path writable size) f).1 = none := by
    rw [File.truncate] at h
    rcases hrun : net.do (File.truncateRun path writable size) f with ⟨_ | e, f', sent⟩
    · rfl
    · rw [hrun] at h
      cases h
  obtain ⟨v, peer, f₁, f₂, before, sent, hon, hdo⟩ := SessionNet.do_ok herr
  obtain ⟨id, hmem⟩ := truncateRun_ok hon
  rw [File.truncate, hdo]
  refine ⟨⟨id, ?_⟩, rfl⟩
  rw [setForkBlocks, List.filter_append]
  exact List.mem_append_right _ hmem

end Sent

section Fork

/-- The server answers a run's request for a fork with one. -/
def Peer.Opens (peer : Peer) (v : AfpVolume) (path : Bytes) (writable : Bool) : Prop :=
  ∃ payload info,
    (peer [v.openForkBlock rootDirID path
      (if writable then forkRead ||| forkWrite else forkRead)]).result =
    .ok (payload, resNoErr) ∧ openForkReply payload = .ok info

/-- A run has a fork to work on: the file's, or one that the server opens. -/
def File.GetsFork (f : File) (path : Bytes) (writable : Bool) (run : AfpVolume × Peer) : Prop :=
  (f.fork.isSome ∧ f.forkVol = some run.1.gen) ∨ run.2.Opens run.1 path writable

/-- Neither the first run nor, where there is one, the second gets a fork. -/
structure File.NoFork (f : File) (net : SessionNet) (path : Bytes) (writable : Bool) : Prop where
  first : ∀ run, net.first = some run → ¬ f.GetsFork path writable run
  second : net.first = none ∨ net.alive = false → ∀ run, net.second = .ok run →
    ¬ f.GetsFork path writable run

variable {f : File} {path : Bytes} {writable : Bool} {size : Int}

/-- The answer to the request for a fork decides how its run begins. -/
theorem openFork_cases (peer : Peer) (v : AfpVolume) (path : Bytes) (writable : Bool) :
    ∃ r block, ((v.forkOpsVia (Session.command peer)).openFork path writable).on [] = (r, [block]) ∧
      block.headD 0 = cmdOpenFork ∧ (r.isOk ↔ peer.Opens v path writable) := by
  let mode := if writable then forkRead ||| forkWrite else forkRead
  let block := v.openForkBlock rootDirID path mode
  have hmode : (v.forkOpsVia (Session.command peer)).openFork path writable =
      v.openForkVia (Session.command peer) rootDirID path mode := by cases writable <;> rfl
  have hsend : (Session.command peer block).on [] = ((peer [block]).result, [block]) :=
    Session.command_on ..
  rw [hmode, AfpVolume.openForkVia, AfpVolume.openForkBy]
  cases hres : (peer [block]).result with
  | error e =>
    rw [hres] at hsend
    refine ⟨_, block, on_bind_error hsend, rfl, iff_of_false
      (by simp [Except.isOk, Except.toBool]) ?_⟩
    rintro ⟨payload, info, hok, -⟩
    cases hres.symm.trans hok
  | ok reply =>
    obtain ⟨payload, code⟩ := reply
    rw [hres] at hsend
    by_cases hcode : code = resNoErr
    · subst hcode
      cases hreply : openForkReply payload with
      | error e =>
        refine ⟨.error e.merged, block, ?_, rfl, iff_of_false
          (by simp [Except.isOk, Except.toBool]) ?_⟩
        · rw [on_bind_ok hsend]
          simp only [hreply]
          rfl
        · rintro ⟨payload', info, hok, hinfo⟩
          cases hres.symm.trans hok
          cases hreply.symm.trans hinfo
      | ok info =>
        refine ⟨.ok ⟨defaultFork v.quantum, v.gen, info.id.toNat, info.size.toNat⟩, block, ?_, rfl,
          iff_of_true rfl ⟨payload, info, hres, hreply⟩⟩
        rw [on_bind_ok hsend]
        simp only [hreply]
        rfl
    · refine ⟨.error (.result ("open " ++ goText path) code), block, ?_, rfl, iff_of_false
        (by simp [Except.isOk, Except.toBool]) ?_⟩
      · rw [on_bind_ok hsend]
        simp only [resultErr, if_neg hcode]
        rfl
      · rintro ⟨payload', info, hok, -⟩
        cases hres.symm.trans hok
        exact hcode rfl

theorem truncateRun_of_open {v : AfpVolume} {peer : Peer} {o : OpenFork} {s : File × List Bytes}
    (h : ((v.forkOpsVia (Session.command peer)).openOn path writable).on (f, []) = (.ok o, s)) :
    setForkBlocks ((File.truncateRun path writable size v peer).on (f, [])).2.2 ≠ [] := by
  rw [File.truncateRun, ForkOps.withFork, on_bind_ok h, onConn_on, forkTruncate_sent, setForkBlocks,
    List.filter_append]
  exact List.append_ne_nil_of_right_ne_nil _ (List.cons_ne_nil _ _)

/-- A run asks for a length exactly if it gets a fork, and without one it leaves
the file as it was. -/
theorem truncateRun_cases (f : File) (path : Bytes) (writable : Bool) (size : Int)
    (run : AfpVolume × Peer) :
    (f.GetsFork path writable run ∧
      setForkBlocks ((File.truncateRun path writable size run.1 run.2).on (f, [])).2.2 ≠ []) ∨
    (¬ f.GetsFork path writable run ∧ ∃ e sent,
      (File.truncateRun path writable size run.1 run.2).on (f, []) = (.error e, f, sent) ∧
      setForkBlocks sent = []) := by
  obtain ⟨v, peer⟩ := run
  have hgen : (v.forkOpsVia (Session.command peer)).gen = v.gen := rfl
  by_cases hown : f.fork.isSome ∧ f.forkVol = some v.gen
  · obtain ⟨hfork, hvol⟩ := hown
    obtain ⟨o, ho⟩ := Option.isSome_iff_exists.mp hfork
    refine .inl ⟨.inl ⟨hfork, hvol⟩, truncateRun_of_open (o := o) (s := (f, [])) ?_⟩
    simp only [ForkOps.openOn]
    rw [on_bind_ok (on_get _)]
    simp only [ho, hgen, if_pos hvol]
    rfl
  · have hopen : ((v.forkOpsVia (Session.command peer)).openOn path writable).on (f, []) =
        ((v.forkOpsVia (Session.command peer)).reopen path writable).on (f, []) := by
      simp only [ForkOps.openOn]
      rw [on_bind_ok (on_get _)]
      cases hfork : f.fork with
      | none => rfl
      | some o =>
        simp only [hgen, if_neg fun hvol => hown ⟨by simp [hfork], hvol⟩]
    obtain ⟨r, block, hrun, hblock, hiff⟩ := openFork_cases peer v path writable
    have hconn : (onConn ((v.forkOpsVia (Session.command peer)).openFork path writable)).on
        (f, []) = (r, f, [block]) := by rw [onConn_on, hrun]
    cases r with
    | ok o =>
      refine .inl ⟨.inr (hiff.mp rfl), ?_⟩
      have hreopen := hopen.trans (on_bind_ok hconn)
      exact truncateRun_of_open hreopen
    | error e =>
      have hno : ¬ peer.Opens v path writable := fun h => by
        simpa [Except.isOk, Except.toBool] using hiff.mpr h
      refine .inr ⟨not_or.mpr ⟨hown, hno⟩, e, [block], ?_, ?_⟩
      · rw [File.truncateRun, ForkOps.withFork]
        exact on_bind_error (hopen.trans (on_bind_error hconn))
      · rw [setForkBlocks, List.filter_singleton, hblock]
        rfl

theorem truncate_sent (f : File) (net : SessionNet) (path : Bytes) (writable : Bool) (size : Int) :
    (f.truncate net path writable size).2.2 =
      (net.do (File.truncateRun path writable size) f).2.2 := by
  rw [File.truncate]
  rcases net.do (File.truncateRun path writable size) f with ⟨_ | e, f', sent⟩ <;> rfl

theorem setForkBlocks_truncate (f : File) (net : SessionNet) (path : Bytes) (writable : Bool)
    (size : Int) :
    setForkBlocks (f.truncate net path writable size).2.2 = [] ↔ f.NoFork net path writable := by
  have hagain {sent : List Bytes} (hsent : setForkBlocks sent = []) :
      setForkBlocks (net.again (File.truncateRun path writable size) f sent).2.2 = [] ↔
        ∀ run, net.second = .ok run → ¬ f.GetsFork path writable run := by
    rw [SessionNet.again]
    cases hsecond : net.second with
    | error e => exact iff_of_true hsent fun run hrun => by cases hrun
    | ok run =>
      have happend (later : List Bytes) : setForkBlocks (sent ++ later) = setForkBlocks later := by
        rw [setForkBlocks, List.filter_append]
        exact congrArg (· ++ _) hsent
      simp only [happend]
      rcases truncateRun_cases f path writable size run
        with ⟨hgets, hne⟩ | ⟨hnot, e, later, hrun, hnil⟩
      · exact iff_of_false hne fun h => h run rfl hgets
      · rw [hrun]
        exact iff_of_true hnil fun run' heq => by cases heq; exact hnot
  rw [truncate_sent, SessionNet.do]
  cases hfirst : net.first with
  | none =>
    rw [hagain rfl]
    exact ⟨fun h => ⟨by simp [hfirst], fun _ => h⟩, fun h => h.second (.inl hfirst)⟩
  | some run =>
    rcases truncateRun_cases f path writable size run
      with ⟨hgets, hne⟩ | ⟨hnot, e, sent, hrun, hnil⟩
    · refine iff_of_false ?_ fun h => h.first run hfirst hgets
      rcases hrun : (File.truncateRun path writable size run.1 run.2).on (f, [])
          with ⟨e | ⟨⟩, f', sent⟩
      all_goals
        rw [hrun] at hne
        simp only [hrun]
      · split_ifs
        · exact hne
        · obtain ⟨later, hlater⟩ := net.again_sent (File.truncateRun path writable size) f' sent
          rw [hlater, setForkBlocks, List.filter_append]
          exact List.append_ne_nil_of_left_ne_nil hne _
      · exact hne
    · simp only [hrun]
      have hfirst' : ∀ run', net.first = some run' → ¬ f.GetsFork path writable run' := by
        intro run' heq
        cases hfirst.symm.trans heq
        exact hnot
      cases halive : net.alive with
      | true => exact iff_of_true hnil ⟨hfirst', by simp [hfirst, halive]⟩
      | false =>
        rw [if_neg (by simp), hagain hnil]
        exact ⟨fun h => ⟨hfirst', fun _ => h⟩, fun h => h.second (.inr halive)⟩

end Fork

/-- A negative size is sent as what is left of it in 32 bits, if the call gets a
fork to send it for. For every other one each request asks for it, and it is the
size of the file after a success. -/
theorem truncate_exact_iff {size : Int} (hsize : IsInt64 size) (id : UInt16) (peer : Peer)
    (f : File) (net : SessionNet) (path : Bytes) (writable : Bool) :
    (AskedExactly size (((forkTruncate (Session.command peer) id size).on []).1 ≠ .ok ())
        ((forkTruncate (Session.command peer) id size).on []).2 ↔ 0 ≤ size) ∧
    (AskedExactly size ((f.truncate net path writable size).1 ≠ none)
      (f.truncate net path writable size).2.2 ∧
        ((f.truncate net path writable size).1 = none →
          ∀ block ∈ setForkBlocks (f.truncate net path writable size).2.2,
            AsksLength (f.truncate net path writable size).2.1.size block) ↔
      0 ≤ size ∨ f.NoFork net path writable) := by
  constructor
  · have hreq : Requested size ((forkTruncate (Session.command peer) id size).on []).2 :=
      keeps_forkTruncate peer id [] Requested.nil
    have hsent : setForkBlocks ((forkTruncate (Session.command peer) id size).on []).2 ≠ [] := by
      rw [forkTruncate_sent]
      exact List.cons_ne_nil _ _
    rw [askedExactly_iff hsize hreq fun h => absurd h hsent, or_iff_left hsent]
  · have hfailed (h : setForkBlocks (f.truncate net path writable size).2.2 = []) :
        (f.truncate net path writable size).1 ≠ none := by
      intro hnone
      obtain ⟨⟨id, hmem⟩, -⟩ := truncate_nil hnone
      rw [h] at hmem
      cases hmem
    rw [and_iff_left_of_imp,
      askedExactly_iff hsize (truncate_requested f net path writable) hfailed,
      setForkBlocks_truncate]
    intro hasked hnone
    rw [(truncate_nil hnone).2]
    rcases hasked with ⟨-, herr⟩ | ⟨-, hall⟩
    · exact absurd hnone herr
    · exact hall

/-- A file with a fork open on a volume whose server grants every request. -/
def openFile : File where
  fork := some ⟨defaultFork 0, plainVolume.gen, 5, 0⟩
  forkVol := some plainVolume.gen

def granting : SessionNet where
  first := some (plainVolume, answering [])
  alive := true
  second := .error (.afp .cancelled)

theorem truncate_exact_iff_large : IsInt64 (2 ^ 32) ∧
    AskedExactly (2 ^ 32) ((openFile.truncate granting (ascii "a") true (2 ^ 32)).1 ≠ none)
      (openFile.truncate granting (ascii "a") true (2 ^ 32)).2.2 := by
  have hsize : IsInt64 (2 ^ 32) := ⟨by decide, by decide⟩
  have h := truncate_exact_iff hsize 5 (fun _ => .cancelled) openFile granting (ascii "a") true
  exact ⟨hsize, (h.2.mpr (Or.inl (by decide))).1⟩

/-- Asked to truncate to -1, the file is truncated to 2 ^ 32 - 1 bytes and
holds -1 for its size. -/
theorem truncate_negative :
    openFile.truncate granting (ascii "a") true (-1) =
      (none, { openFile with size := -1 }, [truncateBlock 5 (-1)]) ∧
      AsksLength (2 ^ 32 - 1) (truncateBlock 5 (-1)) ∧
        ¬ AsksLength (-1) (truncateBlock 5 (-1)) := by
  refine ⟨rfl, (asksLength_truncateBlock 5 (-1) _).mpr (by decide), ?_⟩
  rw [asksLength_truncateBlock]
  decide

end GoAfp
