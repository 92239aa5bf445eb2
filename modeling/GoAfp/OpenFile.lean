import GoAfp.HostFS

/-! Which failures of `OpenFile` leave a fork open on the server. -/

namespace GoAfp

open Proc

section Server

variable {site : Site} {s : VolServer}

theorem VolServer.openFork_ok {s' : VolServer} {write : Bool} {p : Path} {info : ForkInfo}
    (h : s.openFork write p = .ok (info, s')) :
    ∃ d, s.tree.find p = some (.file d) ∧ info = ⟨s.nextFork, d.content.length⟩ ∧
      s' = { s with forks := (s.nextFork, ⟨p, write⟩) :: s.forks, nextFork := s.nextFork + 1 } := by
  rw [openFork] at h
  split at h
  · cases h
  · cases h
  · rename_i d hfind
    split_ifs at h
    cases h
    exact ⟨d, hfind, rfl, rfl⟩

theorem Site.openFork_cases (s : VolServer) (write : Bool) (path : Bytes) :
    ((Site.openFork s write path).1.2 ≠ resNoErr ∧ (Site.openFork s write path).2 = s) ∨
      ∃ id p d, id < 65536 ∧ named path = .ok p ∧ s.tree.find p = some (.file d) ∧
        Site.openFork s write path = ((putU16 kFPExtDataForkLenBit ++
          (putU16 (UInt16.ofNat id) ++ putU64 (UInt64.ofNat d.content.length)), resNoErr),
          { s with forks := (id, ⟨p, write⟩) :: s.forks, nextFork := id + 1 }) := by
  rw [Site.openFork]
  cases hid : freeFork s.forks 65536 0 with
  | none =>
    refine Or.inl ⟨?_, rfl⟩
    change resTooManyFilesOpen ≠ resNoErr
    decide
  | some id =>
    cases hh : ({ s with nextFork := id } : VolServer).handle (.openFork write path) with
    | error r =>
      exact Or.inl ⟨by simpa only [hh] using r.code_ne_noErr, by simp only [hh]⟩
    | ok r =>
      obtain ⟨info, s'⟩ := r
      obtain ⟨p, hp, hopen⟩ := VolServer.named_bind_ok hh
      obtain ⟨d, hd, rfl, rfl⟩ := VolServer.openFork_ok hopen
      have hlt := (freeFork_eq_some hid).2
      exact Or.inr ⟨id, p, d, by omega, hp, hd, by simp only [hh]⟩

theorem receive_createFile_forks {v : AfpVolume} {dirID : UInt32} (hvol : site.volID = v.id)
    (hdirID : site.dirID = dirID) (path : Bytes) (overwrite : Bool) :
    (site.receive s (v.createFileBlock dirID path overwrite)).2.forks = s.forks := by
  rw [Site.receive_vol (decode_createFileBlock hvol hdirID path overwrite)
    fun _ _ => Request.noConfusion]
  exact VolServer.serve_setTree (e := named (sentPath v.nfd path) >>= s.tree.createFile overwrite)
    (by simp only [VolServer.handle, bind_assoc])

theorem receive_truncate_forks (id : UInt16) (size : Int) :
    (site.receive s (truncateBlock id size)).2.forks = s.forks := by
  rw [Site.receive_vol (decode_truncateBlock id size) fun _ _ => Request.noConfusion]
  exact VolServer.serve_setTree rfl

theorem Host.answer_forks {codes : List (Option ErrCode)} {block : Bytes}
    (h : (site.receive s block).2.forks = s.forks) :
    (Host.answer site codes s block).2.forks = s.forks := by
  by_cases hcode : codes.headD none = none
  · rwa [Conduct.answer_served hcode]
  · rw [(Conduct.answer_refused hcode s block).2]

end Server

def openMode (write : Bool) : UInt16 :=
  if write then forkRead ||| forkWrite else forkRead

section Exchange

variable (c : Conduct) (v : AfpVolume) (path : Bytes) (flag : OpenFlags) (s : VolServer)

def createAnswer : (Bytes × Result) × VolServer :=
  if flag.create then Host.answer c.site c.codes s (v.createFileBlock rootDirID path false)
    else (([], resNoErr), s)

def Conduct.created : Conduct :=
  if flag.create then c.tail else c

def CreatePasses (code : Result) : Prop :=
  code = resNoErr ∨ code = resObjectExists ∧ flag.excl = false

def openAnswer : (Bytes × Result) × VolServer :=
  Host.answer c.site c.codes s (v.openForkBlock rootDirID path (openMode flag.writable))

/-- The file is there or made, its fork is opened, and the server refuses to
truncate it. -/
def TruncateRefused : Prop :=
  CreatePasses flag (createAnswer c v path flag s).1.2 ∧
  let opened := openAnswer (c.created flag) v path flag (createAnswer c v path flag s).2
  opened.1.2 = resNoErr ∧ (flag.trunc && flag.writable) = true ∧
  ∃ f, openForkReply opened.1.1 = .ok f ∧
    (Host.answer c.site (c.created flag).codes.tail opened.2 (truncateBlock f.id 0)).1.2 ≠ resNoErr

end Exchange

section Steps

variable {c : Conduct} {v : AfpVolume} {path filename : Bytes} {flag : OpenFlags} {s : VolServer}
  {f : File}

theorem createFile_on (hk : c.crash.next = .answered) (hcreate : flag.create = true) :
    (onConn (v.forkOps.createFile path false)).on (f, c.host s) =
      (resultErr ("create " ++ goText path) (createAnswer c v path flag s).1.2, f,
        (c.created flag).host (createAnswer c v path flag s).2) := by
  rw [onConn_on, createAnswer, Conduct.created, if_pos hcreate, if_pos hcreate]
  change (((codeOnly Host.command _ _).on (c.host s)).1, f,
    ((codeOnly Host.command _ _).on (c.host s)).2) = _
  rw [Conduct.codeOnly_host hk]

theorem createStep_passes (hk : c.crash.next = .answered)
    (h : CreatePasses flag (createAnswer c v path flag s).1.2) :
    (v.forkOps.createStep path filename flag).on (f, c.host s) =
      (.ok (), f, (c.created flag).host (createAnswer c v path flag s).2) := by
  rw [ForkOps.createStep]
  by_cases hcreate : flag.create = true
  · rw [if_pos hcreate, on_bind_ok (on_observe _ _), createFile_on hk hcreate]
    rcases h with hok | ⟨hexists, hexcl⟩
    · simp only [hok, resultErr_noErr]
      rfl
    · have hmap := (mapErr_exist_iff ("create " ++ goText path) resObjectExists).mpr rfl
      have herr : resultErr ("create " ++ goText path) resObjectExists = .error
          (.result _ resObjectExists) := rfl
      simp only [hexists, herr, hmap, hexcl]
      rfl
  · rw [if_neg hcreate, createAnswer, Conduct.created, if_neg hcreate, if_neg hcreate]
    rfl

theorem createStep_fails (filename : Bytes) (f : File) (hk : c.crash.next = .answered)
    (h : ¬ CreatePasses flag (createAnswer c v path flag s).1.2) :
    ∃ e, (v.forkOps.createStep path filename flag).on (f, c.host s) =
      (.error e, f, (c.created flag).host (createAnswer c v path flag s).2) := by
  by_cases hcreate : flag.create = true
  · have hne : (createAnswer c v path flag s).1.2 ≠ resNoErr := fun hok => h (Or.inl hok)
    rw [ForkOps.createStep, if_pos hcreate, on_bind_ok (on_observe _ _), createFile_on hk hcreate,
      resultErr, if_neg hne]
    by_cases hexists : (createAnswer c v path flag s).1.2 = resObjectExists
    · have hexcl : flag.excl = true := by
        by_contra hno
        exact h (Or.inr ⟨hexists, eq_false_of_ne_true hno⟩)
      have hmap := (mapErr_exist_iff ("create " ++ goText path) _).mpr hexists
      simp only [hmap, hexcl]
      exact ⟨_, rfl⟩
    · have hmap := (mapErr_exist_iff ("create " ++ goText path) _).not.mpr hexists
      simp only [hmap, if_false]
      exact ⟨_, rfl⟩
  · refine absurd (Or.inl ?_) h
    rw [createAnswer, if_neg hcreate]

theorem openFork_eq (path : Bytes) (write : Bool) :
    v.forkOps.openFork path write = v.openForkMode rootDirID path (openMode write) := by
  cases write <;> rfl

/-- A fork of another connection, or none, is opened anew. -/
theorem openOn_stale {h : Host} (hf : f.forkVol ≠ some v.gen) (path : Bytes) (writable : Bool) :
    (v.forkOps.openOn path writable).on (f, h) =
      match (v.openForkMode rootDirID path (openMode writable)).on h with
      | (.ok o, h') => (.ok o, { f with fork := some o, forkVol := some v.gen }, h')
      | (.error e, h') => (.error e, f, h') := by
  have hreopen : (v.forkOps.openOn path writable).on (f, h) =
      (v.forkOps.reopen path writable).on (f, h) := by
    rw [ForkOps.openOn, on_bind_ok (on_get _)]
    have hgen : f.forkVol ≠ some v.forkOps.gen := hf
    cases hfork : f.fork with
    | none => simp only [hfork]
    | some o => simp only [hfork, hgen, if_false]
  rw [hreopen, ForkOps.reopen, openFork_eq, on_bind, onConn_on]
  rcases (v.openForkMode rootDirID path (openMode writable)).on h with ⟨e | o, h'⟩ <;> rfl

theorem forkStep_fails (filename : Bytes) (hk : c.crash.next = .answered)
    (h : (openAnswer c v path flag s).1.2 ≠ resNoErr) :
    ∃ e, (v.forkOps.forkStep path filename flag).on ({}, c.host s) =
      (.error e, {}, c.tail.host (openAnswer c v path flag s).2) := by
  rw [ForkOps.forkStep, on_bind_ok (on_observe _ _), openOn_stale (by simp),
    openForkMode_refused hk h]
  exact ⟨_, rfl⟩

theorem forkStep_opens (hk : c.crash.next = .answered) {id : UInt16} {size : UInt64}
    {s' : VolServer} (h : openAnswer c v path flag s =
      ((putU16 kFPExtDataForkLenBit ++ (putU16 id ++ putU64 size), resNoErr), s')) :
    (v.forkOps.forkStep path filename flag).on ({}, c.host s) =
      (v.forkOps.truncateStep filename flag ⟨defaultFork v.quantum, v.gen, id.toNat, size.toNat⟩).on
        ({ fork := some ⟨defaultFork v.quantum, v.gen, id.toNat, size.toNat⟩, forkVol := some v.gen,
           size := wrap64 size.toNat }, c.tail.host s') := by
  rw [ForkOps.forkStep, on_bind_ok (on_observe _ _), openOn_stale (by simp),
    openForkMode_opened hk h]
  exact on_bind_ok (inFile_on _ _)

theorem truncate_on (hk : c.crash.next = .answered) (o : OpenFork) :
    (onConn (v.forkOps.truncate o 0)).on (f, c.host s) =
      (resultErr "truncate"
        (Host.answer c.site c.codes s (truncateBlock (UInt16.ofNat o.id) 0)).1.2, f,
        c.tail.host (Host.answer c.site c.codes s (truncateBlock (UInt16.ofNat o.id) 0)).2) := by
  rw [onConn_on]
  change (((codeOnly Host.command _ _).on (c.host s)).1, f,
    ((codeOnly Host.command _ _).on (c.host s)).2) = _
  rw [Conduct.codeOnly_host hk]

theorem truncateStep_fails (v : AfpVolume) (filename : Bytes) (f : File)
    (hk : c.crash.next = .answered) {o : OpenFork} (hflag : (flag.trunc && flag.writable) = true)
    (h : (Host.answer c.site c.codes s (truncateBlock (UInt16.ofNat o.id) 0)).1.2 ≠ resNoErr) :
    ∃ e, (v.forkOps.truncateStep filename flag o).on (f, c.host s) =
      (.error e, f, c.tail.host
        (Host.answer c.site c.codes s (truncateBlock (UInt16.ofNat o.id) 0)).2) := by
  rw [ForkOps.truncateStep, if_pos hflag, on_bind_ok (on_observe _ _), truncate_on hk, resultErr,
    if_neg h]
  exact ⟨_, rfl⟩

theorem truncateStep_passes (v : AfpVolume) (filename : Bytes) (f : File)
    (hk : c.crash.next = .answered) {o : OpenFork} (h : (flag.trunc && flag.writable) = true →
      (Host.answer c.site c.codes s (truncateBlock (UInt16.ofNat o.id) 0)).1.2 = resNoErr) :
    ∃ r, (v.forkOps.truncateStep filename flag o).on (f, c.host s) = (.ok (), r) := by
  rw [ForkOps.truncateStep]
  by_cases hflag : (flag.trunc && flag.writable) = true
  · rw [if_pos hflag, on_bind_ok (on_observe _ _), truncate_on hk, h hflag, resultErr_noErr]
    exact ⟨_, rfl⟩
  · rw [if_neg hflag]
    exact ⟨_, rfl⟩

/-- Nothing closes the fork again. -/
theorem truncateStep_forks_iff (hk : c.crash.next = .answered) {o : OpenFork}
    {F : List (Nat × ForkRef)} {q : Nat × ForkRef} (hs : s.forks = q :: F) :
    (∀ e r, (v.forkOps.truncateStep filename flag o).on (f, c.host s) = (.error e, r) →
      r.2.srv.forks = F) ↔
      ¬ ((flag.trunc && flag.writable) = true ∧
        (Host.answer c.site c.codes s (truncateBlock (UInt16.ofNat o.id) 0)).1.2 ≠ resNoErr) := by
  by_cases hno : (flag.trunc && flag.writable) = true ∧
      (Host.answer c.site c.codes s (truncateBlock (UInt16.ofNat o.id) 0)).1.2 ≠ resNoErr
  · obtain ⟨e, hon⟩ := truncateStep_fails v filename f hk hno.1 hno.2
    refine iff_of_false (fun hall => ?_) (not_not.mpr hno)
    have hsame : (Host.answer c.site c.codes s (truncateBlock (UInt16.ofNat o.id) 0)).2.forks = F :=
      hall e _ hon
    rw [Host.answer_forks (receive_truncate_forks _ 0), hs] at hsame
    exact List.cons_ne_self _ _ hsame
  · obtain ⟨r, hon⟩ := truncateStep_passes v filename f hk fun hflag =>
      not_not.mp fun hcode => hno ⟨hflag, hcode⟩
    rw [hon]
    exact iff_of_true (fun e r heq => by cases heq) hno

theorem openAnswer_cases (hvol : c.site.volID = v.id) (hdirID : c.site.dirID = rootDirID)
    (path : Bytes) (flag : OpenFlags) (s : VolServer) :
    ((openAnswer c v path flag s).1.2 ≠ resNoErr ∧ (openAnswer c v path flag s).2 = s) ∨
      ∃ id size forkID ref s', openAnswer c v path flag s =
        ((putU16 kFPExtDataForkLenBit ++ (putU16 id ++ putU64 size), resNoErr), s') ∧
        s'.forks = (forkID, ref) :: s.forks := by
  rw [openAnswer]
  by_cases hcode : c.codes.headD none = none
  · rw [Conduct.answer_served hcode,
      Site.receive_of_decode (decode_openForkBlock hvol hdirID path _), Site.respond]
    rcases Site.openFork_cases s (openMode flag.writable &&& forkWrite ≠ 0)
      (sentPath v.nfd path) with hno | ⟨id, p, d, -, -, -, hopen⟩
    · exact Or.inl hno
    · exact Or.inr ⟨_, _, id, ⟨p, _⟩, _, hopen, rfl⟩
  · exact Or.inl (Conduct.answer_refused hcode s _)

theorem createAnswer_forks (hvol : c.site.volID = v.id) (hdirID : c.site.dirID = rootDirID)
    (path : Bytes) (flag : OpenFlags) (s : VolServer) :
    (createAnswer c v path flag s).2.forks = s.forks := by
  rw [createAnswer]
  split_ifs
  · exact Host.answer_forks (receive_createFile_forks hvol hdirID path false)
  · rfl

end Steps

theorem Conduct.created_crash {c : Conduct} {sched : Schedule} (h : c.crash = .never sched)
    (flag : OpenFlags) :
    (c.created flag).crash = .never sched := by
  rw [created]
  split_ifs
  · change c.crash.tail = _
    rw [h]
    rfl
  · exact h

theorem Conduct.created_site (c : Conduct) (flag : OpenFlags) : (c.created flag).site = c.site := by
  rw [created]
  split_ifs <;> rfl

/-- While the connection is up, the body of `OpenFile` fails with a fork left
open exactly if the server refuses to truncate it. -/
theorem openBody_forks_iff {c : Conduct} {v : AfpVolume} {sched : Schedule}
    (hup : c.crash = .never sched) (hvol : c.site.volID = v.id) (hdirID : c.site.dirID = rootDirID)
    (path filename : Bytes) (flag : OpenFlags) (s : VolServer) :
    (∀ e r, (v.forkOps.openBody path filename flag).on ({}, c.host s) = (.error e, r) →
      r.2.srv.forks = s.forks) ↔
      ¬ TruncateRefused c v path flag s := by
  have hk : c.crash.next = .answered := by rw [hup]; rfl
  have hk' : (c.created flag).crash.next = .answered := by rw [Conduct.created_crash hup]; rfl
  have hforks := createAnswer_forks hvol hdirID path flag s
  have hvol' : (c.created flag).site.volID = v.id := by rwa [c.created_site]
  have hdirID' : (c.created flag).site.dirID = rootDirID := by rwa [c.created_site]
  by_cases hpass : CreatePasses flag (createAnswer c v path flag s).1.2
  · rw [ForkOps.openBody, on_bind_ok (createStep_passes hk hpass)]
    rcases openAnswer_cases hvol' hdirID' path flag (createAnswer c v path flag s).2 with
      ⟨hno, hsame⟩ | ⟨id, size, forkID, ref, s', hopen, hopened⟩
    · obtain ⟨e, hon⟩ := forkStep_fails filename hk' hno
      rw [hon]
      refine iff_of_true (fun e r heq => ?_) fun h => hno h.2.1
      cases heq
      change (openAnswer (c.created flag) v path flag (createAnswer c v path flag s).2).2.forks = _
      rw [hsame, hforks]
    · have hk'' : (c.created flag).tail.crash.next = .answered := by
        change (c.created flag).crash.tail.next = _
        rw [Conduct.created_crash hup]
        rfl
      have hrefused : TruncateRefused c v path flag s ↔ (flag.trunc && flag.writable) = true ∧
          (Host.answer c.site (c.created flag).codes.tail s'
            (truncateBlock (UInt16.ofNat id.toNat) 0)).1.2 ≠ resNoErr := by
        rw [TruncateRefused, and_iff_right hpass, UInt16.ofNat_toNat]
        simp only [hopen, openForkReply_ok, true_and, Except.ok.injEq, exists_eq_left']
      rw [forkStep_opens hk' hopen, hrefused, ← c.created_site flag]
      exact truncateStep_forks_iff (c := (c.created flag).tail) hk''
        (hopened.trans (congrArg _ hforks))
  · obtain ⟨e, hon⟩ := createStep_fails filename {} hk hpass
    rw [ForkOps.openBody, on_bind_error hon]
    refine iff_of_true (fun e r heq => ?_) fun h => hpass h.1
    cases heq
    exact hforks

theorem FS.openFileOn_alive (fs : FS) {net : HostNet} (halive : net.alive = true) (v : AfpVolume)
    (filename : Bytes) (flag : OpenFlags) (s : VolServer) :
    (∀ e s', fs.openFileOn net v filename flag s = (.error e, s') → s'.forks = s.forks) ↔
      ∀ e r, (v.forkOps.openBody (fs.resolve filename) filename flag).on ({}, net.conduct.host s) =
        (.error e, r) →
        r.2.srv.forks = s.forks := by
  rcases hon : (v.forkOps.openBody (fs.resolve filename) filename flag).on ({}, net.conduct.host s)
      with ⟨e | ⟨⟩, f, h⟩
  · have hfail : fs.openFileOn net v filename flag s = (.error e, h.srv) := by
      simp only [openFileOn, HostNet.do, doRetry, Conduct.attempt, hon, halive]
      rfl
    constructor
    · intro hall _ _ heq
      cases heq
      exact hall e h.srv hfail
    · intro hall _ _ heq
      cases hfail.symm.trans heq
      exact hall e (f, h) rfl
  · have hopen : fs.openFileOn net v filename flag s =
        (.ok (if flag.append then { f with cursor := f.size } else f), h.srv) := by
      simp only [openFileOn, HostNet.do, doRetry, Conduct.attempt, hon]
      rfl
    refine iff_of_true (fun e s' heq => ?_) fun e r heq => by cases heq
    cases hopen.symm.trans heq

/-- While the connection is up, a failed `OpenFile` leaves no fork open exactly
if it did not fail to truncate the file. -/
theorem openFile_leaks_none_iff (fs : FS) {net : HostNet} {v : AfpVolume} {sched : Schedule}
    (hup : net.conduct.crash = .never sched) (halive : net.alive = true)
    (hvol : net.conduct.site.volID = v.id) (hdirID : net.conduct.site.dirID = rootDirID)
    (filename : Bytes) (flag : OpenFlags) (s : VolServer) :
    (∀ e s', fs.openFileOn net v filename flag s = (.error e, s') → s'.forks = s.forks) ↔
      ¬ TruncateRefused net.conduct v (fs.resolve filename) flag s :=
  (fs.openFileOn_alive halive v filename flag s).trans
    (openBody_forks_iff hup hvol hdirID (fs.resolve filename) filename flag s)

theorem openFile_leaks_none_iff_createRefused :
    ∃ s', (FS.mk []).openFileOn (.refusing [some denied]) plainVolume (ascii "a")
      ⟨false, true, true, false, true, false⟩
      emptyServer = (.error ⟨"open", ascii "a", .permission⟩, s') ∧
        s'.forks = emptyServer.forks := by
  have hvol : (HostNet.refusing [some denied]).conduct.site.volID = plainVolume.id := rfl
  have hup : (HostNet.refusing [some denied]).conduct.crash = .never inOrder := rfl
  have hpasses : ¬ TruncateRefused (HostNet.refusing [some denied]).conduct plainVolume
      ((FS.mk []).resolve (ascii "a")) ⟨false, true, true, false, true, false⟩ emptyServer := by
    rintro ⟨hok | ⟨hexists, -⟩, -⟩
    · cases hok
    · cases hexists
  have hopen : (FS.mk []).openFileOn (.refusing [some denied]) plainVolume (ascii "a")
      ⟨false, true, true, false, true, false⟩ emptyServer =
        (.error ⟨"open", ascii "a", .permission⟩, emptyServer) := rfl
  exact ⟨_, hopen,
    (openFile_leaks_none_iff (FS.mk []) hup rfl hvol rfl _ _ _).mpr hpasses _ _ hopen⟩

/-- The file is opened, the truncate is refused, and the fork stays open. -/
theorem openFile_truncateRefused :
    (FS.mk []).openFileOn (.refusing [none, some denied]) plainVolume (ascii "a")
    ⟨false, true, false, false, true, false⟩ fileServer =
      (.error ⟨"truncate", ascii "a", .permission⟩,
        { fileServer with forks := [(0, ⟨[ascii "a"], true⟩)], nextFork := 1 }) := by
  rfl

end GoAfp
