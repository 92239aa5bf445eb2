import GoAfp.HostFS
import GoAfp.Interaction

/-! The operations of a volume and of the file system as jobs: the requests
that their closures send, one by one, and what the closures do with the
answers. Answered by a server that nobody else uses, they are the operations
that run in one piece. -/

namespace GoAfp

abbrev Answer := Except AfpErr (Bytes × Result)

abbrev VolJob (L ε : Type) := Job Bytes Answer L ε

namespace Requests

variable {L : Type}

def command (block : Bytes) : VolJob L AfpErr (Bytes × Result) := do
  let r ← Job.ask block
  r

/-- A request whose reply is only its result code. -/
def codeOnly (op : String) (block : Bytes) : VolJob L AfpErr Unit := do
  let (_, code) ← command block
  resultErr op code

def close (o : OpenFork) : VolJob L AfpErr Unit :=
  codeOnly "close fork" (closeForkBlock (UInt16.ofNat o.id))

def truncate (o : OpenFork) (size : Int) : VolJob L AfpErr Unit :=
  codeOnly "truncate" (truncateBlock (UInt16.ofNat o.id) size)

/-- Requests in flight together, in the order in which they are served. -/
def askEach (block : Nat × Nat → Bytes) :
    List (Nat × Nat) → VolJob L AfpErr (List ((Nat × Nat) × Answer))
  | [] => return []
  | c :: cs => do
    let r ← Job.ask (block c)
    let rest ← askEach block cs
    return (c, r) :: rest

def answerTo (rs : List ((Nat × Nat) × Answer)) (c : Nat × Nat) : Answer :=
  (rs.lookup c).getD (.error .cancelled)

def writeAt (sched : Schedule) (o : OpenFork) (p : Bytes) (off : Nat) :
    VolJob L AfpErr (Nat × Option AfpErr) := do
  let rs ← askEach (pieceRequestBytes (UInt16.ofNat o.id) p off) (sched.order (o.fork.pieces p))
  return o.fork.writeAt ⟨[], fun c => (answerTo rs c).map Prod.snd, sched.order⟩ p

def readAt (sched : Schedule) (o : OpenFork) (p : Bytes) (off : Nat) :
    VolJob L AfpErr (Bytes × Nat × Option IoErr) := do
  let rs ← askEach (fun c => (chunkRange off c).block (UInt16.ofNat o.id))
    (sched.order (chunks o.fork.chunkSize p.length))
  return o.fork.readAt sched.order (fun at_ count => answerTo rs (at_ - off, count)) p off

variable (v : AfpVolume)

def createFile (path : Bytes) (overwrite : Bool) : VolJob L AfpErr Unit :=
  codeOnly ("create " ++ goText path) (v.createFileBlock rootDirID path overwrite)

def mkdir (path : Bytes) : VolJob L AfpErr Unit :=
  codeOnly ("mkdir " ++ goText path) (v.mkdirBlock rootDirID path)

def delete (path : Bytes) : VolJob L AfpErr Unit :=
  codeOnly ("delete " ++ goText path) (v.deleteBlock rootDirID path)

def rename (source dest : Bytes) : VolJob L AfpErr Unit :=
  codeOnly ("rename " ++ goText source) (v.renameBlock rootDirID source dest)

def setFinderInfo (path fi : Bytes) : VolJob L AfpErr Unit :=
  codeOnly ("set finder info " ++ goText path) (v.setFinderInfoBlock rootDirID path fi)

def stat (path : Bytes) : VolJob L AfpErr DirEntry :=
  v.statBy command rootDirID path

def openForkMode (path : Bytes) (mode : UInt16) : VolJob L AfpErr OpenFork :=
  v.openForkBy command rootDirID path mode

def openFork (path : Bytes) (write : Bool) : VolJob L AfpErr OpenFork :=
  openForkMode v path (if write then forkRead ||| forkWrite else forkRead)

def symlink (sched : Schedule) (link target : Bytes) : VolJob L AfpErr Unit := do
  createFile v link false
  let o ← openFork v link true
  let (_, err) ← writeAt sched o target 0
  match err with
  | some e =>
    let _ ← (Job.observe (close o) : VolJob L AfpErr (Except AfpErr Unit))
    throw e
  | none =>
    close o
    setFinderInfo v link symlinkFinderInfo

def readTarget (sched : Schedule) (o : OpenFork) : VolJob L IoErr Bytes := do
  if o.size = 0 then
    return []
  let (buf, n, err) ← Job.adapt IoErr.afp (readAt sched o (List.replicate o.size 0) 0)
  match err with
  | none => return buf.take n
  | some .eof => return buf.take n
  | some e => throw e

def readLink (sched : Schedule) (path : Bytes) : VolJob L IoErr Bytes := do
  let o ← Job.adapt IoErr.afp (openFork v path false)
  let r ← (Job.observe (readTarget sched o) : VolJob L IoErr (Except IoErr Bytes))
  -- the deferred close, whose error is dropped
  let _ ← (Job.observe (close o) : VolJob L IoErr (Except AfpErr Unit))
  r

section OpenFile

def reopen (p : Bytes) (writable : Bool) : VolJob File AfpErr OpenFork := do
  let o ← openFork v p writable
  modify fun f => { f with fork := some o, forkVol := some v.gen }
  return o

def openOn (p : Bytes) (writable : Bool) : VolJob File AfpErr OpenFork := do
  let f ← get
  match f.fork with
  | some o => if f.forkVol = some v.gen then return o else reopen v p writable
  | none => reopen v p writable

def createStep (p filename : Bytes) (flag : OpenFlags) : VolJob File PathErr Unit := do
  if flag.create then
    match ← Job.observe (createFile v p false) with
    | .ok () => pure ()
    | .error e =>
      if mapErr (.afp e) = .exist then
        if flag.excl then throw ⟨"open", filename, .exist⟩
      else throw ⟨"open", filename, mapErr (.afp e)⟩

def truncateStep (filename : Bytes) (flag : OpenFlags) (o : OpenFork) :
    VolJob File PathErr Unit := do
  if flag.trunc && flag.writable then
    match ← Job.observe (truncate o 0) with
    | .ok () => modify fun f => { f with size := 0 }
    | .error e => throw ⟨"truncate", filename, mapErr (.afp e)⟩

def forkStep (p filename : Bytes) (flag : OpenFlags) : VolJob File PathErr Unit := do
  match ← Job.observe (openOn v p flag.writable) with
  | .ok o =>
    modify fun f => { f with size := wrap64 o.size }
    truncateStep filename flag o
  | .error e => throw ⟨"open", filename, mapErr (.afp e)⟩

def openBody (p filename : Bytes) (flag : OpenFlags) : VolJob File PathErr Unit := do
  createStep v p filename flag
  forkStep v p filename flag

end OpenFile

end Requests

/-! Answered by a host, the jobs are the operations on the host. -/

section Interp

open Requests Job

def byHost (block : Bytes) (h : Host) : Answer × Host := h.send block

variable {σ τ ε α β : Type}

theorem onConn_bind (x : Proc σ ε α) (f : α → Proc σ ε β) :
    (onConn (x >>= f) : Proc (τ × σ) ε β) = onConn x >>= fun a => onConn (f a) := by
  apply Proc.ext
  intro s
  rw [onConn_on, Proc.on_bind, Proc.on_bind, onConn_on]
  rcases x.on s.2 with ⟨_ | a, s'⟩ <;> rfl

theorem onConn_lift (e : Except ε α) :
    (onConn (liftM e : Proc σ ε α) : Proc (τ × σ) ε α) = liftM e := rfl

variable {L : Type} (v : AfpVolume)

theorem interp_command (block : Bytes) :
    (Requests.command block : VolJob L AfpErr (Bytes × Result)).interp byHost = onConn
      (Host.command block) := by
  apply Proc.ext
  intro s
  rw [interp_on, Requests.command, on_bind, on_ask]
  rfl

/-- Jobs that go on alike after the reply. -/
theorem interp_command_bind {block : Bytes} {f : Bytes × Result → VolJob L AfpErr α}
    {g : Bytes × Result → Proc Host AfpErr α}
    (h : ∀ payload code, (f (payload, code)).interp byHost = onConn (g (payload, code))) :
    (Requests.command block >>= f).interp byHost = onConn (Host.command block >>= g) := by
  rw [interp_bind, interp_command, onConn_bind]
  apply bind_congr
  rintro ⟨payload, code⟩
  exact h payload code

theorem interp_codeOnly (op : String) (block : Bytes) :
    (Requests.codeOnly op block : VolJob L AfpErr Unit).interp byHost = onConn
      (GoAfp.codeOnly Host.command op block) :=
  interp_command_bind fun _ _ => rfl

theorem interp_openForkMode (path : Bytes) (mode : UInt16) :
    (Requests.openForkMode v path mode : VolJob L AfpErr OpenFork).interp byHost =
      onConn (v.openForkMode rootDirID path mode) := by
  apply interp_command_bind
  intro payload code
  simp only [interp_bind, onConn_bind, interp_lift, onConn_lift]
  rfl

theorem interp_stat (path : Bytes) :
    (Requests.stat v path : VolJob L AfpErr DirEntry).interp byHost = onConn
      (v.stat rootDirID path) := by
  apply interp_command_bind
  intro payload code
  simp only [interp_bind, onConn_bind, interp_lift, onConn_lift]

theorem interp_openFork (path : Bytes) (write : Bool) :
    (Requests.openFork v path write : VolJob L AfpErr OpenFork).interp byHost = onConn
      (v.forkOps.openFork path write) := by
  rw [Requests.openFork, interp_openForkMode]
  cases write <;> rfl

theorem interp_reopen (p : Bytes) (writable : Bool) :
    (Requests.reopen v p writable).interp byHost = v.forkOps.reopen p writable := by
  rw [Requests.reopen, ForkOps.reopen, interp_bind, interp_openFork]
  rfl

theorem interp_openOn (p : Bytes) (writable : Bool) :
    (Requests.openOn v p writable).interp byHost = v.forkOps.openOn p writable := by
  apply Proc.ext
  rintro ⟨⟨fork, forkVol, cursor, size⟩, h⟩
  cases fork with
  | none =>
    exact congrArg (Proc.on · (⟨none, forkVol, cursor, size⟩, h)) (interp_reopen v p writable)
  | some o =>
    have hite := interp_ite byHost (forkVol = some v.gen) (pure o) (Requests.reopen v p writable)
    rw [interp_reopen] at hite
    exact congrArg (Proc.on · (⟨some o, forkVol, cursor, size⟩, h)) hite

theorem interp_createStep (p filename : Bytes) (flag : OpenFlags) :
    (Requests.createStep v p filename flag).interp byHost =
      v.forkOps.createStep p filename flag := by
  rw [Requests.createStep, ForkOps.createStep, interp_ite]
  split
  · rw [interp_bind, interp_observe, Requests.createFile, interp_codeOnly]
    apply bind_congr
    rintro (e | ⟨⟩)
    · simp only [interp_ite]
      rfl
    · rfl
  · rfl

theorem interp_truncateStep (filename : Bytes) (flag : OpenFlags) (o : OpenFork) :
    (Requests.truncateStep filename flag o).interp byHost =
      v.forkOps.truncateStep filename flag o := by
  rw [Requests.truncateStep, ForkOps.truncateStep, interp_ite]
  split
  · rw [interp_bind, interp_observe, Requests.truncate, interp_codeOnly]
    apply bind_congr
    rintro (e | ⟨⟩) <;> rfl
  · rfl

theorem interp_forkStep (p filename : Bytes) (flag : OpenFlags) :
    (Requests.forkStep v p filename flag).interp byHost = v.forkOps.forkStep p filename flag := by
  rw [Requests.forkStep, ForkOps.forkStep, interp_bind, interp_observe, interp_openOn]
  apply bind_congr
  rintro (e | o)
  · rfl
  · simp only [interp_bind, interp_truncateStep v]
    rfl

theorem interp_openBody (p filename : Bytes) (flag : OpenFlags) :
    (Requests.openBody v p filename flag).interp byHost = v.forkOps.openBody p filename flag := by
  rw [Requests.openBody, ForkOps.openBody, interp_bind, interp_createStep]
  apply bind_congr
  intro _
  exact interp_forkStep v p filename flag

end Interp

end GoAfp
