import GoAfp.RequestCalls
import GoAfp.VolumeJobs

/-! The calls of the file system and of its open files on one mount: each is a
call of `do` whose requests meet those of the others on the server. A file is
named by the call that opened it. -/

namespace GoAfp

inductive FsOp
  | openFile (filename : Bytes) (flag : OpenFlags)
  | read (f : Nat) (p : Bytes)
  | readAt (f : Nat) (p : Bytes) (off : Int)
  | write (f : Nat) (p : Bytes)
  | truncate (f : Nat) (size : Int)
  | close (f : Nat)
  | symlink (target link : Bytes)
  | readlink (link : Bytes)
  | stat (filename : Bytes)
  | remove (filename : Bytes)
  | rename (oldpath newpath : Bytes)
  | mkdir (sub : Bytes)

inductive BridgeErr
  | path (e : PathErr)
  | io (e : IoErr)

/-- A file and what the closures of its calls have captured. `closing` is the
fork that `Close` has taken out of the file, with its volume. `shared` says that
`OpenFile` has returned the file, and `spent` that a request to close the fork
was sent; no closure reads either. -/
structure CallVars where
  file : File := {}
  buf : Bytes := []
  n : Nat := 0
  closing : Option (OpenFork × Option Nat) := none
  succeeded : Bool := false
  shared : Bool := false
  spent : Bool := false

def CallVars.fresh (l : CallVars) (buf : Bytes) : CallVars :=
  { l with buf := buf, n := 0, closing := none, succeeded := false, spent := false }

namespace Requests

variable (v : AfpVolume)

def inFile {ε α : Type} (x : VolJob File ε α) : VolJob CallVars ε α :=
  Job.zoom CallVars.file (fun f l => { l with file := f }) x

def withFork (path : Bytes) (writable : Bool) (fn : OpenFork → VolJob CallVars IoErr Unit) :
    VolJob CallVars IoErr Unit := do
  let o ← Job.adapt IoErr.afp (inFile (openOn v path writable))
  fn o

def readInto (sched : Schedule) (off : Int) (o : OpenFork) : VolJob CallVars IoErr Unit := do
  let l ← get
  let (buf, n, err) ← Job.adapt IoErr.afp (readAt sched o l.buf (wireOffset off))
  modify fun l => { l with buf := buf, n := n }
  match err with
  | some e => throw e
  | none => pure ()

def writeFrom (sched : Schedule) (p : Bytes) (o : OpenFork) : VolJob CallVars IoErr Unit := do
  let l ← get
  let (n, err) ← Job.adapt IoErr.afp (writeAt sched o p (wireOffset l.file.cursor))
  modify fun l => { l with n := n }
  match err with
  | some e => throw (.afp e)
  | none => pure ()

def readCursor (sched : Schedule) (o : OpenFork) : VolJob CallVars IoErr Unit := do
  let l ← get
  readInto sched l.file.cursor o

def closeFork : VolJob CallVars IoErr Unit := do
  let l ← get
  match l.closing with
  | some (o, vol) =>
    if vol = some v.gen then
      modify fun l => { l with spent := true }
      Job.adapt IoErr.afp (close o)
  | none => pure ()

end Requests

/-- A mount: the volume that each dial opens, the server at its other end, the
calls, and the order in which the requests of one read or write are served. -/
structure Bridge where
  fs : FS
  volume : Nat → AfpVolume
  site : Nat → Site
  ops : Nat → FsOp
  sched : Nat → Nat → Schedule

namespace Bridge

variable (b : Bridge)

def vol (d : Nat) : AfpVolume :=
  { b.volume d with gen := d }

def owner (g : Nat) : Nat :=
  match b.ops g with
  | .read f _ => f
  | .readAt f _ _ => f
  | .write f _ => f
  | .truncate f _ => f
  | .close f => f
  | _ => g

/-- The path at which a call opens a fork and whether it is for writing. -/
def target (f : Nat) : Bytes × Bool :=
  match b.ops f with
  | .openFile filename flag => (b.fs.resolve filename, flag.writable)
  | .symlink _ link => (b.fs.resolve link, true)
  | .readlink link => (b.fs.resolve link, false)
  | _ => ([], false)

/-- A call on a file waits until the file is there, and `Close` of a file
without a fork returns at once, as does `Stat` of the root. -/
def enter (g : Nat) (l : CallVars) : Option CallVars :=
  match b.ops g with
  | .read _ p => if l.shared then some (l.fresh p) else none
  | .readAt _ p _ => if l.shared then some (l.fresh p) else none
  | .write _ _ => if l.shared then some (l.fresh []) else none
  | .truncate _ _ => if l.shared then some (l.fresh []) else none
  | .close _ =>
    match l.shared, l.file.fork with
    | true, some o =>
      some
        { l.fresh [] with
          file := { l.file with fork := none, forkVol := none }
          closing := some (o, l.file.forkVol) }
    | _, _ => none
  | .stat filename => if b.fs.resolve filename = [] then none else some {}
  | _ => some {}

def closure (g d : Nat) : VolJob CallVars BridgeErr Unit :=
  let v := b.vol d
  let sched := b.sched g d
  let onFork (f : Nat) (fn : OpenFork → VolJob CallVars IoErr Unit) :
      VolJob CallVars BridgeErr Unit :=
    Job.adapt .io (Requests.withFork v (b.target f).1 (b.target f).2 fn)
  match b.ops g with
  | .openFile filename flag =>
    Job.adapt .path (Requests.inFile (Requests.openBody v (b.fs.resolve filename) filename flag))
  | .read f _ => onFork f (Requests.readCursor sched)
  | .readAt f _ off => onFork f (Requests.readInto sched off)
  | .write f p => onFork f (Requests.writeFrom sched p)
  | .truncate f size => onFork f fun o => Job.adapt IoErr.afp (Requests.truncate o size)
  | .close _ => Job.adapt .io (Requests.closeFork v)
  | .symlink target link =>
    Job.adapt (fun e => .io (.afp e)) (Requests.symlink v sched (b.fs.resolve link) target)
  | .readlink link => Job.adapt .io do
    let _ ← Requests.readLink v sched (b.fs.resolve link)
  | .stat filename => Job.adapt (fun e => .io (.afp e)) do
    let _ ← Requests.stat v (b.fs.resolve filename)
  | .remove filename =>
    Job.adapt (fun e => .io (.afp e)) (Requests.delete v (b.fs.resolve filename))
  | .rename oldpath newpath =>
    Job.adapt (fun e => .io (.afp e))
      (Requests.rename v (b.fs.resolve oldpath) (b.fs.resolve newpath))
  | .mkdir sub => Job.adapt (fun e => .io (.afp e)) (Requests.mkdir v sub)

def body (g d : Nat) : VolJob CallVars BridgeErr Unit := do
  b.closure g d
  modify fun l => { l with succeeded := true }

def leave (g : Nat) (l : CallVars) : CallVars :=
  match b.ops g with
  | .openFile _ flag =>
    { l with
      shared := l.succeeded
      file := if l.succeeded && flag.append then { l.file with cursor := l.file.size } else l.file }
  | .read _ _ => { l with file.cursor := wrap64 (l.file.cursor + l.n) }
  | .write _ _ =>
    let cursor := wrap64 (l.file.cursor + l.n)
    { l with
      file := { l.file with
        cursor := cursor, size := if cursor > l.file.size then cursor else l.file.size } }
  | .truncate _ size => if l.succeeded then { l with file.size := size } else l
  | _ => l

def workload : Workload Bytes Answer CallVars BridgeErr Nat :=
  ⟨b.owner, b.enter, b.body, b.leave⟩

end Bridge

/-- What becomes of a request. One without an answer may have been served. -/
inductive RequestFate
  | answered (refusal : Option ErrCode)
  | unanswered (applied : Bool) (err : AfpErr)

/-- The volume, and for each dial the forks open on its connection with the
owner of the request that opened them. -/
structure Share where
  tree : VTree
  forks : Nat → List (Nat × ForkRef) := fun _ => []
  openedBy : Nat → Nat → Option Nat := fun _ _ => none

namespace Share

def on (s : Share) (d : Nat) : VolServer :=
  ⟨s.tree, s.forks d, 0⟩

/-- The share after a request of `o` on the connection of dial `d`. -/
def put (s : Share) (o d : Nat) (srv : VolServer) : Share where
  tree := srv.tree
  forks := Function.update s.forks d srv.forks
  openedBy := Function.update s.openedBy d fun id =>
    if (srv.forks.lookup id).isNone then none
    else if ((s.forks d).lookup id).isNone then some o
    else s.openedBy d id

end Share

namespace Bridge

variable (b : Bridge)

def serve (fate : RequestFate) (o d : Nat) (block : Bytes) (s : Share) : Answer × Share :=
  let (r, srv) := (b.site d).receive (s.on d) block
  match fate with
  | .answered (some code) => (.ok ([], code.val), s)
  | .answered none => (.ok r, s.put o d srv)
  | .unanswered applied err => (.error err, if applied then s.put o d srv else s)

/-- Others change the tree in any way. -/
def backend : Backend Bytes Answer Nat Share RequestFate (VTree → VTree) where
  serve := b.serve
  env := fun change s => { s with tree := change s.tree }

def system (tree : VTree) :
    System (Mount Bytes Answer CallVars BridgeErr Nat Share)
      (MountLabel RequestFate (VTree → VTree)) :=
  mountSystem b.workload b.backend { tree := tree } fun _ => {}

end Bridge

end GoAfp
