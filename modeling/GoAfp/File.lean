import GoAfp.ForkIO
import GoAfp.Retry

/-! An open file: a fork that is opened again after a reconnect, and a
cursor. The server keeps the contents and, for each connection, whether the
file has been opened on it. Integers of the file are 64-bit, and the server
refuses to grow a fork past the largest of them. -/

namespace GoAfp

def wrap64 (x : Int) : Int :=
  x.bmod (2 ^ 64)

/-- `uint64(x)`. -/
def wireOffset (x : Int) : Nat :=
  (x % 2 ^ 64).toNat

def maxForkLen : Nat := 2 ^ 63 - 1

inductive OsErr
  | notExist
  | permission
  | exist
  | io (e : IoErr)
  deriving DecidableEq, Repr

def mapErr : IoErr → OsErr
  | .afp (.result op code) =>
    if code = resObjectNotFound ∨ code = resDirNotFound ∨ code = resItemNotFound then .notExist
    else if code = resAccessDenied ∨ code = resUserNotAuth then .permission
    else if code = resObjectExists then .exist
    else .io (.afp (.result op code))
  | e => .io e

structure ForkServer where
  content : Bytes
  opened : List Nat

def defaultFork (quantum : Nat) : Fork :=
  ⟨readChunkSize, maxConcurrentReads, quantum, by decide, by decide⟩

structure OpenFork where
  fork : Fork
  vol : Nat
  id : Nat
  size : Nat

structure File where
  fork : Option OpenFork := none
  forkVol : Option Nat := none
  cursor : Int := 0
  size : Int := 0

/-- One run of an operation: the volume it was given, the fates of its
requests and the order in which they are served. -/
structure Attempt where
  vol : Nat
  quantum : Nat
  openFate : Fate
  fate : Nat × Nat → Fate
  sched : Schedule
  exactEOF : Nat → Nat → Bool

def ForkServer.valid (srv : ForkServer) (a : Attempt) (o : OpenFork) : Bool :=
  decide (o.vol = a.vol ∧ o.vol ∈ srv.opened)

namespace File

def reopen (f : File) (srv : ForkServer) (a : Attempt) :
    Except AfpErr OpenFork × File × ForkServer :=
  let o : OpenFork := ⟨defaultFork a.quantum, a.vol, srv.opened.length, srv.content.length⟩
  match a.openFate with
  | .answered =>
    (.ok o, { f with fork := some o, forkVol := some a.vol },
      { srv with opened := a.vol :: srv.opened })
  | .applied => (.error (.transport .closed), f, { srv with opened := a.vol :: srv.opened })
  | .lost => (.error (.transport .closed), f, srv)

def openFork (f : File) (srv : ForkServer) (a : Attempt) :
    Except AfpErr OpenFork × File × ForkServer :=
  match f.fork with
  | some o => if f.forkVol = some a.vol then (.ok o, f, srv) else f.reopen srv a
  | none => f.reopen srv a

variable {α : Type}

/-- One run of the closure that `withFork` hands to `do`. The closure's
captured variables are of type `α`. -/
def withFork (body : OpenFork → Attempt → α × ForkServer → Option IoErr × α × ForkServer)
    (a : Attempt) (s : α × File × ForkServer) : Option IoErr × α × File × ForkServer :=
  match s.2.1.openFork s.2.2 a with
  | (.error e, f, srv) => (some (.afp e), s.1, f, srv)
  | (.ok o, f, srv) =>
    let (err, v, srv) := body o a (s.1, srv)
    (err, v, f, srv)

def readBody (off : Int) (o : OpenFork) (a : Attempt) (s : (Bytes × Nat) × ForkServer) :
    Option IoErr × (Bytes × Nat) × ForkServer :=
  let reply (at_ count : Nat) := (a.fate (at_, count)).answer
    (if s.2.valid a o then readReply s.2.content a.exactEOF at_ count else .ok ([], resParamErr))
  let (buf, n, err) := o.fork.readAt a.sched.order reply s.1.1 (wireOffset off)
  (err, (buf, n), s.2)

def accepts (srv : ForkServer) (a : Attempt) (o : OpenFork) (off : Nat) (c : Nat × Nat) : Bool :=
  srv.valid a o && decide (off + c.1 + c.2 ≤ maxForkLen)

def writeRun (srv : ForkServer) (a : Attempt) (o : OpenFork) (p : Bytes) (off : Nat) :
    WriteRun where
  applied := (a.sched.order (o.fork.pieces p)).filter fun c =>
    accepts srv a o off c && decide (a.fate c ≠ .lost)
  reply :=
    fun c => (a.fate c).answer (if accepts srv a o off c then .ok resNoErr else .ok resParamErr)
  order := a.sched.order

def writeBody (p : Bytes) (off : Int) (o : OpenFork) (a : Attempt) (s : Nat × ForkServer) :
    Option IoErr × Nat × ForkServer :=
  let run := writeRun s.2 a o p (wireOffset off)
  let (n, err) := o.fork.writeAt run p
  (err.map .afp, n,
    { s.2 with content := overlayAll 0 s.2.content (run.applied.map (part (wireOffset off) p)) })

def truncateLen (size : Int) : Nat :=
  if size ≤ 0xFFFFFFFF then (size % 2 ^ 32).toNat else (size % 2 ^ 64).toNat

def truncateBody (size : Int) (o : OpenFork) (a : Attempt) (s : Unit × ForkServer) :
    Option IoErr × Unit × ForkServer :=
  let ok := s.2.valid a o
  let reply := (a.fate (0, 0)).answer (.ok (if ok then resNoErr else resParamErr))
  let srv :=
    if ok ∧ a.fate (0, 0) ≠ .lost then
      { s.2 with content := setLength 0 s.2.content (truncateLen size) }
    else s.2
  ((errOf (reply >>= resultErr "truncate")).map .afp, (), srv)

end File

inductive Whence
  | start
  | current
  | fromEnd
  deriving DecidableEq, Repr

inductive FileOp
  | read (p : Bytes)
  | readAt (p : Bytes) (off : Int)
  | write (p : Bytes)
  | seek (offset : Int) (whence : Whence)
  | truncate (size : Int)

/-- The two runs that `do` may make, and whether the link lives on after the
first. -/
structure Script where
  first : Attempt
  second : Attempt
  alive : Bool

structure OpResult where
  bytes : Bytes
  n : Int
  err : Option OsErr
  deriving DecidableEq, Repr

namespace File

def doFork {α : Type} (body : OpenFork → Attempt → α × ForkServer → Option IoErr × α × ForkServer)
    (sc : Script) (s : α × File × ForkServer) : Option IoErr × α × File × ForkServer :=
  doRetry (withFork body sc.first) (withFork body sc.second) sc.alive s

def step (f : File) (srv : ForkServer) (sc : Script) : FileOp → OpResult × File × ForkServer
  | .read p =>
    let (err, (buf, n), f', srv) := doFork (readBody f.cursor) sc ((p, 0), f, srv)
    (⟨buf.take n, n, err.map .io⟩, { f' with cursor := wrap64 (f'.cursor + n) }, srv)
  | .readAt p off =>
    let (err, (buf, n), f', srv) := doFork (readBody off) sc ((p, 0), f, srv)
    (⟨buf.take n, n, err.map .io⟩, f', srv)
  | .write p =>
    let (err, n, f', srv) := doFork (writeBody p f.cursor) sc (0, f, srv)
    let cursor := wrap64 (f'.cursor + n)
    (⟨[], n, err.map .io⟩, { f' with cursor := cursor, size := if cursor > f'.size then cursor
      else f'.size }, srv)
  | .seek offset whence =>
    let cursor := match whence with
      | .start => offset
      | .current => wrap64 (f.cursor + offset)
      | .fromEnd => wrap64 (f.size + offset)
    (⟨[], cursor, none⟩, { f with cursor := cursor }, srv)
  | .truncate size =>
    match doFork (truncateBody size) sc ((), f, srv) with
    | (some e, _, f', srv) => (⟨[], 0, some (mapErr e)⟩, f', srv)
    | (none, _, f', srv) => (⟨[], 0, none⟩, { f' with size := size }, srv)

def run (f : File) (srv : ForkServer) : List (FileOp × Script) → List OpResult × File × ForkServer
  | [] => ([], f, srv)
  | (op, sc) :: rest =>
    let (r, f, srv) := f.step srv sc op
    let (rs, f, srv) := f.run srv rest
    (r :: rs, f, srv)

end File

end GoAfp
