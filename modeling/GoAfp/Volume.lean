import GoAfp.Proc
import GoAfp.File
import GoAfp.VolServer

/-! The operations of an AFP volume, over a link that may die at any request.
Requests are sent one after the other, but for the pieces of a write, which
are in flight together. -/

namespace GoAfp

/-- What happens to the requests of one attempt: the fates of the successive
ones, those after the list being answered, and the fates of the pieces of a
write with the order in which they are served. -/
structure Crash where
  fates : List Fate
  piece : Nat × Nat → Fate
  sched : Schedule

def Crash.next (k : Crash) : Fate :=
  k.fates.headD .answered

def Crash.tail (k : Crash) : Crash :=
  { k with fates := k.fates.tail }

def Crash.never (sched : Schedule) : Crash :=
  ⟨[], fun _ => .answered, sched⟩

structure Link where
  srv : VolServer
  crash : Crash
  dead : Bool

abbrev Vol := Proc Link AfpErr

namespace Link

def fate (l : Link) : Fate :=
  if l.dead then .lost else l.crash.next

def send (l : Link) (req : Request) : Except AfpErr (ForkInfo × Result) × Link :=
  let (r, srv) := l.srv.serve req
  (l.fate.answer (.ok r),
    { srv := if l.fate = .lost then l.srv else srv,
      crash := l.crash.tail,
      -- a request without a reply ends the connection
      dead := decide (l.fate ≠ .answered) })

def pieceFate (l : Link) (c : Nat × Nat) : Fate :=
  if l.dead then .lost else l.crash.piece c

def pieceRequest (id off : Nat) (p : Bytes) (c : Nat × Nat) : Request :=
  .writeExt id (part off p c).1 (part off p c).2

def writeRun (l : Link) (o : OpenFork) (p : Bytes) (off : Nat) : WriteRun where
  applied := (l.crash.sched.order (o.fork.pieces p)).filter fun c => l.pieceFate c ≠ .lost
  reply := fun c => (l.pieceFate c).answer (.ok (l.srv.serve (pieceRequest o.id off p c)).1.2)
  order := l.crash.sched.order

def sendPieces (l : Link) (o : OpenFork) (p : Bytes) (off : Nat) : Except AfpErr Nat × Link :=
  let run := l.writeRun o p off
  let (n, err) := o.fork.writeAt run p
  (match err with
    | some e => .error e
    | none => .ok n,
    { l with
      srv := run.applied.foldl (fun s c => (s.serve (pieceRequest o.id off p c)).2) l.srv,
      dead := l.dead || (o.fork.pieces p).any fun c => l.pieceFate c ≠ .answered })

end Link

def command (req : Request) : Vol (ForkInfo × Result) :=
  ExceptT.mk fun l => l.send req

/-- A request whose reply is only its result code. -/
def simpleCommand (op : String) (req : Request) : Vol Unit := do
  let (_, code) ← command req
  resultErr op code

namespace OpenFork

def writeAt (o : OpenFork) (p : Bytes) (off : Nat) : Vol Nat :=
  ExceptT.mk fun l => l.sendPieces o p off

def close (o : OpenFork) : Vol Unit :=
  simpleCommand "close fork" (.closeFork o.id)

def writeOrClose (o : OpenFork) (p : Bytes) : Vol Unit := do
  match ← Proc.observe (o.writeAt p 0) with
  | .ok _ => pure ()
  | .error e =>
    let _ ← (Proc.observe o.close : Vol (Except AfpErr Unit))
    throw e

def truncate (o : OpenFork) (size : Int) : Vol Unit :=
  simpleCommand "truncate" (.setForkLen o.id (File.truncateLen size))

end OpenFork

def symlinkFinderInfo : Bytes :=
  ascii "slnk" ++ ascii "rhap" ++ List.replicate 24 0

/-- A volume of one connection: the generation of the connection, the quantum
of its session, and the client's Unicode decomposition. -/
structure Volume where
  gen : Nat
  quantum : Nat
  nfd : Bytes → Bytes

namespace Volume

variable (v : Volume)

def createFile (path : Bytes) (overwrite : Bool) : Vol Unit :=
  simpleCommand ("create " ++ goText path) (.createFile overwrite (sentPath v.nfd path))

def delete (path : Bytes) : Vol Unit :=
  simpleCommand ("delete " ++ goText path) (.delete (sentPath v.nfd path))

def rename (source dest : Bytes) : Vol Unit :=
  let (destDir, newName) := splitPath dest
  simpleCommand ("rename " ++ goText source)
    (.moveAndRename (sentPath v.nfd source) (sentPath v.nfd destDir) (sentPath v.nfd newName))

def openFork (path : Bytes) (write : Bool) : Vol OpenFork := do
  let (info, code) ← command (.openFork write (sentPath v.nfd path))
  resultErr ("open " ++ goText path) code
  return ⟨defaultFork v.quantum, v.gen, info.forkID, info.forkLen⟩

def setFinderInfo (path info : Bytes) : Vol Unit :=
  simpleCommand ("set finder info " ++ goText path) (.setFinderInfo (sentPath v.nfd path) info)

def symlink (link target : Bytes) : Vol Unit := do
  v.createFile link false
  let o ← v.openFork link true
  o.writeOrClose target
  o.close
  v.setFinderInfo link symlinkFinderInfo

end Volume

end GoAfp
