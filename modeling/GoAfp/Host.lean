import GoAfp.AfpServer
import GoAfp.Replies
import GoAfp.VolumeRules

/-! The operations of a volume on a server that may also refuse requests for
reasons of its own. Requests are sent one after the other, but for those of one
read or write, which are in flight together. -/

namespace GoAfp

open Proc

abbrev ErrCode := { code : Result // code ≠ resNoErr }

/-- What becomes of one of the requests in flight together. A request that is
given up may have been served. -/
inductive Turn
  | served
  | refused (code : ErrCode)
  | givenUp (applied : Bool)
  deriving DecidableEq

/-- The codes are those with which the server refuses the successive requests;
it refuses none after the list. -/
structure Host extends Link where
  site : Site
  codes : List (Option ErrCode)
  turn : Nat × Nat → Turn

/-- The outcome of a panic is kept as an error. -/
def Fault.merged : Fault AfpErr → AfpErr
  | .panic text => .panic text
  | .error e => e

namespace Host

def answer (site : Site) (codes : List (Option ErrCode)) (s : VolServer) (block : Bytes) :
    (Bytes × Result) × VolServer :=
  match codes.headD none with
  | some code => (([], code.val), s)
  | none => site.receive s block

def send (h : Host) (block : Bytes) : Except AfpErr (Bytes × Result) × Host :=
  let (r, srv) := answer h.site h.codes h.srv block
  (h.fate.answer (.ok r),
    { h with
      srv := if h.fate = .lost then h.srv else srv
      crash := h.crash.tail
      dead := decide (h.fate ≠ .answered)
      codes := h.codes.tail })

def command (block : Bytes) : Proc Host AfpErr (Bytes × Result) :=
  ExceptT.mk fun h => h.send block

def pieceReply (h : Host) (block : Bytes) (c : Nat × Nat) : Except AfpErr (Bytes × Result) :=
  match h.turn c with
  | .served => (h.pieceFate c).answer (.ok (h.site.receive h.srv block).1)
  | .refused code => (h.pieceFate c).answer (.ok ([], code.val))
  | .givenUp _ => .error .cancelled

def pieceApplied (h : Host) (c : Nat × Nat) : Bool :=
  decide (h.pieceFate c ≠ .lost ∧ (h.turn c = .served ∨ h.turn c = .givenUp true))

def writeRun (h : Host) (o : OpenFork) (p : Bytes) (off : Nat) : WriteRun where
  applied := (h.crash.sched.order (o.fork.pieces p)).filter h.pieceApplied
  reply := fun c => (h.pieceReply (pieceRequestBytes (UInt16.ofNat o.id) p off c) c).map Prod.snd
  order := h.crash.sched.order

def sendPieces (h : Host) (o : OpenFork) (p : Bytes) (off : Nat) : Except AfpErr Nat × Host :=
  let run := h.writeRun o p off
  let (n, err) := o.fork.writeAt run p
  (match err with
    | some e => .error e
    | none => .ok n,
    { h with
      srv := run.applied.foldl
        (fun s c => (h.site.receive s (pieceRequestBytes (UInt16.ofNat o.id) p off c)).2) h.srv
      dead := h.dead || (o.fork.pieces p).any fun c => h.pieceFate c ≠ .answered })

def chunkReply (h : Host) (o : OpenFork) (off count : Nat) : Except AfpErr (Bytes × Result) :=
  h.pieceReply (readChunkBlock (UInt16.ofNat o.id) off count) (off, count)

def readChunks (h : Host) (o : OpenFork) (p : Bytes) (off : Nat) :
    (Bytes × Nat × Option IoErr) × Host :=
  (o.fork.readAt h.crash.sched.order (h.chunkReply o) p off,
    { h with
      dead := h.dead || (chunks o.fork.chunkSize p.length).any fun c =>
        h.pieceFate (off + c.1, c.2) ≠ .answered })

def writeAt (o : OpenFork) (p : Bytes) (off : Nat) : Proc Host AfpErr Nat :=
  ExceptT.mk fun h => h.sendPieces o p off

def readAt {ε : Type} (o : OpenFork) (p : Bytes) (off : Nat) :
    Proc Host ε (Bytes × Nat × Option IoErr) :=
  ExceptT.mk fun h => (.ok (h.readChunks o p off).1, (h.readChunks o p off).2)

def close (o : OpenFork) : Proc Host AfpErr Unit :=
  codeOnly command "close fork" (closeForkBlock (UInt16.ofNat o.id))

def truncate (o : OpenFork) (size : Int) : Proc Host AfpErr Unit :=
  forkTruncate command (UInt16.ofNat o.id) size

end Host

namespace AfpVolume

section Operations

variable {m : Type → Type} [Monad m] (command : Bytes → ExceptT AfpErr m (Bytes × Result))
  (v : AfpVolume) (dirID : UInt32) (path : Bytes)

def openForkBy (mode : UInt16) : ExceptT AfpErr m OpenFork := do
  let (payload, code) ← command (v.openForkBlock dirID path mode)
  resultErr ("open " ++ goText path) code
  let f ← (openForkReply payload).mapError Fault.merged
  return ⟨defaultFork v.quantum, v.gen, f.id.toNat, f.size.toNat⟩

def statBy : ExceptT AfpErr m DirEntry := do
  let (payload, code) ← command (v.statBlock dirID path)
  resultErr ("stat " ++ goText path) code
  (statReply v.nfc payload).mapError Fault.merged

end Operations

section Via

variable {σ : Type} (command : Bytes → Proc σ AfpErr (Bytes × Result)) (v : AfpVolume)
  (dirID : UInt32) (path : Bytes)

def openForkVia (mode : UInt16) : Proc σ AfpErr OpenFork :=
  v.openForkBy command dirID path mode

def statVia : Proc σ AfpErr DirEntry :=
  v.statBy command dirID path

end Via

variable (v : AfpVolume) (dirID : UInt32)

def openForkMode (path : Bytes) (mode : UInt16) : Proc Host AfpErr OpenFork :=
  v.openForkVia Host.command dirID path mode

def openFork (path : Bytes) : Proc Host AfpErr OpenFork :=
  v.openForkMode dirID path forkRead

def openForkRW (path : Bytes) : Proc Host AfpErr OpenFork :=
  v.openForkMode dirID path (forkRead ||| forkWrite)

def writeOrClose (o : OpenFork) (p : Bytes) : Proc Host AfpErr Unit := do
  match ← Proc.observe (Host.writeAt o p 0) with
  | .ok _ => pure ()
  | .error e =>
    let _ ← (Proc.observe (Host.close o) : Proc Host AfpErr (Except AfpErr Unit))
    throw e

def symlink (link target : Bytes) : Proc Host AfpErr Unit := do
  v.createFile Host.command dirID link false
  let o ← v.openForkRW dirID link
  writeOrClose o target
  Host.close o
  v.setFinderInfo Host.command dirID link symlinkFinderInfo

def readTarget (o : OpenFork) : Proc Host IoErr Bytes := do
  if o.size = 0 then
    return []
  let (buf, n, err) ← Host.readAt o (List.replicate o.size 0) 0
  match err with
  | none => return buf.take n
  | some .eof => return buf.take n
  | some e => throw e

def readLink (path : Bytes) : Proc Host IoErr Bytes := do
  let o ← Proc.adapt IoErr.afp (v.openFork dirID path)
  let r ← (Proc.observe (readTarget o) : Proc Host IoErr (Except IoErr Bytes))
  -- the deferred close, whose error is dropped
  let _ ← (Proc.observe (Host.close o) : Proc Host IoErr (Except AfpErr Unit))
  r

def stat (path : Bytes) : Proc Host AfpErr DirEntry :=
  v.statVia Host.command dirID path

end AfpVolume

def plainSite : Site where
  volID := 7
  dirID := rootDirID
  params := fun _ =>
      ⟨0, 0, 0, 0, 0, ⟨List.replicate 32 0, rfl⟩, ⟨[], by decide⟩, ⟨[], by decide⟩, 0, 0, 0, 0, 0,
        0, 0, 0, 0, 0, ⟨[], by decide⟩, 0, 0, 0, 0, 0, 0⟩
  exactEOF := fun _ _ => false

def emptyServer : VolServer := ⟨.dir newAttrs [], [], 0⟩

def denied : ErrCode := ⟨resAccessDenied, by decide⟩

end GoAfp
