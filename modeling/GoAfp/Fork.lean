import GoAfp.Result
import GoAfp.Store

/-! Reading and writing a fork. Both cut their range in chunks whose requests
are in flight together. What comes of the requests is given from outside: the
answer to each one, the order in which they complete and, for writes, the
order in which the server applies them. -/

namespace GoAfp

def readChunkSize : Nat := 128 * 1024
def maxConcurrentReads : Nat := 8
def writeChunkHeaderLen : Nat := 1 + 1 + 2 + 8 + 8

structure Fork where
  chunkSize : Nat
  maxParallel : Nat
  serverQuantum : Nat
  chunkSize_pos : 0 < chunkSize
  maxParallel_pos : 0 < maxParallel

inductive IoErr
  | eof
  | unexpectedEOF
  | afp (e : AfpErr)
  | other (text : String)
  deriving DecidableEq, Repr

def readChunk (reply : Except AfpErr (Bytes × Result)) : Except AfpErr (Bytes × Bool) :=
  match reply with
  | .error e => .error e
  | .ok (payload, code) =>
    if code = resEOF then .ok (payload, true)
    else (resultErr "read" code).map fun _ => (payload, false)

def errOf {ε α : Type} : Except ε α → Option ε
  | .error e => some e
  | .ok _ => none

/-- Go's `copy(p[start:], data)`. -/
def copyAt (p : Bytes) (start : Nat) (data : Bytes) : Bytes :=
  p.take start ++ data.take (p.length - start) ++ p.drop (start + data.length)

/-- What one `readChunk` asks for. -/
structure ReadRange where
  offset : Nat
  count : Nat

/-- The range of a chunk of the buffer, in a `ReadAt` at `off`. -/
def chunkRange (off : Nat) (c : Nat × Nat) : ReadRange := ⟨off + c.1, c.2⟩

def chunkData (reply : Nat → Nat → Except AfpErr (Bytes × Result)) (off : Nat) (c : Nat × Nat) :
    Nat × Bytes × Bool :=
  match readChunk (reply (off + c.1) c.2) with
  | .ok (data, eof) => (c.1, data, eof || decide (data.length < c.2))
  | .error _ => (c.1, [], false)

def reassemble : Bytes → Nat → List (Nat × Bytes × Bool) → Bytes × Nat × Option IoErr
  | p, n, [] => (p, n, none)
  | p, n, (start, data, short) :: rest =>
    let n' := n + min (p.length - start) data.length
    if short then (copyAt p start data, n', some .eof) else reassemble (copyAt p start data) n' rest

/-- What became of the requests of one `WriteAt`: the pieces the server
applied, in that order, the answer to each piece, and the order in which they
completed. -/
structure WriteRun where
  applied : List (Nat × Nat)
  reply : Nat × Nat → Except AfpErr Result
  order : List (Nat × Nat) → List (Nat × Nat)

def writeChunk (reply : Except AfpErr Result) (n : Nat) : Except AfpErr Nat :=
  match reply with
  | .error e => .error e
  | .ok code => (resultErr "write" code).map fun _ => n

namespace Fork

variable (f : Fork)

/-- The buffer after the call, the count and the error. The group's error is
that of the first chunk to fail. -/
def readAt (order : List (Nat × Nat) → List (Nat × Nat))
    (reply : Nat → Nat → Except AfpErr (Bytes × Result)) (p : Bytes) (off : Nat) :
    Bytes × Nat × Option IoErr :=
  if p.length = 0 then (p, 0, none)
  else
    let cs := chunks f.chunkSize p.length
    match (order cs).findSome? fun c => errOf (readChunk (reply (off + c.1) c.2)) with
    | some e => (p, 0, some (.afp e))
    | none => reassemble p 0 (cs.map (chunkData reply off))

def writeChunkSize : Nat :=
  let chunk := f.chunkSize
  let chunk :=
    if f.serverQuantum > 0 then
      if f.serverQuantum > writeChunkHeaderLen ∧ chunk > f.serverQuantum - writeChunkHeaderLen then
        f.serverQuantum - writeChunkHeaderLen
      else chunk
    else chunk
  if chunk = 0 then 32 * 1024 else chunk

def pieces (p : Bytes) : List (Nat × Nat) :=
  chunks f.writeChunkSize p.length

def writeAt (run : WriteRun) (p : Bytes) : Nat × Option AfpErr :=
  if p.length = 0 then (0, none)
  else
    let written := (f.pieces p).map fun c => (writeChunk (run.reply c) c.2).toOption.getD 0
    (written.sum, (run.order (f.pieces p)).findSome? fun c => errOf (writeChunk (run.reply c) c.2))

/-- The loop of `writeTo`: the total, the error and what the writer has got.
The total and the offset of the source move together and are one counter here;
`sink` says when the writer fails. -/
def writeToLoop (order : Nat → List (Nat × Nat) → List (Nat × Nat))
    (reply : Nat → Nat → Except AfpErr (Bytes × Result)) (sink : Bytes → Bytes → Option IoErr) :
    Nat → Bytes → Nat → Bytes → Option (Nat × Option IoErr × Bytes)
  | 0, _, _, _ => none
  | fuel + 1, buf, off, out =>
    let (buf, n, err) := f.readAt (order off) reply buf off
    match if n > 0 then sink out (buf.take n) else none with
    | some werr => some (off, some werr, out)
    | none =>
      match err with
      | some .eof => some (off + n, none, out ++ buf.take n)
      | some e => some (off + n, some e, out ++ buf.take n)
      | none =>
        if n = 0 then some (off, none, out)
        else writeToLoop order reply sink fuel buf (off + n) (out ++ buf.take n)

def writeTo (order : Nat → List (Nat × Nat) → List (Nat × Nat))
    (reply : Nat → Nat → Except AfpErr (Bytes × Result)) (sink : Bytes → Bytes → Option IoErr)
    (fuel : Nat) :
    Option (Nat × Option IoErr × Bytes) :=
  f.writeToLoop order reply sink fuel (List.replicate (f.chunkSize * f.maxParallel) 0) 0 []

end Fork

/-- An `io.Reader`: what a call returns when there is room for so many bytes,
and how many calls with room to spare there are at most before one fails. -/
class IoReader (ρ : Type) where
  read : ρ → Nat → Bytes × Option IoErr × ρ
  calls : ρ → Nat

namespace IoReader

variable {ρ : Type} [IoReader ρ]

/-- The loop of `io.ReadFull`, whose every round but the last uses up a call. -/
def readFullLoop (m : Nat) : Nat → ρ → Bytes → Bytes × Option IoErr × ρ
  | 0, s, got => (got, none, s)
  | fuel + 1, s, got =>
    if got.length < m then
      match read s (m - got.length) with
      | (x, none, s') => readFullLoop m fuel s' (got ++ x)
      | (x, some e, s') =>
        let got := got ++ x
        if got.length ≥ m then (got, none, s')
        else (got, some (if got.length > 0 ∧ e = .eof then .unexpectedEOF else e), s')
    else (got, none, s)

def readFull (s : ρ) (m : Nat) : Bytes × Option IoErr × ρ :=
  readFullLoop m (calls s + 1) s []

end IoReader

/-- A reader that delivers the pieces one by one, cut to the buffer, and then
fails with `final`, possibly together with the last piece. -/
structure Source where
  pieces : List Bytes
  final : IoErr
  withLast : Bool

namespace Source

def read (s : Source) (m : Nat) : Bytes × Option IoErr × Source :=
  match s.pieces with
  | [] => ([], some s.final, s)
  | x :: rest =>
    if x.length ≤ m then
      (x, if rest = [] ∧ s.withLast then some s.final else none, { s with pieces := rest })
    else (x.take m, none, { s with pieces := x.drop m :: rest })

instance : IoReader Source := ⟨read, fun s => s.pieces.length⟩

end Source

namespace Fork

variable (f : Fork) {ρ : Type} [IoReader ρ]

/-- The loop of `readFrom` against a fork of contents `D`: the total, the
error and the contents afterwards. -/
def readFromLoop (runs : Nat → Bytes → WriteRun) :
    Nat → ρ → Bytes → Nat → Option (Nat × Option IoErr × Bytes)
  | 0, _, _, _ => none
  | fuel + 1, src, D, total =>
    let (data, err, src) := IoReader.readFull src (f.writeChunkSize * f.maxParallel)
    let run := runs total data
    let D' := if data.length > 0 then overlayAll 0 D (run.applied.map (part total data)) else D
    match if data.length > 0 then (f.writeAt run data).2 else none with
    | some werr => some (total, some (.afp werr), D')
    | none =>
      match err with
      | some .eof => some (total + data.length, none, D')
      | some .unexpectedEOF => some (total + data.length, none, D')
      | some e => some (total + data.length, some e, D')
      | none => readFromLoop runs fuel src D' (total + data.length)

def readFrom (runs : Nat → Bytes → WriteRun) (fuel : Nat) (src : ρ) (D : Bytes) :
    Option (Nat × Option IoErr × Bytes) :=
  f.readFromLoop runs fuel src D 0

end Fork

end GoAfp
