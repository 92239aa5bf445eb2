import GoAfp.Header
import GoAfp.System
import Mathlib.Logic.Function.Basic

/-! The DSI connection as an interleaving of its goroutines: the `request`
calls, the read loop, the tickle loops, the `Close` calls, and a server that
may send any frame at any time. Every critical section of `mu` and every
channel operation is one step. -/

namespace GoAfp

def maxPayload : UInt32 := (16 : UInt32) <<< (20 : UInt32)

inductive ConnErr
  | closed
  | read
  | write
  | oversize (length : UInt32)
  | serverClosed
  deriving DecidableEq, Repr

inductive Origin
  | call (c : Nat)
  | tickle (k : Nat)
  | close (k : Nat)
  deriving DecidableEq, Repr

/-- A packet the client wrote. The origin is not on the wire. -/
structure Packet where
  origin : Origin
  header : Header
  payload : Bytes
  deriving DecidableEq, Repr

/-- A frame the server sent. `answers` is not on the wire: it names the sent
packet for which the server produced the frame, if there is one. -/
structure Frame where
  header : Header
  payload : Bytes
  answers : Option Nat
  deriving DecidableEq, Repr

inductive Outcome
  | reply (f : Frame)
  | failed (e : ConnErr)
  | cancelled
  deriving DecidableEq, Repr

/-- Control points of a `request` call: before `register`, before `send`, in
the select, before the deferred `unregister`, and back at the caller. -/
inductive CallPhase
  | idle
  | registered (h : Header) (payload : Bytes)
  | waiting (id : UInt16)
  | leaving (id : UInt16) (res : Outcome)
  | returned (res : Outcome)
  deriving DecidableEq, Repr

inductive ReaderPhase
  | reading
  | handing (c : Nat) (f : Frame)
  | closing
  | stopped
  deriving DecidableEq, Repr

inductive TicklePhase
  | idle
  | drawn (id : UInt16)
  | stopped
  deriving DecidableEq, Repr

inductive ClosePhase
  | idle
  | drawn (id : UInt16)
  | sent
  | closed
  | returned
  deriving DecidableEq, Repr

/-- The connection with its goroutines and both directions of the wire.
`pending` and `chans` name a channel by the call that made it. `sent`,
`answered` and `handed` are histories: the packets in the order of the write
lock, the packets answered so far, and the frames put into a channel. -/
structure Conn where
  nextID : UInt16 := 0
  pending : UInt16 → Option Nat := fun _ => none
  closeErr : Option ConnErr := none
  done : Nat := 0
  calls : Nat → CallPhase := fun _ => .idle
  chans : Nat → Option Frame := fun _ => none
  reader : ReaderPhase := .reading
  ticklers : Nat → TicklePhase := fun _ => .idle
  closers : Nat → ClosePhase := fun _ => .idle
  ncClosed : Bool := false
  hungUp : Bool := false
  sent : List Packet := []
  inbound : List Frame := []
  answered : List Nat := []
  handed : List (Nat × Frame) := []

/-- The search loop of `register`. The counter has come full circle after
65536 rounds, so a search that has not ended by then never ends. -/
def Conn.searchID (pending : UInt16 → Option Nat) : Nat → UInt16 → Option UInt16
  | 0, _ => none
  | fuel + 1, next =>
    if (pending (next + 1)).isNone then some (next + 1) else searchID pending fuel (next + 1)

def Conn.drawID (s : Conn) : Option UInt16 := Conn.searchID s.pending 65536 s.nextID

def Conn.fail (s : Conn) (e : ConnErr) : Conn :=
  if s.closeErr.isSome then s else { s with closeErr := some e, done := s.done + 1 }

def Conn.newID (s : Conn) : Conn := { s with nextID := s.nextID + 1 }

def Conn.setCall (s : Conn) (c : Nat) (p : CallPhase) : Conn :=
  { s with calls := Function.update s.calls c p }

def Conn.unregister (s : Conn) (id : UInt16) : Conn :=
  { s with pending := Function.update s.pending id none }

def Conn.send (s : Conn) (p : Packet) : Conn := { s with sent := s.sent ++ [p] }

def Conn.readFrame (s : Conn) (f : Frame) : Conn :=
  if maxPayload < f.header.length then
    { s.fail (.oversize f.header.length) with reader := .closing }
  else if f.header.flags = flagReply then
    match s.pending f.header.requestID with
    | some c => { s with reader := .handing c f }
    -- the caller gave up, and the reply is dropped
    | none => s
  else if f.header.command = cmdCloseSession then { s.fail .serverClosed with reader := .closing }
  else s

inductive ConnLabel
  | register (c : Nat) (cmd : UInt8) (errOrOffset : UInt32) (payload : Bytes)
  | write (c : Nat)
  | writeFail (c : Nat)
  | receive (c : Nat)
  | seeDone (c : Nat)
  | cancel (c : Nat)
  | unregister (c : Nat)
  | tickle (k : Nat)
  | tickleWrite (k : Nat)
  | tickleFail (k : Nat)
  | tickleStop (k : Nat)
  | closeID (k : Nat)
  | closeWrite (k : Nat)
  | closeWriteFail (k : Nat)
  | closeSocket (k : Nat)
  | closeFail (k : Nat)
  | read
  | handOff
  | readError
  | readerClose
  | serverSend (f : Frame)
  | hangUp
  deriving DecidableEq, Repr

def Conn.step (s : Conn) : ConnLabel → Option Conn
  | .register c cmd errOrOffset payload =>
    match s.calls c, s.closeErr with
    | .idle, some e => some (s.setCall c (.returned (.failed e)))
    | .idle, none =>
      s.drawID.map fun id =>
        { s with
          nextID := id
          pending := Function.update s.pending id (some c)
          calls := Function.update s.calls c
            (.registered (requestHeader cmd id errOrOffset payload) payload) }
    | _, _ => none
  | .write c =>
    match s.calls c, s.ncClosed with
    | .registered h payload, false =>
      some ((s.send ⟨.call c, h, payload⟩).setCall c (.waiting h.requestID))
    | _, _ => none
  | .writeFail c =>
    match s.calls c, s.ncClosed || s.hungUp with
    | .registered h _, true => some (s.setCall c (.leaving h.requestID (.failed .write)))
    | _, _ => none
  | .receive c =>
    match s.calls c, s.chans c with
    | .waiting id, some f =>
      some ({ s with chans := Function.update s.chans c none }.setCall c (.leaving id (.reply f)))
    | _, _ => none
  | .seeDone c =>
    match s.calls c, s.closeErr with
    | .waiting id, some e =>
      if s.done = 0 then none else some (s.setCall c (.leaving id (.failed e)))
    | _, _ => none
  | .cancel c =>
    match s.calls c with
    | .waiting id => some (s.setCall c (.leaving id .cancelled))
    | _ => none
  | .unregister c =>
    match s.calls c with
    | .leaving id res => some ((s.unregister id).setCall c (.returned res))
    | _ => none
  | .tickle k =>
    match s.ticklers k with
    | .idle =>
      some { s.newID with ticklers := Function.update s.ticklers k (.drawn s.newID.nextID) }
    | _ => none
  | .tickleWrite k =>
    match s.ticklers k, s.ncClosed with
    | .drawn id, false =>
      some { s.send ⟨.tickle k, signalHeader cmdTickle id, []⟩ with
        ticklers := Function.update s.ticklers k .idle }
    | _, _ => none
  | .tickleFail k =>
    match s.ticklers k, s.ncClosed || s.hungUp with
    | .drawn _, true => some { s with ticklers := Function.update s.ticklers k .stopped }
    | _, _ => none
  | .tickleStop k =>
    match s.ticklers k with
    | .idle =>
      if s.done = 0 then none else some { s with ticklers := Function.update s.ticklers k .stopped }
    | _ => none
  | .closeID k =>
    match s.closers k with
    | .idle => some { s.newID with closers := Function.update s.closers k (.drawn s.newID.nextID) }
    | _ => none
  | .closeWrite k =>
    match s.closers k, s.ncClosed with
    | .drawn id, false =>
      some { s.send ⟨.close k, signalHeader cmdCloseSession id, []⟩ with
        closers := Function.update s.closers k .sent }
    | _, _ => none
  | .closeWriteFail k =>
    match s.closers k, s.ncClosed || s.hungUp with
    | .drawn _, true => some { s with closers := Function.update s.closers k .sent }
    | _, _ => none
  | .closeSocket k =>
    match s.closers k with
    | .sent => some { s with ncClosed := true, closers := Function.update s.closers k .closed }
    | _ => none
  | .closeFail k =>
    match s.closers k with
    | .closed => some { s.fail .closed with closers := Function.update s.closers k .returned }
    | _ => none
  | .read =>
    match s.reader, s.inbound with
    | .reading, f :: rest => some ({ s with inbound := rest }.readFrame f)
    | _, _ => none
  | .handOff =>
    match s.reader with
    | .handing c f =>
      -- the channel has room for one reply, and the send outside the lock waits for it
      if (s.chans c).isSome then none
      else some { s with
        chans := Function.update s.chans c (some f)
        reader := .reading
        handed := s.handed ++ [(c, f)] }
    | _ => none
  | .readError =>
    match s.reader, s.ncClosed || s.hungUp with
    | .reading, true => some { s.fail .read with reader := .stopped }
    | _, _ => none
  | .readerClose =>
    match s.reader with
    | .closing => some { s with ncClosed := true, reader := .stopped }
    | _ => none
  | .serverSend f =>
    if s.hungUp then none
    else some { s with inbound := s.inbound ++ [f], answered := s.answered ++ f.answers.toList }
  | .hangUp => some { s with hungUp := true }

def connSystem : System Conn ConnLabel := ⟨{}, Conn.step⟩

end GoAfp
