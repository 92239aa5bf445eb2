import GoAfp.BigEndian
import Mathlib.Data.UInt

/-! DSI packet headers and command codes. -/

namespace GoAfp

def cmdCloseSession : UInt8 := 1
def cmdCommand : UInt8 := 2
def cmdTickle : UInt8 := 5

def flagRequest : UInt8 := 0
def flagReply : UInt8 := 1

structure Header where
  flags : UInt8
  command : UInt8
  requestID : UInt16
  errCode : UInt32
  length : UInt32
  reserved : UInt32 := 0
  deriving DecidableEq, Repr

def requestHeader (cmd : UInt8) (id : UInt16) (errOrOffset : UInt32) (payload : Bytes) :
    Header where
  flags := flagRequest
  command := cmd
  requestID := id
  errCode := errOrOffset
  length := UInt32.ofNat payload.length

def signalHeader (cmd : UInt8) (id : UInt16) : Header where
  flags := flagRequest
  command := cmd
  requestID := id
  errCode := 0
  length := 0

end GoAfp
