import GoAfp.Conn

/-! AFP command and result codes, and the errors of the AFP layer. Message
texts are kept as their format and arguments. -/

namespace GoAfp

def cmdLogin : UInt8 := 18
def cmdLoginCont : UInt8 := 19
def cmdWriteExt : UInt8 := 61
def cmdEnumerateExt2 : UInt8 := 68

abbrev Result := Int32

def resNoErr : Result := 0
def resAccessDenied : Result := -5000
def resAuthContinue : Result := -5001
def resBadUAM : Result := -5002
def resDirNotEmpty : Result := -5007
def resEOF : Result := -5009
def resItemNotFound : Result := -5012
def resObjectExists : Result := -5017
def resObjectNotFound : Result := -5018
def resParamErr : Result := -5019
def resUserNotAuth : Result := -5023
def resCallNotSupported : Result := -5024
def resObjectTypeErr : Result := -5025
def resDirNotFound : Result := -5029

inductive AfpErr
  | result (op : String) (code : Result)
  | transport (e : ConnErr)
  | cancelled
  | truncated (what : String) (pos len : Nat)
  | text (format : String) (args : List Nat)
  | panic (text : String)
  deriving DecidableEq, Repr

def resultErr (op : String) (code : Result) : Except AfpErr Unit :=
  if code = resNoErr then .ok () else .error (.result op code)

@[simp] theorem resultErr_noErr (op : String) : resultErr op resNoErr = .ok () := rfl

theorem resultErr_eq_ok {op : String} {code : Result} :
    resultErr op code = .ok () ↔ code = resNoErr := by
  by_cases h : code = resNoErr <;> simp [resultErr, h]

def Outcome.result : Outcome → Except AfpErr (Bytes × Result)
  | .reply f => .ok (f.payload, f.header.errCode.toInt32)
  | .failed e => .error (.transport e)
  | .cancelled => .error .cancelled

end GoAfp
