import Symkernel.Library.GoStrconv

/-!
# Replies of the Redis serialization protocol

The replies of RESP2 as trees, and their bytes. A tree keeps what the protocol leaves open in the
text of a number: leading zeros, and the sign of an integer.
-/

namespace Symkernel.Library.Resp

def crlf : GoString := [0x0d, 0x0a]

inductive Sign where
  | none
  | plus
  | minus
  deriving DecidableEq

def Sign.text : Sign → GoString
  | .none => []
  | .plus => [0x2b]
  | .minus => [0x2d]

def Sign.apply (n : Nat) : Sign → Int
  | .none | .plus => n
  | .minus => -n

inductive Reply where
  | simple (s : GoString)
  | error (s : GoString)
  | integer (sign : Sign) (zeros n : Nat)
  | bulk (zeros : Nat) (data : GoString)
  | nilBulk
  | array (zeros : Nat) (elems : List Reply)
  | nilArray

def line (tag : UInt8) (text : GoString) : GoString := tag :: text ++ crlf

namespace Reply

def bulkHeader (zeros : Nat) (data : GoString) : GoString :=
  line 0x24 (decimalText zeros data.length)

def arrayHeader (zeros : Nat) (elems : List Reply) : GoString :=
  line 0x2a (decimalText zeros elems.length)

mutual

def encode : Reply → GoString
  | .simple s => line 0x2b s
  | .error s => line 0x2d s
  | .integer sign zeros n => line 0x3a (sign.text ++ decimalText zeros n)
  | .bulk zeros data => bulkHeader zeros data ++ (data ++ crlf)
  | .nilBulk => line 0x24 [0x2d, 0x31]
  | .array zeros elems => arrayHeader zeros elems ++ encodeAll elems
  | .nilArray => line 0x2a [0x2d, 0x31]

def encodeAll : List Reply → GoString
  | [] => []
  | elem :: elems => elem.encode ++ encodeAll elems

end

def OneLine (s : GoString) : Prop := 0x0d ∉ s ∧ 0x0a ∉ s

instance (s : GoString) : Decidable (OneLine s) :=
  inferInstanceAs (Decidable (_ ∧ _))

mutual

/-- Texts are on one line and integers have 64 bits. -/
def WellFormed : Reply → Prop
  | .simple s | .error s => OneLine s
  | .integer sign _ n => -2 ^ 63 ≤ sign.apply n ∧ sign.apply n < 2 ^ 63
  | .bulk .. | .nilBulk | .nilArray => True
  | .array _ elems => WellFormedAll elems

def WellFormedAll : List Reply → Prop
  | [] => True
  | elem :: elems => elem.WellFormed ∧ WellFormedAll elems

end

end Reply

end Symkernel.Library.Resp
