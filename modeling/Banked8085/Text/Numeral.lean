/-! # Numerals

`Numeral.read radix limit` reads a numeral as a number up to `limit`. One plus sign may stand in
front of the digits. Digits are read from the left, and the first one that is invalid or makes the
number too large decides the error.
-/

namespace Banked8085.Numeral
set_option autoImplicit false

inductive Error
  | empty
  | invalidDigit
  | tooLarge
deriving DecidableEq, Repr, Inhabited

def Error.message : Error → String
  | .empty => "cannot parse integer from empty string"
  | .invalidDigit => "invalid digit found in string"
  | .tooLarge => "number too large to fit in target type"

def digit? (radix : Nat) (c : Char) : Option Nat :=
  let value :=
    if c.isDigit then c.toNat - 48
    else if c.isUpper then c.toNat - 55
    else if c.isLower then c.toNat - 87
    else radix
  if value < radix then some value else none

def isHexDigit (c : Char) : Bool := (digit? 16 c).isSome

/-- Continue a numeral whose digits so far mean `value`. -/
def readDigits (radix limit value : Nat) : List Char → Except Error Nat
  | [] => .ok value
  | c :: rest =>
    match digit? radix c with
    | none => .error .invalidDigit
    | some d =>
      if limit < value * radix + d then .error .tooLarge
      else readDigits radix limit (value * radix + d) rest

/-- The number up to `limit` that a text denotes. -/
def read (radix limit : Nat) : List Char → Except Error Nat
  | [] => .error .empty
  | ['+'] => .error .invalidDigit
  | '+' :: digits => readDigits radix limit 0 digits
  | digits => readDigits radix limit 0 digits

end Banked8085.Numeral
