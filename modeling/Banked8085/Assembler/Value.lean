import Banked8085.Text.Basic
import Banked8085.Text.Numeral
import Banked8085.Text.Quoted

/-! # Values

An operand value is a number or the name of a symbol:

* `upper`, `isIdentifier`: names, which are compared in upper case;
* `Value.parse`: character literals, numbers in three radices and names;
* `ValueError`: what can be wrong with a value.

Only ASCII letters have case.
-/

namespace Banked8085.Assembler
set_option autoImplicit false

def upper (text : List Char) : List Char := text.map Char.toUpper

def startsName (c : Char) : Bool := c.isAlpha || c == '_' || c == '.'

def continuesName (c : Char) : Bool := c.isAlphanum || c == '_' || c == '.'

def isIdentifier : List Char → Bool
  | [] => false
  | c :: rest => startsName c && rest.all continuesName

/-- An operand value before symbols are looked up. Names are in upper case. -/
inductive Value
  | number (n : Nat)
  | symbol (name : List Char)
deriving DecidableEq, Repr, Inhabited

inductive ValueError
  | missing
  | unterminatedCharacter (text : List Char)
  | characterLength (text : List Char)
  | numeral (text : List Char) (cause : Numeral.Error)
  | invalid (text : List Char)
deriving DecidableEq, Repr, Inhabited

def quoted (text : List Char) : String := "'" ++ String.ofList text ++ "'"

def ValueError.message : ValueError → String
  | .missing => "missing value"
  | .unterminatedCharacter text => "unterminated character literal " ++ String.ofList text
  | .characterLength text =>
    "character literal " ++ String.ofList text ++ " must hold one ASCII character"
  | .numeral text cause => "invalid number " ++ quoted text ++ ": " ++ cause.message
  | .invalid text => "invalid value " ++ quoted text

namespace Value

def limit : Nat := 4294967295

/-- The radix and the digits of a number in upper case: `0X` in front or `H` behind mark
hexadecimal, `B` behind marks binary, and the first of these that applies counts. -/
def radixAndDigits : List Char → Nat × List Char
  | '0' :: 'X' :: digits => (16, digits)
  | text =>
    match text.getLast? with
    | some 'H' => (16, text.dropLast)
    | some 'B' => (2, text.dropLast)
    | _ => (10, text)

def parseNumber (text : List Char) : Except ValueError Value :=
  let (radix, digits) := radixAndDigits (upper text)
  match Numeral.read radix limit digits with
  | .ok n => .ok (number n)
  | .error cause => .error (.numeral text cause)

def parseCharacter (text : List Char) : Except ValueError Value :=
  match Quoted.inner? text with
  | none => .error (.unterminatedCharacter text)
  | some [c] => if c.toNat < 128 then .ok (number c.toNat) else .error (.characterLength text)
  | some _ => .error (.characterLength text)

def parseTrimmed (text : List Char) : Except ValueError Value :=
  match text with
  | [] => .error .missing
  | c :: _ =>
    if Quoted.isQuote c then parseCharacter text
    else if c.isDigit then parseNumber text
    else if isIdentifier text then .ok (symbol (upper text))
    else .error (.invalid text)

/-- Read a number, a character literal or a name. A name such as `FFh` is a symbol here. -/
def parse (text : List Char) : Except ValueError Value := parseTrimmed (trim text)

end Value
end Banked8085.Assembler
