import Banked8085.Assembler.Line
import Banked8085.Assembler.Operand

/-! # Assembly errors

Every error names the source line at which assembly stopped:

* `Fault`: what is wrong there;
* `AssemblyError`: the fault with its line, and `AssemblyError.message`, its text.
-/

namespace Banked8085.Assembler
set_option autoImplicit false

inductive Fault
  | malformed (text : List Char) (cause : LineError)
  | symbol (cause : SymbolError)
  | addressRange (n : Nat)
  | overrun
  | unknownMnemonic (mnemonic : List Char)
  | operands (mnemonic : List Char) (cause : OperandError)
  | dataByte (n : Nat)
  | dataWord (n : Nat)
  | overlap (start stop : Nat)
deriving DecidableEq, Repr, Inhabited

/-- A number in hexadecimal with its prefix and at least four digits. -/
def hexAddress (n : Nat) : String := "0x" ++ Hex.atLeast 4 n

def Fault.message : Fault → String
  | .malformed text cause => String.ofList text ++ ": " ++ cause.message
  | .symbol cause => cause.message
  | .addressRange n => "address " ++ hexNumber n ++ " is outside the 64 KiB space"
  | .overrun => "code runs past 0xFFFF"
  | .unknownMnemonic mnemonic => "unknown mnemonic " ++ quoted mnemonic
  | .operands mnemonic cause => String.ofList mnemonic ++ ": " ++ cause.message
  | .dataByte n => "DB value " ++ hexNumber n ++ " does not fit in a byte"
  | .dataWord n => "DW value " ++ hexNumber n ++ " does not fit in a word"
  | .overlap start stop =>
    "code at " ++ hexAddress start ++ " overlaps earlier output ending at " ++ hexAddress stop

structure AssemblyError where
  line : Nat
  fault : Fault
deriving DecidableEq, Repr, Inhabited

def AssemblyError.message (e : AssemblyError) : String :=
  "line " ++ toString e.line ++ ": " ++ e.fault.message

def Line.blame {α : Type} (line : Line) (result : Except Fault α) : Except AssemblyError α :=
  match result with
  | .ok a => .ok a
  | .error fault => .error ⟨line.number, fault⟩

end Banked8085.Assembler
