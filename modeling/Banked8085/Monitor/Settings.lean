import Banked8085.Text.Numeral
import Banked8085.Word

/-! # Settings of the monitor

What the command line of the monitor can say:

* `Settings`: images, budget, echo and dump, with their defaults;
* `parseAddress`: hexadecimal addresses with an optional prefix or suffix;
* `Settings.ofArguments`: options and up to three names in any order.

Options are judged from left to right, each with the argument after it if it takes one. The names
are judged when all options were accepted.
-/

namespace Banked8085.Monitor
set_option autoImplicit false

structure Settings where
  bios : Option String := none
  program : Option String := none
  programAddress : Word := 0x2000
  sliceSteps : UInt32 := 1000
  stepBudget : Option UInt64 := none
  echo : Bool := false
  dump : Option Word := none
deriving DecidableEq, Repr, Inhabited

inductive SettingsError
  | budgetMissing
  | budget (text : String) (cause : Numeral.Error)
  | dumpMissing
  | address (text : String) (cause : Numeral.Error)
  | unknownOption (name : String)
  | biosMissing
  | surplus (name : String)
deriving DecidableEq, Repr, Inhabited

def SettingsError.message : SettingsError → String
  | .budgetMissing => "--max-steps needs a value"
  | .budget text cause => "invalid --max-steps '" ++ text ++ "': " ++ cause.message
  | .dumpMissing => "--dump needs an address"
  | .address text cause => "invalid load address '" ++ text ++ "': " ++ cause.message
  | .unknownOption name => "unknown option '" ++ name ++ "'"
  | .biosMissing => "missing BIOS path"
  | .surplus name => "unexpected argument '" ++ name ++ "'"

/-! ## Numbers -/

def budgetLimit : Nat := 18446744073709551615

def parseBudget (text : String) : Except SettingsError UInt64 :=
  match Numeral.read 10 budgetLimit text.toList with
  | .ok n => .ok (UInt64.ofNat n)
  | .error cause => .error (.budget text cause)

/-- The digits of a hexadecimal address: without `0x` in front, or else without `h` behind. -/
def addressDigits : List Char → List Char
  | '0' :: 'x' :: digits => digits
  | '0' :: 'X' :: digits => digits
  | text =>
    match text.getLast? with
    | some 'h' | some 'H' => text.dropLast
    | _ => text

def parseAddress (text : String) : Except SettingsError Word :=
  match Numeral.read 16 65535 (addressDigits text.toList) with
  | .ok n => .ok (UInt16.ofNat n)
  | .error cause => .error (.address text cause)

/-! ## Arguments -/

def isOption (argument : String) : Bool := "--".toList.isPrefixOf argument.toList

namespace Settings

/-- Apply the options among the arguments, and collect the other arguments in order. -/
def readOptions (settings : Settings) :
    List String → Except SettingsError (Settings × List String)
  | [] => .ok (settings, [])
  | argument :: rest =>
    if argument = "--max-steps" then
      match rest with
      | [] => .error .budgetMissing
      | value :: rest => do
        let n ← parseBudget value
        readOptions { settings with stepBudget := some n } rest
    else if argument = "--echo" then readOptions { settings with echo := true } rest
    else if argument = "--dump" then
      match rest with
      | [] => .error .dumpMissing
      | value :: rest => do
        let start ← parseAddress value
        readOptions { settings with dump := some start } rest
    else if isOption argument then .error (.unknownOption argument)
    else do
      let (settings, names) ← readOptions settings rest
      pure (settings, argument :: names)

/-- Apply the names: an image for address zero, a program, and the address of the program. -/
def readNames (settings : Settings) : List String → Except SettingsError Settings
  | [] => .error .biosMissing
  | [bios] => .ok { settings with bios := some bios }
  | [bios, program] => .ok { settings with bios := some bios, program := some program }
  | bios :: program :: address :: surplus => do
    let programAddress ← parseAddress address
    match surplus with
    | [] => pure { settings with bios := some bios, program := some program, programAddress }
    | name :: _ => throw (.surplus name)

def ofArguments (arguments : List String) : Except SettingsError Settings := do
  let (settings, names) ← readOptions {} arguments
  settings.readNames names

end Settings
end Banked8085.Monitor
