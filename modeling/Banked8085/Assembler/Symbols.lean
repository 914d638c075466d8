import Std.Data.TreeMap
import Banked8085.Assembler.Value

/-! # Symbols

Labels and constants with their values, in ascending order of the names:

* `SymbolTable.define`: add a name that is not yet in the table;
* `SymbolTable.find?`: the value of a name in any letter case;
* `SymbolTable.resolve`: the number that a value stands for.

A name that is not in the table is read as a hexadecimal number if it ends in `H` and has
hexadecimal digits before it.
-/

namespace Banked8085.Assembler
set_option autoImplicit false

/-- The known names, in upper case, and their values. -/
structure SymbolTable where
  entries : Std.TreeMap (List Char) Nat := {}
deriving Inhabited

inductive SymbolError
  | duplicate (name : List Char)
  | undefined (name : List Char)
deriving DecidableEq, Repr, Inhabited

def SymbolError.message : SymbolError → String
  | .duplicate name => "symbol " ++ quoted name ++ " is defined twice"
  | .undefined name => "undefined symbol " ++ quoted name

/-- The number that a name such as `FFH` denotes. -/
def hexName? (name : List Char) : Option Nat :=
  let digits := name.dropLast
  if name.getLast? = some 'H' ∧ digits ≠ [] ∧ digits.all Numeral.isHexDigit then
    (Numeral.read 16 Value.limit digits).toOption
  else none

namespace SymbolTable

def define (table : SymbolTable) (name : List Char) (value : Nat) :
    Except SymbolError SymbolTable :=
  if name ∈ table.entries then .error (.duplicate name)
  else .ok ⟨table.entries.insert name value⟩

def find? (table : SymbolTable) (name : List Char) : Option Nat := table.entries[upper name]?

def resolve (table : SymbolTable) : Value → Except SymbolError Nat
  | .number n => .ok n
  | .symbol name =>
    match table.entries[name]? with
    | some n => .ok n
    | none =>
      match hexName? name with
      | some n => .ok n
      | none => .error (.undefined name)

def toList (table : SymbolTable) : List (List Char × Nat) := table.entries.toList

end SymbolTable
end Banked8085.Assembler
