import Banked8085.Assembler.Mnemonic
import Banked8085.Assembler.Symbols

/-! # Operands of instructions

`Form.build` turns the operand texts of an instruction into the instruction, with the readers

* `readLocation`, `readPair`, `readPointer`: registers and pairs, in any letter case;
* `readByte`, `readWord`: values that fit.

The number of operands is checked first. Then they are read in the order of writing, with one
exception: the word of `LXI` is read before its pair.
-/

namespace Banked8085.Assembler
set_option autoImplicit false

inductive OperandError
  | count (mnemonic : List Char) (expected found : Nat)
  | location (name : List Char)
  | pair (last : String) (name : List Char)
  | memoryMove
  | pointer (mnemonic name : List Char)
  | value (cause : ValueError)
  | symbol (cause : SymbolError)
  | byteRange (n : Nat)
  | wordRange (n : Nat)
  | restartRange (n : Nat)
deriving DecidableEq, Repr, Inhabited

def hexNumber (n : Nat) : String := "0x" ++ Hex.atLeast 1 n

def OperandError.message : OperandError → String
  | .count mnemonic expected found =>
    String.ofList mnemonic ++ " takes " ++ toString expected ++ " operand(s), found " ++
      toString found
  | .location name => "expected register B C D E H L M or A, found " ++ quoted name
  | .pair last name =>
    "expected register pair B D H or " ++ last ++ ", found " ++ quoted name
  | .memoryMove => "MOV M,M is not an instruction (that encoding is HLT)"
  | .pointer mnemonic name =>
    String.ofList mnemonic ++ " only accepts B or D, found " ++ quoted name
  | .value cause => cause.message
  | .symbol cause => cause.message
  | .byteRange n => "value " ++ hexNumber n ++ " does not fit in a byte"
  | .wordRange n => "value " ++ hexNumber n ++ " does not fit in a word"
  | .restartRange n => "RST vector must be 0-7, found " ++ toString n

/-! ## Registers -/

def readLocation (name : List Char) : Except OperandError Location :=
  match upper name with
  | ['B'] => .ok (.register .b)
  | ['C'] => .ok (.register .c)
  | ['D'] => .ok (.register .d)
  | ['E'] => .ok (.register .e)
  | ['H'] => .ok (.register .h)
  | ['L'] => .ok (.register .l)
  | ['M'] => .ok .memory
  | ['A'] => .ok (.register .a)
  | _ => .error (.location name)

def pair? (name : List Char) : Option Pair :=
  match upper name with
  | ['B'] | ['B', 'C'] => some .bc
  | ['D'] | ['D', 'E'] => some .de
  | ['H'] | ['H', 'L'] => some .hl
  | _ => none

/-- A register pair, or the one further operand `extra` with the name `last`. -/
def readPair {α : Type} (pair : Pair → α) (last : String) (extra : α) (name : List Char) :
    Except OperandError α :=
  match pair? name with
  | some p => .ok (pair p)
  | none => if upper name = last.toList then .ok extra else .error (.pair last name)

def readWidePair : List Char → Except OperandError WidePair := readPair .pair "SP" .sp

def readStackPair : List Char → Except OperandError StackPair := readPair .pair "PSW" .psw

/-- One of the pairs that can point at the byte of an accumulator transfer. -/
def readPointer (mnemonic name : List Char) : Except OperandError PointerPair := do
  match ← readWidePair name with
  | .pair .bc => pure .bc
  | .pair .de => pure .de
  | _ => throw (.pointer mnemonic name)

/-! ## Values -/

def readNumber (symbols : SymbolTable) (text : List Char) : Except OperandError Nat :=
  match Value.parse text with
  | .error cause => .error (.value cause)
  | .ok value =>
    match symbols.resolve value with
    | .ok n => .ok n
    | .error cause => .error (.symbol cause)

def readByte (symbols : SymbolTable) (text : List Char) : Except OperandError Byte := do
  let n ← readNumber symbols text
  if n < 256 then pure (UInt8.ofNat n) else throw (.byteRange n)

def readWord (symbols : SymbolTable) (text : List Char) : Except OperandError Word := do
  let n ← readNumber symbols text
  if n < 65536 then pure (UInt16.ofNat n) else throw (.wordRange n)

/-! ## Instructions -/

def Form.arity : Form → Nat
  | implied _ => 0
  | move | moveImmediate | pairImmediate => 2
  | _ => 1

def Form.buildFrom (form : Form) (mnemonic : List Char) (symbols : SymbolTable)
    (first second : List Char) : Except OperandError Instruction :=
  match form with
  | implied i => pure i
  | location make => do pure (make (← readLocation first))
  | move => do
    let target ← readLocation first
    let source ← readLocation second
    if h : target = .memory ∧ source = .memory then throw .memoryMove
    else pure (.mov target source h)
  | moveImmediate => do
    let target ← readLocation first
    pure (.mvi target (← readByte symbols second))
  | pairImmediate => do
    let value ← readWord symbols second
    pure (.lxi (← readWidePair first) value)
  | pair make => do pure (make (← readWidePair first))
  | stack make => do pure (make (← readStackPair first))
  | pointer make => do pure (make (← readPointer mnemonic first))
  | immediate make => do pure (make (← readByte symbols first))
  | address make => do pure (make (← readWord symbols first))
  | restart => do
    let vector ← readByte symbols first
    if h : vector.toNat < 8 then pure (.rst ⟨vector.toNat, h⟩)
    else throw (.restartRange vector.toNat)

def Form.build (form : Form) (mnemonic : List Char) (operands : List (List Char))
    (symbols : SymbolTable) : Except OperandError Instruction :=
  if operands.length = form.arity then
    form.buildFrom mnemonic symbols (operands.getD 0 []) (operands.getD 1 [])
  else .error (.count mnemonic form.arity operands.length)

end Banked8085.Assembler
