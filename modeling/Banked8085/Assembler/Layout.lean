import Banked8085.Assembler.Error

/-! # Layout

Reading a source and giving its labels addresses:

* `parseSource`: the lines up to the first `END`;
* `Statement.size`: how many bytes a statement will take, known before any label is;
* `layOut`: the symbol table, from one pass over the lines with an address counter.

An origin or a constant may only use names that were defined before it, or that read as numbers.
Sizes and the counter have 32 bits, and sums of them wrap.
-/

namespace Banked8085.Assembler
set_option autoImplicit false

/-! ## Lines of a source -/

/-- The lines of a source from number `number` on. Nothing after an `END` is read. -/
def parseLines (number : Nat) : List (List Char) → Except AssemblyError (List Line)
  | [] => .ok []
  | text :: rest =>
    match Line.parse number text with
    | .error cause => .error ⟨number, .malformed (trim text) cause⟩
    | .ok line =>
      if line.statement = some .finish then .ok [line]
      else
        match parseLines (number + 1) rest with
        | .error e => .error e
        | .ok more => .ok (line :: more)

def parseSource (source : List Char) : Except AssemblyError (List Line) :=
  parseLines 1 (lines source)

/-! ## Names and numbers -/

def SymbolTable.evaluate (symbols : SymbolTable) (value : Value) : Except Fault Nat :=
  match symbols.resolve value with
  | .ok n => .ok n
  | .error cause => .error (.symbol cause)

def SymbolTable.address (symbols : SymbolTable) (value : Value) : Except Fault UInt32 := do
  let n ← symbols.evaluate value
  if n < 65536 then pure (UInt32.ofNat n) else throw (.addressRange n)

def knownForm (mnemonic : List Char) : Except Fault Form :=
  match form? mnemonic with
  | some form => .ok form
  | none => .error (.unknownMnemonic mnemonic)

/-! ## Sizes -/

def DataItem.size : DataItem → UInt32
  | .text bytes => UInt32.ofNat bytes.length
  | .value _ => 1

def Statement.size : Statement → Except Fault UInt32
  | .bytes items => .ok (items.foldr (fun item total => item.size + total) 0)
  | .words values => .ok (2 * UInt32.ofNat values.length)
  | .instruction mnemonic _ => do
    let form ← knownForm mnemonic
    pure (UInt32.ofNat form.size)
  | .origin _ | .constant .. | .finish => .ok 0

/-! ## The first pass -/

/-- What is known in front of a line: the symbols so far and the address counter. -/
structure Layout where
  symbols : SymbolTable := {}
  counter : UInt32 := 0
deriving Inhabited

namespace Layout

def define (layout : Layout) (name : List Char) (value : Nat) : Except Fault Layout :=
  match layout.symbols.define name value with
  | .ok symbols => .ok { layout with symbols }
  | .error cause => .error (.symbol cause)

def seek (layout : Layout) : Option Statement → Except Fault Layout
  | some (.origin value) => do
    let counter ← layout.symbols.address value
    pure { layout with counter }
  | _ => pure layout

def mark (layout : Layout) : Option (List Char) → Except Fault Layout
  | some label => layout.define label layout.counter.toNat
  | none => pure layout

/-- Define the constant of a line, or move the counter past its bytes. -/
def skip (layout : Layout) : Option Statement → Except Fault Layout
  | some (.constant name value) => do
    let n ← layout.symbols.evaluate value
    layout.define name n
  | some statement => do
    let size ← statement.size
    let counter := layout.counter + size
    if 65536 < counter then throw .overrun
    pure { layout with counter }
  | none => pure layout

def next (layout : Layout) (line : Line) : Except AssemblyError Layout :=
  line.blame do
    let layout ← layout.seek line.statement
    let layout ← layout.mark line.label
    layout.skip line.statement

end Layout

def layOut (lines : List Line) : Except AssemblyError SymbolTable := do
  let layout ← lines.foldlM Layout.next {}
  pure layout.symbols

end Banked8085.Assembler
