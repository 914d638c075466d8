import Banked8085.Assembler.Layout

/-! # Images

Writing the bytes of all statements to their addresses, with the complete symbol table:

* `Statement.emit`: the bytes of a statement;
* `Image`: the bytes written so far, from the first address on;
* `Image.place`: add bytes at an address; gaps are filled with zeros, and bytes that would go
  below the end of the image are refused;
* `emitLines`: the image of a list of lines.
-/

namespace Banked8085.Assembler
set_option autoImplicit false

/-! ## Bytes of a statement -/

def DataItem.emit (symbols : SymbolTable) : DataItem → Except Fault (List Byte)
  | .text bytes => .ok bytes
  | .value v => do
    let n ← symbols.evaluate v
    if n < 256 then pure [UInt8.ofNat n] else throw (.dataByte n)

def emitWord (symbols : SymbolTable) (value : Value) : Except Fault (List Byte) := do
  let n ← symbols.evaluate value
  if n < 65536 then
    let w := UInt16.ofNat n
    pure [Word.low w, Word.high w]
  else throw (.dataWord n)

def emitInstruction (symbols : SymbolTable) (mnemonic : List Char)
    (operands : List (List Char)) : Except Fault (List Byte) := do
  let form ← knownForm mnemonic
  match form.build mnemonic operands symbols with
  | .ok i => pure i.encode
  | .error cause => throw (.operands mnemonic cause)

/-- The bytes of a statement; only data and instructions have any. -/
def Statement.emit (symbols : SymbolTable) : Statement → Except Fault (List Byte)
  | .bytes items => do
    let chunks ← items.mapM (DataItem.emit symbols)
    pure chunks.flatten
  | .words values => do
    let chunks ← values.mapM (emitWord symbols)
    pure chunks.flatten
  | .instruction mnemonic operands => emitInstruction symbols mnemonic operands
  | .origin _ | .constant .. | .finish => pure []

/-! ## Placing bytes -/

/-- Bytes from an address on. An image in which nothing was placed has no address yet. -/
structure Image where
  origin : Option UInt32 := none
  bytes : Array Byte := #[]
deriving Inhabited

namespace Image

/-- The address behind the last byte. It has 32 bits and wraps. -/
def stop (image : Image) : Option UInt32 :=
  image.origin.map (· + UInt32.ofNat image.bytes.size)

/-- Add bytes at an address that is not below the end of the image. -/
def place (image : Image) (start : UInt32) (data : List Byte) : Except Fault Image :=
  if data.isEmpty then .ok image
  else
    match image.stop with
    | none => .ok ⟨some start, image.bytes ++ data⟩
    | some stop =>
      if start < stop then .error (.overlap start.toNat stop.toNat)
      else .ok ⟨image.origin, image.bytes ++ Array.replicate (start - stop).toNat 0 ++ data⟩

end Image

/-! ## The second pass -/

structure Output where
  image : Image := {}
  counter : UInt32 := 0
deriving Inhabited

namespace Output

def put (output : Output) (symbols : SymbolTable) : Statement → Except Fault Output
  | .origin value => do
    let counter ← symbols.address value
    pure { output with counter }
  | statement => do
    let data ← statement.emit symbols
    let image ← output.image.place output.counter data
    pure ⟨image, output.counter + UInt32.ofNat data.length⟩

def next (symbols : SymbolTable) (output : Output) (line : Line) :
    Except AssemblyError Output :=
  match line.statement with
  | none => .ok output
  | some statement => line.blame (output.put symbols statement)

end Output

def emitLines (symbols : SymbolTable) (lines : List Line) : Except AssemblyError Image := do
  let output ← lines.foldlM (Output.next symbols) {}
  pure output.image

end Banked8085.Assembler
