import Banked8085.Assembler.Image
import Banked8085.Files

/-! # Assembly

`assemble` turns a source text into an image and its symbols in two passes: the first gives all
labels addresses (`layOut`), the second writes the bytes (`emitLines`). `assembleFile` reads the
source from a file.
-/

namespace Banked8085.Assembler
set_option autoImplicit false

structure Assembly where
  origin : Word
  bytes : List Byte
  symbols : SymbolTable
deriving Inhabited

/-- The bytes with zeros in front, so that the first one belongs at address zero. -/
def Assembly.imageFromZero (assembly : Assembly) : List Byte :=
  List.replicate assembly.origin.toNat 0 ++ assembly.bytes

/-- Assemble a source text. A program without bytes has origin zero. -/
def assemble (source : String) : Except AssemblyError Assembly := do
  let lines ← parseSource source.toList
  let symbols ← layOut lines
  let image ← emitLines symbols lines
  pure ⟨(image.origin.getD 0).toUInt16, image.bytes.toList, symbols⟩

inductive SourceError
  | unreadable (path : String) (cause : FileError)
  | rejected (path : String) (cause : AssemblyError)
deriving DecidableEq, Repr, Inhabited

def SourceError.message : SourceError → String
  | .unreadable path cause => "Failed to read source " ++ path ++ ": " ++ cause.message
  | .rejected path cause => "Failed to assemble " ++ path ++ ": " ++ cause.message

def assembleFile (files : FileReader) (path : String) : Except SourceError Assembly :=
  match files path with
  | .error cause => .error (.unreadable path cause)
  | .ok content =>
    match Utf8.decode? content with
    | none => .error (.unreadable path .notText)
    | some source =>
      match assemble source with
      | .error cause => .error (.rejected path cause)
      | .ok assembly => .ok assembly

end Banked8085.Assembler
