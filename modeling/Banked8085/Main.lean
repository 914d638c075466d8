import Banked8085.Command

/-! # The program

The first argument chooses a tool and the others belong to it: `assemble` turns a source into an
image, `monitor` runs images. The tools decide everything; this module reads and writes for
them.
-/

namespace Banked8085.Command
set_option autoImplicit false

def fileError : IO.Error → FileError
  | .noFileOrDirectory .. => .notFound
  | .inappropriateType _ 20 _ => .notDirectory
  | .invalidArgument _ 36 _ => .nameTooLong
  | .inappropriateType .. => .isDirectory
  | e => .other (toString e)

def readFiles (names : List String) : IO FileReader := do
  let contents ← names.mapM fun (name : String) => do
    try
      let bytes ← IO.FS.readBinFile name
      pure (name, Except.ok bytes.toList)
    catch e => pure (name, Except.error (fileError e))
  pure fun name => (contents.lookup name).getD (.error .notFound)

def writeFile (name : String) (content : List Byte) : IO (Except FileError Unit) := do
  try
    IO.FS.writeBinFile name ⟨content.toArray⟩
    pure (.ok ())
  catch e => pure (.error (fileError e))

partial def readRest (stream : IO.FS.Stream) (start : ByteArray) : IO ByteArray := do
  let bytes ← stream.read 65536
  if bytes.isEmpty then pure start else readRest stream (start ++ bytes)

/-- The standard input, unless it is a terminal. -/
def readInput : IO (List Byte) := do
  let stream ← IO.getStdin
  if ← stream.isTty then pure [] else pure (← readRest stream .empty).toList

def Outcome.print (outcome : Outcome) : IO UInt32 := do
  let stdout ← IO.getStdout
  stdout.write ⟨outcome.stdout.toArray⟩
  stdout.flush
  IO.eprint outcome.stderr
  pure outcome.code

def assembleMain (arguments : List String) : IO UInt32 := do
  match Assemble.plan (← readFiles arguments) arguments with
  | .done outcome => outcome.print
  | .write path image report => do
    let written ← writeFile path image
    (Assemble.finish path report written).print

def monitorMain (arguments : List String) : IO UInt32 := do
  let files ← readFiles arguments
  match Monitor.run files arguments (← readInput) with
  | some outcome => outcome.print
  | none => pure 1

end Banked8085.Command

open Banked8085.Command in
def main (arguments : List String) : IO UInt32 :=
  match arguments with
  | "assemble" :: rest => assembleMain rest
  | "monitor" :: rest => monitorMain rest
  | _ => (Outcome.refused (Assemble.usage ++ "\n" ++ Monitor.usage)).print
