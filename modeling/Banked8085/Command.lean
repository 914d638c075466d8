import Banked8085.Assembler.Assembly
import Banked8085.Monitor.Machine

/-! # The tools on the command line

A command line tool ends in an `Outcome`: an exit code and what it has printed.

* `Assemble.plan`: everything that the assembler does before the image is written;
* `Assemble.finish`: its outcome, given how writing went;
* `Assemble.run`: both, on the files of a file system;
* `Monitor.run`: a machine is set up and typed the standard input, runs, and shows what the program
  has printed, then its own state, then a dump if one was asked for.
-/

namespace Banked8085.Command
set_option autoImplicit false

/-- The exit code, the bytes on standard output, and the text on standard error. -/
structure Outcome where
  code : UInt32 := 0
  stdout : List Byte := []
  stderr : String := ""
deriving DecidableEq, Repr, Inhabited

def textBytes (text : String) : List Byte := Utf8.encode text.toList

def Outcome.refused (hint : String) : Outcome := { code := 2, stderr := hint ++ "\n" }

def Outcome.failed (message : String) : Outcome :=
  { code := 1, stderr := "Error: " ++ message ++ "\n" }

/-! ## The assembler -/

namespace Assemble
open Assembler

def usage : String := "usage: i8085_asm <input.asm> <output.bin> [--symbols]"

def symbolsFlag : String := "--symbols"

/-- One line of the symbol list: the name, filled up to sixteen columns, and its value. -/
def symbolLine (name : List Char) (value : Nat) : String :=
  String.ofList (name ++ List.replicate (16 - name.length) ' ') ++ " " ++ Hex.atLeast 4 value ++
    "\n"

def report (path : String) (assembly : Assembly) (symbols : Bool) : String :=
  let lines :=
    if symbols then assembly.symbols.toList.map fun (name, value) => symbolLine name value else []
  path ++ ": " ++ toString assembly.bytes.length ++ " bytes at " ++
    hexAddress assembly.origin.toNat ++ "\n" ++ String.join lines

/-- What is left to do: nothing, or to write an image and then print a report. -/
inductive Plan
  | done (outcome : Outcome)
  | write (path : String) (image : List Byte) (report : String)
deriving Inhabited

def plan (files : FileReader) (arguments : List String) : Plan :=
  match arguments.filter (· ≠ symbolsFlag) with
  | [input, output] =>
    match assembleFile files input with
    | .error e => .done (.failed e.message)
    | .ok assembly =>
      .write output assembly.bytes (report output assembly (arguments.contains symbolsFlag))
  | _ => .done (.refused usage)

/-- The outcome when writing to `path` went as told. -/
def finish (path : String) (report : String) : Except FileError Unit → Outcome
  | .ok () => { stdout := textBytes report }
  | .error cause => .failed ("Failed to write image " ++ path ++ ": " ++ cause.message)

/-- Two paths and the flag in any order: the source is read from the first path and the image goes to
the second. Nothing is written unless the whole source was assembled. -/
def run {σ : Type} (system : FileSystem σ) (files : σ) (arguments : List String) : Outcome × σ :=
  match plan (system.read files) arguments with
  | .done outcome => (outcome, files)
  | .write path image report =>
    let (written, files) := system.write files path image
    (finish path report written, files)

end Assemble

/-! ## The monitor -/

namespace Monitor
open Banked8085.Monitor

def usage : String :=
  "Usage: i8085_monitor <bios.bin> [program.bin [load_addr_hex]] [--max-steps N] [--echo] " ++
    "[--dump ADDR_HEX]"

def dumpRows : Nat := 8

def report (machine : Machine Unit) : List Byte :=
  let (printed, machine) := machine.take
  let dump := match machine.settings.dump with
    | none => ""
    | some start => machine.dump start dumpRows ++ "\n"
  printed ++ textBytes ("\n" ++ machine.snapshot ++ "\n" ++ dump)

/-- Run the tool with the given standard input. There is no outcome if the program in the machine
runs for ever. -/
def run (files : FileReader) (arguments : List String) (input : List Byte) : Option Outcome :=
  match Settings.ofArguments arguments with
  | .error e => some (.refused (e.message ++ "\n" ++ usage))
  | .ok settings =>
    match Machine.new files settings () with
    | .error e => some (.failed e.message)
    | .ok machine => do
      let (_, machine) ← (machine.push input).run
      pure { stdout := report machine }

end Monitor
end Banked8085.Command
