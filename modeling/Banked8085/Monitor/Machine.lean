import Banked8085.Cpu.Execute
import Banked8085.Memory.Basic
import Banked8085.Monitor.Console
import Banked8085.Monitor.Settings

/-! # The machine

A processor with a console at its ports, which runs in slices:

* `Machine.fresh`, `Machine.new`: a machine after power-on, without and with its images;
* `Machine.loadBios`, `Machine.installBios`, `Machine.loadProgram`: images, with the number of bytes
  that were copied;
* `Machine.reset`: power-on with the remembered image;
* `Machine.runSlice`, `Machine.run`: execution within the step budget;
* `Machine.snapshot`, `Machine.dump`: the state as text.

The device behind the ports is the console together with a value of type `τ`, for handlers that a
program around the machine may put in the place of the console's.
-/

namespace Banked8085.Monitor
set_option autoImplicit false

structure Peripherals (τ : Type) where
  console : Console
  extra : τ

/-- A processor, the settings it runs under, the image that a reset installs again, and the number
of instructions executed since the last reset. -/
structure Machine (τ : Type) where
  cpu : Cpu (Peripherals τ)
  settings : Settings
  bios : Option (List Byte) := none
  totalSteps : UInt64 := 0

/-- How a run ended: the instructions it executed, and whether the processor is halted. -/
structure RunOutcome where
  steps : UInt64
  halted : Bool
deriving DecidableEq, Repr, Inhabited

namespace Machine
variable {τ : Type}

/-! ## Power-on -/

def consolePorts (console : Console) (extra : τ) : Ports (Peripherals τ) where
  device := ⟨console, extra⟩
  onRead := some fun port device =>
    let (value, console) := device.console.read port
    (value, { device with console })
  onWrite := some fun port value device =>
    { device with console := device.console.write port value }

def fresh (settings : Settings) (extra : τ) : Machine τ where
  cpu := { ports := consolePorts { echo := settings.echo } extra }
  settings := settings

/-! ## Images -/

/-- Put an image at address zero of bank 0, make it the one that resets install, and continue
there. -/
def installBios (machine : Machine τ) (image : List Byte) : Nat × Machine τ :=
  let cpu := { machine.cpu with memory := machine.cpu.memory.select 0 }
  let (count, cpu) := cpu.loadProgram image 0
  (count, { machine with cpu, bios := some image })

def loadBios (machine : Machine τ) (files : FileReader) (path : String) :
    Except ImageError Nat × Machine τ :=
  match readImage files .bios path with
  | .error cause => (.error cause, machine)
  | .ok image =>
    let (count, machine) := machine.installBios image
    (.ok count, machine)

/-- Load a program file into the active bank. Execution continues at the program only if no other
image was installed. -/
def loadProgram (machine : Machine τ) (files : FileReader) (path : String) (address : Word) :
    Except ImageError Nat × Machine τ :=
  match machine.cpu.loadFile files path address with
  | (.error cause, cpu) => (.error cause, { machine with cpu })
  | (.ok count, cpu) =>
    let cpu := if machine.bios.isNone then cpu.jump address else cpu
    (.ok count, { machine with cpu })

def loadBiosSetting (machine : Machine τ) (files : FileReader) :
    Except ImageError (Machine τ) :=
  match machine.settings.bios with
  | none => .ok machine
  | some path => do
    let (result, machine) := machine.loadBios files path
    let _ ← result
    pure machine

def loadProgramSetting (machine : Machine τ) (files : FileReader) :
    Except ImageError (Machine τ) :=
  match machine.settings.program with
  | none => .ok machine
  | some path => do
    let (result, machine) := machine.loadProgram files path machine.settings.programAddress
    let _ ← result
    pure machine

def new (files : FileReader) (settings : Settings) (extra : τ) :
    Except ImageError (Machine τ) := do
  let machine ← (fresh settings extra).loadBiosSetting files
  machine.loadProgramSetting files

/-! ## The console -/

def withConsole {α : Type} (machine : Machine τ) (change : Console → α × Console) :
    α × Machine τ :=
  let { cpu, settings, bios, totalSteps } := machine
  let ports := cpu.ports
  let (a, console) := change ports.device.console
  let cpu := { cpu with ports := { ports with device := { ports.device with console } } }
  (a, { cpu, settings, bios, totalSteps })

def push (machine : Machine τ) (bytes : List Byte) : Machine τ :=
  (machine.withConsole fun console => ((), console.push bytes)).2

def take (machine : Machine τ) : List Byte × Machine τ := machine.withConsole Console.take

/-! ## Reset -/

/-- Return to power-on and install the remembered image again. -/
def reset (machine : Machine τ) : Machine τ :=
  let cpu := machine.cpu.reset
  let (_, machine) := withConsole { machine with cpu, totalSteps := 0 } fun console =>
    ((), console.clear)
  match machine.bios with
  | none => machine
  | some image => (machine.installBios image).2

/-! ## Execution -/

def budgetLeft (machine : Machine τ) : Option UInt64 :=
  machine.settings.stepBudget.map fun most =>
    if machine.totalSteps < most then most - machine.totalSteps else 0

/-- The most that a 32-bit counter can count of `n` steps. -/
def countable (n : UInt64) : UInt32 := if n ≤ 0xFFFFFFFF then n.toUInt32 else 0xFFFFFFFF

def sliceLimit (machine : Machine τ) : UInt32 :=
  match machine.budgetLeft with
  | none => machine.settings.sliceSteps
  | some left => min machine.settings.sliceSteps (countable left)

def runSlice (machine : Machine τ) : UInt32 × Machine τ :=
  let limit := machine.sliceLimit
  let { cpu, settings, bios, totalSteps } := machine
  let (steps, cpu) := cpu.run limit.toNat
  let executed := UInt32.ofNat steps
  (executed, { cpu, settings, bios, totalSteps := totalSteps + executed.toUInt64 })

/-- Continue a run that has executed `done` instructions. A run that goes on for ever has no
result. -/
def runFrom (done : UInt64) (machine : Machine τ) : Option (RunOutcome × Machine τ) :=
  if machine.cpu.halted then some (⟨done, true⟩, machine)
  else
    let (executed, machine) := machine.runSlice
    if executed = 0 then some (⟨done, machine.cpu.halted⟩, machine)
    else machine |>.runFrom (done + executed.toUInt64)
partial_fixpoint

/-- Run slices until the processor halts or the budget is spent. -/
def run (machine : Machine τ) : Option (RunOutcome × Machine τ) := machine.runFrom 0

/-! ## Text -/

def dump (machine : Machine τ) (start : Word) (rows : Nat) : String :=
  machine.cpu.memory.dump start rows

def snapshot (machine : Machine τ) : String :=
  machine.cpu.registers.text ++ "\n" ++ machine.cpu.flags.text ++ "\nBANK:" ++
    toString machine.cpu.memory.active.val ++ if machine.cpu.halted then " HALTED" else ""

end Machine
end Banked8085.Monitor
