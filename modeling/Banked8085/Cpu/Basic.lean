import Banked8085.Files
import Banked8085.Instruction.Basic
import Banked8085.Memory.Basic
import Banked8085.Ports

/-! # The processor

`Cpu σ` is a processor whose ports lead to a device with states in `σ`:

* `Cpu.new`, `Cpu.reset`: the state after power-on; a reset keeps the ports;
* `Cpu.load`, `Cpu.loadProgram`, `Cpu.loadFile`: images into the active bank, with the number of
  bytes that were copied;
* `Cpu.get`, `Cpu.set` and `Cpu.stackPair`, `Cpu.setStackPair`: operands of instructions;
* `Cpu.pushWord`, `Cpu.popWord`: the stack, which grows downwards and wraps.
-/

namespace Banked8085
set_option autoImplicit false

structure Cpu (σ : Type) where
  registers : Registers := {}
  flags : Flags := {}
  memory : Memory := .blank
  ports : Ports σ
  halted : Bool := false
  interruptsEnabled : Bool := false

namespace Cpu
variable {σ : Type}

def new (device : σ) : Cpu σ := { ports := { device } }

/-- Return to the state after power-on. The ports and their device stay as they are. -/
def reset (cpu : Cpu σ) : Cpu σ := { ports := cpu.ports }

@[simp] theorem reset_reset (cpu : Cpu σ) : cpu.reset.reset = cpu.reset := rfl

/-! ## Loading -/

def load (cpu : Cpu σ) (data : List Byte) (start : Word) : Nat × Cpu σ :=
  let (count, memory) := cpu.memory.load data start
  (count, { cpu with memory })

/-- Load an image and continue at it. -/
def loadProgram (cpu : Cpu σ) (data : List Byte) (start : Word) : Nat × Cpu σ :=
  let (count, cpu) := cpu.load data start
  (count, { cpu with registers := { cpu.registers with pc := start } })

/-- Load a file, which is read as a whole before anything is copied. -/
def loadFile (cpu : Cpu σ) (files : FileReader) (path : String) (start : Word) :
    Except ImageError Nat × Cpu σ :=
  match readImage files .program path with
  | .error cause => (.error cause, cpu)
  | .ok data =>
    let (count, cpu) := cpu.load data start
    (.ok count, cpu)

/-! ## Operands -/

def get (cpu : Cpu σ) : Location → Byte
  | .register r => cpu.registers.get r
  | .memory => cpu.memory.read (cpu.registers.pair .hl)

def set (cpu : Cpu σ) (location : Location) (value : Byte) : Cpu σ :=
  match location with
  | .register r => { cpu with registers := cpu.registers.set r value }
  | .memory => { cpu with memory := cpu.memory.write (cpu.registers.pair .hl) value }

def setWide (cpu : Cpu σ) (pair : WidePair) (value : Word) : Cpu σ :=
  { cpu with registers := cpu.registers.setWide pair value }

/-- The word that a push stores: a register pair, or the accumulator over the packed flags. -/
def stackPair (cpu : Cpu σ) : StackPair → Word
  | .pair p => cpu.registers.pair p
  | .psw => Word.ofBytes cpu.registers.a cpu.flags.pack

def setStackPair (cpu : Cpu σ) (pair : StackPair) (value : Word) : Cpu σ :=
  match pair with
  | .pair p => { cpu with registers := cpu.registers.setPair p value }
  | .psw =>
    { cpu with
      registers := { cpu.registers with a := value.high }
      flags := .unpack value.low }

def setResult (cpu : Cpu σ) (result : Byte × Flags) : Cpu σ :=
  { cpu with registers := { cpu.registers with a := result.1 }, flags := result.2 }

def jump (cpu : Cpu σ) (target : Word) : Cpu σ :=
  { cpu with registers := { cpu.registers with pc := target } }

/-! ## The stack -/

def pushWord (cpu : Cpu σ) (value : Word) : Cpu σ :=
  let top := cpu.registers.sp - 2
  { cpu with
    registers := { cpu.registers with sp := top }
    memory := cpu.memory.writeWord top value }

def top (cpu : Cpu σ) : Word := cpu.memory.readWord cpu.registers.sp

def dropWord (cpu : Cpu σ) : Cpu σ :=
  { cpu with registers := { cpu.registers with sp := cpu.registers.sp + 2 } }

end Cpu
end Banked8085
