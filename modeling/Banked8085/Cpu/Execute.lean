import Banked8085.Cpu.Basic
import Banked8085.Instruction.Opcode

/-! # Execution

* `Cpu.fetch`: the bytes of the next instruction, one after the other;
* `Cpu.execute`: the effect of an instruction, after the program counter has moved past it;
* `Cpu.advance`: fetch and execute one instruction;
* `Cpu.step`: the same, unless the processor is halted, and whether it was not;
* `Cpu.run`: at most `n` instructions, with the number executed.
-/

namespace Banked8085.Cpu
set_option autoImplicit false
variable {σ : Type}

/-! ## Calls and returns -/

def enter (cpu : Cpu σ) (target : Word) : Cpu σ := (cpu.pushWord cpu.registers.pc).jump target

def leave (cpu : Cpu σ) : Cpu σ :=
  let target := cpu.top
  cpu.dropWord.jump target

def passes (cpu : Cpu σ) (condition : Condition) : Bool := condition.holds cpu.flags

/-! ## Ports -/

def readPort (cpu : Cpu σ) (port : Byte) : Cpu σ :=
  let (value, ports) := cpu.ports.read port
  { cpu with registers := { cpu.registers with a := value }, ports := ports }

/-- Write the accumulator to a port. The bank-select port switches to the bank named by the lowest
three bits and is not passed on. -/
def writePort (cpu : Cpu σ) (port : Byte) : Cpu σ :=
  if port = Ports.bankSelect then
    { cpu with memory := cpu.memory.select (cpu.registers.a.toNat % 8) }
  else
    { cpu with ports := cpu.ports.write port cpu.registers.a }

/-! ## Instructions -/

/-- The effect of an instruction. The program counter already points behind it. -/
def execute (cpu : Cpu σ) : Instruction → Cpu σ
  | .nop | .sim => cpu
  | .hlt => { cpu with halted := true }
  | .ei => { cpu with interruptsEnabled := true }
  | .di => { cpu with interruptsEnabled := false }
  | .rim => cpu.set (.register .a) 0
  | .mov target source _ => cpu.set target (cpu.get source)
  | .mvi target value => cpu.set target value
  | .lxi target value => cpu.setWide target value
  | .stax pointer =>
    { cpu with memory := cpu.memory.write (cpu.registers.pair pointer.pair) cpu.registers.a }
  | .ldax pointer => cpu.set (.register .a) (cpu.memory.read (cpu.registers.pair pointer.pair))
  | .sta address => { cpu with memory := cpu.memory.write address cpu.registers.a }
  | .lda address => cpu.set (.register .a) (cpu.memory.read address)
  | .shld address => { cpu with memory := cpu.memory.writeWord address (cpu.registers.pair .hl) }
  | .lhld address => cpu.setWide (.pair .hl) (cpu.memory.readWord address)
  | .xchg =>
    let de := cpu.registers.pair .de
    (cpu.setWide (.pair .de) (cpu.registers.pair .hl)).setWide (.pair .hl) de
  | .alu op source => cpu.setResult (op.apply cpu.registers.a (cpu.get source) cpu.flags)
  | .aluImmediate op value => cpu.setResult (op.apply cpu.registers.a value cpu.flags)
  | .inr target =>
    let (value, flags) := Alu.increment (cpu.get target) cpu.flags
    { cpu.set target value with flags }
  | .dcr target =>
    let (value, flags) := Alu.decrement (cpu.get target) cpu.flags
    { cpu.set target value with flags }
  | .inx target => cpu.setWide target (cpu.registers.wide target + 1)
  | .dcx target => cpu.setWide target (cpu.registers.wide target - 1)
  | .dad source =>
    let (sum, flags) :=
      Alu.addWord (cpu.registers.pair .hl) (cpu.registers.wide source) cpu.flags
    { cpu.setWide (.pair .hl) sum with flags }
  | .daa => cpu.setResult (Alu.decimalAdjust cpu.registers.a cpu.flags)
  | .cma => cpu.set (.register .a) (~~~cpu.registers.a)
  | .stc => { cpu with flags := { cpu.flags with carry := true } }
  | .cmc => { cpu with flags := { cpu.flags with carry := !cpu.flags.carry } }
  | .rlc => cpu.setResult (Alu.rotateLeft cpu.registers.a cpu.flags)
  | .rrc => cpu.setResult (Alu.rotateRight cpu.registers.a cpu.flags)
  | .ral => cpu.setResult (Alu.rotateLeftThrough cpu.registers.a cpu.flags)
  | .rar => cpu.setResult (Alu.rotateRightThrough cpu.registers.a cpu.flags)
  | .jmp target => cpu.jump target
  | .jmpIf condition target => if cpu.passes condition then cpu.jump target else cpu
  | .call target => cpu.enter target
  | .callIf condition target => if cpu.passes condition then cpu.enter target else cpu
  | .ret => cpu.leave
  | .retIf condition => if cpu.passes condition then cpu.leave else cpu
  | .rst vector => cpu.enter (UInt16.ofNat (8 * vector.val))
  | .pchl => cpu.jump (cpu.registers.pair .hl)
  | .push source => cpu.pushWord (cpu.stackPair source)
  | .pop target =>
    let value := cpu.top
    cpu.dropWord.setStackPair target value
  | .xthl =>
    let value := cpu.top
    { cpu with
      registers := cpu.registers.setPair .hl value
      memory := cpu.memory.writeWord cpu.registers.sp (cpu.registers.pair .hl) }
  | .sphl => cpu.setWide .sp (cpu.registers.pair .hl)
  | .input port => cpu.readPort port
  | .output port => cpu.writePort port

/-! ## Fetching -/

def fetchByte (cpu : Cpu σ) : Byte × Cpu σ :=
  (cpu.memory.read cpu.registers.pc, cpu.jump (cpu.registers.pc + 1))

def fetchBytes : Nat → Cpu σ → List Byte × Cpu σ
  | 0, cpu => ([], cpu)
  | n + 1, cpu =>
    let (byte, cpu) := cpu.fetchByte
    let (bytes, cpu) := fetchBytes n cpu
    (byte :: bytes, cpu)

/-- Take an opcode and as many operand bytes as it calls for. -/
def fetch (cpu : Cpu σ) : List Byte × Cpu σ :=
  let (opcode, cpu) := cpu.fetchByte
  let (operands, cpu) := cpu.fetchBytes (Instruction.operandCount opcode)
  (opcode :: operands, cpu)

/-! ## Steps -/

def advance (cpu : Cpu σ) : Cpu σ :=
  let (bytes, cpu) := cpu.fetch
  cpu.execute (.ofBytes bytes)

/-- Execute one instruction. A halted processor does nothing and reports so. -/
def step (cpu : Cpu σ) : Bool × Cpu σ := if cpu.halted then (false, cpu) else (true, cpu.advance)

/-- Continue a run in which `done` instructions were executed by at most `n` more. -/
def runFrom (done : Nat) : Nat → Cpu σ → Nat × Cpu σ
  | 0, cpu => (done, cpu)
  | n + 1, cpu =>
    match cpu.step with
    | (true, cpu) => runFrom (done + 1) n cpu
    | (false, cpu) => (done, cpu)

def run (cpu : Cpu σ) (n : Nat) : Nat × Cpu σ := runFrom 0 n cpu

/-- The processor after one step. -/
def next (cpu : Cpu σ) : Cpu σ := cpu.step.2

theorem step_of_halted {cpu : Cpu σ} (h : cpu.halted = true) : cpu.step = (false, cpu) := by
  rw [step, if_pos h]

theorem step_of_running {cpu : Cpu σ} (h : cpu.halted = false) : cpu.step = (true, cpu.advance) := by
  rw [step, if_neg (Bool.eq_false_iff.1 h)]

@[simp] theorem next_of_halted {cpu : Cpu σ} (h : cpu.halted = true) : cpu.next = cpu := by
  rw [next, step_of_halted h]

theorem next_of_running {cpu : Cpu σ} (h : cpu.halted = false) : cpu.next = cpu.advance := by
  rw [next, step_of_running h]

end Banked8085.Cpu
