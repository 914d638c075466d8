import Banked8085.Proofs.Assembler.Spelling
import Banked8085.Proofs.Execution.Flow
import Banked8085.Proofs.Execution.Words

/-! # Conditional transfers of control

A jump, a call and a return also come with each of eight conditions. `Cpu.executeOpcode` is the
rest of a step after the opcode has been taken. For an opcode with a condition it is that of the
opcode without one if the condition is met, and otherwise only skips the operand
(`Transfer.executeOpcode_some`). So one condition lets all three kinds of transfers through in the
same states (`conditional_transfers`).
-/

namespace Banked8085
set_option autoImplicit false

open Assembler

variable {σ : Type}

/-! ## Complements -/

namespace Condition

/-- The other condition on the same flag. -/
def complement : Condition → Condition
  | .notZero => .zero
  | .zero => .notZero
  | .noCarry => .carry
  | .carry => .noCarry
  | .parityOdd => .parityEven
  | .parityEven => .parityOdd
  | .plus => .minus
  | .minus => .plus

theorem holds_complement (c : Condition) (flags : Flags) :
    c.complement.holds flags = !c.holds flags := by
  cases c <;> simp [holds, complement]

end Condition

/-! ## After the opcode -/

theorem Memory.holds_readWord (m : Memory) (a : Word) :
    m.Holds a [(m.readWord a).low, (m.readWord a).high] :=
  holds_word_iff.2 ⟨(Word.low_ofBytes _ _).symm, (Word.high_ofBytes _ _).symm⟩

namespace Cpu
variable (cpu : Cpu σ)

/-- Execute an opcode. The program counter points behind it. -/
def executeOpcode (cpu : Cpu σ) (op : Byte) : Cpu σ :=
  let (operands, cpu) := cpu.fetchBytes (Instruction.operandCount op)
  cpu.execute (.ofBytes (op :: operands))

/-- A step takes the opcode and executes it. -/
theorem step_eq_executeOpcode (h : cpu.halted = false) :
    cpu.step = (true, (cpu.jump (cpu.registers.pc + 1)).executeOpcode
      (cpu.memory.read cpu.registers.pc)) :=
  step_of_running h

theorem executeOpcode_of_holds {i : Instruction}
    (h : cpu.memory.Holds cpu.registers.pc i.operandBytes) :
    cpu.executeOpcode i.opcode =
      (cpu.jump (cpu.registers.pc + UInt16.ofNat i.operandBytes.length)).execute i := by
  have hdecode : Instruction.ofBytes (i.opcode :: i.operandBytes) = i := i.ofBytes_encode
  rw [executeOpcode, Instruction.operandCount_opcode, fetchBytes_of_holds h]
  simp only [hdecode]

end Cpu

/-! ## Transfers -/

inductive Transfer
  | jump | call | ret
deriving DecidableEq, Repr

namespace Transfer

/-- The mnemonic of a transfer, with or without a condition. -/
def name : Transfer → Option Condition → List Char
  | jump, none => ['J', 'M', 'P']
  | jump, some c => 'J' :: c.letters
  | call, none => ['C', 'A', 'L', 'L']
  | call, some c => 'C' :: c.letters
  | ret, none => ['R', 'E', 'T']
  | ret, some c => 'R' :: c.letters

/-- The opcode of a transfer. A condition stands in its middle field. -/
def opcode : Transfer → Option Condition → Byte
  | jump, none => 0xC3
  | jump, some c => 0xC2 + 8 * UInt8.ofNat c.code
  | call, none => 0xCD
  | call, some c => 0xC4 + 8 * UInt8.ofNat c.code
  | ret, none => 0xC9
  | ret, some c => 0xC0 + 8 * UInt8.ofNat c.code

def instruction (target : Word) : Transfer → Option Condition → Instruction
  | jump, none => .jmp target
  | jump, some c => .jmpIf c target
  | call, none => .call target
  | call, some c => .callIf c target
  | ret, none => .ret
  | ret, some c => .retIf c

theorem template_name (t : Transfer) (test : Option Condition) :
    (form? (t.name test)).map Form.template = some (t.opcode test) := by
  cases t <;> obtain _ | c := test <;> (try cases c) <;> decide +kernel

theorem opcode_instruction (t : Transfer) (test : Option Condition) (target : Word) :
    (t.instruction target test).opcode = t.opcode test := by
  cases t <;> obtain _ | c := test <;> (try cases c) <;> rfl

/-! ## Execution of transfers -/

/-- Go on behind the operand. -/
def skip (cpu : Cpu σ) : Transfer → Cpu σ
  | jump | call => cpu.jump (cpu.registers.pc + 2)
  | ret => cpu

variable (t : Transfer) (c : Condition) (cpu : Cpu σ)

theorem flags_skip : (t.skip cpu).flags = cpu.flags := by
  cases t <;> rfl

theorem skip_eq_jump (target : Word) (test : Option Condition) :
    t.skip cpu = cpu.jump
      (cpu.registers.pc + UInt16.ofNat (t.instruction target test).operandBytes.length) := by
  have hpc : cpu.registers.pc + UInt16.ofNat 0 = cpu.registers.pc := UInt16.add_zero _
  have hstay : cpu = cpu.jump (cpu.registers.pc + UInt16.ofNat 0) := by
    rw [hpc]
    rfl
  cases t with
  | jump | call => cases test <;> rfl
  | ret => cases test <;> exact hstay

theorem executeOpcode_opcode (test : Option Condition) :
    cpu.executeOpcode (t.opcode test) =
      (t.skip cpu).execute (t.instruction (cpu.memory.readWord cpu.registers.pc) test) := by
  have hword := cpu.memory.holds_readWord cpu.registers.pc
  have hholds : cpu.memory.Holds cpu.registers.pc
      (t.instruction (cpu.memory.readWord cpu.registers.pc) test).operandBytes := by
    cases t with
    | jump | call => cases test <;> exact hword
    | ret => cases test <;> exact fun _ h => absurd h (Nat.not_lt_zero _)
  rw [← t.opcode_instruction test (cpu.memory.readWord cpu.registers.pc), skip_eq_jump]
  exact cpu.executeOpcode_of_holds hholds

theorem execute_instruction_some (target : Word) :
    cpu.execute (t.instruction target (some c)) =
      if c.holds cpu.flags then cpu.execute (t.instruction target none) else cpu := by
  cases t <;> rfl

theorem executeOpcode_some :
    cpu.executeOpcode (t.opcode (some c)) =
      if c.holds cpu.flags then cpu.executeOpcode (t.opcode none) else t.skip cpu := by
  rw [executeOpcode_opcode, execute_instruction_some, flags_skip, ← executeOpcode_opcode]

/-! ## Taken transfers -/

/-- The transfer leads elsewhere than behind its operand. -/
def Diverts : Prop := cpu.executeOpcode (t.opcode none) ≠ t.skip cpu

/-- With the condition, the transfer still does what it does without. -/
def Taken : Prop := cpu.executeOpcode (t.opcode (some c)) = cpu.executeOpcode (t.opcode none)

theorem diverts_jump :
    Diverts .jump cpu ↔
      cpu.memory.readWord cpu.registers.pc ≠ cpu.registers.pc + 2 := by
  rw [Diverts, executeOpcode_opcode]
  refine not_congr ⟨fun h => congrArg (·.registers.pc) h, fun h => ?_⟩
  exact congrArg cpu.jump h

theorem diverts_call : Diverts .call cpu := by
  rw [Diverts, executeOpcode_opcode]
  intro h
  have hsp : cpu.registers.sp - 2 = cpu.registers.sp := congrArg (·.registers.sp) h
  grind

theorem diverts_ret : Diverts .ret cpu := by
  rw [Diverts, executeOpcode_opcode]
  intro h
  have hsp : cpu.registers.sp + 2 = cpu.registers.sp := congrArg (·.registers.sp) h
  grind

variable {t cpu}

theorem taken_iff (h : t.Diverts cpu) : t.Taken c cpu ↔ c.holds cpu.flags = true := by
  rw [Taken, executeOpcode_some]
  cases hholds : c.holds cpu.flags with
  | true => simp
  | false => simpa using h.symm

end Transfer

/-- A step takes an opcode and executes it. From there a conditional transfer does what the
unconditional one does if the flag of its condition has the right value, and only skips its operand
otherwise. Where transfers lead elsewhere than behind their operands, which calls and returns always
do, one condition takes all of them in the same states, and its complement in the others. -/
theorem conditional_transfers :
    (∀ (t : Transfer) (test : Option Condition),
      (form? (t.name test)).map Form.template = some (t.opcode test)) ∧
    (∀ cpu : Cpu σ, cpu.halted = false →
      cpu.step = (true, (cpu.jump (cpu.registers.pc + 1)).executeOpcode
        (cpu.memory.read cpu.registers.pc))) ∧
    ∀ (cpu : Cpu σ) (c : Condition),
      (∀ t : Transfer,
        (cpu.flags.get c.flag = c.value →
          cpu.executeOpcode (t.opcode (some c)) = cpu.executeOpcode (t.opcode none)) ∧
        (cpu.flags.get c.flag ≠ c.value →
          cpu.executeOpcode (t.opcode (some c)) = t.skip cpu)) ∧
      (∀ t u : Transfer, t.Diverts cpu → u.Diverts cpu →
        (t.Taken c cpu ↔ u.Taken c cpu) ∧ (t.Taken c cpu ↔ ¬u.Taken c.complement cpu)) ∧
      (Transfer.Diverts .jump cpu ↔
        cpu.memory.readWord cpu.registers.pc ≠ cpu.registers.pc + 2) ∧
      Transfer.Diverts .call cpu ∧ Transfer.Diverts .ret cpu := by
  refine ⟨Transfer.template_name, Cpu.step_eq_executeOpcode, ?_⟩
  intro cpu c
  refine ⟨?_, ?_, Transfer.diverts_jump cpu, Transfer.diverts_call cpu, Transfer.diverts_ret cpu⟩
  · intro t
    rw [Transfer.executeOpcode_some]
    exact ⟨fun h => if_pos ((c.holds_iff _).2 h), fun h => if_neg (mt (c.holds_iff _).1 h)⟩
  · intro t u ht hu
    rw [Transfer.taken_iff c ht, Transfer.taken_iff c hu, Transfer.taken_iff _ hu,
      Condition.holds_complement]
    simp

/-- With a clear zero flag a step over `CNZ 1234h` is a call and one over `CZ 1234h` is not, and the
returns go the same ways. -/
theorem conditional_transfers_of_clear_zero :
    let cpu : Cpu Unit := ((Cpu.new ()).load [0xC4, 0x34, 0x12] 0).2
    let fetched := cpu.jump 1
    cpu.step = (true, fetched.executeOpcode 0xCD) ∧ fetched.executeOpcode 0xCC = cpu.jump 3 ∧
      Transfer.Taken .ret .notZero fetched ∧ ¬Transfer.Taken .ret .zero fetched := by
  intro cpu fetched
  have hop : cpu.memory.read 0 = 0xC4 := (Memory.holds_load (by decide)).head
  have hstep : cpu.step = (true, fetched.executeOpcode 0xC4) := by
    rw [← hop]
    exact conditional_transfers.2.1 cpu rfl
  obtain ⟨hclear, htaken, -, hcall, hret⟩ := conditional_transfers.2.2 fetched .notZero
  obtain ⟨hset, -⟩ := conditional_transfers.2.2 fetched .zero
  have hcnz : Transfer.Taken .call .notZero fetched := (hclear .call).1 rfl
  refine ⟨hstep.trans (congrArg _ hcnz), (hset .call).2 (by decide), ?_, ?_⟩
  · exact (htaken .call .ret hcall hret).1.1 hcnz
  · exact (htaken .call .ret hcall hret).2.1 hcnz

end Banked8085
