import Banked8085.Proofs.Assembler.Build
import Banked8085.Proofs.Execution.FlagUse
import Banked8085.Proofs.Execution.Operand

/-! # Where execution continues

`Flow.ofName` reads off the letters of a mnemonic whether its instruction jumps, calls or returns,
and under which test. A condition is met by one value of one flag (`Condition.holds_iff`), and words
on the stack are taken from their two cells. `step_follows_flow`: a step over the bytes that the
assembler makes of the mnemonic does just that, and goes on behind the bytes otherwise.
-/

namespace Banked8085
set_option autoImplicit false

open Assembler

/-! ## Conditions -/

namespace Condition

/-- The flag that a condition tests. -/
def flag : Condition → Flag
  | .notZero | .zero => .zero
  | .noCarry | .carry => .carry
  | .parityOdd | .parityEven => .parity
  | .plus | .minus => .sign

/-- The value of the flag that meets the condition. -/
def value : Condition → Bool
  | .zero | .carry | .parityEven | .minus => true
  | .notZero | .noCarry | .parityOdd | .plus => false

theorem holds_iff (c : Condition) (flags : Flags) :
    c.holds flags = true ↔ flags.get c.flag = c.value := by
  cases c <;> simp [holds, Flags.get, flag, value]

end Condition

/-! ## The flow of a mnemonic -/

/-- The ways in which an instruction can go on, with the tests of the conditional ones. -/
inductive Flow
  | next
  | jump (test : Option Condition)
  | call (test : Option Condition)
  | ret (test : Option Condition)
  | restart
  | indirect
deriving DecidableEq, Repr

namespace Flow

def testNamed : List Char → Option Condition
  | ['N', 'Z'] => some .notZero
  | ['Z'] => some .zero
  | ['N', 'C'] => some .noCarry
  | ['C'] => some .carry
  | ['P', 'O'] => some .parityOdd
  | ['P', 'E'] => some .parityEven
  | ['P'] => some .plus
  | ['M'] => some .minus
  | _ => none

def conditional (make : Option Condition → Flow) (letters : List Char) : Flow :=
  match testNamed letters with
  | some test => make (some test)
  | none => next

def ofName : List Char → Flow
  | ['J', 'M', 'P'] => jump none
  | ['C', 'A', 'L', 'L'] => call none
  | ['R', 'E', 'T'] => ret none
  | ['R', 'S', 'T'] => restart
  | ['P', 'C', 'H', 'L'] => indirect
  | 'J' :: letters => conditional jump letters
  | 'C' :: letters => conditional call letters
  | 'R' :: letters => conditional ret letters
  | _ => next

/-- There is no test, or its flag has the value that it asks for. -/
def Taken (flags : Flags) : Option Condition → Prop
  | none => True
  | some test => flags.get test.flag = test.value

instance (flags : Flags) (test : Option Condition) : Decidable (Taken flags test) :=
  match test with
  | none => isTrue trivial
  | some test => inferInstanceAs (Decidable (flags.get test.flag = test.value))

variable {σ : Type}

/-- The only operand has this value. -/
def HasOperand (symbols : SymbolTable) (operands : List (List Char)) (value : Nat) : Prop :=
  ∃ text, operands = [text] ∧ readNumber symbols text = .ok value

/-- The stack has grown by this word, whose low byte is at the new top. -/
structure Pushed (word : Word) (before after : Cpu σ) : Prop where
  sp : after.registers.sp = before.registers.sp - 2
  low : Operand.cell after (before.registers.sp - 2) = Operand.lower word
  high : Operand.cell after (before.registers.sp - 1) = Operand.upper word

/-- A step over an instruction with this flow: `next` is the address behind the instruction. -/
def Follows (symbols : SymbolTable) (operands : List (List Char)) (next : Word)
    (before after : Cpu σ) : Flow → Prop
  | .next => after.registers.pc = next
  | jump test =>
    if Taken before.flags test then HasOperand symbols operands after.registers.pc.toNat
    else after.registers.pc = next
  | call test =>
    if Taken before.flags test then
      HasOperand symbols operands after.registers.pc.toNat ∧ Pushed next before after
    else after.registers.pc = next
  | ret test =>
    if Taken before.flags test then
      after.registers.pc = Operand.cells before before.registers.sp
    else after.registers.pc = next
  | restart =>
    (∃ n < 8, HasOperand symbols operands n ∧ after.registers.pc.toNat = 8 * n) ∧
      Pushed next before after
  | indirect => after.registers.pc = Operand.word before.registers.h before.registers.l

end Flow

/-! ## The flow of an instruction -/

namespace Instruction

def flow : Instruction → Flow
  | jmp _ => .jump none
  | jmpIf test _ => .jump (some test)
  | call _ => .call none
  | callIf test _ => .call (some test)
  | ret => .ret none
  | retIf test => .ret (some test)
  | rst _ => .restart
  | pchl => .indirect
  | _ => .next

/-- The operand that says where a jump, a call or a restart leads. -/
def target? : Instruction → Option Nat
  | jmp w | jmpIf _ w | call w | callIf _ w => some w.toNat
  | rst n => some n.val
  | _ => none

end Instruction

namespace Assembler
variable {mnemonic : List Char} {symbols : SymbolTable} {operands : List (List Char)}
  {i : Instruction}

def Form.flow : Form → Flow
  | implied i => i.flow
  | address make => (make 0).flow
  | restart => .restart
  | _ => .next

theorem all_flow : ∀ entry ∈ mnemonics, entry.2.All (·.flow = entry.2.flow) := by
  simp only [mnemonics, List.forall_mem_cons, Form.All, List.not_mem_nil, false_implies,
    implies_true, and_true]
  repeat' apply And.intro
  all_goals
    intros
    rfl

theorem flow_of_mem : ∀ entry ∈ mnemonics, entry.2.flow = Flow.ofName entry.1.toList := by
  decide +kernel

theorem flow_of_build {form : Form} (hform : form? mnemonic = some form)
    (h : form.build mnemonic operands symbols = .ok i) : i.flow = Flow.ofName mnemonic := by
  have hmem := mem_of_form hform
  have hflow : i.flow = form.flow := (all_flow _ hmem).of_build h
  have hname := flow_of_mem _ hmem
  rw [String.toList_ofList] at hname
  rw [hflow, hname]

/-- The targets of a form are operands. -/
def Form.Targets : Form → Prop
  | address make => ∀ w, (make w).target? = none ∨ (make w).target? = some w.toNat
  | restart => True
  | form => form.All (·.target? = none)

theorem all_targets : ∀ entry ∈ mnemonics, entry.2.Targets := by
  simp only [mnemonics, List.forall_mem_cons, Form.Targets, Form.All, List.not_mem_nil,
    false_implies, implies_true, and_true]
  repeat' apply And.intro
  all_goals
    intros
    first
    | rfl
    | exact .inl rfl
    | exact .inr rfl

theorem operand_of_build {form : Form} {n : Nat} (htargets : form.Targets)
    (h : form.build mnemonic operands symbols = .ok i) (htarget : i.target? = some n) :
    Flow.HasOperand symbols operands n := by
  cases form with
  | address make =>
    obtain ⟨text, w, hoperands, hword, rfl⟩ := build_address.1 h
    refine ⟨text, hoperands, ?_⟩
    rcases htargets w with hnone | hsome
    · rw [htarget] at hnone
      cases hnone
    · rw [htarget] at hsome
      rw [readWord_eq_ok.1 hword, Option.some.inj hsome]
  | restart =>
    obtain ⟨text, vector, hoperands, hbyte, hlt, rfl⟩ := build_restart.1 h
    have hn : vector.toNat = n := Option.some.inj htarget
    exact ⟨text, hoperands, hn ▸ readByte_eq_ok.1 hbyte⟩
  | _ =>
    have hnone : i.target? = none := by
      apply Form.All.of_build (P := (·.target? = none)) _ h
      exact htargets
    rw [htarget] at hnone
    cases hnone

end Assembler

/-! ## Execution -/

namespace Cpu
variable {σ : Type} (cpu : Cpu σ)

@[simp] theorem pc_set (l : Location) (value : Byte) :
    (cpu.set l value).registers.pc = cpu.registers.pc := by
  cases l with
  | register r => exact cpu.registers.pc_set r value
  | memory => rfl

@[simp] theorem pc_setWide (p : WidePair) (value : Word) :
    (cpu.setWide p value).registers.pc = cpu.registers.pc := by
  cases p with
  | pair p => exact cpu.registers.pc_setPair p value
  | sp => rfl

@[simp] theorem pc_setStackPair (p : StackPair) (value : Word) :
    (cpu.setStackPair p value).registers.pc = cpu.registers.pc := by
  cases p with
  | pair p => exact cpu.registers.pc_setPair p value
  | psw => rfl

@[simp] theorem pc_writePort (port : Byte) :
    (cpu.writePort port).registers.pc = cpu.registers.pc := by
  unfold writePort
  split
  · rfl
  · rfl

theorem pc_execute {i : Instruction} (h : i.flow = .next) :
    (cpu.execute i).registers.pc = cpu.registers.pc := by
  cases i with
  | jmp | jmpIf | call | callIf | ret | retIf | rst | pchl => cases h
  | output port => exact cpu.pc_writePort port
  | _ => simp [execute, setResult, pushWord, dropWord, readPort]

theorem pushed_enter (next target : Word) :
    Flow.Pushed next cpu ((cpu.jump next).enter target) := by
  have hupper : cpu.registers.sp - 2 + 1 = cpu.registers.sp - 1 := by grind
  have hne : cpu.registers.sp - 1 ≠ cpu.registers.sp - 2 := hupper ▸ Memory.succ_ne _
  refine ⟨rfl, ?_, ?_⟩
  · show (cpu.memory.writeWord (cpu.registers.sp - 2) next).read _ = _
    rw [Memory.writeWord, hupper, Memory.read_write, if_neg hne, Memory.read_write, if_pos rfl,
      Operand.lower_eq]
  · show (cpu.memory.writeWord (cpu.registers.sp - 2) next).read _ = _
    rw [Memory.writeWord, hupper, Memory.read_write, if_pos rfl]
    rfl

/-- What has two ways to go on takes the first one in just the states that the flow names. -/
theorem follows_test {P Q : Cpu σ → Prop} (test : Condition) {taken next : Cpu σ}
    (htaken : P taken) (hnext : Q next) :
    if Flow.Taken cpu.flags (some test) then P (if test.holds cpu.flags then taken else next)
    else Q (if test.holds cpu.flags then taken else next) := by
  by_cases h : Flow.Taken cpu.flags (some test)
  · rw [if_pos h, if_pos ((test.holds_iff _).2 h)]
    exact htaken
  · rw [if_neg h, if_neg (mt (test.holds_iff _).1 h)]
    exact hnext

variable {symbols : SymbolTable} {operands : List (List Char)}

/-- Behind its bytes, an instruction goes on as its flow says. -/
theorem follows_execute {i : Instruction} (next : Word)
    (htarget : ∀ n, i.target? = some n → Flow.HasOperand symbols operands n) :
    i.flow.Follows symbols operands next cpu ((cpu.jump next).execute i) := by
  cases i with
  | jmp w => exact htarget _ rfl
  | jmpIf test w =>
    exact cpu.follows_test (Q := (·.registers.pc = next)) test
      (P := (Flow.HasOperand symbols operands ·.registers.pc.toNat)) (htarget _ rfl) rfl
  | call w => exact ⟨htarget _ rfl, cpu.pushed_enter next w⟩
  | callIf test w =>
    exact cpu.follows_test (Q := (·.registers.pc = next)) test
      (P := fun after => Flow.HasOperand symbols operands after.registers.pc.toNat ∧
        Flow.Pushed next cpu after) ⟨htarget _ rfl, cpu.pushed_enter next w⟩ rfl
  | ret => rfl
  | retIf test =>
    exact cpu.follows_test (Q := (·.registers.pc = next)) test
      (P := (·.registers.pc = Operand.cells cpu cpu.registers.sp)) rfl rfl
  | rst n =>
    have hpc : (UInt16.ofNat (8 * n.val)).toNat = 8 * n.val := by
      rw [UInt16.toNat_ofNat']
      omega
    exact ⟨⟨n.val, n.isLt, htarget _ rfl, hpc⟩, cpu.pushed_enter next _⟩
  | pchl => rfl
  | _ => exact pc_execute (cpu.jump next) rfl

variable {cpu}

/-- A step over assembled bytes fetches all of them and no more, and continues where the letters of
the mnemonic say. -/
theorem step_follows_flow {mnemonic : List Char} {bytes : List Byte}
    (hemit : emitInstruction symbols mnemonic operands = .ok bytes)
    (hrunning : cpu.halted = false) (hholds : cpu.memory.Holds cpu.registers.pc bytes) :
    let next := cpu.registers.pc + UInt16.ofNat bytes.length
    cpu.fetch = (bytes, cpu.jump next) ∧
      ∃ after, cpu.step = (true, after) ∧ after = (cpu.jump next).execute (.ofBytes bytes) ∧
        (Flow.ofName mnemonic).Follows symbols operands next cpu after := by
  intro next
  obtain ⟨form, i, hform, hbuild, rfl⟩ := emitInstruction_eq_ok.1 hemit
  have hstep : cpu.step = (true, (cpu.jump next).execute i) := by
    rw [step_of_running hrunning, ← next_of_running hrunning, next_of_holds hrunning hholds]
  have htargets := all_targets _ (mem_of_form hform)
  refine ⟨fetch_of_holds hholds, _, hstep, ?_, ?_⟩
  · rw [Instruction.ofBytes_encode]
  · rw [← flow_of_build hform hbuild]
    exact cpu.follows_execute next fun n hn => operand_of_build htargets hbuild hn

/-- A processor with a program at address `0100h`, and these flags. -/
def programmed (bytes : List Byte) (flags : Flags) : Cpu Unit :=
  { ((Cpu.new ()).loadProgram bytes 0x0100).2 with flags }

theorem holds_programmed {bytes : List Byte} (hbytes : bytes.length ≤ 65280) (flags : Flags) :
    (programmed bytes flags).memory.Holds (programmed bytes flags).registers.pc bytes := by
  have haddress : (0x0100 : Word).toNat = 256 := rfl
  exact Memory.holds_load (by omega)

/-- A call, a conditional jump that is taken and a conditional return that is not. -/
theorem step_follows_flow_transfers :
    emitInstruction {} "CALL".toList ["2000h".toList] = .ok [0xCD, 0x00, 0x20] ∧
      emitInstruction {} "JZ".toList ["2000h".toList] = .ok [0xCA, 0x00, 0x20] ∧
      emitInstruction {} "RZ".toList [] = .ok [0xC8] ∧
      (programmed [0xCD, 0x00, 0x20] {}).next.registers.pc.toNat = 0x2000 ∧
      Operand.cell (programmed [0xCD, 0x00, 0x20] {}).next 0xFFFD = 0x03 ∧
      Operand.cell (programmed [0xCD, 0x00, 0x20] {}).next 0xFFFE = 0x01 ∧
      (programmed [0xCA, 0x00, 0x20] { zero := true }).next.registers.pc.toNat = 0x2000 ∧
      (programmed [0xC8] {}).next.registers.pc = 0x0101 := by
  have hcall : emitInstruction {} "CALL".toList ["2000h".toList] = .ok [0xCD, 0x00, 0x20] := by
    decide +kernel
  have hjump : emitInstruction {} "JZ".toList ["2000h".toList] = .ok [0xCA, 0x00, 0x20] := by
    decide +kernel
  have hret : emitInstruction {} "RZ".toList [] = .ok [0xC8] := by decide +kernel
  have hvalue : readNumber {} "2000h".toList = .ok 0x2000 := by decide +kernel
  have hoperand : ∀ n, Flow.HasOperand {} ["2000h".toList] n → n = 0x2000 := by
    rintro n ⟨text, htext, hread⟩
    cases htext
    exact (Except.ok.inj (hvalue.symm.trans hread)).symm
  obtain ⟨-, called, hcalled, -, hcallFlow⟩ :=
    step_follows_flow hcall rfl (holds_programmed (by decide) {})
  obtain ⟨-, jumped, hjumped, -, hjumpFlow⟩ :=
    step_follows_flow hjump rfl (holds_programmed (by decide) { zero := true })
  obtain ⟨-, skipped, hskipped, -, hretFlow⟩ :=
    step_follows_flow hret rfl (holds_programmed (by decide) {})
  have htaken : Flow.Taken { zero := true } (some .zero) := rfl
  have hnot : ¬Flow.Taken {} (some .zero) := Bool.false_ne_true
  rw [show Flow.ofName "CALL".toList = .call none by decide +kernel] at hcallFlow
  rw [show Flow.ofName "JZ".toList = .jump (some .zero) by decide +kernel, Flow.Follows,
    show (programmed [0xCA, 0x00, 0x20] { zero := true }).flags = { zero := true } from rfl,
    if_pos htaken] at hjumpFlow
  rw [show Flow.ofName "RZ".toList = .ret (some .zero) by decide +kernel, Flow.Follows,
    show (programmed [0xC8] {}).flags = {} from rfl, if_neg hnot] at hretFlow
  obtain ⟨htarget, hpushed⟩ := hcallFlow
  simp only [next, hcalled, hjumped, hskipped]
  exact ⟨hcall, hjump, hret, hoperand _ htarget, hpushed.low, hpushed.high, hoperand _ hjumpFlow,
    hretFlow⟩

end Cpu
end Banked8085
