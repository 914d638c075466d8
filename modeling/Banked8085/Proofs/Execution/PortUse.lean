import Banked8085.Proofs.Execution.Fetch

/-! # Ports during execution

How an instruction changes the ports (`Instruction.portsAfter`, `ports_step`), which is by calls of
their handlers only (`used_step`). What lies behind the ports matters to an instruction only through
the byte that it reads from a port: a processor that is attached to other ports (`Cpu.rewire`) does
the same as long as these give the same bytes (`step_rewire`).
-/

namespace Banked8085
set_option autoImplicit false

variable {σ ρ : Type}

/-! ## Handlers in use -/

/-- The second ports come from the first ones by calls of the handlers. -/
inductive Ports.Used {σ : Type} (ports : Ports σ) : Ports σ → Prop
  | refl : Used ports ports
  | read {next : Ports σ} (port : Byte) : Used ports next → Used ports (next.read port).2
  | write {next : Ports σ} (port value : Byte) : Used ports next →
    Used ports (next.write port value)

theorem Ports.Used.handlers_eq {ports next : Ports σ} (h : ports.Used next) :
    next.onRead = ports.onRead ∧ next.onWrite = ports.onWrite := by
  induction h with
  | refl => exact ⟨rfl, rfl⟩
  | read port _ ih => rw [onRead_read, onWrite_read]; exact ih
  | write port value _ ih => rw [onRead_write, onWrite_write]; exact ih

/-- How the ports change when an instruction is executed. -/
def Instruction.portsAfter {σ : Type} (cpu : Cpu σ) : Instruction → Ports σ
  | .input port => (cpu.ports.read port).2
  | .output port =>
    if port = Ports.bankSelect then cpu.ports else cpu.ports.write port cpu.registers.a
  | _ => cpu.ports

namespace Cpu
variable {cpu : Cpu σ}

theorem ports_execute (cpu : Cpu σ) (i : Instruction) :
    (cpu.execute i).ports = i.portsAfter cpu := by
  cases i with
  | output port =>
    simp only [execute, writePort, Instruction.portsAfter]
    split <;> rfl
  | mov target _ _ | mvi target _ | inr target | dcr target => cases target <;> rfl
  | pop target => cases target <;> rfl
  | jmpIf | callIf | retIf =>
    simp only [execute]
    split <;> rfl
  | _ => rfl

theorem portsAfter_jump (cpu : Cpu σ) (target : Word) (i : Instruction) :
    i.portsAfter (cpu.jump target) = i.portsAfter cpu := by
  cases i <;> rfl

theorem ports_step (h : cpu.halted = false) : cpu.next.ports = cpu.instruction.portsAfter cpu := by
  rw [next_eq_execute h, ports_execute, portsAfter_jump]

/-- The accumulator takes what a port gives. -/
theorem a_step_of_input (h : cpu.halted = false) {port : Byte}
    (hinput : cpu.instruction = .input port) :
    cpu.next.registers.a = (cpu.ports.read port).1 := by
  rw [next_eq_execute h, hinput]
  rfl

theorem used_step (cpu : Cpu σ) : cpu.ports.Used cpu.next.ports := by
  cases hhalted : cpu.halted with
  | true =>
    rw [next_of_halted hhalted]
    exact .refl
  | false =>
    rw [ports_step hhalted]
    cases cpu.instruction with
    | input port => exact .read port .refl
    | output port =>
      rw [Instruction.portsAfter]
      split
      · exact .refl
      · exact .write port _ .refl
    | _ => exact .refl

/-! ## Other ports -/

/-- The same processor at other ports. -/
def rewire (cpu : Cpu σ) (ports : Ports ρ) : Cpu ρ where
  registers := cpu.registers
  flags := cpu.flags
  memory := cpu.memory
  ports := ports
  halted := cpu.halted
  interruptsEnabled := cpu.interruptsEnabled

section Rewire
variable (cpu : Cpu σ) (ports : Ports ρ)

theorem get_rewire (source : Location) : (cpu.rewire ports).get source = cpu.get source := by
  cases source <;> rfl

theorem set_rewire (target : Location) (value : Byte) :
    (cpu.rewire ports).set target value = (cpu.set target value).rewire ports := by
  cases target <;> rfl

theorem setStackPair_rewire (target : StackPair) (value : Word) :
    (cpu.rewire ports).setStackPair target value =
      (cpu.setStackPair target value).rewire ports := by
  cases target <;> rfl

/-- An instruction that gets the same byte from both ports, if it reads a port, does the same to
everything but the ports. -/
theorem execute_rewire {i : Instruction}
    (hread : ∀ port, i = .input port → (ports.read port).1 = (cpu.ports.read port).1) :
    (cpu.rewire ports).execute i = (cpu.execute i).rewire (i.portsAfter (cpu.rewire ports)) := by
  cases i with
  | input port =>
    simp only [execute, readPort, rewire, hread port rfl]
    rfl
  | output port =>
    by_cases hport : port = Ports.bankSelect
    · simp only [execute, writePort, Instruction.portsAfter, if_pos hport]
      rfl
    · simp only [execute, writePort, Instruction.portsAfter, if_neg hport]
      rfl
  | mov target source h => simp only [execute, get_rewire, set_rewire]; rfl
  | mvi target value => exact cpu.set_rewire ports target value
  | alu op source => simp only [execute, get_rewire]; rfl
  | inr target => simp only [execute, get_rewire, set_rewire]; rfl
  | dcr target => simp only [execute, get_rewire, set_rewire]; rfl
  | jmpIf condition target | callIf condition target | retIf condition =>
    simp only [execute]
    show (if condition.holds cpu.flags then _ else _) =
      (if condition.holds cpu.flags then _ else _ : Cpu σ).rewire ports
    by_cases hholds : condition.holds cpu.flags
    · rw [if_pos hholds, if_pos hholds]
      rfl
    · rw [if_neg hholds, if_neg hholds]
  | pop target =>
    simp only [execute]
    exact setStackPair_rewire cpu.dropWord ports target cpu.top
  | push source => cases source <;> rfl
  | _ => rfl

theorem step_rewire (h : cpu.halted = false)
    (hread : ∀ port, cpu.instruction = .input port →
      (ports.read port).1 = (cpu.ports.read port).1) :
    (cpu.rewire ports).next =
      cpu.next.rewire (cpu.instruction.portsAfter (cpu.rewire ports)) := by
  have hrewired : (cpu.rewire ports).halted = false := h
  have hnext := execute_rewire (cpu.jump (cpu.registers.pc + UInt16.ofNat cpu.nextBytes.length))
    ports hread
  rw [next_eq_execute h, next_eq_execute hrewired,
    ← portsAfter_jump _ (cpu.registers.pc + UInt16.ofNat cpu.nextBytes.length)]
  exact hnext

end Rewire
end Cpu
end Banked8085
