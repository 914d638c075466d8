import Banked8085.Proofs.Execution.Halting
import Banked8085.Proofs.Execution.Images
import Banked8085.Proofs.Execution.Opcodes
import Banked8085.Proofs.Execution.Stores

/-! # Halted processors

`Cpu.Action` is anything that can be done to a processor, loading files included. Only a step that
meets the opcode 0x76 halts a processor, and only a reset starts it again (`halted_act_iff`); after any
actions the processor is halted just if such a step is among them and no reset comes after it
(`halted_actAll_iff`).
-/

namespace Banked8085
set_option autoImplicit false

variable {σ : Type}

namespace Cpu

/-! ## Actions -/

/-- All that can be done to a processor: a command, or loading a file into the active bank. -/
inductive Action (σ : Type)
  | command (command : Command σ)
  | loadFile (files : FileReader) (path : String) (start : Word)

def act (cpu : Cpu σ) : Action σ → Cpu σ
  | .command command => cpu.perform command
  | .loadFile files path start => (cpu.loadFile files path start).2

def actAll (cpu : Cpu σ) (actions : List (Action σ)) : Cpu σ := actions.foldl act cpu

theorem actAll_append (cpu : Cpu σ) (before after : List (Action σ)) :
    cpu.actAll (before ++ after) = (cpu.actAll before).actAll after :=
  List.foldl_append

theorem actAll_concat (cpu : Cpu σ) (actions : List (Action σ)) (action : Action σ) :
    cpu.actAll (actions ++ [action]) = (cpu.actAll actions).act action :=
  cpu.actAll_append actions [action]

/-- The opcode that the next step fetches. -/
def nextOpcode (cpu : Cpu σ) : Byte := cpu.memory.read cpu.registers.pc

variable {cpu : Cpu σ}

/-! ## Steps -/

theorem instruction_eq_hlt_iff : cpu.instruction = .hlt ↔ cpu.nextOpcode = 0x76 := by
  obtain ⟨rest, hbytes, hlength⟩ := cpu.exists_nextBytes_eq
  rw [cpu.instruction_eq_iff (by simp), hbytes]
  constructor
  · intro h
    exact (List.cons.inj h).1
  · intro h
    have hopcode : cpu.memory.read cpu.registers.pc = 0x76 := h
    rw [hopcode] at hlength ⊢
    rw [List.length_eq_zero_iff.1 hlength]
    rfl

theorem halted_execute (cpu : Cpu σ) (i : Instruction) :
    (cpu.execute i).halted = true ↔ cpu.halted = true ∨ i = .hlt := by
  cases i with
  | hlt => exact iff_of_true rfl (.inr rfl)
  | mov target _ _ | mvi target _ | inr target | dcr target => cases target <;> simp [execute, set]
  | pop target => cases target <;> simp [execute, setStackPair, dropWord]
  | jmpIf | callIf | retIf =>
    simp only [execute]
    split <;> simp [jump, enter, leave, pushWord, dropWord]
  | output port =>
    simp only [execute, writePort]
    split <;> simp
  | _ => simp [execute, set, setWide, setResult, jump, enter, leave, pushWord, dropWord, readPort]

theorem halted_step_iff : cpu.next.halted = true ↔ cpu.halted = true ∨ cpu.nextOpcode = 0x76 := by
  cases hhalted : cpu.halted with
  | true => simp [hhalted]
  | false =>
    rw [next_eq_execute hhalted, halted_execute, instruction_eq_hlt_iff]
    show cpu.halted = true ∨ _ ↔ _
    rw [hhalted]

/-- A halted processor executes nothing, however many steps it is asked for. -/
theorem run_of_halted (h : cpu.halted = true) (n : Nat) : cpu.run n = (0, cpu) := by
  refine run_eq ?_
  rw [haltingTime_of_halted h]
  simp

/-! ## All actions -/

theorem halted_loadFile (files : FileReader) (path : String) (start : Word) :
    (cpu.loadFile files path start).2.halted = cpu.halted := by
  cases hread : readImage files .program path with
  | error cause => rw [loadFile_of_error hread]
  | ok image =>
    rw [loadFile_of_ok hread]
    rfl

/-- Only a step can halt a processor, and only a reset can start it again. -/
theorem halted_act_iff {action : Action σ} :
    (cpu.act action).halted = true ↔ action ≠ .command .reset ∧
      (cpu.halted = true ∨ action = .command .step ∧ cpu.nextOpcode = 0x76) := by
  cases action with
  | loadFile files path start => simp [act, halted_loadFile]
  | command command =>
    cases command with
    | step => simp [act, perform, halted_step_iff]
    | reset => simp [act, perform, reset]
    | _ => simp [act, perform, load, loadProgram]

/-- Nothing but a reset ends the halt. -/
theorem halted_actAll (h : cpu.halted = true) {actions : List (Action σ)}
    (hnone : .command .reset ∉ actions) : (cpu.actAll actions).halted = true := by
  induction actions generalizing cpu with
  | nil => exact h
  | cons action rest ih =>
    rw [List.mem_cons, not_or] at hnone
    have hnext : (cpu.act action).halted = true :=
      halted_act_iff.2 ⟨fun heq => hnone.1 heq.symm, .inl h⟩
    exact ih hnext hnone.2

/-- A step meets the opcode 0x76 after the actions before it, and no reset is among those after it. -/
def HaltsIn (cpu : Cpu σ) (actions : List (Action σ)) : Prop :=
  ∃ before after, actions = before ++ .command .step :: after ∧
    (cpu.actAll before).halted = false ∧ (cpu.actAll before).nextOpcode = 0x76 ∧
    .command .reset ∉ after

theorem HaltsIn.concat {actions : List (Action σ)} {action : Action σ} (h : cpu.HaltsIn actions)
    (haction : action ≠ .command .reset) : cpu.HaltsIn (actions ++ [action]) := by
  obtain ⟨before, after, rfl, hrunning, hopcode, hnone⟩ := h
  refine ⟨before, after ++ [action], by simp, hrunning, hopcode, ?_⟩
  rw [List.mem_append, List.mem_singleton, not_or]
  exact ⟨hnone, haction.symm⟩

theorem halted_of_haltsIn {actions : List (Action σ)} (h : cpu.HaltsIn actions) :
    (cpu.actAll actions).halted = true := by
  obtain ⟨before, after, rfl, -, hopcode, hnone⟩ := h
  rw [actAll_append]
  exact halted_actAll (halted_step_iff.2 (.inr hopcode)) hnone

/-- A processor that was running is halted after some actions just if one of them has halted it and
none has reset it since. -/
theorem halted_actAll_iff (hrunning : cpu.halted = false) (actions : List (Action σ)) :
    (cpu.actAll actions).halted = true ↔ cpu.HaltsIn actions := by
  refine ⟨fun h => ?_, halted_of_haltsIn⟩
  induction actions using List.reverseRecOn with
  | nil =>
    have hstart : cpu.halted = true := h
    simp [hrunning] at hstart
  | append_singleton actions action ih =>
    rw [actAll_concat] at h
    obtain ⟨haction, hcause⟩ := halted_act_iff.1 h
    cases hbefore : (cpu.actAll actions).halted with
    | true => exact (ih hbefore).concat haction
    | false =>
      rcases hcause with hhalted | ⟨rfl, hopcode⟩
      · simp [hbefore] at hhalted
      · exact ⟨actions, [], rfl, hbefore, hopcode, List.not_mem_nil⟩

end Cpu
end Banked8085
