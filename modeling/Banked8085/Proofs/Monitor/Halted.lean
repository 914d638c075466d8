import Banked8085.Proofs.Execution.Halted
import Banked8085.Proofs.Monitor.Conservation
import Banked8085.Proofs.Monitor.Loading

/-! # Halted machines

A machine whose processor is halted executes nothing and prints nothing, whatever images it loads and
however often it is run (`Idle`, `exists_performAll_idle`). With what `Cpu.halted_actAll_iff` says of
the processor alone, only a reset gets it to work again (`halt_lasts_until_reset`).
-/

namespace Banked8085.Monitor
set_option autoImplicit false

/-- The number of instructions that an operation reports as executed. -/
def Answer.executed : Answer → ℕ
  | .stepped executed => executed.toNat
  | .sliced executed => executed.toNat
  | .finished outcome => outcome.steps.toNat
  | _ => 0

namespace Machine

/-- With these answers a machine has got from one state to another, where it is halted, and in the
meantime it has executed nothing and printed nothing: what was taken, followed by what waits to be
taken, is what waited before. -/
structure Idle {τ : Type} (machine : Machine τ) (answers : List Answer) (next : Machine τ) :
    Prop where
  halted : next.cpu.halted = true
  totalSteps : next.totalSteps = machine.totalSteps
  executed : ∀ answer ∈ answers, answer.executed = 0
  output : (answers.flatMap Answer.takenBytes).flatten ++ next.cpu.console.output.toList =
    machine.cpu.console.output.toList

variable {τ : Type} {machine middle next : Machine τ} {answer : Answer} {answers : List Answer}

/-! ## Idle machines -/

theorem idle_refl (h : machine.cpu.halted = true) : machine.Idle [] machine where
  halted := h
  totalSteps := rfl
  executed := List.forall_mem_nil _
  output := rfl

theorem Idle.cons (hfirst : machine.Idle [answer] middle) (hrest : middle.Idle answers next) :
    machine.Idle (answer :: answers) next where
  halted := hrest.halted
  totalSteps := hrest.totalSteps.trans hfirst.totalSteps
  executed :=
    List.forall_mem_cons.2 ⟨hfirst.executed _ (List.mem_singleton_self _), hrest.executed⟩
  output := by
    have hsplit := hfirst.output
    rw [← hrest.output, ← List.append_assoc, ← List.flatten_append, ← List.flatMap_append] at hsplit
    exact hsplit

theorem idle_of_eq (h : machine.cpu.halted = true)
    (hhalted : next.cpu.halted = machine.cpu.halted)
    (htotal : next.totalSteps = machine.totalSteps)
    (houtput : next.cpu.console.output = machine.cpu.console.output)
    (hexecuted : answer.executed = 0) (htaken : answer.takenBytes = []) :
    machine.Idle [answer] next where
  halted := hhalted.trans h
  totalSteps := htotal
  executed := List.forall_mem_singleton.2 hexecuted
  output := by
    rw [List.flatMap_singleton, htaken, houtput]
    rfl

/-! ## Runs -/

theorem runSlice_of_halted (h : machine.cpu.halted = true) : machine.runSlice = (0, machine) := by
  obtain ⟨executed, hrun, hcount⟩ := machine.exists_runSlice_eq
  rw [Cpu.haltingTime_of_halted h] at hcount
  have hzero : executed.toNat = 0 := by simpa using hcount
  rw [hrun, hzero, after_zero, UInt32.toNat_inj.1 (hzero.trans UInt32.toNat_zero.symm)]

theorem run_of_halted (h : machine.cpu.halted = true) : machine.run = some (⟨0, true⟩, machine) :=
  runFrom_of_halted 0 h

/-! ## Operations -/

theorem idle_push (h : machine.cpu.halted = true) (bytes : List Byte) :
    machine.Idle [.done] (machine.push bytes) :=
  idle_of_eq h rfl rfl rfl rfl rfl

theorem idle_take (h : machine.cpu.halted = true) :
    machine.Idle [.taken machine.take.1] machine.take.2 where
  halted := h
  totalSteps := rfl
  executed := List.forall_mem_singleton.2 rfl
  output := by
    have htaken : machine.take.1 = machine.cpu.console.output.toList := rfl
    have hempty : machine.take.2.cpu.console.output.toList = [] := rfl
    rw [hempty, List.append_nil, ← htaken]
    simp [Answer.takenBytes]

/-- Loading an image, whether it succeeds or not, gets nothing to run. -/
theorem idle_of_kept (h : machine.cpu.halted = true) (hkept : Kept machine next)
    (result : Except ImageError ℕ) : machine.Idle [.loaded result] next := by
  have houtput : next.cpu.console.output = machine.cpu.console.output := by
    rw [Cpu.console, hkept.ports]
    rfl
  exact idle_of_eq h hkept.halted hkept.totalSteps houtput rfl rfl

theorem exists_perform_idle (h : machine.cpu.halted = true) {operation : Operation τ}
    (hkept : operation.bypasses = false) :
    ∃ answer next, machine.perform operation = some (answer, next) ∧
      machine.Idle [answer] next := by
  cases operation with
  | push bytes => exact ⟨_, _, rfl, idle_push h bytes⟩
  | take => exact ⟨_, _, rfl, idle_take h⟩
  | step =>
    refine ⟨.stepped false, machine, ?_, idle_of_eq h rfl rfl rfl rfl rfl⟩
    rw [perform, Cpu.step_of_halted h]
  | runSlice =>
    refine ⟨.sliced 0, machine, ?_, idle_of_eq h rfl rfl rfl rfl rfl⟩
    rw [perform, runSlice_of_halted h]
  | run =>
    refine ⟨.finished ⟨0, true⟩, machine, ?_, idle_of_eq h rfl rfl rfl rfl rfl⟩
    rw [perform, run_of_halted h]
    rfl
  | loadBios files path => exact ⟨_, _, rfl, idle_of_kept h (kept_of_loadBios rfl) _⟩
  | installBios image => exact ⟨_, _, rfl, idle_of_eq h rfl rfl rfl rfl rfl⟩
  | loadProgram files path address =>
    exact ⟨_, _, rfl, idle_of_kept h (kept_of_loadProgram rfl) _⟩
  | reset | change _ => cases hkept

theorem exists_performAll_idle (h : machine.cpu.halted = true) {operations : List (Operation τ)}
    (hkept : ∀ operation ∈ operations, operation.bypasses = false) :
    ∃ answers next, machine.performAll operations = some (answers, next) ∧
      machine.Idle answers next := by
  induction operations generalizing machine with
  | nil => exact ⟨[], machine, rfl, idle_refl h⟩
  | cons operation rest ih =>
    obtain ⟨hfirst, hrest⟩ := List.forall_mem_cons.1 hkept
    obtain ⟨answer, middle, hperform, hidle⟩ := exists_perform_idle h hfirst
    obtain ⟨answers, next, hperformAll, hidles⟩ := ih hidle.halted hrest
    refine ⟨answer :: answers, next, ?_, hidle.cons hidles⟩
    simp only [performAll, hperform, hperformAll, Option.bind_eq_bind, Option.bind_some]
    rfl

end Machine

/-! ## The halt lasts -/

/-- A processor is halted after some actions just if one of them was a step that met the opcode 0x76
and no reset came after it: no other action halts a processor that is running, and only a reset
starts one that is halted. A step of a halted processor changes nothing at all and reports that it
has executed nothing. A halted machine runs nothing and prints nothing, whatever is done to it short
of a reset. -/
theorem halt_lasts_until_reset {σ τ : Type} (device : σ) (actions : List (Cpu.Action σ))
    (cpu : Cpu σ) (action : Cpu.Action σ) (machine : Machine τ) (operations : List (Operation τ)) :
    (((Cpu.new device).actAll actions).halted = true ↔ (Cpu.new device).HaltsIn actions) ∧
    (cpu.halted = false →
      ((cpu.act action).halted = true ↔ action = .command .step ∧ cpu.nextOpcode = 0x76)) ∧
    (cpu.halted = true →
      ((cpu.act action).halted = false ↔ action = .command .reset) ∧
      cpu.step = (false, cpu) ∧ ∀ n, cpu.run n = (0, cpu)) ∧
    (machine.cpu.halted = true →
      (∀ operation ∈ operations, operation.bypasses = false) →
      ∃ answers next, machine.performAll operations = some (answers, next) ∧
        machine.Idle answers next ∧
        next.runSlice = (0, next) ∧ next.run = some (⟨0, true⟩, next)) := by
  refine ⟨Cpu.halted_actAll_iff rfl actions, fun h => ?_, fun h => ⟨?_, Cpu.step_of_halted h, ?_⟩,
    fun h hkept => ?_⟩
  · have hne : cpu.nextOpcode = 0x76 → action = .command .step → action ≠ .command .reset := by
      rintro - rfl
      simp
    rw [Cpu.halted_act_iff, h]
    constructor
    · rintro ⟨-, hstart | hstep⟩
      · cases hstart
      · exact hstep
    · rintro ⟨hstep, hopcode⟩
      exact ⟨hne hopcode hstep, .inr ⟨hstep, hopcode⟩⟩
  · rw [← Bool.not_eq_true, Cpu.halted_act_iff, h]
    simp
  · exact Cpu.run_of_halted h
  · obtain ⟨answers, next, hperform, hidle⟩ := Machine.exists_performAll_idle h hkept
    exact ⟨answers, next, hperform, hidle, Machine.runSlice_of_halted hidle.halted,
      Machine.run_of_halted hidle.halted⟩

/-- A program that halts at once, then another one, which a machine that is halted never executes:
what it has printed before the halt is all that can be taken. -/
theorem halt_lasts_until_reset_reload :
    let program : Cpu.Action Unit := .command (.loadProgram [0x76] 0)
    let halted := (Cpu.new ()).actAll [program, .command .step]
    let machine : Machine Unit := { Machine.fresh {} () with
      cpu := { (Machine.fresh {} ()).cpu with
        halted := true
        ports := Machine.consolePorts { output := #[0x41] } () } }
    (halted.act program).halted = true ∧
      (halted.act program).step = (false, halted.act program) ∧
      ∃ answers next, machine.performAll [.installBios [0x3E, 0x42, 0xD3, 0x01], .run, .take] =
          some (answers, next) ∧
        next.totalSteps = 0 ∧
        (answers.flatMap Answer.takenBytes).flatten ++ next.cpu.console.output.toList = [0x41] := by
  intro program halted machine
  have hopcode : ((Cpu.new ()).actAll [program]).nextOpcode = 0x76 := by
    show (Memory.blank.load [0x76] 0).2.peek (Memory.blank.load [0x76] 0).2.active 0 = 0x76
    rw [Memory.active_load, Memory.peek_load]
    rfl
  obtain ⟨hcause, -⟩ :=
    halt_lasts_until_reset () [program, .command .step] halted program machine []
  have hhalted : halted.halted = true := hcause.2 ⟨[program], [], rfl, rfl, hopcode, by simp⟩
  obtain ⟨-, -, hnone, -⟩ := halt_lasts_until_reset () [] halted program machine []
  have hstill : (halted.act program).halted = true := by
    rw [← Bool.not_eq_false, (hnone hhalted).1]
    simp [program]
  obtain ⟨-, -, hstep, hmachine⟩ := halt_lasts_until_reset () [] (halted.act program) program
    machine [.installBios [0x3E, 0x42, 0xD3, 0x01], .run, .take]
  obtain ⟨answers, next, hperform, hidle, -⟩ := hmachine rfl (by simp [Operation.bypasses])
  exact ⟨hstill, (hstep hstill).2.1, answers, next, hperform, hidle.totalSteps, hidle.output⟩

end Banked8085.Monitor
