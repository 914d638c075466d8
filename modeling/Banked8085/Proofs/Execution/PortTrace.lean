import Banked8085.Proofs.Execution.Opcodes
import Banked8085.Proofs.Execution.PortCalls

/-! # The handler calls of a run

`Cpu.requested` reads the call that a step makes off the bytes at the program counter and the
accumulator. One step calls the handlers as requested (`stepCalls_eq`), and so the calls of a run are
the requests of its states in order (`portCalls_eq`).
-/

namespace Banked8085
set_option autoImplicit false

variable {σ : Type}

/-! ## Requests -/

/-- The call that an instruction with these bytes makes, given the accumulator before and after. -/
def Ports.Call.ofBytes (before after : Byte) : List Byte → List Ports.Call
  | [0xDB, port] => [.read port after]
  | [0xD3, port] => if port = 0xFE then [] else [.write port before]
  | _ => []

/-- There is a handler that answers the call. -/
def Ports.answers (ports : Ports σ) : Ports.Call → Bool
  | .read _ _ => ports.onRead.isSome
  | .write _ _ => ports.onWrite.isSome

namespace Cpu

/-- The call that the next step makes, if there is a handler for it. -/
def requested (cpu : Cpu σ) : List Ports.Call :=
  if cpu.halted then []
  else Ports.Call.ofBytes cpu.registers.a cpu.next.registers.a cpu.nextBytes

variable {cpu : Cpu σ} {port : Byte}

theorem instruction_eq_input_iff :
    cpu.instruction = .input port ↔ cpu.nextBytes = [0xDB, port] :=
  cpu.instruction_eq_iff (by simp)

theorem instruction_eq_output_iff :
    cpu.instruction = .output port ↔ cpu.nextBytes = [0xD3, port] :=
  cpu.instruction_eq_iff (by simp)

/-! ## One step -/

theorem stepCalls_of_input (h : cpu.halted = false) (hi : cpu.instruction = .input port) :
    cpu.stepCalls =
      [Ports.Call.read port cpu.next.registers.a].filter cpu.ports.answers := by
  rw [stepCalls, if_neg (by simp [h]), hi, a_step_of_input h hi]
  cases hread : cpu.ports.onRead <;> simp [Instruction.calls, Ports.readCalls, Ports.answers, hread]

theorem stepCalls_of_output (h : cpu.halted = false) (hi : cpu.instruction = .output port)
    (hport : port ≠ Ports.bankSelect) :
    cpu.stepCalls = [Ports.Call.write port cpu.registers.a].filter cpu.ports.answers := by
  rw [stepCalls, if_neg (by simp [h]), hi, Instruction.calls, if_neg hport]
  cases hwrite : cpu.ports.onWrite <;> simp [Ports.writeCalls, Ports.answers, hwrite]

/-- A step calls the handlers as its bytes request it. -/
theorem stepCalls_eq (cpu : Cpu σ) : cpu.stepCalls = cpu.requested.filter cpu.ports.answers := by
  cases hhalted : cpu.halted with
  | true => rw [stepCalls, requested, if_pos hhalted, if_pos hhalted, List.filter_nil]
  | false =>
    rw [requested, if_neg (by simp [hhalted])]
    unfold Ports.Call.ofBytes
    split
    case h_1 port hbytes => exact stepCalls_of_input hhalted (instruction_eq_input_iff.2 hbytes)
    case h_2 port hbytes =>
      have hi := instruction_eq_output_iff.2 hbytes
      split
      case isTrue hport =>
        have hselect : port = Ports.bankSelect := hport
        rw [stepCalls, if_neg (by simp [hhalted]), hi, Instruction.calls, if_pos hselect,
          List.filter_nil]
      case isFalse hport => exact stepCalls_of_output hhalted hi hport
    case h_3 hinput houtput =>
      rw [stepCalls, if_neg (by simp [hhalted]), List.filter_nil]
      cases hi : cpu.instruction with
      | input port => exact absurd (instruction_eq_input_iff.1 hi) (hinput port)
      | output port => exact absurd (instruction_eq_output_iff.1 hi) (houtput port)
      | _ => rfl

/-- A value for which there is no handler is lost. -/
theorem step_of_unconnected (h : cpu.halted = false) (hi : cpu.instruction = .output port)
    (hport : port ≠ Ports.bankSelect) (hwrite : cpu.ports.onWrite = none) :
    cpu.next = cpu.jump (cpu.registers.pc + 2) := by
  have hbytes := instruction_eq_output_iff.1 hi
  rw [next_eq_execute h, hi, hbytes]
  simp only [execute, writePort, if_neg hport]
  show { cpu.jump (cpu.registers.pc + 2) with
    ports := cpu.ports.write port cpu.registers.a } = _
  rw [Ports.write_of_none hwrite]
  rfl

/-! ## Whole runs -/

theorem handlers_iterate (cpu : Cpu σ) (n : ℕ) :
    (next^[n] cpu).ports.onRead = cpu.ports.onRead ∧
      (next^[n] cpu).ports.onWrite = cpu.ports.onWrite := by
  induction n with
  | zero => exact ⟨rfl, rfl⟩
  | succ n ih =>
    rw [Function.iterate_succ_apply']
    obtain ⟨hread, hwrite⟩ := (next^[n] cpu).used_step.handlers_eq
    exact ⟨hread.trans ih.1, hwrite.trans ih.2⟩

theorem answers_iterate (cpu : Cpu σ) (n : ℕ) :
    (next^[n] cpu).ports.answers = cpu.ports.answers := by
  obtain ⟨hread, hwrite⟩ := cpu.handlers_iterate n
  funext call
  cases call with
  | read port value => exact congrArg Option.isSome hread
  | write port value => exact congrArg Option.isSome hwrite

theorem portCalls_eq (cpu : Cpu σ) (n : ℕ) :
    cpu.portCalls n =
      ((List.range n).flatMap fun k => (next^[k] cpu).requested).filter cpu.ports.answers := by
  induction n with
  | zero => rfl
  | succ n ih =>
    rw [portCalls_succ, stepCalls_eq, answers_iterate, ih, List.range_succ, List.flatMap_append,
      List.filter_append, List.flatMap_singleton]

end Cpu

/-- The handlers are called in a run as the instructions request it, one after the other, and by
nothing else: a processor whose handlers note their calls takes the same steps and has noted just
these calls. What a read handler gives is the accumulator after `IN`, which without a handler is
0xFF. Without a write handler `OUT` only moves the program counter, except that it selects banks. -/
theorem portCalls_follow_instructions (cpu : Cpu σ) (n : ℕ) :
    let state := Cpu.next^[n] cpu
    let calls := ((List.range n).flatMap fun k =>
      (Cpu.next^[k] cpu).requested).filter cpu.ports.answers
    Cpu.next^[n] (cpu.recording []) = state.recording calls ∧
      state.ports.onRead = cpu.ports.onRead ∧ state.ports.onWrite = cpu.ports.onWrite ∧
      (state.halted = false → ∀ port,
        (state.nextBytes = [0xDB, port] →
          (∀ handler, cpu.ports.onRead = some handler →
            state.next.registers.a = (handler port state.ports.device).1) ∧
          (cpu.ports.onRead = none → state.next.registers.a = 0xFF)) ∧
        (state.nextBytes = [0xD3, port] → port ≠ 0xFE → cpu.ports.onWrite = none →
          state.next = state.jump (state.registers.pc + 2))) := by
  intro state calls
  obtain ⟨hread, hwrite⟩ := cpu.handlers_iterate n
  refine ⟨?_, hread, hwrite, ?_⟩
  · rw [cpu.iterate_recording, cpu.portCalls_eq]
  · intro hrunning port
    constructor
    · intro hbytes
      have ha := Cpu.a_step_of_input hrunning (Cpu.instruction_eq_input_iff.2 hbytes)
      constructor
      · intro handler hhandler
        rw [ha, Ports.read, hread, hhandler]
      · intro hnone
        rw [ha, Ports.read_of_none (hread.trans hnone)]
        rfl
    · intro hbytes hport hnone
      exact Cpu.step_of_unconnected hrunning (Cpu.instruction_eq_output_iff.2 hbytes) hport
        (hwrite.trans hnone)

/-- `IN 254` calls its handler, and `OUT 254` after it calls none. -/
theorem portCalls_follow_instructions_bankSelect :
    let ports : Ports Unit :=
      { device := (), onRead := some fun port device => (port - 1, device),
        onWrite := some fun _ _ device => device }
    let cpu : Cpu Unit := { memory := (Memory.blank.load [0xDB, 0xFE, 0xD3, 0xFE] 0x0000).2, ports }
    (Cpu.next^[2] (cpu.recording [])).ports.device.2 = [.read 0xFE 0xFD] ∧
      cpu.next.registers.a = 0xFD := by
  intro ports cpu
  have hloaded : cpu.memory.Holds cpu.registers.pc
      ((Instruction.input 0xFE).encode ++ (Instruction.output 0xFE).encode) :=
    Memory.holds_load (by decide)
  have hfirst : cpu.nextBytes = [0xDB, 0xFE] :=
    Cpu.instruction_eq_input_iff.1 (Cpu.instruction_of_holds hloaded.left)
  have hstep : cpu.next = (cpu.jump 0x0002).execute (.input 0xFE) :=
    Cpu.next_of_holds rfl hloaded.left
  have hsecond : cpu.next.nextBytes = [0xD3, 0xFE] := by
    rw [hstep]
    exact Cpu.instruction_eq_output_iff.1 (Cpu.instruction_of_holds hloaded.tail.tail)
  obtain ⟨-, -, -, hport⟩ := portCalls_follow_instructions cpu 0
  obtain ⟨hrun, -⟩ := portCalls_follow_instructions cpu 2
  have ha : cpu.next.registers.a = 0xFD := ((hport rfl 0xFE).1 hfirst).1 _ rfl
  have hrequested : cpu.requested = [.read 0xFE 0xFD] := by
    rw [Cpu.requested, hfirst, ha]
    rfl
  have hsilent : cpu.next.requested = [] := by
    rw [Cpu.requested, hsecond]
    exact ite_self _
  have hcalls : (List.range 2).flatMap (fun k => (Cpu.next^[k] cpu).requested) =
      [.read 0xFE 0xFD] := by
    show cpu.requested ++ (cpu.next.requested ++ []) = _
    rw [hrequested, hsilent]
    rfl
  refine ⟨?_, ha⟩
  rw [hrun, hcalls]
  rfl

end Banked8085
