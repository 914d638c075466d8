import Mathlib.Logic.Function.Iterate
import Banked8085.Proofs.Execution.PortUse

/-! # Calls of the port handlers

`Cpu.recording` is a processor whose handlers do what the ones of a given processor do and note
each call with the byte that it passed. Otherwise the two take the same steps (`step_recording`),
and an instruction calls a handler as `Instruction.calls` says. `Cpu.portCalls` is what is noted
during the first steps of a run; each step adds the calls of its instruction (`portCalls_succ`).
-/

namespace Banked8085
set_option autoImplicit false

variable {σ : Type}

/-- A call of a handler: the byte that a read gave or a write passed on. -/
inductive Ports.Call
  | read (port value : Byte)
  | write (port value : Byte)
deriving DecidableEq, Repr, Inhabited

namespace Ports

/-- Handlers that do the same to the device and add each call to the ones before. -/
def recording (ports : Ports σ) (calls : List Call) : Ports (σ × List Call) where
  device := (ports.device, calls)
  onRead := ports.onRead.map fun handler port state =>
    let (value, device) := handler port state.1
    (value, device, state.2 ++ [.read port value])
  onWrite := ports.onWrite.map fun handler port value state =>
    (handler port value state.1, state.2 ++ [.write port value])

def readCalls (ports : Ports σ) (port : Byte) : List Call :=
  if ports.onRead.isSome then [.read port (ports.read port).1] else []

def writeCalls (ports : Ports σ) (port value : Byte) : List Call :=
  if ports.onWrite.isSome then [.write port value] else []

theorem read_recording (ports : Ports σ) (calls : List Call) (port : Byte) :
    (ports.recording calls).read port =
      ((ports.read port).1, (ports.read port).2.recording (calls ++ ports.readCalls port)) := by
  obtain ⟨device, onRead, onWrite⟩ := ports
  cases onRead with
  | none => simp [recording, read, readCalls]
  | some handler => rfl

theorem write_recording (ports : Ports σ) (calls : List Call) (port value : Byte) :
    (ports.recording calls).write port value =
      (ports.write port value).recording (calls ++ ports.writeCalls port value) := by
  obtain ⟨device, onRead, onWrite⟩ := ports
  cases onWrite with
  | none => simp [recording, write, writeCalls]
  | some handler => rfl

end Ports

/-- The handler calls that an instruction makes. Bank selection does not reach the handlers. -/
def Instruction.calls (cpu : Cpu σ) : Instruction → List Ports.Call
  | .input port => cpu.ports.readCalls port
  | .output port =>
    if port = Ports.bankSelect then [] else cpu.ports.writeCalls port cpu.registers.a
  | _ => []

namespace Cpu

def recording (cpu : Cpu σ) (calls : List Ports.Call) : Cpu (σ × List Ports.Call) where
  registers := cpu.registers
  flags := cpu.flags
  memory := cpu.memory
  ports := cpu.ports.recording calls
  halted := cpu.halted
  interruptsEnabled := cpu.interruptsEnabled

variable (cpu : Cpu σ) (calls : List Ports.Call)

theorem portsAfter_recording (i : Instruction) :
    i.portsAfter (cpu.recording calls) = (i.portsAfter cpu).recording (calls ++ i.calls cpu) := by
  cases i with
  | input port => exact congrArg Prod.snd (cpu.ports.read_recording calls port)
  | output port =>
    by_cases hport : port = Ports.bankSelect
    · simp only [Instruction.portsAfter, Instruction.calls, if_pos hport, List.append_nil]
      rfl
    · simp only [Instruction.portsAfter, Instruction.calls, if_neg hport]
      exact cpu.ports.write_recording calls port cpu.registers.a
  | _ =>
    simp only [Instruction.calls, List.append_nil]
    rfl

/-! ## Steps -/

/-- The handler calls of one step; a halted processor makes none. -/
def stepCalls (cpu : Cpu σ) : List Ports.Call :=
  if cpu.halted then [] else cpu.instruction.calls cpu

theorem step_recording :
    (cpu.recording calls).next = cpu.next.recording (calls ++ cpu.stepCalls) := by
  cases hhalted : cpu.halted with
  | true =>
    have hrecording : (cpu.recording calls).halted = true := hhalted
    rw [next_of_halted hhalted, next_of_halted hrecording, stepCalls, if_pos hhalted,
      List.append_nil]
  | false =>
    have hread : ∀ port, cpu.instruction = .input port →
        ((cpu.ports.recording calls).read port).1 = (cpu.ports.read port).1 := by
      intro port _
      rw [Ports.read_recording]
    have hcalls : cpu.stepCalls = cpu.instruction.calls cpu := if_neg (by simp [hhalted])
    have hstep : (cpu.recording calls).next = _ := step_rewire cpu _ hhalted hread
    rw [hstep, hcalls]
    show cpu.next.rewire (cpu.instruction.portsAfter (cpu.recording calls)) = _
    rw [portsAfter_recording, ← ports_step hhalted]
    rfl

/-- The handler calls of the first `n` steps, in the order in which they are made. -/
def portCalls (cpu : Cpu σ) (n : ℕ) : List Ports.Call :=
  (next^[n] (cpu.recording [])).ports.device.2

theorem iterate_recording (n : ℕ) :
    next^[n] (cpu.recording []) = (next^[n] cpu).recording (cpu.portCalls n) := by
  have hexists : ∃ calls, next^[n] (cpu.recording []) = (next^[n] cpu).recording calls := by
    induction n with
    | zero => exact ⟨[], rfl⟩
    | succ n ih =>
      obtain ⟨calls, hcalls⟩ := ih
      refine ⟨calls ++ (next^[n] cpu).stepCalls, ?_⟩
      rw [Function.iterate_succ_apply', Function.iterate_succ_apply', hcalls, step_recording]
  obtain ⟨calls, hcalls⟩ := hexists
  have hnoted : cpu.portCalls n = calls := congrArg (fun c => c.ports.device.2) hcalls
  rw [hnoted, hcalls]

theorem portCalls_succ (n : ℕ) :
    cpu.portCalls (n + 1) = cpu.portCalls n ++ (next^[n] cpu).stepCalls := by
  rw [portCalls, Function.iterate_succ_apply', iterate_recording, step_recording]
  rfl

end Cpu
end Banked8085
