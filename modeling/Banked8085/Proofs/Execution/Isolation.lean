import Mathlib.Data.Set.Basic
import Banked8085.Proofs.Execution.PortCalls
import Banked8085.Proofs.Execution.Stores

/-! # Inactive banks have no influence

Two processors that differ only in some banks (`Cpu.AgreesOutside`) go on in the same way for as
long as none of these banks is active: `AgreesOutside.step` for one step and
`AgreesOutside.iterate` for a run. Meanwhile both make the same handler calls, and each keeps what
it holds in these banks (`run_ignores_inactive_banks`).
-/

namespace Banked8085
set_option autoImplicit false

variable {σ : Type} {hidden : Set Bank}

/-! ## Memory -/

namespace Memory

/-- The memories differ at most in the contents of the hidden banks. -/
structure AgreesOutside (hidden : Set Bank) (m other : Memory) : Prop where
  active : other.active = m.active
  peek : ∀ bank ∉ hidden, ∀ address, other.peek bank address = m.peek bank address

namespace AgreesOutside
variable {m other : Memory}

theorem read (h : AgreesOutside hidden m other) (hactive : m.active ∉ hidden) (address : Word) :
    other.read address = m.read address := by
  rw [Memory.read, h.active]
  exact h.peek _ hactive address

theorem readWord (h : AgreesOutside hidden m other) (hactive : m.active ∉ hidden)
    (address : Word) : other.readWord address = m.readWord address := by
  rw [Memory.readWord, h.read hactive, h.read hactive]
  rfl

theorem bytesAt (h : AgreesOutside hidden m other) (hactive : m.active ∉ hidden) (start : Word)
    (count : Nat) : other.bytesAt start count = m.bytesAt start count := by
  apply List.map_congr_left
  intro k _
  exact h.read hactive _

theorem write (h : AgreesOutside hidden m other) (address : Word) (value : Byte) :
    AgreesOutside hidden (m.write address value) (other.write address value) where
  active := h.active
  peek bank hbank a := by
    rw [peek_write, peek_write, h.active, h.peek bank hbank]

theorem writeWord (h : AgreesOutside hidden m other) (address value : Word) :
    AgreesOutside hidden (m.writeWord address value) (other.writeWord address value) :=
  (h.write address value.low).write (address + 1) value.high

theorem select (h : AgreesOutside hidden m other) (number : Nat) :
    AgreesOutside hidden (m.select number) (other.select number) where
  active := by
    unfold Memory.select
    split
    · rfl
    · exact h.active
  peek bank hbank a := by
    rw [peek_select, peek_select, h.peek bank hbank]

end AgreesOutside
end Memory

/-! ## Processors -/

namespace Cpu

/-- The processors differ at most in the contents of the hidden banks. -/
structure AgreesOutside (hidden : Set Bank) (cpu other : Cpu σ) : Prop where
  registers : other.registers = cpu.registers
  flags : other.flags = cpu.flags
  memory : Memory.AgreesOutside hidden cpu.memory other.memory
  ports : other.ports = cpu.ports
  halted : other.halted = cpu.halted
  interruptsEnabled : other.interruptsEnabled = cpu.interruptsEnabled

theorem agreesOutside_iff {cpu other : Cpu σ} :
    AgreesOutside hidden cpu other ↔
      ∃ memory, Memory.AgreesOutside hidden cpu.memory memory ∧
        other = { cpu with memory := memory } := by
  constructor
  · intro h
    obtain ⟨registers, flags, memory, ports, halted, interruptsEnabled⟩ := other
    obtain ⟨rfl, rfl, hmemory, rfl, rfl, rfl⟩ := h
    exact ⟨memory, hmemory, rfl⟩
  · intro h
    obtain ⟨memory, hmemory, rfl⟩ := h
    exact ⟨rfl, rfl, hmemory, rfl, rfl, rfl⟩

namespace AgreesOutside
variable {cpu other : Cpu σ}

theorem get (h : AgreesOutside hidden cpu other) (hactive : cpu.memory.active ∉ hidden)
    (source : Location) : other.get source = cpu.get source := by
  cases source with
  | register r => rw [Cpu.get, h.registers]; rfl
  | memory => rw [Cpu.get, h.registers, h.memory.read hactive]; rfl

theorem top (h : AgreesOutside hidden cpu other) (hactive : cpu.memory.active ∉ hidden) :
    other.top = cpu.top := by
  rw [Cpu.top, h.registers, h.memory.readWord hactive]
  rfl

theorem set (h : AgreesOutside hidden cpu other) (target : Location) (value : Byte) :
    AgreesOutside hidden (cpu.set target value) (other.set target value) := by
  obtain ⟨memory, hmemory, rfl⟩ := agreesOutside_iff.1 h
  cases target with
  | register r => exact ⟨rfl, rfl, hmemory, rfl, rfl, rfl⟩
  | memory => exact ⟨rfl, rfl, hmemory.write _ _, rfl, rfl, rfl⟩

theorem with_flags (h : AgreesOutside hidden cpu other) (flags : Flags) :
    AgreesOutside hidden { cpu with flags } { other with flags } :=
  ⟨h.registers, rfl, h.memory, h.ports, h.halted, h.interruptsEnabled⟩

theorem jump (h : AgreesOutside hidden cpu other) (target : Word) :
    AgreesOutside hidden (cpu.jump target) (other.jump target) := by
  obtain ⟨memory, hmemory, rfl⟩ := agreesOutside_iff.1 h
  exact ⟨rfl, rfl, hmemory, rfl, rfl, rfl⟩

theorem setStackPair (h : AgreesOutside hidden cpu other) (target : StackPair) (value : Word) :
    AgreesOutside hidden (cpu.setStackPair target value) (other.setStackPair target value) := by
  obtain ⟨memory, hmemory, rfl⟩ := agreesOutside_iff.1 h
  cases target <;> exact ⟨rfl, rfl, hmemory, rfl, rfl, rfl⟩

theorem dropWord (h : AgreesOutside hidden cpu other) :
    AgreesOutside hidden cpu.dropWord other.dropWord := by
  obtain ⟨memory, hmemory, rfl⟩ := agreesOutside_iff.1 h
  exact ⟨rfl, rfl, hmemory, rfl, rfl, rfl⟩

theorem enter (h : AgreesOutside hidden cpu other) (target : Word) :
    AgreesOutside hidden (cpu.enter target) (other.enter target) := by
  obtain ⟨memory, hmemory, rfl⟩ := agreesOutside_iff.1 h
  exact ⟨rfl, rfl, hmemory.writeWord _ _, rfl, rfl, rfl⟩

theorem leave (h : AgreesOutside hidden cpu other) (hactive : cpu.memory.active ∉ hidden) :
    AgreesOutside hidden cpu.leave other.leave := by
  rw [Cpu.leave, Cpu.leave, h.top hactive]
  exact h.dropWord.jump _

theorem writePort (h : AgreesOutside hidden cpu other) (port : Byte) :
    AgreesOutside hidden (cpu.writePort port) (other.writePort port) := by
  obtain ⟨memory, hmemory, rfl⟩ := agreesOutside_iff.1 h
  unfold Cpu.writePort
  split
  · exact ⟨rfl, rfl, hmemory.select _, rfl, rfl, rfl⟩
  · exact ⟨rfl, rfl, hmemory, rfl, rfl, rfl⟩

theorem ite {next next' : Cpu σ} (h : AgreesOutside hidden cpu other) (condition : Condition)
    (hnext : AgreesOutside hidden next next') :
    AgreesOutside hidden (if cpu.passes condition then next else cpu)
      (if other.passes condition then next' else other) := by
  rw [passes, passes, h.flags]
  by_cases hholds : condition.holds cpu.flags
  · rw [if_pos hholds, if_pos hholds]
    exact hnext
  · rw [if_neg hholds, if_neg hholds]
    exact h

/-- All reads go to the active bank, which both processors hold alike. -/
theorem execute (h : AgreesOutside hidden cpu other) (hactive : cpu.memory.active ∉ hidden)
    (i : Instruction) : AgreesOutside hidden (cpu.execute i) (other.execute i) := by
  have hget := h.get hactive
  have htop := h.top hactive
  have hread := h.memory.read hactive
  have hreadWord := h.memory.readWord hactive
  cases i with
  | mov target source _ =>
    rw [Cpu.execute, Cpu.execute, hget]
    exact h.set target _
  | mvi target value => exact h.set target value
  | rim => exact h.set (.register .a) 0
  | ldax pointer =>
    rw [Cpu.execute, Cpu.execute, hread, h.registers]
    exact h.set (.register .a) _
  | lda address =>
    rw [Cpu.execute, Cpu.execute, hread]
    exact h.set (.register .a) _
  | inr target =>
    rw [Cpu.execute, Cpu.execute, hget, h.flags]
    exact (h.set target _).with_flags _
  | dcr target =>
    rw [Cpu.execute, Cpu.execute, hget, h.flags]
    exact (h.set target _).with_flags _
  | jmpIf condition target => exact h.ite condition (h.jump target)
  | callIf condition target => exact h.ite condition (h.enter target)
  | retIf condition => exact h.ite condition (h.leave hactive)
  | jmp target => exact h.jump target
  | call target => exact h.enter target
  | rst vector => exact h.enter _
  | ret => exact h.leave hactive
  | pop target =>
    rw [Cpu.execute, Cpu.execute, htop]
    exact h.dropWord.setStackPair target _
  | output port => exact h.writePort port
  | alu op source =>
    rw [Cpu.execute, Cpu.execute, hget]
    obtain ⟨memory, hmemory, rfl⟩ := agreesOutside_iff.1 h
    exact ⟨rfl, rfl, hmemory, rfl, rfl, rfl⟩
  | lhld address =>
    rw [Cpu.execute, Cpu.execute, hreadWord]
    obtain ⟨memory, hmemory, rfl⟩ := agreesOutside_iff.1 h
    exact ⟨rfl, rfl, hmemory, rfl, rfl, rfl⟩
  | xthl =>
    rw [Cpu.execute, Cpu.execute, htop]
    obtain ⟨memory, hmemory, rfl⟩ := agreesOutside_iff.1 h
    exact ⟨rfl, rfl, hmemory.writeWord _ _, rfl, rfl, rfl⟩
  | push source =>
    obtain ⟨memory, hmemory, rfl⟩ := agreesOutside_iff.1 h
    cases source <;> exact ⟨rfl, rfl, hmemory.writeWord _ _, rfl, rfl, rfl⟩
  | stax pointer =>
    obtain ⟨memory, hmemory, rfl⟩ := agreesOutside_iff.1 h
    exact ⟨rfl, rfl, hmemory.write _ _, rfl, rfl, rfl⟩
  | sta address =>
    obtain ⟨memory, hmemory, rfl⟩ := agreesOutside_iff.1 h
    exact ⟨rfl, rfl, hmemory.write _ _, rfl, rfl, rfl⟩
  | shld address =>
    obtain ⟨memory, hmemory, rfl⟩ := agreesOutside_iff.1 h
    exact ⟨rfl, rfl, hmemory.writeWord _ _, rfl, rfl, rfl⟩
  | _ =>
    obtain ⟨memory, hmemory, rfl⟩ := agreesOutside_iff.1 h
    exact ⟨rfl, rfl, hmemory, rfl, rfl, rfl⟩

/-! ## Steps -/

theorem nextBytes (h : AgreesOutside hidden cpu other)
    (hactive : cpu.memory.active ∉ hidden) : other.nextBytes = cpu.nextBytes := by
  rw [Cpu.nextBytes, Cpu.nextBytes, h.registers, h.memory.read hactive, h.memory.bytesAt hactive]

theorem step (h : AgreesOutside hidden cpu other) (hactive : cpu.memory.active ∉ hidden) :
    AgreesOutside hidden cpu.next other.next := by
  cases hhalted : cpu.halted with
  | true =>
    rw [next_of_halted hhalted, next_of_halted (h.halted.trans hhalted)]
    exact h
  | false =>
    have hnext := h.jump (cpu.registers.pc + UInt16.ofNat cpu.nextBytes.length)
    rw [next_eq_execute hhalted, next_eq_execute (h.halted.trans hhalted), instruction,
      instruction, h.nextBytes hactive, h.registers]
    exact hnext.execute hactive _

theorem iterate (h : AgreesOutside hidden cpu other) {n : ℕ}
    (hactive : ∀ k < n, (Cpu.next^[k] cpu).memory.active ∉ hidden) :
    AgreesOutside hidden (Cpu.next^[n] cpu) (Cpu.next^[n] other) := by
  induction n with
  | zero => exact h
  | succ n ih =>
    have hbefore := ih fun k hk => hactive k (Nat.lt_succ_of_lt hk)
    rw [Function.iterate_succ_apply', Function.iterate_succ_apply']
    exact hbefore.step (hactive n (Nat.lt_succ_self n))

theorem recording (h : AgreesOutside hidden cpu other) (calls : List Ports.Call) :
    AgreesOutside hidden (cpu.recording calls) (other.recording calls) := by
  obtain ⟨memory, hmemory, rfl⟩ := agreesOutside_iff.1 h
  exact ⟨rfl, rfl, hmemory, rfl, rfl, rfl⟩

/-- Both runs make the same calls: what the handlers note belongs to their state. -/
theorem portCalls (h : AgreesOutside hidden cpu other) {n : ℕ}
    (hactive : ∀ k < n, (Cpu.next^[k] cpu).memory.active ∉ hidden) :
    other.portCalls n = cpu.portCalls n := by
  have hrecording : ∀ k < n, (Cpu.next^[k] (cpu.recording [])).memory.active ∉ hidden := by
    intro k hk
    rw [iterate_recording]
    exact hactive k hk
  have hports := ((h.recording []).iterate hrecording).ports
  rw [Cpu.portCalls, Cpu.portCalls, hports]

end AgreesOutside

/-! ## Hidden banks -/

/-- A bank that is not active during a run keeps its contents. -/
theorem peek_iterate_of_inactive {cpu : Cpu σ} {n : ℕ} {bank : Bank}
    (hinactive : ∀ k < n, (next^[k] cpu).memory.active ≠ bank) (address : Word) :
    (next^[n] cpu).memory.peek bank address = cpu.memory.peek bank address := by
  by_contra hchanged
  obtain ⟨k, hk, hbank, -⟩ := stored_of_changed cpu n hchanged
  exact hinactive k hk hbank

end Cpu

/-- As long as no hidden bank is active, two processors that differ only in the hidden banks stay
so, make the same handler calls, and keep these banks as they were. -/
theorem run_ignores_inactive_banks {cpu other : Cpu σ} (h : Cpu.AgreesOutside hidden cpu other)
    (n : ℕ) (hactive : ∀ k < n, (Cpu.next^[k] cpu).memory.active ∉ hidden) :
    Cpu.AgreesOutside hidden (Cpu.next^[n] cpu) (Cpu.next^[n] other) ∧
      other.portCalls n = cpu.portCalls n ∧
      ∀ bank ∈ hidden, ∀ address,
        (Cpu.next^[n] cpu).memory.peek bank address = cpu.memory.peek bank address ∧
          (Cpu.next^[n] other).memory.peek bank address = other.memory.peek bank address := by
  refine ⟨h.iterate hactive, h.portCalls hactive, ?_⟩
  intro bank hbank address
  have hinactive : ∀ k < n, (Cpu.next^[k] cpu).memory.active ≠ bank := by
    intro k hk heq
    exact hactive k hk (heq ▸ hbank)
  have hother : ∀ k < n, (Cpu.next^[k] other).memory.active ≠ bank := by
    intro k hk
    have hbefore := h.iterate fun j hj => hactive j (hj.trans hk)
    rw [hbefore.memory.active]
    exact hinactive k hk
  exact ⟨Cpu.peek_iterate_of_inactive hinactive address,
    Cpu.peek_iterate_of_inactive hother address⟩

/-- `IN 7` and `OUT 0FEH` lead from bank two to bank five, where only one of two processors holds a
halt. -/
theorem run_ignores_inactive_banks_out :
    let ports : Ports Unit := { device := (), onRead := some fun _ device => (5, device) }
    let cpu : Cpu Unit :=
      { memory := ((Memory.blank.select 2).load [0xDB, 0x07, 0xD3, 0xFE] 0x0000).2, ports }
    let other := { cpu with memory := cpu.memory.writeBank 5 0x0004 0x76 }
    let hidden : Set Bank := { bank | bank.val = 5 }
    Cpu.AgreesOutside hidden (Cpu.next^[2] cpu) (Cpu.next^[2] other) ∧
      other.portCalls 2 = cpu.portCalls 2 ∧
      ∀ bank ∈ hidden, (Cpu.next^[2] cpu).memory.peek bank 0x0004 = 0 ∧
        (Cpu.next^[2] other).memory.peek bank 0x0004 = 0x76 := by
  intro ports cpu other hidden
  have hactive : cpu.memory.active.val = 2 := by
    rw [Memory.active_load]
    exact (Memory.hasBanks _).select 2 (by decide)
  have hblank : ∀ bank ∈ hidden, cpu.memory.peek bank 0x0004 = 0 := by
    intro bank hbank
    have hnot : ¬((Memory.blank.select 2).active = bank ∧ (0 : Word).toNat ≤ (4 : Word).toNat) := by
      intro h
      have hfive : bank.val = 5 := hbank
      rw [Memory.active_load, h.1] at hactive
      omega
    rw [Memory.peek_load, if_neg hnot, Memory.peek_select, Memory.peek_blank]
  have hagrees : Cpu.AgreesOutside hidden cpu other := by
    refine ⟨rfl, rfl, ⟨Memory.active_writeBank _ _ _ _, ?_⟩, rfl, rfl, rfl⟩
    intro bank hbank address
    show (cpu.memory.writeBank 5 0x0004 0x76).peek bank address = _
    rw [Memory.writeBank, dif_pos (by decide), Memory.peek_poke, if_neg]
    intro hcell
    exact hbank (congrArg Fin.val hcell.1.symm)
  have hholds : cpu.memory.Holds cpu.registers.pc ((Instruction.input 7).encode ++ [0xD3, 0xFE]) :=
    Memory.holds_load (by decide)
  have hnot : cpu.instruction ≠ .output Ports.bankSelect := by
    rw [Cpu.instruction_of_holds hholds.left]
    intro houtput
    cases houtput
  have hrun : ∀ k < 2, (Cpu.next^[k] cpu).memory.active ∉ hidden := by
    intro k hk hmem
    have hfive : (Cpu.next^[k] cpu).memory.active.val = 5 := hmem
    have htwo : (Cpu.next^[k] cpu).memory.active.val = 2 := by
      obtain rfl | rfl : k = 0 ∨ k = 1 := by omega
      · exact hactive
      · rw [Function.iterate_one, cpu.active_step hnot]
        exact hactive
    omega
  obtain ⟨hend, hcalls, hkept⟩ := run_ignores_inactive_banks hagrees 2 hrun
  refine ⟨hend, hcalls, ?_⟩
  intro bank hbank
  obtain ⟨hcpu, hother⟩ := hkept bank hbank 0x0004
  have hwritten : other.memory.peek bank 0x0004 = 0x76 := by
    obtain rfl : bank = ⟨5, by decide⟩ := Fin.ext hbank
    show (cpu.memory.writeBank 5 0x0004 0x76).peek _ _ = _
    rw [Memory.writeBank, dif_pos (by decide), Memory.peek_poke, if_pos ⟨rfl, rfl⟩]
  exact ⟨hcpu.trans (hblank bank hbank), hother.trans hwritten⟩

end Banked8085
