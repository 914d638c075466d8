import Mathlib.Logic.Function.Iterate
import Banked8085.Proofs.Execution.Fetch

/-! # Where the processor stores

`Instruction.stores` lists the addresses that an instruction stores to. A step changes nothing
outside these addresses of the active bank (`within_step`), so whatever changes during a run was
stored to while its bank was active (`stored_of_changed`). Another bank becomes active only by a
write to the bank-select port. `Cpu.Command` collects all that can be done to a processor after
power-on; the banks stay the same eight ones (`step_stores_in_active_bank`).
-/

namespace Banked8085
set_option autoImplicit false

variable {σ : Type}

/-! ## Addresses of stores -/

def Location.stores (cpu : Cpu σ) : Location → List Word
  | .register _ => []
  | .memory => [cpu.registers.pair .hl]

/-- The addresses of the active bank that an instruction stores to. -/
def Instruction.stores (cpu : Cpu σ) : Instruction → List Word
  | .mov target _ _ | .mvi target _ | .inr target | .dcr target => target.stores cpu
  | .stax pointer => [cpu.registers.pair pointer.pair]
  | .sta address => [address]
  | .shld address => [address, address + 1]
  | .push _ | .call _ | .rst _ => [cpu.registers.sp - 1, cpu.registers.sp - 2]
  | .callIf condition _ =>
    if condition.holds cpu.flags then [cpu.registers.sp - 1, cpu.registers.sp - 2] else []
  | .xthl => [cpu.registers.sp, cpu.registers.sp + 1]
  | _ => []

theorem Instruction.length_stores (cpu : Cpu σ) (i : Instruction) : (i.stores cpu).length ≤ 2 := by
  have hlocation : ∀ l : Location, (l.stores cpu).length ≤ 2 := by
    intro l
    cases l with
    | register _ => exact Nat.zero_le 2
    | memory => exact Nat.le_succ 1
  cases i with
  | mov target _ _ | mvi target _ | inr target | dcr target => exact hlocation target
  | callIf condition _ =>
    show (if condition.holds cpu.flags then _ else _ : List Word).length ≤ 2
    split
    · exact Nat.le_refl 2
    · exact Nat.zero_le 2
  | stax _ | sta _ => exact Nat.le_succ 1
  | shld _ | push _ | call _ | rst _ | xthl => exact Nat.le_refl 2
  | _ => exact Nat.zero_le 2

/-! ## Changes within addresses -/

namespace Memory

/-- Only cells of the active bank at these addresses have changed. -/
def Within (addresses : List Word) (before after : Memory) : Prop :=
  ∀ bank address, after.peek bank address ≠ before.peek bank address →
    bank = before.active ∧ address ∈ addresses

variable {m middle after : Memory} {first second : List Word}

theorem Within.mono (h : Within first m after) (hsubset : first ⊆ second) :
    Within second m after := by
  intro bank address hne
  obtain ⟨hbank, hmem⟩ := h bank address hne
  exact ⟨hbank, hsubset hmem⟩

theorem Within.trans (h : Within first m middle) (h' : Within second middle after)
    (hactive : middle.active = m.active) : Within (first ++ second) m after := by
  intro bank address hne
  by_cases hfirst : middle.peek bank address = m.peek bank address
  · rw [← hfirst] at hne
    obtain ⟨hbank, hmem⟩ := h' bank address hne
    exact ⟨hbank.trans hactive, List.mem_append_right _ hmem⟩
  · obtain ⟨hbank, hmem⟩ := h bank address hfirst
    exact ⟨hbank, List.mem_append_left _ hmem⟩

variable (m)

theorem within_refl (addresses : List Word) : Within addresses m m := fun _ _ h => absurd rfl h

theorem within_write (address : Word) (value : Byte) :
    Within [address] m (m.write address value) := by
  intro bank a h
  rw [peek_write] at h
  by_cases hcell : m.active = bank ∧ address = a
  · obtain ⟨hbank, rfl⟩ := hcell
    exact ⟨hbank.symm, List.mem_singleton_self _⟩
  · rw [if_neg hcell] at h
    exact absurd rfl h

theorem within_writeWord (address value : Word) :
    Within [address, address + 1] m (m.writeWord address value) :=
  (m.within_write address value.low).trans (within_write _ (address + 1) value.high) rfl

end Memory

/-! ## Execution -/

namespace Cpu
variable (cpu : Cpu σ)

theorem within_set (target : Location) (value : Byte) :
    Memory.Within (target.stores cpu) cpu.memory (cpu.set target value).memory := by
  cases target with
  | register r => exact Memory.within_refl _ _
  | memory => exact Memory.within_write _ _ _

theorem within_pushWord (value : Word) :
    Memory.Within [cpu.registers.sp - 1, cpu.registers.sp - 2] cpu.memory
      (cpu.pushWord value).memory := by
  have hsucc : cpu.registers.sp - 2 + 1 = cpu.registers.sp - 1 := by
    rw [UInt16.sub_eq_add_neg, UInt16.sub_eq_add_neg, UInt16.add_assoc]
    rfl
  have h := Memory.within_writeWord cpu.memory (cpu.registers.sp - 2) value
  rw [hsucc] at h
  exact h.mono (List.Perm.swap _ _ _).subset

@[simp] theorem memory_setStackPair (p : StackPair) (value : Word) :
    (cpu.setStackPair p value).memory = cpu.memory := by
  cases p <;> rfl

theorem within_execute (i : Instruction) :
    Memory.Within (i.stores cpu) cpu.memory (cpu.execute i).memory := by
  cases i with
  | mov target source h => exact cpu.within_set target _
  | mvi target value => exact cpu.within_set target value
  | inr target => exact cpu.within_set target _
  | dcr target => exact cpu.within_set target _
  | stax pointer => exact Memory.within_write _ _ _
  | sta address => exact Memory.within_write _ _ _
  | shld address => exact Memory.within_writeWord _ _ _
  | push source => exact cpu.within_pushWord _
  | call target => exact cpu.within_pushWord _
  | rst vector => exact cpu.within_pushWord _
  | callIf condition target =>
    show Memory.Within (if condition.holds cpu.flags then _ else _) _
      (if condition.holds cpu.flags then _ else _ : Cpu σ).memory
    by_cases hholds : condition.holds cpu.flags
    · rw [if_pos hholds, if_pos hholds]
      exact cpu.within_pushWord _
    · rw [if_neg hholds, if_neg hholds]
      exact Memory.within_refl _ _
  | xthl => exact Memory.within_writeWord _ _ _
  | jmpIf condition target =>
    simp only [execute]
    split <;> exact Memory.within_refl _ _
  | retIf condition =>
    simp only [execute]
    split <;> exact Memory.within_refl _ _
  | pop target =>
    simp only [execute, memory_setStackPair]
    exact Memory.within_refl _ _
  | output port =>
    intro bank address h
    simp only [execute, writePort] at h
    split at h
    · rw [Memory.peek_select] at h
      exact absurd rfl h
    · exact absurd rfl h
  | _ => exact Memory.within_refl _ _

theorem active_execute {i : Instruction} (h : i ≠ .output Ports.bankSelect) :
    (cpu.execute i).memory.active = cpu.memory.active := by
  cases i with
  | mov target _ _ | mvi target _ | inr target | dcr target => cases target <;> rfl
  | pop target => simp [execute, dropWord]
  | jmpIf | callIf | retIf =>
    simp only [execute]
    split <;> rfl
  | output port =>
    have hport : port ≠ Ports.bankSelect := fun hp => h (hp ▸ rfl)
    simp only [execute, writePort, if_neg hport]
  | _ => rfl

/-- Writing to the bank-select port activates the bank that the accumulator names. -/
theorem execute_bankSelect :
    (cpu.execute (.output Ports.bankSelect)).memory =
      cpu.memory.select (cpu.registers.a.toNat % 8) := by
  simp only [execute, writePort, if_true]

/-! ## Steps -/

theorem stores_jump (target : Word) (i : Instruction) :
    i.stores (cpu.jump target) = i.stores cpu := by
  have hlocation : ∀ l : Location, l.stores (cpu.jump target) = l.stores cpu := by
    intro l
    cases l <;> rfl
  cases i with
  | mov l _ _ | mvi l _ | inr l | dcr l => exact hlocation l
  | stax pointer => cases pointer <;> rfl
  | _ => rfl

theorem within_step : Memory.Within (cpu.instruction.stores cpu) cpu.memory cpu.next.memory := by
  cases hhalted : cpu.halted with
  | true =>
    rw [next_of_halted hhalted]
    exact Memory.within_refl _ _
  | false =>
    rw [next_eq_execute hhalted, ← cpu.stores_jump]
    exact within_execute _ _

theorem active_step (h : cpu.instruction ≠ .output Ports.bankSelect) :
    cpu.next.memory.active = cpu.memory.active := by
  cases hhalted : cpu.halted with
  | true => rw [next_of_halted hhalted]
  | false =>
    rw [next_eq_execute hhalted]
    exact active_execute _ h

theorem memory_step_bankSelect (hrunning : cpu.halted = false)
    (h : cpu.instruction = .output Ports.bankSelect) :
    cpu.next.memory = cpu.memory.select (cpu.registers.a.toNat % 8) := by
  rw [next_eq_execute hrunning, h]
  exact execute_bankSelect _

/-- A cell that is changed after some steps was stored to by one of them, in the bank that was
active then. -/
theorem stored_of_changed (n : Nat) {bank : Bank} {address : Word}
    (h : (next^[n] cpu).memory.peek bank address ≠ cpu.memory.peek bank address) :
    ∃ k < n, (next^[k] cpu).memory.active = bank ∧
      address ∈ (next^[k] cpu).instruction.stores (next^[k] cpu) := by
  induction n with
  | zero => exact absurd rfl h
  | succ n ih =>
    by_cases hbefore : (next^[n] cpu).memory.peek bank address = cpu.memory.peek bank address
    · rw [Function.iterate_succ_apply', ← hbefore] at h
      obtain ⟨hbank, hstored⟩ := within_step _ bank address h
      exact ⟨n, Nat.lt_succ_self n, hbank.symm, hstored⟩
    · obtain ⟨k, hk, hstored⟩ := ih hbefore
      exact ⟨k, Nat.lt_succ_of_lt hk, hstored⟩

end Cpu

/-! ## Eight banks -/

namespace Memory

/-- There are `count` banks: a number below `count` names a bank with a cell for every word, and
another number names none. -/
structure HasBanks (m : Memory) (count : Nat) : Prop where
  write : ∀ number < count, ∀ address value other a,
    (m.writeBank number address value).readBank other a =
      if number = other ∧ address = a then value else m.readBank other a
  select : ∀ number < count, (m.select number).active.val = number
  absent : ∀ number, count ≤ number → ∀ address value,
    m.readBank number address = 0 ∧ m.writeBank number address value = m ∧ m.select number = m

theorem hasBanks (m : Memory) : m.HasBanks 8 where
  write number hnumber address value other a := by
    rw [writeBank, dif_pos hnumber, readBank, readBank]
    split
    case isTrue hother => simp only [peek_poke, Fin.mk.injEq]
    case isFalse hother =>
      have hne : ¬(number = other ∧ address = a) := fun h => hother (h.1 ▸ hnumber)
      rw [if_neg hne]
  select number hnumber := by rw [select, dif_pos hnumber]
  absent number hnumber address value := by
    have hnot : ¬number < 8 := Nat.not_lt.2 hnumber
    exact ⟨dif_neg hnot, dif_neg hnot, dif_neg hnot⟩

end Memory

/-! ## Commands -/

namespace Cpu

/-- What can be done to a processor from outside. A step runs one instruction. -/
inductive Command (σ : Type)
  | step | reset
  | load (data : List Byte) (start : Word)
  | loadProgram (data : List Byte) (start : Word)
  | write (address : Word) (value : Byte)
  | writeBank (number : Nat) (address : Word) (value : Byte)
  | select (number : Nat)
  | assign (registers : Registers) (flags : Flags)
  | connect (ports : Ports σ)

def perform (cpu : Cpu σ) : Command σ → Cpu σ
  | .step => cpu.next
  | .reset => cpu.reset
  | .load data start => (cpu.load data start).2
  | .loadProgram data start => (cpu.loadProgram data start).2
  | .write address value => { cpu with memory := cpu.memory.write address value }
  | .writeBank number address value =>
    { cpu with memory := cpu.memory.writeBank number address value }
  | .select number => { cpu with memory := cpu.memory.select number }
  | .assign registers flags => { cpu with registers, flags }
  | .connect ports => { cpu with ports }

end Cpu

/-- After any commands there are eight banks, one of them active. A step stores at most two bytes,
in the active bank, and activates another bank only by a write to the bank-select port. -/
theorem step_stores_in_active_bank (device : σ) (commands : List (Cpu.Command σ)) :
    let cpu := commands.foldl Cpu.perform (Cpu.new device)
    cpu.memory.HasBanks 8 ∧ cpu.memory.cells.toArray.size = 8 * 65536 ∧
      cpu.memory.active.val < 8 ∧
      Memory.Within (cpu.instruction.stores cpu) cpu.memory cpu.next.memory ∧
      (cpu.instruction.stores cpu).length ≤ 2 ∧
      (cpu.instruction = .output Ports.bankSelect ∨
        cpu.next.memory.active = cpu.memory.active) ∧
      (cpu.halted = false → cpu.instruction = .output Ports.bankSelect →
        cpu.next.memory.active.val = (cpu.registers.a &&& 7).toNat ∧
          ∀ bank address, cpu.next.memory.peek bank address = cpu.memory.peek bank address) := by
  intro cpu
  refine ⟨cpu.memory.hasBanks, cpu.memory.cells.size_toArray, cpu.memory.active.isLt,
    cpu.within_step, cpu.instruction.length_stores cpu, ?_, ?_⟩
  · by_cases hselect : cpu.instruction = .output Ports.bankSelect
    · exact .inl hselect
    · exact .inr (cpu.active_step hselect)
  · intro hrunning hselect
    have hmemory := cpu.memory_step_bankSelect hrunning hselect
    have hmask : (cpu.registers.a &&& 7).toNat = cpu.registers.a.toNat % 8 := by
      rw [UInt8.toNat_and]
      exact Nat.and_two_pow_sub_one_eq_mod _ 3
    rw [hmemory, hmask]
    have hnumber : cpu.registers.a.toNat % 8 < 8 := Nat.mod_lt _ (by decide)
    exact ⟨cpu.memory.hasBanks.select _ hnumber, cpu.memory.peek_select _⟩

/-- `OUT 0FEH` with a cleared accumulator leads from bank three to bank zero. -/
theorem step_stores_in_active_bank_out :
    let commands : List (Cpu.Command Unit) := [.select 3, .loadProgram [0xD3, 0xFE] 0x0100]
    let cpu := commands.foldl Cpu.perform (Cpu.new ())
    cpu.memory.active.val = 3 ∧ cpu.next.memory.active.val = 0 := by
  intro commands cpu
  have hmemory : cpu.memory = ((Memory.blank.select 3).load [0xD3, 0xFE] 0x0100).2 := rfl
  have hactive : cpu.memory.active.val = 3 := by
    rw [hmemory, Memory.active_load]
    exact (Memory.hasBanks _).select 3 (by decide)
  have hholds : cpu.memory.Holds cpu.registers.pc (Instruction.output Ports.bankSelect).encode := by
    rw [hmemory]
    exact Memory.holds_load (by decide)
  have hinstruction := Cpu.instruction_of_holds hholds
  have ha : cpu.registers.a = 0 := rfl
  obtain ⟨-, -, -, -, -, -, hselect⟩ := step_stores_in_active_bank () commands
  refine ⟨hactive, ?_⟩
  rw [(hselect rfl hinstruction).1, ha]
  rfl

end Banked8085
