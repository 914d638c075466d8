import Banked8085.Assembler.Assembly
import Banked8085.Cpu.Basic
import Banked8085.Proofs.Results

/-! # Images padded with zeros

A program can be loaded at its origin or, with zeros in front, at address zero. Both write the same
bytes at and above the origin and drop the same bytes behind the end of the bank. Below the origin
only the padded image writes, so the two agree exactly where zeros were there before
(`load_padded_eq_iff`).
-/

namespace Banked8085
set_option autoImplicit false

namespace Memory
variable (m : Memory) (data : List Byte) (start : Word)

theorem peek_load_padded (bank : Bank) (address : Word) :
    (m.load (List.replicate start.toNat 0 ++ data) 0).2.peek bank address =
      if m.active = bank ∧ address.toNat < start.toNat then 0
      else (m.load data start).2.peek bank address := by
  have hlength : (List.replicate start.toNat (0 : Byte)).length = start.toNat :=
    List.length_replicate
  rw [peek_load, peek_load]
  by_cases hbank : m.active = bank
  · have hreach : (0 : Word).toNat ≤ address.toNat := Nat.zero_le _
    rw [if_pos ⟨hbank, hreach⟩, UInt16.toNat_zero, Nat.sub_zero]
    by_cases hbelow : address.toNat < start.toNat
    · rw [if_pos ⟨hbank, hbelow⟩, List.getElem?_append_left (hlength.symm ▸ hbelow),
        List.getElem?_replicate_of_lt hbelow, Option.getD_some]
    · have habove : start.toNat ≤ address.toNat := Nat.le_of_not_lt hbelow
      rw [if_neg fun h => hbelow h.2, if_pos ⟨hbank, habove⟩,
        List.getElem?_append_right (hlength.symm ▸ habove), hlength]
  · rw [if_neg fun h => hbank h.1, if_neg fun h => hbank h.1, if_neg fun h => hbank h.1]

/-- Padding does not show exactly if there are zeros below the start already. -/
theorem load_padded_eq_iff :
    (m.load (List.replicate start.toNat 0 ++ data) 0).2 = (m.load data start).2 ↔
      ∀ address : Word, address.toNat < start.toNat → m.read address = 0 := by
  constructor
  · intro heq address hbelow
    have hpeek := m.peek_load_padded data start m.active address
    rw [heq, if_pos ⟨rfl, hbelow⟩, peek_load, if_neg fun h => Nat.not_le_of_lt hbelow h.2] at hpeek
    exact hpeek
  · intro hzero
    refine ext_peek (by rw [active_load, active_load]) fun bank address => ?_
    rw [peek_load_padded]
    split
    case isTrue h =>
      obtain ⟨rfl, hbelow⟩ := h
      rw [peek_load, if_neg fun h => Nat.not_le_of_lt hbelow h.2]
      exact (hzero address hbelow).symm
    case isFalse => rfl

end Memory

namespace Assembler

/-- With zeros in all cells, whichever bank is active, it makes no difference to any cell whether a
program is loaded with its padding at address zero or without it at its origin. The counts say how
much fits: with the padding up to a whole bank, without it the cells from the origin on. What fits
stands at its address, and every other cell is zero. -/
theorem padded_and_placed_agree {σ : Type} (assembly : Assembly) (cpu : Cpu σ)
    (hzero : ∀ bank address, cpu.memory.peek bank address = 0) :
    let padded := cpu.load assembly.imageFromZero 0
    let placed := cpu.load assembly.bytes assembly.origin
    padded.2 = placed.2 ∧
      padded.1 = min 65536 (assembly.origin.toNat + assembly.bytes.length) ∧
      placed.1 = min (65536 - assembly.origin.toNat) assembly.bytes.length ∧
      ∀ bank address, padded.2.memory.peek bank address =
        if cpu.memory.active = bank ∧ assembly.origin.toNat ≤ address.toNat then
          assembly.bytes[address.toNat - assembly.origin.toNat]?.getD 0
        else 0 := by
  intro padded placed
  have hmemory : (cpu.memory.load assembly.imageFromZero 0).2 =
      (cpu.memory.load assembly.bytes assembly.origin).2 :=
    (cpu.memory.load_padded_eq_iff _ _).2 fun address _ => hzero _ address
  have hagree : padded.2 = placed.2 := congrArg (fun memory => { cpu with memory }) hmemory
  have hlength : assembly.imageFromZero.length =
      assembly.origin.toNat + assembly.bytes.length := by
    rw [Assembly.imageFromZero, List.length_append, List.length_replicate]
  refine ⟨hagree, ?_, Nat.min_comm _ _, ?_⟩
  · show min assembly.imageFromZero.length 65536 = _
    rw [hlength, Nat.min_comm]
  · intro bank address
    rw [hagree]
    show (cpu.memory.load _ _).2.peek bank address = _
    rw [Memory.peek_load, hzero]

/-- An image that reaches past the end of bank five: with its padding it fills the bank, without it
one byte of two fits. -/
theorem padded_and_placed_agree_top :
    let cpu : Cpu Unit := { ports := { device := () }, memory := Memory.blank.select 5 }
    ∃ assembly, assemble " ORG FFH\n DW 1234H\nFFH EQU 0FFFFH" = .ok assembly ∧
      (cpu.load assembly.imageFromZero 0).2 = (cpu.load assembly.bytes assembly.origin).2 ∧
      (cpu.load assembly.imageFromZero 0).1 = 65536 ∧
      (cpu.load assembly.bytes assembly.origin).1 = 1 ∧
      (cpu.load assembly.imageFromZero 0).2.memory.readBank 5 0xFFFF = 0x34 ∧
      (cpu.load assembly.imageFromZero 0).2.memory.readBank 5 0x0000 = 0 := by
  intro cpu
  obtain ⟨assembly, h, horigin, hbytes⟩ : ∃ assembly,
      assemble " ORG FFH\n DW 1234H\nFFH EQU 0FFFFH" = .ok assembly ∧
        assembly.origin = 0xFFFF ∧ assembly.bytes = [0x34, 0x12] := by
    refine ⟨_, eq_ok_get (by decide +kernel), ?_⟩
    decide +kernel
  have hzero : ∀ bank address, cpu.memory.peek bank address = 0 := fun bank address =>
    (Memory.peek_select ..).trans (Memory.peek_blank bank address)
  have hactive : cpu.memory.active = (⟨5, by decide⟩ : Bank) := rfl
  obtain ⟨hagree, hpadded, hplaced, hcells⟩ := padded_and_placed_agree assembly cpu hzero
  refine ⟨assembly, h, hagree, ?_, ?_, ?_, ?_⟩
  · rw [hpadded, horigin, hbytes]
    rfl
  · rw [hplaced, horigin, hbytes]
    rfl
  · rw [Memory.readBank, dif_pos (by decide), hcells, hactive, horigin, hbytes]
    rfl
  · rw [Memory.readBank, dif_pos (by decide), hcells, hactive, horigin, hbytes]
    rfl

end Assembler
end Banked8085
