import Banked8085.Monitor.Machine
import Banked8085.Proofs.Text.Columns

/-! # Snapshots

A snapshot consists of labels and columns of fixed widths, with the mark of a halted processor at
the end. All that it is made of can be told from it: the registers (`Registers.text_inj`), the flags
(`Flags.text_inj`), the active bank, and whether the processor is halted (`snapshot_tells_state`).
-/

namespace Banked8085
set_option autoImplicit false

/-! ## Registers and flags -/

namespace Registers
variable {r s : Registers}

/-- The labels and columns of the text. -/
def pieces (r : Registers) : List (List Char) :=
  ["A:".toList, Hex.fixed 2 r.a.toNat, " B:".toList, Hex.fixed 2 r.b.toNat,
    " C:".toList, Hex.fixed 2 r.c.toNat, " D:".toList, Hex.fixed 2 r.d.toNat,
    " E:".toList, Hex.fixed 2 r.e.toNat, " H:".toList, Hex.fixed 2 r.h.toNat,
    " L:".toList, Hex.fixed 2 r.l.toNat, "\nSP:".toList, Hex.fixed 4 r.sp.toNat,
    " PC:".toList, Hex.fixed 4 r.pc.toNat]

theorem tabular_text : Tabular (fun r : Registers => r.text.toList) pieces where
  eq_flatten r := by
    delta text
    simp only [pieces, Hex.byte, Hex.word, String.toList_append, String.toList_ofList,
      List.flatten_cons, List.flatten_nil, List.append_nil, List.append_assoc]
  widths r s := by
    simp only [pieces, List.map_cons, List.map_nil, Hex.length_fixed]

theorem text_inj : r.text = s.text ↔ r = s := by
  rw [← String.toList_inj, tabular_text.eq_iff]
  cases r
  cases s
  simp [pieces, Hex.fixed_byte_inj, Hex.fixed_word_inj]

end Registers

namespace Flags
variable {f g : Flags}

theorem bitText_inj {x y : Bool} : (bitText x).toList = (bitText y).toList ↔ x = y := by
  cases x <;> cases y <;> decide

theorem length_bitText (x : Bool) : (bitText x).toList.length = 1 := by
  cases x <;> rfl

def pieces (f : Flags) : List (List Char) :=
  ["S:".toList, (bitText f.sign).toList, " Z:".toList, (bitText f.zero).toList,
    " AC:".toList, (bitText f.auxCarry).toList, " P:".toList, (bitText f.parity).toList,
    " CY:".toList, (bitText f.carry).toList]

theorem tabular_text : Tabular (fun f : Flags => f.text.toList) pieces where
  eq_flatten f := by
    delta text
    simp only [pieces, String.toList_append, List.flatten_cons, List.flatten_nil,
      List.append_nil, List.append_assoc]
  widths f g := by
    simp only [pieces, List.map_cons, List.map_nil, length_bitText]

theorem text_inj : f.text = g.text ↔ f = g := by
  rw [← String.toList_inj, tabular_text.eq_iff]
  cases f
  cases g
  simp [pieces, bitText_inj]

end Flags

/-! ## Machines -/

theorem toList_bank (b : Bank) : (toString b.val).toList = [Nat.digitChar b.val] :=
  Nat.toList_repr.trans (Nat.toDigits_of_lt_base (by omega))

theorem bank_inj {b c : Bank} : Nat.digitChar b.val = Nat.digitChar c.val ↔ b = c := by
  revert b c
  decide

namespace Monitor.Machine
variable {τ : Type}

/-- All of the text but the mark of a halted processor. -/
def pieces (machine : Machine τ) : List (List Char) :=
  [machine.cpu.registers.text.toList, "\n".toList, machine.cpu.flags.text.toList,
    "\nBANK:".toList, [Nat.digitChar machine.cpu.memory.active.val]]

def haltMark (machine : Machine τ) : String := if machine.cpu.halted then " HALTED" else ""

theorem toList_snapshot (machine : Machine τ) :
    machine.snapshot.toList = machine.pieces.flatten ++ machine.haltMark.toList := by
  delta snapshot haltMark
  simp only [pieces, String.toList_append, toList_bank, List.flatten_cons, List.flatten_nil,
    List.append_nil, List.append_assoc]

theorem tabular_pieces : Tabular (fun machine : Machine τ => machine.pieces.flatten) pieces where
  eq_flatten _ := rfl
  widths first second := by
    simp only [pieces, List.map_cons, List.map_nil, List.length_cons, List.length_nil,
      Registers.tabular_text.length_eq first.cpu.registers second.cpu.registers,
      Flags.tabular_text.length_eq first.cpu.flags second.cpu.flags]

theorem pieces_inj {first second : Machine τ} :
    first.pieces = second.pieces ↔
      first.cpu.registers = second.cpu.registers ∧ first.cpu.flags = second.cpu.flags ∧
        first.cpu.memory.active = second.cpu.memory.active := by
  simp only [pieces, List.cons.injEq, String.toList_inj, Registers.text_inj, Flags.text_inj,
    bank_inj, true_and, and_true]

theorem haltMark_inj {first second : Machine τ} :
    first.haltMark = second.haltMark ↔ first.cpu.halted = second.cpu.halted := by
  unfold haltMark
  cases first.cpu.halted <;> cases second.cpu.halted <;> decide

/-- Two snapshots are the same text exactly if the machines agree on the registers, the flags, the
active bank and whether they are halted. -/
theorem snapshot_tells_state (first second : Machine τ) :
    first.snapshot = second.snapshot ↔
      first.cpu.registers = second.cpu.registers ∧ first.cpu.flags = second.cpu.flags ∧
        first.cpu.memory.active = second.cpu.memory.active ∧
        first.cpu.halted = second.cpu.halted := by
  rw [← String.toList_inj, toList_snapshot, toList_snapshot,
    List.append_eq_append_iff_of_size_eq_left (tabular_pieces.length_eq first second),
    tabular_pieces.eq_iff, pieces_inj, String.toList_inj, haltMark_inj, and_assoc, and_assoc]

end Monitor.Machine
end Banked8085
