import Banked8085.Memory.Basic
import Banked8085.Proofs.Text.Columns

/-! # Dumps show the active bank

A dump consists of rows, and a row of columns (`DumpsRow`): an address and sixteen bytes, which can
be told from the text. Two dumps are therefore equal exactly if they show the same bytes at the same
addresses (`dump_eq_iff`), and from 4096 rows on all addresses of the bank are shown
(`shown_of_le`).
-/

namespace Banked8085.Memory
set_option autoImplicit false

/-- The address of a position, a colon, and the bytes of the active bank from there on, with a blank
in front of each. Positions count on behind the end of the bank, where addresses wrap. -/
inductive DumpsRow (m : Memory) (position : Nat) : List Char → Prop
  | columns {address : List Char} {cells : List (List Char)}
    (haddress : Hex.Column 4 address (position % 65536)) (hcount : cells.length = 16)
    (hcells : ∀ j cell, cells[j]? = some cell →
      Hex.Column 2 cell (m.read (UInt16.ofNat (position + j))).toNat) :
    DumpsRow m position (address ++ ':' :: cells.flatMap (' ' :: ·))

/-- The addresses in a dump. -/
def Shown (start : Word) (rows : Nat) (address : Word) : Prop :=
  ∃ i < rows, ∃ j < 16, address = UInt16.ofNat (start.toNat + 16 * i + j)

variable {m n : Memory} {start start' : Word} {rows rows' : Nat}

theorem add_ofNat (start : Word) (k : Nat) :
    start + UInt16.ofNat k = UInt16.ofNat (start.toNat + k) := by
  rw [UInt16.ofNat_add, UInt16.ofNat_toNat]

theorem shown_of_le (h : 4096 ≤ rows) (start address : Word) : Shown start rows address := by
  have hk := (address - start).toNat_lt
  refine ⟨(address - start).toNat / 16, by omega, (address - start).toNat % 16,
    Nat.mod_lt _ (by decide), ?_⟩
  rw [Nat.add_assoc, Nat.div_add_mod, ← add_ofNat, UInt16.ofNat_toNat, UInt16.add_comm,
    UInt16.sub_add_cancel]

/-! ## Rows -/

theorem dumpsRow_dumpRow (m : Memory) (position : Nat) :
    DumpsRow m position (m.dumpRow (UInt16.ofNat position)) := by
  let cells := (List.range 16).map fun j =>
    Hex.fixed 2 (m.read (UInt16.ofNat position + UInt16.ofNat j)).toNat
  have hrow : m.dumpRow (UInt16.ofNat position) =
      Hex.fixed 4 (UInt16.ofNat position).toNat ++ ':' :: cells.flatMap (' ' :: ·) := by
    rw [dumpRow, List.flatMap_map]
  rw [hrow]
  refine .columns ?_ (by simp [cells]) fun j cell hcell => ?_
  · rw [← UInt16.toNat_ofNat']
    exact Hex.column_word _
  · obtain ⟨i, hi, rfl⟩ := Option.map_eq_some_iff.1 (List.getElem?_map.symm.trans hcell)
    obtain ⟨-, rfl⟩ := List.getElem?_eq_some_iff.1 hi
    rw [List.getElem_range, ← UInt16.ofNat_add]
    exact Hex.column_byte _

theorem DumpsRow.not_mem {position : Nat} {line : List Char} (h : DumpsRow m position line) :
    '\n' ∉ line := by
  cases h with
  | @columns address cells haddress hcount hcells =>
    simp only [List.mem_append, List.mem_cons, List.mem_flatMap, not_or]
    refine ⟨haddress.not_mem (by decide), by decide, ?_⟩
    rintro ⟨cell, hmem, hblank | hbyte⟩
    · exact absurd hblank (by decide)
    · obtain ⟨j, hj⟩ := List.mem_iff_getElem?.1 hmem
      exact (hcells j cell hj).not_mem (by decide) hbyte

/-- A row tells its address and its bytes. -/
theorem dumpRow_eq_iff :
    m.dumpRow start = n.dumpRow start' ↔
      start = start' ∧
        ∀ j < 16, m.read (start + UInt16.ofNat j) = n.read (start + UInt16.ofNat j) := by
  have hlength : (Hex.fixed 4 start.toNat).length = (Hex.fixed 4 start'.toNat).length := by
    rw [Hex.length_fixed, Hex.length_fixed]
  rw [dumpRow, dumpRow, List.append_eq_append_iff_of_size_eq_left hlength, Hex.fixed_word_inj,
    List.cons_inj_right, flatMap_inj_of_length (by simp)]
  refine and_congr_right fun hstart => ?_
  subst hstart
  simp only [List.mem_range, List.cons_inj_right, Hex.fixed_byte_inj]

/-! ## Dumps -/

def dumpRows (m : Memory) (start : Word) (rows : Nat) : List (List Char) :=
  (List.range rows).map fun i => m.dumpRow (UInt16.ofNat (start.toNat + 16 * i))

theorem toList_dump (m : Memory) (start : Word) (rows : Nat) :
    (m.dump start rows).toList = ['\n'].intercalate (m.dumpRows start rows) := by
  simp only [dump, dumpRows, String.toList_ofList, add_ofNat]

theorem forall_dumpRows (m : Memory) (start : Word) (rows : Nat) :
    ∀ line ∈ m.dumpRows start rows, line ≠ [] ∧ '\n' ∉ line := by
  intro line hmem
  obtain ⟨i, -, rfl⟩ := List.mem_map.1 hmem
  exact ⟨List.ne_nil_of_length_eq_add_one (length_dumpRow m _), (dumpsRow_dumpRow m _).not_mem⟩

/-- A dump tells how many rows it has, where it starts, and the byte at every address in it. -/
theorem dump_eq_iff :
    m.dump start rows = n.dump start' rows' ↔
      rows = rows' ∧ (0 < rows → start = start') ∧
        ∀ address, Shown start rows address → m.read address = n.read address := by
  rw [← String.toList_inj, toList_dump, toList_dump,
    intercalate_inj (forall_dumpRows m start rows) (forall_dumpRows n start' rows')]
  constructor
  · intro h
    have hcount : rows = rows' := by simpa [dumpRows] using congrArg List.length h
    subst hcount
    have hrow : ∀ i < rows, m.dumpRow (UInt16.ofNat (start.toNat + 16 * i)) =
        n.dumpRow (UInt16.ofNat (start'.toNat + 16 * i)) := fun i hi =>
      List.map_inj_left.1 h i (List.mem_range.2 hi)
    refine ⟨rfl, fun hpos => ?_, ?_⟩
    · have hfirst := (dumpRow_eq_iff.1 (hrow 0 hpos)).1
      rwa [Nat.mul_zero, Nat.add_zero, Nat.add_zero, UInt16.ofNat_toNat, UInt16.ofNat_toNat]
        at hfirst
    · rintro _ ⟨i, hi, j, hj, rfl⟩
      rw [UInt16.ofNat_add]
      exact (dumpRow_eq_iff.1 (hrow i hi)).2 j hj
  · rintro ⟨rfl, hstart, hbytes⟩
    refine List.map_congr_left fun i hmem => ?_
    have hi : i < rows := List.mem_range.1 hmem
    obtain rfl := hstart (Nat.zero_lt_of_lt hi)
    refine dumpRow_eq_iff.2 ⟨rfl, fun j hj => ?_⟩
    rw [← UInt16.ofNat_add]
    exact hbytes _ ⟨i, hi, j, hj, rfl⟩

/-- A dump consists of as many lines as asked for, each of 53 characters: the address, which wraps
at the end of the bank, and sixteen bytes of the active bank. Two dumps are equal exactly if they
have as many rows, begin at the same address and show the same bytes there; 4096 rows from any
address on show the whole bank. -/
theorem dump_shows_active_bank (m : Memory) (start : Word) (rows : Nat) :
    (∃ lines, (m.dump start rows).toList = ['\n'].intercalate lines ∧ lines.length = rows ∧
      ∀ i line, lines[i]? = some line →
        line.length = 53 ∧ '\n' ∉ line ∧ DumpsRow m (start.toNat + 16 * i) line) ∧
    (∀ (n : Memory) start' rows', m.dump start rows = n.dump start' rows' ↔
      rows = rows' ∧ (0 < rows → start = start') ∧
        ∀ address, Shown start rows address → m.read address = n.read address) ∧
    ∀ (n : Memory) start', 4096 ≤ rows → m.dump start rows = n.dump start' rows →
      ∀ address, m.read address = n.read address := by
  refine ⟨⟨m.dumpRows start rows, toList_dump m start rows, by simp [dumpRows], ?_⟩,
    fun n start' rows' => dump_eq_iff, fun n start' hrows h address => ?_⟩
  · intro i line hline
    obtain ⟨k, hk, rfl⟩ := Option.map_eq_some_iff.1 (List.getElem?_map.symm.trans hline)
    obtain ⟨-, rfl⟩ := List.getElem?_eq_some_iff.1 hk
    rw [List.getElem_range]
    have hrow := dumpsRow_dumpRow m (start.toNat + 16 * i)
    exact ⟨length_dumpRow m _, hrow.not_mem, hrow⟩
  · exact (dump_eq_iff.1 h).2.2 address (shown_of_le hrows start address)

/-- A row that wraps shows the byte at address seven and not the one at address eight. With the
other rows of the bank behind it, the dump shows both. -/
theorem dump_shows_active_bank_wrapped :
    let m := Memory.blank.write 7 0xAB
    let n := Memory.blank.write 8 0xAB
    m.dump 0xFFF8 1 ≠ Memory.blank.dump 0xFFF8 1 ∧ n.dump 0xFFF8 1 = Memory.blank.dump 0xFFF8 1 ∧
      n.dump 0xFFF8 4096 ≠ Memory.blank.dump 0xFFF8 4096 := by
  intro m n
  have hblank : ∀ address, Memory.blank.read address = 0 := fun address => peek_blank _ address
  have hm : m.read 7 ≠ Memory.blank.read 7 := by
    rw [read_write, if_pos rfl, hblank]
    decide
  have hn : ∀ address, n.read address = Memory.blank.read address ↔ address ≠ 8 := by
    intro address
    rw [read_write, hblank]
    by_cases h : (8 : Word) = address
    · rw [if_pos h]
      exact iff_of_false (by decide) fun hne => hne h.symm
    · rw [if_neg h]
      exact iff_of_true rfl fun heq => h heq.symm
  refine ⟨fun h => ?_, ?_, fun h => ?_⟩
  · have hbytes := (((dump_shows_active_bank m 0xFFF8 1).2.1 _ _ _).1 h).2.2
    exact hm (hbytes 7 ⟨0, by decide, 15, by decide, rfl⟩)
  · refine ((dump_shows_active_bank n 0xFFF8 1).2.1 _ _ _).2 ⟨rfl, fun _ => rfl, ?_⟩
    rintro _ ⟨i, hi, j, hj, rfl⟩
    have hshown : ∀ i < 1, ∀ j < 16,
        UInt16.ofNat ((0xFFF8 : Word).toNat + 16 * i + j) ≠ 8 := by decide
    exact (hn _).2 (hshown i hi j hj)
  · have hbytes := (dump_shows_active_bank n 0xFFF8 4096).2.2 _ _ (by decide) h 8
    exact (hn 8).1 hbytes rfl

end Banked8085.Memory
