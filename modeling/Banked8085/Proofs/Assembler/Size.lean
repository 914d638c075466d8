import Banked8085.Proofs.Assembler.Build

/-! # Sizes and bytes

`Statement.extent` is the number of bytes that a statement takes, as a natural number. A statement
emits exactly that many (`length_of_emit`), whatever symbols are known when its bytes are made, and
the first pass counts them with 32 bits (`size_of_emit`). On a line that is `Line.Bounded` a counter
in the address space does not wrap.
-/

namespace Banked8085.Assembler
set_option autoImplicit false

variable {symbols : SymbolTable} {data : List Byte}

/-! ## Extents -/

def DataItem.extent : DataItem → Nat
  | .text bytes => bytes.length
  | .value _ => 1

/-- The number of bytes that a statement takes. An unknown instruction has none. -/
def Statement.extent : Statement → Nat
  | .bytes items => items.foldr (fun item total => item.extent + total) 0
  | .words values => 2 * values.length
  | .instruction mnemonic _ => (form? mnemonic).elim 0 Form.size
  | .origin _ | .constant .. | .finish => 0

def Line.extent (line : Line) : Nat := line.statement.elim 0 Statement.extent

/-- A counter of 32 bits that is at most `65536` can count the bytes of the line. -/
def Line.Bounded (line : Line) : Prop := 65536 + line.extent < 4294967296

theorem toNat_add_ofNat {counter : UInt32} {n : Nat} (h : counter.toNat + n < 4294967296) :
    (counter + UInt32.ofNat n).toNat = counter.toNat + n := by
  rw [UInt32.toNat_add, UInt32.toNat_ofNat']
  omega

theorem Line.extent_some {line : Line} {statement : Statement}
    (h : line.statement = some statement) : line.extent = statement.extent := by
  rw [extent, h]
  rfl

theorem DataItem.size_eq (item : DataItem) : item.size = UInt32.ofNat item.extent := by
  cases item with
  | text bytes => rfl
  | value v => rfl

theorem size_of_bytes (items : List DataItem) :
    items.foldr (fun item total => item.size + total) 0 =
      UInt32.ofNat (items.foldr (fun item total => item.extent + total) 0) := by
  induction items with
  | nil => rfl
  | cons item rest ih =>
    rw [List.foldr_cons, List.foldr_cons, ih, item.size_eq, UInt32.ofNat_add]

theorem size_eq_ofNat {statement : Statement} {size : UInt32} (h : statement.size = .ok size) :
    size = UInt32.ofNat statement.extent := by
  cases statement with
  | bytes items =>
    cases h
    exact size_of_bytes items
  | words values =>
    cases h
    exact (UInt32.ofNat_mul 2 values.length).symm
  | instruction mnemonic operands =>
    obtain ⟨form, hform, h⟩ := bind_eq_ok.1 h
    cases h
    rw [Statement.extent, knownForm_eq_ok.1 hform]
    rfl
  | origin value =>
    cases h
    rfl
  | constant name value =>
    cases h
    rfl
  | finish =>
    cases h
    rfl

/-! ## Bytes -/

theorem length_of_emit_item {item : DataItem} (h : item.emit symbols = .ok data) :
    data.length = item.extent := by
  cases item with
  | text bytes =>
    cases h
    rfl
  | value v =>
    obtain ⟨n, -, h⟩ := bind_eq_ok.1 h
    by_cases hlt : n < 256
    · rw [if_pos hlt] at h
      cases h
      rfl
    · rw [if_neg hlt] at h
      cases h

theorem length_of_emitWord {value : Value} (h : emitWord symbols value = .ok data) :
    data.length = 2 := by
  obtain ⟨n, -, h⟩ := bind_eq_ok.1 h
  by_cases hlt : n < 65536
  · rw [if_pos hlt] at h
    cases h
    rfl
  · rw [if_neg hlt] at h
    cases h

theorem extent_of_emitInstruction {mnemonic : List Char} {operands : List (List Char)}
    (h : emitInstruction symbols mnemonic operands = .ok data) :
    data.length = (Statement.instruction mnemonic operands).extent ∧
      ∃ size, (Statement.instruction mnemonic operands).size = .ok size := by
  obtain ⟨form, i, hform, hbuild, rfl⟩ := emitInstruction_eq_ok.1 h
  have hsize := size_of_build hform hbuild
  constructor
  · rw [Instruction.length_encode, hsize, Statement.extent, hform]
    rfl
  · exact ⟨_, bind_eq_ok.2 ⟨form, knownForm_eq_ok.2 hform, rfl⟩⟩

theorem length_of_emit {statement : Statement} (h : statement.emit symbols = .ok data) :
    data.length = statement.extent := by
  cases statement with
  | bytes items =>
    obtain ⟨chunks, hchunks, h⟩ := bind_eq_ok.1 h
    cases h
    exact length_flatten_of_mapM (fun _ _ h => length_of_emit_item h) hchunks
  | words values =>
    obtain ⟨chunks, hchunks, h⟩ := bind_eq_ok.1 h
    cases h
    have hlength := length_flatten_of_mapM (fun _ _ h => length_of_emitWord h) hchunks
    rw [hlength, foldr_const_add]
    rfl
  | instruction mnemonic operands => exact (extent_of_emitInstruction h).1
  | origin address =>
    cases h
    rfl
  | constant name value =>
    cases h
    rfl
  | finish =>
    cases h
    rfl

theorem exists_size_of_emit {statement : Statement} (h : statement.emit symbols = .ok data) :
    ∃ size, statement.size = .ok size := by
  cases statement with
  | instruction mnemonic operands => exact (extent_of_emitInstruction h).2
  | bytes items => exact ⟨_, rfl⟩
  | words values => exact ⟨_, rfl⟩
  | origin address => exact ⟨_, rfl⟩
  | constant name value => exact ⟨_, rfl⟩
  | finish => exact ⟨_, rfl⟩

theorem size_of_emit {statement : Statement} (h : statement.emit symbols = .ok data) :
    statement.size = .ok (UInt32.ofNat data.length) := by
  obtain ⟨size, hsize⟩ := exists_size_of_emit h
  rw [hsize, size_eq_ofNat hsize, length_of_emit h]

end Banked8085.Assembler
