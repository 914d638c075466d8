import Banked8085.Text.Hex

/-! # Banked memory

Eight banks of 65536 bytes, one of which is active:

* `Memory.peek`, `Memory.poke`: one cell of a named bank;
* `Memory.read`, `Memory.write`: one cell of the active bank, and `readWord`, `writeWord` for a
  word with its low byte first;
* `Memory.readBank`, `Memory.writeBank`, `Memory.select`: the same with a bank number that may be
  out of range, which reads zero and changes nothing;
* `Memory.load`: a block of bytes into the active bank, cut off at its end, with the number of bytes
  that were copied;
* `Memory.dump`: the active bank in rows of sixteen bytes, each led by its address.

`peek` is the view through which memories are compared (`Memory.ext_peek`).
-/

namespace Banked8085
set_option autoImplicit false

abbrev Bank := Fin 8

namespace Memory

def cellCount : Nat := 524288

/-- The position of a cell: banks follow each other, addresses ascend within a bank. -/
def cellIndex (bank : Bank) (address : Word) : Nat := 65536 * bank.val + address.toNat

theorem cellIndex_lt (bank : Bank) (address : Word) : cellIndex bank address < cellCount := by
  have hb := bank.isLt
  have ha := address.toNat_lt
  simp only [cellIndex, cellCount]
  omega

theorem cellIndex_inj {b c : Bank} {a d : Word} (h : cellIndex b a = cellIndex c d) :
    b = c ∧ a = d := by
  have ha := a.toNat_lt
  have hd := d.toNat_lt
  simp only [cellIndex] at h
  exact ⟨Fin.ext (by omega), UInt16.toNat_inj.1 (by omega)⟩

end Memory

/-- The contents of all banks and the number of the active one. -/
structure Memory where
  cells : Vector Byte Memory.cellCount
  active : Bank

namespace Memory

def blank : Memory := ⟨Vector.replicate cellCount 0, 0⟩

instance : Inhabited Memory := ⟨blank⟩

/-! ## Single cells -/

def peek (m : Memory) (bank : Bank) (address : Word) : Byte :=
  have h := cellIndex_lt bank address
  m.cells[cellIndex bank address]

def poke (m : Memory) (bank : Bank) (address : Word) (value : Byte) : Memory :=
  { m with cells := m.cells.set (cellIndex bank address) value (cellIndex_lt bank address) }

@[simp] theorem peek_blank (bank : Bank) (address : Word) : blank.peek bank address = 0 := by
  simp [peek, blank]

@[simp] theorem active_blank : blank.active = 0 := rfl

theorem peek_poke (m : Memory) (b c : Bank) (a d : Word) (value : Byte) :
    (m.poke b a value).peek c d = if b = c ∧ a = d then value else m.peek c d := by
  simp only [peek, poke, Vector.getElem_set]
  by_cases h : cellIndex b a = cellIndex c d
  · simp [cellIndex_inj h]
  · rw [if_neg h, if_neg]
    rintro ⟨rfl, rfl⟩
    exact h rfl

@[simp] theorem active_poke (m : Memory) (b : Bank) (a : Word) (value : Byte) :
    (m.poke b a value).active = m.active := rfl

theorem ext_peek {m n : Memory} (hactive : m.active = n.active)
    (hpeek : ∀ b a, m.peek b a = n.peek b a) : m = n := by
  obtain ⟨cells, active⟩ := m
  obtain ⟨cells', active'⟩ := n
  obtain rfl : active = active' := hactive
  congr 1
  apply Vector.ext
  intro i hi
  have hi' : i < 524288 := hi
  have h := hpeek ⟨i / 65536, by omega⟩ (UInt16.ofNat i)
  have e : cellIndex ⟨i / 65536, by omega⟩ (UInt16.ofNat i) = i := by
    simp only [cellIndex, UInt16.toNat_ofNat']
    omega
  simp only [peek, e] at h
  exact h

/-! ## The active bank -/

def read (m : Memory) (address : Word) : Byte := m.peek m.active address

def write (m : Memory) (address : Word) (value : Byte) : Memory :=
  m.poke m.active address value

theorem read_write (m : Memory) (a d : Word) (value : Byte) :
    (m.write a value).read d = if a = d then value else m.read d := by
  simp [read, write, peek_poke]

@[simp] theorem active_write (m : Memory) (a : Word) (value : Byte) :
    (m.write a value).active = m.active := rfl

theorem peek_write (m : Memory) (a d : Word) (value : Byte) (c : Bank) :
    (m.write a value).peek c d = if m.active = c ∧ a = d then value else m.peek c d :=
  m.peek_poke _ _ _ _ _

/-- The word stored at `address`, low byte first; the address wraps. -/
def readWord (m : Memory) (address : Word) : Word :=
  Word.ofBytes (m.read (address + 1)) (m.read address)

def writeWord (m : Memory) (address : Word) (value : Word) : Memory :=
  (m.write address value.low).write (address + 1) value.high

@[simp] theorem active_writeWord (m : Memory) (a w : Word) :
    (m.writeWord a w).active = m.active := rfl

theorem succ_ne (a : Word) : a + 1 ≠ a := by
  intro h
  have h' := congrArg UInt16.toNat h
  have ha := a.toNat_lt
  rw [UInt16.toNat_add] at h'
  simp only [UInt16.reduceToNat] at h'
  omega

@[simp] theorem readWord_writeWord (m : Memory) (a w : Word) :
    (m.writeWord a w).readWord a = w := by
  simp [readWord, writeWord, read_write]

/-! ## Banks by number -/

/-- Make a bank active; a number that no bank has is ignored. -/
def select (m : Memory) (number : Nat) : Memory :=
  if h : number < 8 then { m with active := ⟨number, h⟩ } else m

/-- The byte at `address` of a bank; a bank that does not exist reads zero. -/
def readBank (m : Memory) (number : Nat) (address : Word) : Byte :=
  if h : number < 8 then m.peek ⟨number, h⟩ address else 0

/-- Replace a byte of a bank; a write to a bank that does not exist is dropped. -/
def writeBank (m : Memory) (number : Nat) (address : Word) (value : Byte) : Memory :=
  if h : number < 8 then m.poke ⟨number, h⟩ address value else m

@[simp] theorem peek_select (m : Memory) (number : Nat) (b : Bank) (a : Word) :
    (m.select number).peek b a = m.peek b a := by
  unfold select
  split <;> rfl

@[simp] theorem active_writeBank (m : Memory) (number : Nat) (a : Word) (value : Byte) :
    (m.writeBank number a value).active = m.active := by
  unfold writeBank
  split <;> rfl

/-! ## Blocks -/

/-- Write bytes to consecutive cells of the active bank from `position` on. -/
def fill (m : Memory) (position : Nat) : List Byte → Memory
  | [] => m
  | value :: rest => (m.write (UInt16.ofNat position) value).fill (position + 1) rest

/-- Copy a block to the active bank from `start` on. What does not fit below the end of the bank is
dropped; the number of bytes that were copied comes with the result. -/
def load (m : Memory) (data : List Byte) (start : Word) : Nat × Memory :=
  let count := min data.length (65536 - start.toNat)
  (count, m.fill start.toNat (data.take count))

@[simp] theorem active_fill (m : Memory) (position : Nat) (data : List Byte) :
    (m.fill position data).active = m.active := by
  induction data generalizing m position with
  | nil => rfl
  | cons value rest ih => rw [fill, ih, active_write]

@[simp] theorem active_load (m : Memory) (data : List Byte) (start : Word) :
    (m.load data start).2.active = m.active := m.active_fill _ _

/-- A filled bank holds the new byte where the block reaches and the old one elsewhere. -/
theorem peek_fill (m : Memory) {position : Nat} {data : List Byte}
    (h : position + data.length ≤ 65536) (b : Bank) (a : Word) :
    (m.fill position data).peek b a =
      if m.active = b ∧ position ≤ a.toNat then
        data[a.toNat - position]?.getD (m.peek b a)
      else m.peek b a := by
  have ha := a.toNat_lt
  induction data generalizing m position with
  | nil => simp [fill]
  | cons value rest ih =>
    rw [List.length_cons] at h
    have hn : (UInt16.ofNat position).toNat = position := by
      rw [UInt16.toNat_ofNat']
      omega
    have hEq : UInt16.ofNat position = a ↔ position = a.toNat := by
      rw [← UInt16.toNat_inj, hn]
    rw [fill, ih _ (by omega), active_write, peek_write]
    simp only [hEq]
    by_cases hb : m.active = b
    · rcases Nat.lt_trichotomy position a.toNat with h | h | h
      · have e : a.toNat - position = (a.toNat - (position + 1)) + 1 := by omega
        simp [hb, e, Nat.ne_of_lt h, Nat.le_of_lt h, Nat.succ_le_of_lt h]
      · have h₁ : ¬ a.toNat + 1 ≤ a.toNat := by omega
        simp [hb, h, h₁]
      · have h₁ : ¬ position + 1 ≤ a.toNat := by omega
        have h₂ : ¬ position = a.toNat := by omega
        have h₃ : ¬ position ≤ a.toNat := by omega
        simp [h₁, h₂, h₃]
    · simp [hb]

theorem peek_load (m : Memory) (data : List Byte) (start : Word) (b : Bank) (a : Word) :
    (m.load data start).2.peek b a =
      if m.active = b ∧ start.toNat ≤ a.toNat then
        data[a.toNat - start.toNat]?.getD (m.peek b a)
      else m.peek b a := by
  have hs := start.toNat_lt
  have ha := a.toNat_lt
  have hfits : start.toNat + (data.take (min data.length (65536 - start.toNat))).length ≤ 65536 := by
    rw [List.length_take]
    omega
  have hget : (data.take (min data.length (65536 - start.toNat)))[a.toNat - start.toNat]? =
      data[a.toNat - start.toNat]? := by
    rw [List.getElem?_take]
    split
    · rfl
    · rw [List.getElem?_eq_none (by omega)]
  rw [load, peek_fill m hfits, hget]

/-! ## Dumps -/

/-- One row: the address of its first byte, a colon and sixteen bytes. Addresses wrap at the end of
the bank. -/
def dumpRow (m : Memory) (start : Word) : List Char :=
  Hex.fixed 4 start.toNat ++ ':' :: (List.range 16).flatMap fun i =>
    ' ' :: Hex.fixed 2 (m.read (start + UInt16.ofNat i)).toNat

def dump (m : Memory) (start : Word) (rows : Nat) : String :=
  String.ofList (List.intercalate ['\n']
    ((List.range rows).map fun i => m.dumpRow (start + UInt16.ofNat (16 * i))))

@[simp] theorem length_dumpRow (m : Memory) (start : Word) : (m.dumpRow start).length = 53 := by
  simp [dumpRow, List.range_succ]

end Memory
end Banked8085
