import Banked8085.Proofs.Execution.Fetch

/-! # Operands by their bytes

What the operands of instructions stand for, by the fields of the register file and by single cells
of the active bank. Nothing here goes through the processor's own ways of reading its operands; the
equations at the end (`Operand.byte_eq` and so on) say that these agree.
-/

namespace Banked8085
set_option autoImplicit false

namespace Operand
variable {σ : Type}

/-- The word with these bytes. -/
def word (high low : Byte) : Word := UInt16.ofNat (256 * high.toNat + low.toNat)

def upper (value : Word) : Byte := UInt8.ofNat (value.toNat / 256)

def lower (value : Word) : Byte := UInt8.ofNat (value.toNat % 256)

/-! ## Registers -/

def register (r : Registers) : Register → Byte
  | .a => r.a
  | .b => r.b
  | .c => r.c
  | .d => r.d
  | .e => r.e
  | .h => r.h
  | .l => r.l

def pair (r : Registers) : Pair → Word
  | .bc => word r.b r.c
  | .de => word r.d r.e
  | .hl => word r.h r.l

def wide (r : Registers) : WidePair → Word
  | .pair p => pair r p
  | .sp => r.sp

def pointer (r : Registers) : PointerPair → Word
  | .bc => word r.b r.c
  | .de => word r.d r.e

/-! ## Memory -/

def cell (cpu : Cpu σ) (address : Word) : Byte := cpu.memory.peek cpu.memory.active address

/-- The word in two cells, the low byte first. The address wraps. -/
def cells (cpu : Cpu σ) (address : Word) : Word :=
  word (cell cpu (address + 1)) (cell cpu address)

/-- A byte operand: a register, or the cell of the active bank at `HL`. -/
def byte (cpu : Cpu σ) : Location → Byte
  | .register r => register cpu.registers r
  | .memory => cell cpu (pair cpu.registers .hl)

/-! ## Flags -/

/-- The packed flags, from the highest bit down. -/
def status (flags : Flags) : Byte :=
  [flags.sign, flags.zero, false, flags.auxCarry, false, flags.parity, true, flags.carry].foldl
    (fun value bit => 2 * value + if bit then 1 else 0) 0

/-- The flags in a packed byte. -/
def flags (status : Byte) : Flags where
  sign := decide (status.toNat / 128 % 2 = 1)
  zero := decide (status.toNat / 64 % 2 = 1)
  auxCarry := decide (status.toNat / 16 % 2 = 1)
  parity := decide (status.toNat / 4 % 2 = 1)
  carry := decide (status.toNat % 2 = 1)

/-- The number of bits that are set. -/
def ones (value : Byte) : Nat :=
  [1, 2, 4, 8, 16, 32, 64, 128].countP fun place => decide (value.toNat / place % 2 = 1)

/-- The flags that show a result, with these carries. -/
def shown (result : Byte) (auxCarry carry : Bool) : Flags where
  sign := decide (128 ≤ result.toNat)
  zero := decide (result.toNat = 0)
  auxCarry := auxCarry
  parity := decide (ones result % 2 = 0)
  carry := carry

/-- The upper and the lower byte of an operand of a push: of a register pair, or the accumulator and
the packed flags. -/
def pushed (cpu : Cpu σ) : StackPair → Byte × Byte
  | .pair .bc => (cpu.registers.b, cpu.registers.c)
  | .pair .de => (cpu.registers.d, cpu.registers.e)
  | .pair .hl => (cpu.registers.h, cpu.registers.l)
  | .psw => (cpu.registers.a, status cpu.flags)

/-! ## The operands of the processor -/

theorem register_eq (r : Registers) (n : Register) : register r n = r.get n := by
  cases n <;> rfl

theorem pair_eq (r : Registers) (p : Pair) : pair r p = r.pair p := by
  cases p <;> rfl

theorem wide_eq (r : Registers) (p : WidePair) : wide r p = r.wide p := by
  cases p with
  | pair p => exact pair_eq r p
  | sp => rfl

theorem pointer_eq (r : Registers) (p : PointerPair) : pointer r p = r.pair p.pair := by
  cases p <;> rfl

theorem byte_eq (cpu : Cpu σ) (l : Location) : byte cpu l = cpu.get l := by
  cases l with
  | register r => exact register_eq cpu.registers r
  | memory => rfl

theorem status_eq (f : Flags) : status f = f.pack := by
  obtain ⟨s, z, a, p, c⟩ := f
  cases s <;> cases z <;> cases a <;> cases p <;> cases c <;> rfl

theorem flags_eq (b : Byte) : flags b = .unpack b := by
  simp [flags, Flags.unpack, Byte.bit, Nat.testBit_eq_decide_div_mod_eq]

theorem shown_eq (f : Flags) (result : Byte) (auxCarry carry : Bool) :
    shown result auxCarry carry = { f with auxCarry, carry }.ofResult result := by
  have hsign : decide (128 ≤ result.toNat) = result.bit 7 := by
    have hresult := result.toNat_lt
    rw [Byte.bit, Nat.testBit_eq_decide_div_mod_eq, decide_eq_decide]
    omega
  have hzero : decide (result.toNat = 0) = (result == 0) := by
    rw [Bool.eq_iff_iff, decide_eq_true_iff, beq_iff_eq, ← UInt8.toNat_inj]
    rfl
  have hplaces : [1, 2, 4, 8, 16, 32, 64, 128] = (List.range 8).map (2 ^ ·) := rfl
  have hbits : (fun i => decide (result.toNat / 2 ^ i % 2 = 1)) = result.bit := by
    funext i
    exact Nat.testBit_eq_decide_div_mod_eq.symm
  have hparity : decide (ones result % 2 = 0) = result.evenParity := by
    rw [ones, hplaces, List.countP_map]
    exact congrArg (fun bit => decide ((List.range 8).countP bit % 2 = 0)) hbits
  rw [shown, hsign, hzero, hparity]
  rfl

theorem upper_eq (value : Word) : upper value = value.high := rfl

theorem lower_eq (value : Word) : lower value = value.low := by
  rw [← UInt8.toNat_inj, Word.toNat_low, lower, UInt8.toNat_ofNat']
  omega

theorem pushed_eq (cpu : Cpu σ) (p : StackPair) :
    pushed cpu p = ((cpu.stackPair p).high, (cpu.stackPair p).low) := by
  cases p with
  | pair p =>
    rw [Cpu.stackPair, Registers.pair, Word.high_ofBytes, Word.low_ofBytes]
    cases p <;> rfl
  | psw =>
    rw [Cpu.stackPair, Word.high_ofBytes, Word.low_ofBytes, ← status_eq]
    rfl

end Operand
end Banked8085
