import Banked8085.Flags

/-! # The arithmetic and logic unit

Each operation takes its operands and the flags and returns the result with the new flags:

* `Alu.add`, `Alu.subtract`, `Alu.compare`: binary arithmetic, with or without the carry;
* `Alu.and`, `Alu.xor`, `Alu.or`: bitwise operations, which clear both carries;
* `Alu.increment`, `Alu.decrement`: count by one without touching the carries;
* `Alu.addWord`: sixteen-bit addition, which changes the carry alone;
* `Alu.decimalAdjust`: packed decimal correction after an addition;
* `Alu.rotateLeft`, `Alu.rotateRight`, and both through the carry.

`AluOp` names the eight accumulator operations and `AluOp.apply` performs them.
-/

namespace Banked8085
set_option autoImplicit false

namespace Alu

/-! ## Addition and subtraction -/

/-- Add two bytes, and the carry if `withCarry`. The auxiliary carry is computed from the carry
that leaves the byte: a carry that comes in counts towards the low digit only if one goes out. -/
def add (acc value : Byte) (withCarry : Bool) (flags : Flags) : Byte × Flags :=
  let sum := acc.toNat + value.toNat + (withCarry && flags.carry).toNat
  let carry := decide (255 < sum)
  let digit := acc.toNat % 16 + value.toNat % 16 + (withCarry && carry).toNat
  let result := UInt8.ofNat sum
  (result, { flags with carry := carry, auxCarry := decide (15 < digit) }.ofResult result)

/-- Subtract `value`, and the carry as a borrow if `withBorrow`. The carry reports a borrow, and
the auxiliary carry one out of the low digit, which again counts the outgoing borrow. -/
def subtract (acc value : Byte) (withBorrow : Bool) (flags : Flags) : Byte × Flags :=
  let taken := value.toNat + (withBorrow && flags.carry).toNat
  let borrow := decide (acc.toNat < taken)
  let digit := value.toNat % 16 + (withBorrow && borrow).toNat
  let result := UInt8.ofNat (256 + acc.toNat - taken)
  (result, { flags with carry := borrow, auxCarry := decide (acc.toNat % 16 < digit) }.ofResult
    result)

def compare (acc value : Byte) (flags : Flags) : Flags := (subtract acc value false flags).2

def addWord (left right : Word) (flags : Flags) : Word × Flags :=
  (left + right, { flags with carry := decide (65535 < left.toNat + right.toNat) })

def increment (value : Byte) (flags : Flags) : Byte × Flags :=
  let result := value + 1
  (result, flags.ofResult result)

def decrement (value : Byte) (flags : Flags) : Byte × Flags :=
  let result := value - 1
  (result, flags.ofResult result)

/-! ## Bitwise operations -/

def and (acc value : Byte) (flags : Flags) : Byte × Flags :=
  let result := acc &&& value
  (result, flags.ofLogicResult result)

def xor (acc value : Byte) (flags : Flags) : Byte × Flags :=
  let result := acc ^^^ value
  (result, flags.ofLogicResult result)

def or (acc value : Byte) (flags : Flags) : Byte × Flags :=
  let result := acc ||| value
  (result, flags.ofLogicResult result)

/-! ## Decimal adjustment -/

/-- Correct the sum of two packed decimal bytes. Six is added to a digit that is above nine or
has carried; the carry may be set and is never cleared, and the auxiliary carry is only read. -/
def decimalAdjust (acc : Byte) (flags : Flags) : Byte × Flags :=
  let low := acc.toNat % 16
  let high := acc.toNat / 16
  let adjustLow := decide (9 < low) || flags.auxCarry
  let adjustHigh := decide (9 < high) || flags.carry || (decide (9 ≤ high) && decide (9 < low))
  let result := acc + (if adjustLow then 0x06 else 0) + (if adjustHigh then 0x60 else 0)
  (result, { flags with carry := adjustHigh }.ofResult result)

/-! ## Rotations -/

def rotateLeft (acc : Byte) (flags : Flags) : Byte × Flags :=
  (UInt8.ofNat (2 * acc.toNat + acc.toNat / 128), { flags with carry := acc.bit 7 })

def rotateRight (acc : Byte) (flags : Flags) : Byte × Flags :=
  (UInt8.ofNat (acc.toNat / 2 + 128 * (acc.toNat % 2)), { flags with carry := acc.bit 0 })

def rotateLeftThrough (acc : Byte) (flags : Flags) : Byte × Flags :=
  (UInt8.ofNat (2 * acc.toNat + flags.carry.toNat), { flags with carry := acc.bit 7 })

def rotateRightThrough (acc : Byte) (flags : Flags) : Byte × Flags :=
  (UInt8.ofNat (acc.toNat / 2 + 128 * flags.carry.toNat), { flags with carry := acc.bit 0 })

end Alu

/-! ## The accumulator operations -/

inductive AluOp
  | add | adc | sub | sbb | ana | xra | ora | cmp
deriving DecidableEq, Repr, Inhabited

/-- The new accumulator and flags; a comparison keeps the accumulator. -/
def AluOp.apply (op : AluOp) (acc value : Byte) (flags : Flags) : Byte × Flags :=
  match op with
  | .add => Alu.add acc value false flags
  | .adc => Alu.add acc value true flags
  | .sub => Alu.subtract acc value false flags
  | .sbb => Alu.subtract acc value true flags
  | .ana => Alu.and acc value flags
  | .xra => Alu.xor acc value flags
  | .ora => Alu.or acc value flags
  | .cmp => (acc, Alu.compare acc value flags)

end Banked8085
