import Banked8085.Word

/-! # The flag register

Five condition flags and their packed form, the low byte of the processor status word:

* `Flags.pack`, `Flags.unpack`: sign in bit 7, zero in bit 6, auxiliary carry in bit 4, parity in
  bit 2 and carry in bit 0; bit 1 always reads as one;
* `Flags.ofResult`: sign, zero and parity as an eight-bit result sets them.
-/

namespace Banked8085
set_option autoImplicit false

/-- The condition flags. All are clear after a reset. -/
structure Flags where
  sign : Bool := false
  zero : Bool := false
  auxCarry : Bool := false
  parity : Bool := false
  carry : Bool := false
deriving DecidableEq, Repr, Inhabited

namespace Flags

/-- Sign, zero and parity of a result; both carries stay. -/
def ofResult (flags : Flags) (result : Byte) : Flags :=
  { flags with sign := result.bit 7, zero := result == 0, parity := result.evenParity }

/-- Sign, zero and parity of a result, with both carries cleared. -/
def ofLogicResult (flags : Flags) (result : Byte) : Flags :=
  { flags.ofResult result with carry := false, auxCarry := false }

def pack (flags : Flags) : Byte :=
  UInt8.ofNat (128 * flags.sign.toNat + 64 * flags.zero.toNat + 16 * flags.auxCarry.toNat +
    4 * flags.parity.toNat + 2 + flags.carry.toNat)

/-- The flags in a packed byte; its other bits do not count. -/
def unpack (b : Byte) : Flags :=
  { sign := b.bit 7, zero := b.bit 6, auxCarry := b.bit 4, parity := b.bit 2, carry := b.bit 0 }

@[simp] theorem unpack_pack (flags : Flags) : unpack flags.pack = flags := by
  obtain ⟨s, z, a, p, c⟩ := flags
  cases s <;> cases z <;> cases a <;> cases p <;> cases c <;> rfl

def bitText (flag : Bool) : String := if flag then "1" else "0"

/-- The flags on one line, such as `S:0 Z:1 AC:0 P:1 CY:0`. -/
def text (flags : Flags) : String :=
  "S:" ++ bitText flags.sign ++ " Z:" ++ bitText flags.zero ++ " AC:" ++ bitText flags.auxCarry ++
    " P:" ++ bitText flags.parity ++ " CY:" ++ bitText flags.carry

end Flags
end Banked8085
