/-! # Bytes and words

The processor works on bytes and on sixteen-bit words made of two bytes:

* `Byte.bit`, `Byte.evenParity`: the bits of a byte;
* `Word.ofBytes`: the word with a given high and low byte;
* `Word.high`, `Word.low`: the two bytes of a word.

A word and its two bytes determine each other (`ofBytes_high_low`, `high_ofBytes`, `low_ofBytes`).
-/

namespace Banked8085
set_option autoImplicit false

abbrev Byte := UInt8

/-- An address, or the contents of a register pair. Arithmetic wraps at `65536`. -/
abbrev Word := UInt16

def Byte.bit (b : Byte) (i : Nat) : Bool := b.toNat.testBit i

def Byte.evenParity (b : Byte) : Bool := (List.range 8).countP b.bit % 2 == 0

namespace Word

def ofBytes (high low : Byte) : Word := UInt16.ofNat (256 * high.toNat + low.toNat)

def high (w : Word) : Byte := UInt8.ofNat (w.toNat / 256)

def low (w : Word) : Byte := UInt8.ofNat w.toNat

theorem toNat_ofBytes (h l : Byte) : (ofBytes h l).toNat = 256 * h.toNat + l.toNat := by
  have hh := h.toNat_lt
  have hl := l.toNat_lt
  simp only [ofBytes, UInt16.toNat_ofNat']
  omega

theorem toNat_high (w : Word) : (high w).toNat = w.toNat / 256 := by
  have hw := w.toNat_lt
  simp only [high, UInt8.toNat_ofNat']
  omega

theorem toNat_low (w : Word) : (low w).toNat = w.toNat % 256 := by
  simp [low]

@[simp] theorem high_ofBytes (h l : Byte) : high (ofBytes h l) = h := by
  have hl := l.toNat_lt
  rw [← UInt8.toNat_inj, toNat_high, toNat_ofBytes]
  omega

@[simp] theorem low_ofBytes (h l : Byte) : low (ofBytes h l) = l := by
  have hl := l.toNat_lt
  rw [← UInt8.toNat_inj, toNat_low, toNat_ofBytes]
  omega

@[simp] theorem ofBytes_high_low (w : Word) : ofBytes (high w) (low w) = w := by
  rw [← UInt16.toNat_inj, toNat_ofBytes, toNat_high, toNat_low]
  omega

end Word
end Banked8085
