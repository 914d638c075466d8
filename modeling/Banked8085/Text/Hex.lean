import Banked8085.Word

/-! # Hexadecimal text

Numbers written in upper-case hexadecimal:

* `fixed width n`: exactly `width` digits, the lowest ones of `n`;
* `atLeast width n`: as many digits as `n` needs, padded with zeros to `width`;
* `byte`, `word`: the two and four digits of a byte and of a word.
-/

namespace Banked8085.Hex
set_option autoImplicit false

def digit (n : Nat) : Char := if n < 10 then Char.ofNat (48 + n) else Char.ofNat (55 + n)

theorem digit_inj {m n : Nat} (hm : m < 16) (hn : n < 16) : digit m = digit n ↔ m = n := by
  have h : ∀ a b : Fin 16, digit a = digit b ↔ a = b := by decide
  simpa using h ⟨m, hm⟩ ⟨n, hn⟩

def fixed : Nat → Nat → List Char
  | 0, _ => []
  | width + 1, n => fixed width (n / 16) ++ [digit (n % 16)]

@[simp] theorem length_fixed (width n : Nat) : (fixed width n).length = width := by
  induction width generalizing n with
  | zero => rfl
  | succ width ih => simp [fixed, ih]

/-- Numbers that fit into `width` digits are told apart by them. -/
theorem fixed_inj {width m n : Nat} (hm : m < Nat.pow 16 width) (hn : n < Nat.pow 16 width) :
    fixed width m = fixed width n ↔ m = n := by
  induction width generalizing m n with
  | zero => simp_all
  | succ width ih =>
    have hpow : Nat.pow 16 (width + 1) = Nat.pow 16 width * 16 := rfl
    rw [hpow] at hm hn
    have hmod := digit_inj (m := m % 16) (n := n % 16) (by omega) (by omega)
    have hdiv := ih (m := m / 16) (n := n / 16) (by omega) (by omega)
    simp only [fixed, List.append_singleton_inj, hmod, hdiv]
    omega

def digitCount (n : Nat) : Nat := n.log2 / 4 + 1

/-- All digits of `n`, with leading zeros up to `width` digits. -/
def atLeast (width n : Nat) : String := String.ofList (fixed (max width (digitCount n)) n)

def byte (b : Byte) : String := String.ofList (fixed 2 b.toNat)

def word (w : Word) : String := String.ofList (fixed 4 w.toNat)

end Banked8085.Hex
