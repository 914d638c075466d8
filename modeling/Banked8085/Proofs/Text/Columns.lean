import Banked8085.Proofs.Text.Digits

/-! # Columns

A text in pieces of fixed widths tells what each piece is: `flatten_inj_of_length` takes such texts
apart, and `intercalate_inj` takes lines apart. `Tabular` is a way to write values in pieces whose
widths are the same for all of them. `Hex.Column` is a number in upper-case digits; bytes and words
are written so (`column_byte`, `column_word`), and can be told from their digits (`fixed_byte_inj`,
`fixed_word_inj`). A number that may be wider than its column is written in all its digits
(`toList_atLeast`).
-/

namespace Banked8085
set_option autoImplicit false

open Assembler (upper)

/-! ## Pieces -/

section Pieces
variable {α β : Type}

theorem flatten_inj_of_length {first second : List (List α)}
    (h : first.map List.length = second.map List.length) :
    first.flatten = second.flatten ↔ first = second := by
  rw [List.eq_iff_flatten_eq, and_iff_left h]

theorem length_flatten_of_length {first second : List (List α)}
    (h : first.map List.length = second.map List.length) :
    first.flatten.length = second.flatten.length := by
  rw [List.length_flatten, List.length_flatten, h]

theorem flatMap_inj_of_length {l : List β} {f g : β → List α}
    (h : ∀ b ∈ l, (f b).length = (g b).length) :
    l.flatMap f = l.flatMap g ↔ ∀ b ∈ l, f b = g b := by
  have hlength : (l.map f).map List.length = (l.map g).map List.length := by
    rw [List.map_map, List.map_map]
    exact List.map_congr_left h
  rw [List.flatMap_def, List.flatMap_def, flatten_inj_of_length hlength, List.map_inj_left]

/-- The text of a value is cut into pieces, at the same places for all values. -/
structure Tabular (text : β → List α) (pieces : β → List (List α)) : Prop where
  eq_flatten : ∀ b, text b = (pieces b).flatten
  widths : ∀ b c, (pieces b).map List.length = (pieces c).map List.length

namespace Tabular
variable {text : β → List α} {pieces : β → List (List α)} {b c : β}

theorem length_eq (h : Tabular text pieces) (b c : β) : (text b).length = (text c).length := by
  rw [h.eq_flatten, h.eq_flatten, length_flatten_of_length (h.widths b c)]

theorem eq_iff (h : Tabular text pieces) : text b = text c ↔ pieces b = pieces c := by
  rw [h.eq_flatten, h.eq_flatten, flatten_inj_of_length (h.widths b c)]

end Tabular

/-! ## Lines -/

theorem eq_nil_of_intercalate [BEq α] [LawfulBEq α] {separator : α} {lines : List (List α)}
    (hlines : ∀ line ∈ lines, line ≠ [] ∧ separator ∉ line)
    (h : [separator].intercalate lines = []) : lines = [] := by
  by_contra hne
  have hsplit := List.splitOn_intercalate separator (fun line hmem => (hlines line hmem).2) hne
  rw [h, List.splitOn_nil] at hsplit
  exact (hlines [] (hsplit ▸ List.mem_singleton_self [])).1 rfl

/-- Lines that are not empty and do not contain the separator can be told from the whole text. -/
theorem intercalate_inj [BEq α] [LawfulBEq α] {separator : α} {first second : List (List α)}
    (hfirst : ∀ line ∈ first, line ≠ [] ∧ separator ∉ line)
    (hsecond : ∀ line ∈ second, line ≠ [] ∧ separator ∉ line) :
    [separator].intercalate first = [separator].intercalate second ↔ first = second := by
  refine ⟨fun h => ?_, fun h => congrArg _ h⟩
  rcases eq_or_ne first [] with rfl | hne
  · exact (eq_nil_of_intercalate hsecond (h.symm.trans List.intercalate_nil)).symm
  · have hne' : second ≠ [] := by
      rintro rfl
      exact hne (eq_nil_of_intercalate hfirst (h.trans List.intercalate_nil))
    rw [← List.splitOn_intercalate separator (fun line hmem => (hfirst line hmem).2) hne, h,
      List.splitOn_intercalate separator (fun line hmem => (hsecond line hmem).2) hne']

end Pieces

/-! ## Digits -/

namespace Hex

/-- A number in exactly `width` upper-case digits. -/
structure Column (width : Nat) (text : List Char) (n : Nat) : Prop where
  digits : Numeral.Digits 16 text n
  length : text.length = width
  upperCase : upper text = text

theorem upper_fixed (width n : Nat) : upper (fixed width n) = fixed width n := by
  induction width generalizing n with
  | zero => rfl
  | succ width ih =>
    rw [fixed, upper_concat, ih, toUpper_digit _ (Nat.mod_lt n (by decide))]

theorem column_fixed {width n : Nat} (hn : n < Nat.pow 16 (width + 1)) :
    Column (width + 1) (fixed (width + 1) n) n :=
  ⟨digits_fixed hn, length_fixed _ n, upper_fixed _ n⟩

theorem column_byte (b : Byte) : Column 2 (fixed 2 b.toNat) b.toNat := column_fixed b.toNat_lt

theorem column_word (w : Word) : Column 4 (fixed 4 w.toNat) w.toNat := column_fixed w.toNat_lt

theorem fixed_byte_inj {a b : Byte} : fixed 2 a.toNat = fixed 2 b.toNat ↔ a = b := by
  rw [fixed_inj a.toNat_lt b.toNat_lt, UInt8.toNat_inj]

theorem fixed_word_inj {v w : Word} : fixed 4 v.toNat = fixed 4 w.toNat ↔ v = w := by
  rw [fixed_inj v.toNat_lt w.toNat_lt, UInt16.toNat_inj]

theorem Column.not_mem {width n : Nat} {text : List Char} (h : Column width text n) {other : Char}
    (hother : other.isAlphanum = false) : other ∉ text := by
  intro hmem
  exact absurd (h.digits.isAlphanum (by decide) hmem) (Bool.eq_false_iff.1 hother)

/-! ## Numbers of any width -/

theorem digitCount_of_lt {n : Nat} (hn : n < 16) : digitCount n = 1 := by
  have hlog : n.log2 < 4 := by
    rcases Nat.eq_zero_or_pos n with rfl | hpos
    · decide
    · exact (Nat.log2_lt (by omega)).2 hn
  rw [digitCount, Nat.div_eq_of_lt hlog]

theorem digitCount_of_le {n : Nat} (hn : 16 ≤ n) : digitCount n = digitCount (n / 16) + 1 := by
  have hlog : n.log2 = (n / 16).log2 + 4 := by
    rw [Nat.log2_def, if_pos (by omega), Nat.log2_def, if_pos (by omega), Nat.log2_def,
      if_pos (by omega), Nat.log2_def, if_pos (by omega)]
    simp only [Nat.div_div_eq_div_mul]
  rw [digitCount, digitCount, hlog, Nat.add_div_right _ (by decide)]

theorem length_toDigits (n : Nat) : (Nat.toDigits 16 n).length = digitCount n := by
  induction n using Nat.strongRecOn with
  | ind n ih =>
    rw [Nat.toDigits_eq_if (by decide)]
    split
    case isTrue hlt => rw [digitCount_of_lt hlt, List.length_singleton]
    case isFalse hle =>
      rw [List.length_append, ih (n / 16) (by omega), digitCount_of_le (Nat.le_of_not_lt hle),
        List.length_singleton]

theorem lt_pow_digitCount (n : Nat) : n < Nat.pow 16 (digitCount n) := by
  induction n using Nat.strongRecOn with
  | ind n ih =>
    rcases Nat.lt_or_ge n 16 with hlt | hle
    · rw [digitCount_of_lt hlt]
      exact hlt
    · have hpow : Nat.pow 16 (digitCount (n / 16) + 1) = Nat.pow 16 (digitCount (n / 16)) * 16 := rfl
      have hrest := ih (n / 16) (by omega)
      rw [digitCount_of_le hle, hpow]
      omega

theorem fixed_eq_leftpad {width n : Nat} (hn : n < Nat.pow 16 (width + 1)) :
    fixed (width + 1) n = (upper (Nat.toDigits 16 n)).leftpad (width + 1) '0' := by
  obtain ⟨zeros, hzeros⟩ :=
    (Numeral.digits_iff (by decide) (by decide)).1 (digits_fixed hn)
  rw [upper_fixed] at hzeros
  have hlength := congrArg List.length hzeros
  rw [length_fixed, List.length_append, List.length_replicate] at hlength
  rw [hzeros, List.leftpad, hlength, Nat.add_sub_cancel]

theorem toList_atLeast (width n : Nat) :
    (atLeast width n).toList = (upper (Nat.toDigits 16 n)).leftpad width '0' := by
  obtain ⟨k, hk⟩ : ∃ k, max width (digitCount n) = k + 1 :=
    Nat.exists_eq_add_one.2 (Nat.lt_of_lt_of_le (Nat.succ_pos _) (Nat.le_max_right _ _))
  have hn : n < Nat.pow 16 (k + 1) := by
    rw [← hk]
    exact (lt_pow_digitCount n).trans_le (Nat.pow_le_pow_right (by decide) (Nat.le_max_right _ _))
  have hlength : (upper (Nat.toDigits 16 n)).length = digitCount n :=
    (List.length_map _).trans (length_toDigits n)
  have hzeros : k + 1 - digitCount n = width - digitCount n := by
    omega
  rw [atLeast, String.toList_ofList, hk, fixed_eq_leftpad hn, List.leftpad, List.leftpad, hlength,
    hzeros]
end Hex
end Banked8085
