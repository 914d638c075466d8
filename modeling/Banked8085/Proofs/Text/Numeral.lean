import Banked8085.Assembler.Operand
import Banked8085.Proofs.Text.Digits

/-! # Texts for numbers

`NumberText` lists the ways to write a number: in decimal, in hexadecimal with `0x` in front or `h`
behind, and in binary. Up to the limit of values a number is read back from each of them, and above
it none is accepted (`NumberText.parse_eq_ite`). `hexText` is one of them for every number, whatever
symbols are known (`readNumber_hexText`).
-/

namespace Banked8085
set_option autoImplicit false

open Assembler (upper)

namespace Assembler

open Numeral (Digits)

/-- The texts for a number that do not depend on symbols. -/
inductive NumberText : List Char → Nat → Prop
  | decimal {text n} (h : Digits 10 text n) : NumberText text n
  | hexPrefix {x text n} (hx : x.toUpper = 'X') (h : Digits 16 text n) :
    NumberText ('0' :: x :: text) n
  | hexSuffix {first rest mark n} (hfirst : first.isDigit = true)
    (h : Digits 16 (first :: rest) n) (hmark : mark.toUpper = 'H') :
    NumberText (first :: rest ++ [mark]) n
  | binary {text mark n} (h : Digits 2 text n) (hmark : mark.toUpper = 'B') :
    NumberText (text ++ [mark]) n

namespace Value

/-- A text without `X` has its radix at the end. -/
theorem radixAndDigits_concat {text : List Char} {mark : Char} (hx : 'X' ∉ text ++ [mark]) :
    radixAndDigits (text ++ [mark]) =
      if mark = 'H' then (16, text) else if mark = 'B' then (2, text)
      else (10, text ++ [mark]) := by
  unfold radixAndDigits
  split
  case h_1 heq => exact absurd (heq ▸ List.mem_cons_of_mem _ List.mem_cons_self) hx
  case h_2 =>
    rw [List.getLast?_concat, List.dropLast_concat]
    split <;> simp_all

end Value

namespace NumberText
variable {text : List Char} {n : Nat}

theorem isAlphanum (h : NumberText text n) {c : Char} (hc : c ∈ text) : c.isAlphanum = true := by
  cases h with
  | decimal h => exact h.isAlphanum (by decide) hc
  | hexPrefix hx h =>
    rcases List.mem_cons.1 hc with rfl | hc
    · decide
    · rcases List.mem_cons.1 hc with rfl | hc
      · exact isAlphanum_of_toUpper (by rw [hx]; decide)
      · exact h.isAlphanum (by decide) hc
  | hexSuffix _ h hmark =>
    rcases List.mem_append.1 hc with hc | hc
    · exact h.isAlphanum (by decide) hc
    · exact isAlphanum_of_toUpper (by rw [List.mem_singleton.1 hc, hmark]; decide)
  | binary h hmark =>
    rcases List.mem_append.1 hc with hc | hc
    · exact h.isAlphanum (by decide) hc
    · exact isAlphanum_of_toUpper (by rw [List.mem_singleton.1 hc, hmark]; decide)

theorem exists_first (h : NumberText text n) :
    ∃ first rest, text = first :: rest ∧ first.isDigit = true := by
  cases h with
  | decimal h => exact h.exists_first (by decide)
  | hexPrefix => exact ⟨'0', _, rfl, by decide⟩
  | hexSuffix hfirst => exact ⟨_, _, rfl, hfirst⟩
  | binary h =>
    obtain ⟨first, rest, rfl, hfirst⟩ := h.exists_first (by decide)
    exact ⟨first, _, rfl, hfirst⟩

/-- The marks of a number tell its radix, and what remains are its digits. -/
theorem radixAndDigits_eq (h : NumberText text n) :
    ∃ radix digits, radix ≤ 16 ∧ Digits radix digits n ∧
      Value.radixAndDigits (upper text) = (radix, upper digits) := by
  have hmarked : ∀ {radix : Nat} {digits : List Char} {mark : Char}, radix ≤ 16 →
      Digits radix digits n → mark ≠ 'X' → 'X' ∉ upper digits ++ [mark] := by
    intro radix digits mark hradix h hmark
    rw [List.mem_append, List.mem_singleton, not_or]
    exact ⟨h.not_mem_upper hradix (by decide), hmark.symm⟩
  cases h with
  | decimal h =>
    refine ⟨10, text, by decide, h, ?_⟩
    have hx : 'X' ∉ upper text := h.not_mem_upper (by decide) (by decide)
    obtain ⟨init, last, rfl⟩ := (List.eq_nil_or_concat' text).resolve_left h.ne_nil
    obtain ⟨d, hd, heq⟩ := h.mem (List.mem_concat_self)
    have hlast : ∀ d < 10, Hex.digit d ≠ 'H' ∧ Hex.digit d ≠ 'B' := by decide
    rw [upper_concat, heq] at hx ⊢
    rw [Value.radixAndDigits_concat hx, if_neg (hlast d hd).1, if_neg (hlast d hd).2]
  | @hexPrefix x digits _ hx h =>
    refine ⟨16, digits, by decide, h, ?_⟩
    have hupper : upper ('0' :: x :: digits) = '0' :: 'X' :: upper digits :=
      congrArg (fun mark => '0' :: mark :: upper digits) hx
    rw [hupper, Value.radixAndDigits]
  | hexSuffix _ h hmark =>
    refine ⟨16, _, by decide, h, ?_⟩
    rw [upper_concat, hmark, Value.radixAndDigits_concat (hmarked (by decide) h (by decide)),
      if_pos rfl]
  | binary h hmark =>
    refine ⟨2, _, by decide, h, ?_⟩
    rw [upper_concat, hmark, Value.radixAndDigits_concat (hmarked (by decide) h (by decide)),
      if_neg (by decide), if_pos rfl]

theorem trim_eq (h : NumberText text n) : trim text = text :=
  trim_of_solid fun _ hc => isBlank_of_isAlphanum (h.isAlphanum hc)

theorem parseNumber_eq (h : NumberText text n) :
    Value.parseNumber text =
      if Value.limit < n then .error (.numeral text .tooLarge) else .ok (.number n) := by
  obtain ⟨radix, digits, hradix, hdigits, heq⟩ := h.radixAndDigits_eq
  have hread : Numeral.read radix Value.limit (upper digits) =
      if Value.limit < n then .error .tooLarge else .ok n :=
    (Digits.upper_iff.2 hdigits).read_eq hradix
  by_cases hn : Value.limit < n
  · rw [if_pos hn] at hread ⊢
    simp only [Value.parseNumber, heq, hread]
  · rw [if_neg hn] at hread ⊢
    simp only [Value.parseNumber, heq, hread]

theorem parse_eq_ite (h : NumberText text n) :
    Value.parse text =
      if Value.limit < n then .error (.numeral text .tooLarge) else .ok (.number n) := by
  rw [← h.parseNumber_eq, Value.parse, h.trim_eq]
  obtain ⟨first, rest, rfl, hfirst⟩ := h.exists_first
  have hquote : Quoted.isQuote first = false :=
    Quoted.isQuote_eq_false_of (by decide) (by decide) hfirst
  simp only [Value.parseTrimmed, hquote, hfirst, if_true]
  rfl

theorem parse_eq (h : NumberText text n) (hn : n ≤ Value.limit) :
    Value.parse text = .ok (.number n) := by
  rw [h.parse_eq_ite, if_neg (Nat.not_lt.2 hn)]

end NumberText

def hexText (n : Nat) : List Char := '0' :: 'x' :: Hex.fixed 8 n

theorem readNumber_hexText (symbols : SymbolTable) {n : Nat} (hn : n ≤ Value.limit) :
    readNumber symbols (hexText n) = .ok n := by
  have htext : NumberText (hexText n) n :=
    .hexPrefix (by decide) (Hex.digits_fixed (Nat.lt_succ_of_le hn))
  rw [readNumber, htext.parse_eq hn]
  rfl

end Assembler
end Banked8085
