import Banked8085.Proofs.Assembler.Strings
import Banked8085.Proofs.Text.Numeral

/-! # Texts of values

Every way to write a number is read as that number, up to the limit of values
(`number_spellings_are_read`). `ValueText` is the grammar of values: characters, numbers and names.
Nothing else is read but a plus sign between the prefix of a hexadecimal number and its digits
(`only_values_are_parsed`), which the reader of numerals takes for a part of the number.
-/

namespace Banked8085.Assembler
set_option autoImplicit false

open Numeral (Digits Signed)

variable {text : List Char} {v : Value} {n : Nat}

/-! ## Spellings of a number -/

/-- The digits of a number are what is written for it, with zeros in front and letters in either
case. Each of its spellings, with any blanks around it, is read as the number, or is an error from
2 to the power of 32 on. -/
theorem number_spellings_are_read (n : Nat) :
    (∀ radix, 1 < radix → radix ≤ 16 → ∀ text, Digits radix text n ↔
      ∃ zeros, upper text = List.replicate zeros '0' ++ upper (Nat.toDigits radix n)) ∧
    ∀ text, NumberText text n → ∀ left right, Blanks left → Blanks right →
      Value.parse (left ++ text ++ right) =
        if n < 4294967296 then .ok (.number n) else .error (.numeral text .tooLarge) := by
  refine ⟨fun radix hbase hradix text => Numeral.digits_iff hbase hradix, ?_⟩
  intro text h left right hl hr
  have hpadded : Value.parse (left ++ text ++ right) = Value.parse text := by
    rw [Value.parse, trim_pad hl hr]
    rfl
  have hlimit : Value.limit < n ↔ ¬ n < 4294967296 := by
    rw [Value.limit]
    omega
  rw [hpadded, h.parse_eq_ite]
  by_cases hn : n < 4294967296
  · rw [if_pos hn, if_neg fun hlt => hlimit.1 hlt hn]
  · rw [if_neg hn, if_pos (hlimit.2 hn)]

/-- The largest number with zeros and blanks around its text, and the number after it in two
radices. -/
theorem number_spellings_are_read_at_limit :
    Value.parse "\t0X00fFFFFffF\u3000".toList = .ok (.number 4294967295) ∧
      Value.parse "0100000000H".toList = .error (.numeral "0100000000H".toList .tooLarge) ∧
      Value.parse " 4294967296".toList = .error (.numeral "4294967296".toList .tooLarge) := by
  obtain ⟨hlast, hread⟩ := number_spellings_are_read 4294967295
  obtain ⟨hnext, herror⟩ := number_spellings_are_read 4294967296
  have hprefix : NumberText "0X00fFFFFffF".toList 4294967295 :=
    .hexPrefix (by decide) ((hlast 16 (by decide) (by decide) _).2 ⟨2, by decide +kernel⟩)
  have hsuffix : NumberText "0100000000H".toList 4294967296 :=
    @NumberText.hexSuffix '0' "100000000".toList 'H' _ (by decide)
      ((hnext 16 (by decide) (by decide) _).2 ⟨1, by decide +kernel⟩) (by decide)
  have hdecimal : NumberText "4294967296".toList 4294967296 :=
    .decimal ((hnext 10 (by decide) (by decide) _).2 ⟨0, by decide +kernel⟩)
  refine ⟨?_, ?_, ?_⟩
  · exact (hread _ hprefix ['\t'] ['\u3000'] (by decide) (by decide)).trans (if_pos (by decide))
  · exact (herror _ hsuffix [] [] (by decide) (by decide)).trans (if_neg (by decide))
  · exact (herror _ hdecimal [' '] [] (by decide) (by decide)).trans (if_neg (by decide))

/-! ## Numbers that are read -/

/-- The ways to mark a radix, with the digits that the marks leave. -/
inductive Marked : List Char → Nat → List Char → Prop
  | hexPrefix {x digits} (hx : x.toUpper = 'X') : Marked ('0' :: x :: digits) 16 digits
  | hexSuffix {digits mark} (hmark : mark.toUpper = 'H') : Marked (digits ++ [mark]) 16 digits
  | binary {digits mark} (hmark : mark.toUpper = 'B') : Marked (digits ++ [mark]) 2 digits
  | decimal {digits} : Marked digits 10 digits

/-- Hexadecimal digits behind a prefix and a plus sign. -/
def SignedHex (text : List Char) (n : Nat) : Prop :=
  ∃ x digits, x.toUpper = 'X' ∧ text = '0' :: x :: '+' :: digits ∧ Digits 16 digits n

theorem upper_eq_cons {other : Char} {rest : List Char} (hother : other ∉ letters)
    (h : upper text = other :: rest) : ∃ rest', text = other :: rest' ∧ upper rest' = rest := by
  obtain ⟨c, rest', rfl, hc, hrest⟩ := List.map_eq_cons_iff.1 h
  exact ⟨rest', congrArg (· :: rest') (eq_of_toUpper hother hc), hrest⟩

theorem upper_eq_concat {last : Char} {start : List Char} (h : upper text = start ++ [last]) :
    ∃ start' mark, text = start' ++ [mark] ∧ mark.toUpper = last ∧ upper start' = start := by
  obtain ⟨start', rest, rfl, hstart, hrest⟩ := List.map_eq_append_iff.1 h
  obtain ⟨mark, rfl, hmark⟩ := List.map_eq_singleton_iff.1 hrest
  exact ⟨start', mark, rfl, hmark, hstart⟩

theorem exists_marked (text : List Char) :
    ∃ radix digits, Marked text radix digits ∧
      Value.radixAndDigits (upper text) = (radix, upper digits) := by
  unfold Value.radixAndDigits
  split
  case h_1 digits heq =>
    obtain ⟨rest, rfl, hrest⟩ := upper_eq_cons (by decide) heq
    obtain ⟨x, digits', rfl, hx, rfl⟩ := List.map_eq_cons_iff.1 hrest
    exact ⟨16, digits', .hexPrefix hx, rfl⟩
  case h_2 =>
    split
    case h_1 hlast =>
      obtain ⟨start, heq⟩ := List.getLast?_eq_some_iff.1 hlast
      obtain ⟨digits, mark, rfl, hmark, rfl⟩ := upper_eq_concat heq
      refine ⟨16, digits, .hexSuffix hmark, ?_⟩
      rw [heq, List.dropLast_concat]
    case h_2 hlast =>
      obtain ⟨start, heq⟩ := List.getLast?_eq_some_iff.1 hlast
      obtain ⟨digits, mark, rfl, hmark, rfl⟩ := upper_eq_concat heq
      refine ⟨2, digits, .binary hmark, ?_⟩
      rw [heq, List.dropLast_concat]
    case h_3 => exact ⟨10, text, .decimal, rfl⟩

namespace Marked
variable {radix : Nat} {digits : List Char}

theorem radix_le (h : Marked text radix digits) : radix ≤ 16 := by
  cases h <;> decide

theorem numberText {first : Char} {rest : List Char} (h : Marked (first :: rest) radix digits)
    (hfirst : first.isDigit = true) (hdigits : Digits radix digits n) :
    NumberText (first :: rest) n := by
  generalize htext : first :: rest = text at h
  cases h with
  | hexPrefix hx => exact .hexPrefix hx hdigits
  | hexSuffix hmark =>
    obtain ⟨c, digits, rfl⟩ := List.exists_cons_of_ne_nil hdigits.ne_nil
    obtain ⟨rfl, -⟩ := List.cons.inj htext
    exact .hexSuffix hfirst hdigits hmark
  | binary hmark => exact .binary hdigits hmark
  | decimal => exact .decimal hdigits

/-- Digits with a plus sign in front begin a text that begins with a digit only behind a prefix. -/
theorem signedHex {first : Char} {rest : List Char}
    (h : Marked (first :: rest) radix ('+' :: digits)) (hfirst : first.isDigit = true)
    (hdigits : Digits radix digits n) : SignedHex (first :: rest) n := by
  have hplus : first ≠ '+' := by
    rintro rfl
    exact absurd hfirst (by decide)
  generalize htext : first :: rest = text at h
  cases h with
  | hexPrefix hx => exact ⟨_, digits, hx, rfl, hdigits⟩
  | hexSuffix => exact absurd (List.cons.inj htext).1 hplus
  | binary => exact absurd (List.cons.inj htext).1 hplus
  | decimal => exact absurd (List.cons.inj htext).1 hplus

end Marked

theorem parseNumber_of_signedHex (h : SignedHex text n) (hn : n ≤ Value.limit) :
    Value.parseNumber text = .ok (.number n) := by
  obtain ⟨x, digits, hx, rfl, hdigits⟩ := h
  have hupper : upper ('0' :: x :: '+' :: digits) = '0' :: 'X' :: '+' :: upper digits :=
    congrArg (fun mark => '0' :: mark :: '+' :: upper digits) hx
  have hread : Numeral.read 16 Value.limit ('+' :: upper digits) = .ok n :=
    (Numeral.read_eq_ok_iff (by decide)).2
      ⟨.inr ⟨upper digits, rfl, Digits.upper_iff.2 hdigits⟩, hn⟩
  simp only [Value.parseNumber, hupper, Value.radixAndDigits, hread]

theorem parseNumber_eq_ok_iff {first : Char} {rest : List Char} (hfirst : first.isDigit = true) :
    Value.parseNumber (first :: rest) = .ok v ↔
      ∃ n, (NumberText (first :: rest) n ∨ SignedHex (first :: rest) n) ∧ n ≤ Value.limit ∧
        v = .number n := by
  constructor
  · intro h
    obtain ⟨radix, digits, hmarked, heq⟩ := exists_marked (first :: rest)
    simp only [Value.parseNumber, heq] at h
    cases hread : Numeral.read radix Value.limit (upper digits) with
    | error cause =>
      rw [hread] at h
      cases h
    | ok n =>
      rw [hread] at h
      obtain ⟨hsigned, hn⟩ := (Numeral.read_eq_ok_iff hmarked.radix_le).1 hread
      refine ⟨n, ?_, hn, (Except.ok.inj h).symm⟩
      rcases hsigned with hdigits | ⟨signless, hplus, hdigits⟩
      · exact .inl (hmarked.numberText hfirst (Digits.upper_iff.1 hdigits))
      · obtain ⟨behind, rfl, rfl⟩ := upper_eq_cons (by decide) hplus
        exact .inr (hmarked.signedHex hfirst (Digits.upper_iff.1 hdigits))
  · rintro ⟨n, h | h, hn, rfl⟩
    · rw [h.parseNumber_eq, if_neg (Nat.not_lt.2 hn)]
    · exact parseNumber_of_signedHex h hn

/-! ## Values that are read -/

/-- The grammar of values: a character between quotes, a number in one of its spellings, or a
name. -/
inductive ValueText : List Char → Value → Prop
  | character {quote c} (hquote : Quoted.isQuote quote = true) (hc : c.toNat < 128) :
    ValueText [quote, c, quote] (.number c.toNat)
  | number {text : List Char} {n : Nat} (h : NumberText text n) (hn : n ≤ Value.limit) :
    ValueText text (.number n)
  | name {first rest} (hfirst : startsName first = true)
    (hrest : ∀ c ∈ rest, continuesName c = true) :
    ValueText (first :: rest) (.symbol (upper (first :: rest)))

theorem parseCharacter_eq_ok_iff {quote : Char} {rest : List Char} :
    Value.parseCharacter (quote :: rest) = .ok v ↔
      ∃ c, rest = [c, quote] ∧ c.toNat < 128 ∧ v = .number c.toNat := by
  constructor
  · intro h
    unfold Value.parseCharacter at h
    split at h
    · cases h
    · rename_i c hinner
      split at h
      · rename_i hc
        exact ⟨c, inner?_eq_some.1 hinner, hc, (Except.ok.inj h).symm⟩
      · cases h
    · cases h
  · rintro ⟨c, rfl, hc, rfl⟩
    have hinner : Quoted.inner? [quote, c, quote] = some [c] := inner?_eq_some.2 rfl
    simp only [Value.parseCharacter, hinner, if_pos hc]

theorem startsName_of_isDigit {c : Char} (h : c.isDigit = true) : startsName c = false := by
  have hcode : ∀ n < 58, 48 ≤ n → startsName (Char.ofNat n) = false := by decide
  obtain ⟨hlow, hhigh⟩ := Char.isDigit_iff_toNat.1 h
  have hc := hcode c.toNat (Nat.lt_succ_of_le hhigh) hlow
  rwa [Char.ofNat_toNat] at hc

theorem parseTrimmed_eq_ok_iff :
    Value.parseTrimmed text = .ok v ↔
      ValueText text v ∨ ∃ n, SignedHex text n ∧ n ≤ Value.limit ∧ v = .number n := by
  constructor
  · intro h
    cases text with
    | nil => cases h
    | cons first rest =>
      simp only [Value.parseTrimmed] at h
      split at h
      case isTrue hquote =>
        obtain ⟨c, rfl, hc, rfl⟩ := parseCharacter_eq_ok_iff.1 h
        exact .inl (.character hquote hc)
      case isFalse =>
        split at h
        case isTrue hdigit =>
          obtain ⟨n, htext | htext, hn, rfl⟩ := (parseNumber_eq_ok_iff hdigit).1 h
          · exact .inl (.number htext hn)
          · exact .inr ⟨n, htext, hn, rfl⟩
        case isFalse =>
          split at h
          case isTrue hname =>
            rw [isIdentifier, Bool.and_eq_true, List.all_eq_true] at hname
            obtain rfl := Except.ok.inj h
            exact .inl (.name hname.1 hname.2)
          case isFalse => cases h
  · rintro (h | ⟨n, h, hn, rfl⟩)
    · cases h with
      | @character quote c hquote hc =>
        have hparse : Value.parseCharacter [quote, c, quote] = .ok (.number c.toNat) :=
          parseCharacter_eq_ok_iff.2 ⟨c, rfl, hc, rfl⟩
        simp only [Value.parseTrimmed, if_pos hquote, hparse]
      | number h hn =>
        have hparse := h.parse_eq hn
        rwa [Value.parse, h.trim_eq] at hparse
      | @name first rest hfirst hrest =>
        have hquote : Quoted.isQuote first = false :=
          Quoted.isQuote_eq_false_of (by decide) (by decide) hfirst
        have hdigit : first.isDigit = false := by
          refine Bool.eq_false_iff.2 fun hdigit => ?_
          exact absurd hfirst (Bool.eq_false_iff.1 (startsName_of_isDigit hdigit))
        have hname : isIdentifier (first :: rest) = true := by
          rw [isIdentifier, hfirst, Bool.true_and, List.all_eq_true]
          exact hrest
        simp [Value.parseTrimmed, hquote, hdigit, hname]
    · rw [← parseNumber_of_signedHex h hn]
      obtain ⟨x, digits, hx, rfl, hdigits⟩ := h
      rfl

/-- A value is read from the texts of its grammar, blanks around them left aside, and from
hexadecimal digits with a plus sign between prefix and digits. Every other text is an error. -/
theorem only_values_are_parsed (text : List Char) :
    (∀ v, Value.parse text = .ok v ↔
      ValueText (trim text) v ∨
        ∃ n, SignedHex (trim text) n ∧ n ≤ Value.limit ∧ v = .number n) ∧
    ((∃ e, Value.parse text = .error e) ↔
      (¬ ∃ v, ValueText (trim text) v) ∧
        ¬ ∃ n, SignedHex (trim text) n ∧ n ≤ Value.limit) := by
  have hparse : ∀ v, Value.parse text = .ok v ↔ ValueText (trim text) v ∨
      ∃ n, SignedHex (trim text) n ∧ n ≤ Value.limit ∧ v = .number n :=
    fun v => parseTrimmed_eq_ok_iff
  refine ⟨hparse, ?_, ?_⟩
  · rintro ⟨e, h⟩
    have hnot : ∀ v, Value.parse text ≠ .ok v := by
      rw [h]
      exact fun v => nofun
    refine ⟨?_, ?_⟩
    · rintro ⟨v, htext⟩
      exact hnot v ((hparse v).2 (.inl htext))
    · rintro ⟨n, htext, hn⟩
      exact hnot (.number n) ((hparse _).2 (.inr ⟨n, htext, hn, rfl⟩))
  · rintro ⟨hvalue, hsigned⟩
    cases h : Value.parse text with
    | error e => exact ⟨e, rfl⟩
    | ok v =>
      rcases (hparse v).1 h with htext | ⟨n, htext, hn, -⟩
      · exact absurd ⟨v, htext⟩ hvalue
      · exact absurd ⟨n, htext, hn⟩ hsigned

/-- A text with a sign that no rule of the grammar gives is read as a number. -/
theorem signed_hex_is_parsed :
    Value.parse "0x+5".toList = .ok (.number 5) ∧ ¬ ∃ v, ValueText "0x+5".toList v := by
  refine ⟨by decide +kernel, ?_⟩
  rintro ⟨v, h⟩
  generalize htext : "0x+5".toList = text at h
  cases h with
  | character => exact absurd (congrArg List.length htext) (by simp)
  | number h =>
    have hplus : '+' ∈ text := htext ▸ by decide
    exact absurd (h.isAlphanum hplus) (by decide)
  | name hfirst =>
    obtain ⟨rfl, -⟩ := List.cons.inj htext
    exact absurd hfirst (by decide)

end Banked8085.Assembler
