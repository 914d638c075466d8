import Banked8085.Proofs.Results
import Banked8085.Proofs.Text.Respelling
import Banked8085.Text.Hex

/-! # Digits

`Numeral.Digits` relates a text to the number that its digits denote in some radix; it is the text
that is written for the number, up to zeros in front and the case of letters (`digits_iff`). The
reader of numerals accepts digits of numbers up to its limit, behind one plus sign or none, and
nothing else (`read_eq_ok_iff`).
-/

namespace Banked8085
set_option autoImplicit false

open Assembler (upper)

/-! ## Characters of numbers -/

theorem upper_concat (text : List Char) (c : Char) :
    upper (text ++ [c]) = upper text ++ [c.toUpper] := List.map_append

/-- A character that is no letter is in upper case wherever it stands. -/
theorem eq_of_toUpper {c other : Char} (hother : other ∉ letters) (h : c.toUpper = other) :
    c = other := by
  rcases toUpper_eq_or_mem c with heq | ⟨-, hc⟩
  · exact heq.symm.trans h
  · exact absurd (h ▸ hc) hother

theorem isAlphanum_of_toUpper {c : Char} (h : c.toUpper.isAlphanum = true) :
    c.isAlphanum = true := by
  have hletter : ∀ c ∈ letters, c.isAlphanum = true := forall_letters (by decide)
  rcases toUpper_eq_or_mem c with heq | ⟨hc, -⟩
  · rwa [heq] at h
  · exact hletter c hc

theorem isDigit_of_toUpper {c : Char} (h : c.toUpper.isDigit = true) : c.isDigit = true := by
  have hletter : ∀ c ∈ letters, c.isDigit = false := forall_letters (by decide)
  rcases toUpper_eq_or_mem c with heq | ⟨-, hc⟩
  · rwa [heq] at h
  · exact absurd h (Bool.eq_false_iff.1 (hletter _ hc))

theorem toNat_of_isAlphanum {c : Char} (h : c.isAlphanum = true) :
    (65 ≤ c.toNat ∧ c.toNat ≤ 90) ∨ (97 ≤ c.toNat ∧ c.toNat ≤ 122) ∨
      48 ≤ c.toNat ∧ c.toNat ≤ 57 := by
  delta Char.isAlphanum Char.isAlpha Char.isUpper Char.isLower Char.isDigit at h
  simp only [Bool.or_eq_true, Bool.and_eq_true, decide_eq_true_eq, ge_iff_le,
    UInt32.le_iff_toNat_le, or_assoc] at h
  exact h

theorem isBlank_of_isAlphanum {c : Char} (h : c.isAlphanum = true) : isBlank c = false := by
  have hcode := toNat_of_isAlphanum h
  refine Bool.eq_false_iff.2 fun hblank => ?_
  simp only [isBlank, Blank.ranges, List.any_cons, List.any_nil, Bool.or_false, Bool.or_eq_true,
    Bool.and_eq_true, decide_eq_true_eq] at hblank
  omega

/-! ## Digits -/

namespace Hex

theorem digit?_digit : ∀ radix ≤ 16, ∀ d < radix, Numeral.digit? radix (digit d) = some d := by
  decide

theorem isAlphanum_digit : ∀ d < 16, (digit d).isAlphanum = true := by decide

theorem isDigit_digit : ∀ d < 10, (digit d).isDigit = true := by decide

theorem toUpper_digit : ∀ d < 16, (digit d).toUpper = digit d := by decide

theorem toUpper_digitChar : ∀ d < 16, (Nat.digitChar d).toUpper = digit d := by decide

end Hex

namespace Numeral

/-- The digits of a number in either letter case, with any zeros in front. -/
inductive Digits (radix : Nat) : List Char → Nat → Prop
  | single {c d} (hd : d < radix) (hc : c.toUpper = Hex.digit d) : Digits radix [c] d
  | snoc {text n c d} (h : Digits radix text n) (hd : d < radix) (hc : c.toUpper = Hex.digit d) :
    Digits radix (text ++ [c]) (n * radix + d)

variable {radix limit n d : Nat} {text : List Char} {c : Char}

theorem isAlphanum_of_digit? (h : digit? 16 c = some d) : c.isAlphanum = true := by
  by_contra hnot
  have hclasses : ¬ (c.isUpper || c.isLower || c.isDigit) = true := hnot
  simp only [Bool.or_eq_true, not_or] at hclasses
  obtain ⟨⟨hupper, hlower⟩, hdigit⟩ := hclasses
  simp only [digit?, if_neg hupper, if_neg hlower, if_neg hdigit] at h
  cases h

theorem digit?_eq_some_iff_of_le (hradix : radix ≤ 16) :
    digit? radix c = some d ↔ d < radix ∧ digit? 16 c = some d := by
  simp only [digit?]
  grind

theorem digit?_eq_some_iff (hradix : radix ≤ 16) :
    digit? radix c = some d ↔ d < radix ∧ c.toUpper = Hex.digit d := by
  have hcode : ∀ n < 123, ∀ d ∈ digit? 16 (Char.ofNat n), (Char.ofNat n).toUpper = Hex.digit d := by
    decide
  have hletter : ∀ c ∈ letters, ∀ d < 16, c.toUpper = Hex.digit d → digit? 16 c = some d :=
    forall_letters (by decide)
  rw [digit?_eq_some_iff_of_le hradix]
  refine and_congr_right fun hd => ⟨fun h => ?_, fun h => ?_⟩
  · have hlt : c.toNat < 123 := by
      have hbounds := toNat_of_isAlphanum (isAlphanum_of_digit? h)
      omega
    have hc := hcode c.toNat hlt d
    rw [Char.ofNat_toNat] at hc
    exact hc h
  · rcases toUpper_eq_or_mem c with heq | ⟨hc, -⟩
    · rw [← heq, h]
      exact Hex.digit?_digit 16 (Nat.le_refl 16) d (by omega)
    · exact hletter c hc d (by omega) h

namespace Digits

theorem ne_nil (h : Digits radix text n) : text ≠ [] := by
  cases h <;> simp

theorem mem (h : Digits radix text n) {c : Char} (hc : c ∈ text) :
    ∃ d < radix, c.toUpper = Hex.digit d := by
  induction h with
  | single hd heq => exact ⟨_, hd, (List.mem_singleton.1 hc) ▸ heq⟩
  | snoc _ hd heq ih =>
    rcases List.mem_append.1 hc with hc | hc
    · exact ih hc
    · exact ⟨_, hd, (List.mem_singleton.1 hc) ▸ heq⟩

theorem isAlphanum (hradix : radix ≤ 16) (h : Digits radix text n) {c : Char} (hc : c ∈ text) :
    c.isAlphanum = true := by
  obtain ⟨d, hd, heq⟩ := h.mem hc
  exact isAlphanum_of_toUpper (heq ▸ Hex.isAlphanum_digit d (hd.trans_le hradix))

theorem exists_first (hradix : radix ≤ 10) (h : Digits radix text n) :
    ∃ first rest, text = first :: rest ∧ first.isDigit = true := by
  obtain ⟨first, rest, rfl⟩ := List.exists_cons_of_ne_nil h.ne_nil
  obtain ⟨d, hd, heq⟩ := h.mem List.mem_cons_self
  exact ⟨first, rest, rfl, isDigit_of_toUpper (heq ▸ Hex.isDigit_digit d (hd.trans_le hradix))⟩

theorem not_mem_upper (hradix : radix ≤ 16) (h : Digits radix text n) {other : Char}
    (hother : ∀ d < 16, other ≠ Hex.digit d) : other ∉ upper text := by
  intro hmem
  obtain ⟨c, hc, rfl⟩ := List.mem_map.1 hmem
  obtain ⟨d, hd, heq⟩ := h.mem hc
  exact hother d (hd.trans_le hradix) heq

theorem not_plus (hradix : radix ≤ 16) (digits : List Char) : ¬ Digits radix ('+' :: digits) n :=
  fun h => h.not_mem_upper hradix (by decide) (List.mem_map_of_mem List.mem_cons_self)

theorem respell (h : Digits radix text n) {other : List Char} (heq : upper other = upper text) :
    Digits radix other n := by
  induction h generalizing other with
  | single hd hc =>
    obtain ⟨c, rfl, hupper⟩ := List.map_eq_singleton_iff.1 heq
    exact .single hd (hupper.trans hc)
  | snoc _ hd hc ih =>
    rw [upper_concat] at heq
    obtain ⟨start, last, rfl, hstart, hlast⟩ := List.map_eq_append_iff.1 heq
    obtain ⟨c, rfl, hupper⟩ := List.map_eq_singleton_iff.1 hlast
    exact (ih hstart).snoc hd (hupper.trans hc)

theorem upper_iff : Digits radix (upper text) n ↔ Digits radix text n := by
  have hletter : ∀ c ∈ letters, c.toUpper.toUpper = c.toUpper := forall_letters (by decide)
  have htwice : upper (upper text) = upper text := by
    rw [upper, upper, List.map_map]
    refine List.map_congr_left fun c _ => ?_
    rcases toUpper_eq_or_mem c with heq | ⟨hc, -⟩
    · exact congrArg Char.toUpper heq
    · exact hletter c hc
  exact ⟨fun h => h.respell htwice.symm, fun h => h.respell htwice⟩

end Digits

/-! ## Written digits -/

theorem Digits.zero_cons (hpos : 0 < radix) (h : Digits radix text n) :
    Digits radix ('0' :: text) n := by
  induction h with
  | single hd hc =>
    have hzero : Digits radix ['0'] 0 := .single hpos (by decide)
    have hdigits := hzero.snoc hd hc
    rwa [Nat.zero_mul, Nat.zero_add] at hdigits
  | snoc _ hd hc ih => exact ih.snoc hd hc

theorem Digits.replicate_append (hpos : 0 < radix) (zeros : Nat) (h : Digits radix text n) :
    Digits radix (List.replicate zeros '0' ++ text) n := by
  induction zeros with
  | zero => exact h
  | succ zeros ih => exact ih.zero_cons hpos

theorem digits_toDigits (hbase : 1 < radix) (hradix : radix ≤ 16) (n : Nat) :
    Digits radix (Nat.toDigits radix n) n := by
  induction n using Nat.strongRecOn with
  | ind n ih =>
    rw [Nat.toDigits_eq_if hbase]
    split
    case isTrue hlt => exact .single hlt (Hex.toUpper_digitChar n (by omega))
    case isFalse =>
      have hlast : n % radix < radix := Nat.mod_lt n (by omega)
      have hdigits := (ih (n / radix) (Nat.div_lt_self (by omega) hbase)).snoc hlast
        (Hex.toUpper_digitChar (n % radix) (by omega))
      rwa [Nat.div_add_mod' n radix] at hdigits

/-- Apart from zeros in front and the case of letters, a number has one text in each radix. -/
theorem digits_iff (hbase : 1 < radix) (hradix : radix ≤ 16) :
    Digits radix text n ↔
      ∃ zeros, upper text = List.replicate zeros '0' ++ upper (Nat.toDigits radix n) := by
  have hwritten : ∀ d < radix, upper (Nat.toDigits radix d) = [Hex.digit d] := by
    intro d hd
    rw [Nat.toDigits_of_lt_base hd, ← Hex.toUpper_digitChar d (by omega)]
    rfl
  constructor
  · intro h
    induction h with
    | single hd hc => exact ⟨0, (congrArg (fun c => [c]) hc).trans (hwritten _ hd).symm⟩
    | @snoc text n c d _ hd hc ih =>
      obtain ⟨zeros, heq⟩ := ih
      rw [upper_concat, heq, hc, ← hwritten d hd]
      rcases Nat.eq_zero_or_pos n with rfl | hpos
      · refine ⟨zeros + 1, ?_⟩
        rw [hwritten 0 (by omega), Nat.zero_mul, Nat.zero_add, List.replicate_succ']
        rfl
      · refine ⟨zeros, ?_⟩
        rw [Nat.mul_comm, ← Nat.toDigits_append_toDigits hbase hpos hd, List.append_assoc]
        exact congrArg _ List.map_append.symm
  · rintro ⟨zeros, heq⟩
    refine ((digits_toDigits hbase hradix n).replicate_append (by omega) zeros).respell ?_
    rw [heq, upper, upper, List.map_append, List.map_replicate]
    rfl

/-! ## Reading -/

theorem readDigits_append (value : Nat) (first second : List Char) :
    readDigits radix limit value (first ++ second) =
      (readDigits radix limit value first >>= fun v => readDigits radix limit v second) := by
  induction first generalizing value with
  | nil => rfl
  | cons c first ih =>
    rw [List.cons_append, readDigits, readDigits]
    split
    · rfl
    · split
      · rfl
      · exact ih _

theorem readDigits_singleton {value : Nat} (hradix : radix ≤ 16) (hd : d < radix)
    (hc : c.toUpper = Hex.digit d) :
    readDigits radix limit value [c] =
      if limit < value * radix + d then .error .tooLarge else .ok (value * radix + d) := by
  rw [readDigits, (digit?_eq_some_iff hradix).2 ⟨hd, hc⟩]
  rfl

/-- Reading goes through the prefixes of a number: none of them exceeds the limit if the whole
number does not, and none that comes later goes below it again. -/
theorem Digits.readDigits_eq (hradix : radix ≤ 16) (h : Digits radix text n) :
    readDigits radix limit 0 text = if limit < n then .error .tooLarge else .ok n := by
  induction h with
  | single hd hc => rw [readDigits_singleton hradix hd hc, Nat.zero_mul, Nat.zero_add]
  | @snoc text n c d _ hd hc ih =>
    have hle : n ≤ n * radix := Nat.le_mul_of_pos_right n (Nat.zero_lt_of_lt hd)
    rw [readDigits_append, ih]
    by_cases hprefix : limit < n
    · rw [if_pos hprefix, if_pos (by omega)]
      rfl
    · rw [if_neg hprefix]
      exact readDigits_singleton hradix hd hc

theorem digits_of_readDigits (hradix : radix ≤ 16) (h : readDigits radix limit 0 text = .ok n) :
    (text = [] ∧ n = 0) ∨ Digits radix text n := by
  induction text using List.reverseRecOn generalizing n with
  | nil => exact .inl ⟨rfl, (Except.ok.inj h).symm⟩
  | append_singleton text c ih =>
    rw [readDigits_append, bind_eq_ok] at h
    obtain ⟨value, hvalue, h⟩ := h
    cases hdigit : digit? radix c with
    | none =>
      rw [readDigits, hdigit] at h
      cases h
    | some d =>
      obtain ⟨hd, hc⟩ := (digit?_eq_some_iff hradix).1 hdigit
      rw [readDigits_singleton hradix hd hc] at h
      split at h
      · cases h
      · obtain rfl := Except.ok.inj h
        rcases ih hvalue with ⟨rfl, rfl⟩ | hdigits
        · rw [Nat.zero_mul, Nat.zero_add]
          exact .inr (.single hd hc)
        · exact .inr (hdigits.snoc hd hc)

theorem readDigits_eq_ok_iff (hradix : radix ≤ 16) (hne : text ≠ []) :
    readDigits radix limit 0 text = .ok n ↔ Digits radix text n ∧ n ≤ limit := by
  constructor
  · intro h
    have hdigits := (digits_of_readDigits hradix h).resolve_left fun hnil => hne hnil.1
    rw [hdigits.readDigits_eq hradix] at h
    split at h
    · cases h
    · exact ⟨hdigits, by omega⟩
  · rintro ⟨h, hn⟩
    rw [h.readDigits_eq hradix, if_neg (by omega)]

/-- The digits of a number, behind one plus sign or none. -/
def Signed (radix : Nat) (text : List Char) (n : Nat) : Prop :=
  Digits radix text n ∨ ∃ digits, text = '+' :: digits ∧ Digits radix digits n

theorem Signed.not_mem_upper (hradix : radix ≤ 16) (h : Signed radix text n) {other : Char}
    (hdigit : ∀ d < 16, other ≠ Hex.digit d) (hplus : other ≠ '+') : other ∉ upper text := by
  rcases h with hdigits | ⟨digits, rfl, hdigits⟩
  · exact hdigits.not_mem_upper hradix hdigit
  · exact List.not_mem_cons_of_ne_of_not_mem hplus (hdigits.not_mem_upper hradix hdigit)

theorem read_eq_ok_iff (hradix : radix ≤ 16) :
    read radix limit text = .ok n ↔ Signed radix text n ∧ n ≤ limit := by
  have hnil : ¬ Digits radix [] n := fun h => h.ne_nil rfl
  have hplus : ∀ digits, ¬ Digits radix ('+' :: digits) n := Digits.not_plus hradix
  unfold read Signed
  split
  case h_1 => simp [hnil]
  case h_2 => simp [hplus, hnil]
  case h_3 digits hsome =>
    have hne : digits ≠ [] := fun heq => hsome (heq ▸ rfl)
    simp [readDigits_eq_ok_iff hradix hne, hplus]
  case h_4 hne _ hsign =>
    have hunsigned : ¬ ∃ digits, text = '+' :: digits ∧ Digits radix digits n :=
      fun ⟨digits, heq, _⟩ => hsign digits heq
    rw [readDigits_eq_ok_iff hradix hne, or_iff_left hunsigned]

theorem Digits.read_eq (hradix : radix ≤ 16) (h : Digits radix text n) :
    read radix limit text = if limit < n then .error .tooLarge else .ok n := by
  unfold read
  split
  case h_1 => exact absurd rfl h.ne_nil
  case h_2 => exact absurd h (not_plus hradix _)
  case h_3 => exact absurd h (not_plus hradix _)
  case h_4 => exact h.readDigits_eq hradix

end Numeral

theorem Hex.digits_fixed {width n : Nat} (hn : n < Nat.pow 16 (width + 1)) :
    Numeral.Digits 16 (fixed (width + 1) n) n := by
  have hlast : n % 16 < 16 := Nat.mod_lt _ (by decide)
  induction width generalizing n with
  | zero =>
    have hmod : n % 16 = n := Nat.mod_eq_of_lt hn
    rw [hmod] at hlast
    rw [fixed, fixed, hmod, List.nil_append]
    exact .single hlast (toUpper_digit n hlast)
  | succ width ih =>
    have hpow : Nat.pow 16 (width + 1 + 1) = Nat.pow 16 (width + 1) * 16 := rfl
    rw [hpow] at hn
    have hdigits := (ih (n := n / 16) (by omega) (Nat.mod_lt _ (by decide))).snoc hlast
      (toUpper_digit _ hlast)
    rwa [Nat.div_add_mod' n 16] at hdigits

end Banked8085
