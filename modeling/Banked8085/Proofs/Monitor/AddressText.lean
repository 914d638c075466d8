import Banked8085.Monitor.Settings
import Banked8085.Proofs.Text.Digits

/-! # Texts of addresses

An address is written in hexadecimal digits, with `0x` in front, with `h` behind, or with neither
(`AddressText`). All of these texts are read up to the last address of a bank. Nothing else is read
but a plus sign in front of the digits (`only_addresses_are_parsed`), which the reader of numerals
takes for a part of the number.
-/

namespace Banked8085.Monitor
set_option autoImplicit false

open Assembler (upper)
open Numeral (Digits Signed)

/-- The marks that can stand around the digits of an address. -/
inductive Marked (digits : List Char) : List Char → Prop
  | bare : Marked digits digits
  | hexPrefix {x : Char} (hx : x = 'x' ∨ x = 'X') : Marked digits ('0' :: x :: digits)
  | hexSuffix {h : Char} (hh : h = 'h' ∨ h = 'H') : Marked digits (digits ++ [h])

/-- The forms of an address. -/
def AddressText (text : List Char) (n : Nat) : Prop :=
  ∃ digits, Marked digits text ∧ Digits 16 digits n

/-- The same forms with a plus sign in front of the digits. -/
def SignedAddress (text : List Char) (n : Nat) : Prop :=
  ∃ digits, Marked ('+' :: digits) text ∧ Digits 16 digits n

variable {text digits : List Char} {n : Nat}

theorem AddressText.isAlphanum (h : AddressText text n) {c : Char} (hc : c ∈ text) :
    c.isAlphanum = true := by
  obtain ⟨digits, hmarked, hdigits⟩ := h
  have hdigit : ∀ c ∈ digits, c.isAlphanum = true := fun c hc =>
    hdigits.isAlphanum (by decide) hc
  cases hmarked with
  | bare => exact hdigit c hc
  | hexPrefix hx =>
    simp only [List.mem_cons] at hc
    rcases hc with rfl | rfl | hc
    · decide
    · rcases hx with rfl | rfl <;> decide
    · exact hdigit c hc
  | hexSuffix hh =>
    simp only [List.mem_append, List.mem_singleton] at hc
    rcases hc with hc | rfl
    · exact hdigit c hc
    · rcases hh with rfl | rfl <;> decide

/-! ## Marks -/

theorem marked_addressDigits (text : List Char) : Marked (addressDigits text) text := by
  unfold addressDigits
  split
  case h_1 => exact .hexPrefix (.inl rfl)
  case h_2 => exact .hexPrefix (.inr rfl)
  case h_3 =>
    split
    case h_1 hlast =>
      obtain ⟨start, rfl⟩ := List.getLast?_eq_some_iff.1 hlast
      rw [List.dropLast_concat]
      exact .hexSuffix (.inl rfl)
    case h_2 hlast =>
      obtain ⟨start, rfl⟩ := List.getLast?_eq_some_iff.1 hlast
      rw [List.dropLast_concat]
      exact .hexSuffix (.inr rfl)
    case h_3 => exact .bare

theorem addressDigits_of_not_mem (hx : 'X' ∉ upper text) :
    addressDigits text =
      match text.getLast? with
      | some 'h' | some 'H' => text.dropLast
      | _ => text := by
  unfold addressDigits
  split
  case h_1 => exact absurd (by simp [upper]) hx
  case h_2 => exact absurd (by simp [upper]) hx
  case h_3 => rfl

/-- Marks are recognised around everything in which no mark occurs. -/
theorem addressDigits_of_marked (h : Marked digits text) (hx : 'X' ∉ upper digits)
    (hh : 'H' ∉ upper digits) : addressDigits text = digits := by
  cases h with
  | bare =>
    have hnot : ∀ c : Char, c.toUpper = 'H' → text.getLast? ≠ some c := by
      intro c hc hlast
      exact hh (List.mem_map.2 ⟨c, List.mem_of_getLast? hlast, hc⟩)
    rw [addressDigits_of_not_mem hx]
    split
    case h_1 hlast => exact absurd hlast (hnot 'h' (by decide))
    case h_2 hlast => exact absurd hlast (hnot 'H' (by decide))
    case h_3 => rfl
  | hexPrefix hmark => rcases hmark with rfl | rfl <;> rfl
  | @hexSuffix mark hmark =>
    have hnot : 'X' ∉ upper (digits ++ [mark]) := by
      rw [upper_concat, List.mem_append, List.mem_singleton, not_or]
      exact ⟨hx, by rcases hmark with rfl | rfl <;> decide⟩
    rw [addressDigits_of_not_mem hnot, List.getLast?_concat, List.dropLast_concat]
    rcases hmark with rfl | rfl <;> rfl

/-! ## Addresses that are read -/

theorem signed_addressDigits_iff :
    Signed 16 (addressDigits text) n ↔ AddressText text n ∨ SignedAddress text n := by
  have hsame : ∀ {digits}, Marked digits text → Signed 16 digits n →
      addressDigits text = digits := fun hmarked h =>
    addressDigits_of_marked hmarked (h.not_mem_upper (by decide) (by decide) (by decide))
      (h.not_mem_upper (by decide) (by decide) (by decide))
  constructor
  · rintro (hdigits | ⟨digits, heq, hdigits⟩)
    · exact .inl ⟨_, marked_addressDigits text, hdigits⟩
    · exact .inr ⟨digits, heq ▸ marked_addressDigits text, hdigits⟩
  · rintro (⟨digits, hmarked, hdigits⟩ | ⟨digits, hmarked, hdigits⟩)
    · have h : Signed 16 digits n := .inl hdigits
      rwa [hsame hmarked h]
    · have h : Signed 16 ('+' :: digits) n := .inr ⟨digits, rfl, hdigits⟩
      rwa [hsame hmarked h]

theorem parseAddress_eq_ok_iff {text : String} {a : Word} :
    parseAddress text = .ok a ↔
      AddressText text.toList a.toNat ∨ SignedAddress text.toList a.toNat := by
  have hlimit : a.toNat ≤ 65535 := Nat.le_of_lt_succ a.toNat_lt
  have hread : Numeral.read 16 65535 (addressDigits text.toList) = .ok a.toNat ↔
      AddressText text.toList a.toNat ∨ SignedAddress text.toList a.toNat := by
    rw [Numeral.read_eq_ok_iff (by decide), and_iff_left hlimit, signed_addressDigits_iff]
  rw [← hread, parseAddress]
  cases hnumber : Numeral.read 16 65535 (addressDigits text.toList) with
  | error cause => exact iff_of_false nofun nofun
  | ok n =>
    have hn : n < 65536 :=
      Nat.lt_succ_of_le ((Numeral.read_eq_ok_iff (by decide)).1 hnumber).2
    simp only [Except.ok.injEq, ← UInt16.toNat_inj, UInt16.toNat_ofNat_of_lt' hn]

/-- An address is read from each of its forms, and from the same forms with a plus sign in front of
the digits. Every other text, or one of a number that is no address, is an error that names the
text. -/
theorem only_addresses_are_parsed (text : String) :
    (∀ a, parseAddress text = .ok a ↔
      AddressText text.toList a.toNat ∨ SignedAddress text.toList a.toNat) ∧
    ((∃ cause, parseAddress text = .error (.address text cause)) ↔
      (¬ ∃ n ≤ 0xFFFF, AddressText text.toList n) ∧
        ¬ ∃ n ≤ 0xFFFF, SignedAddress text.toList n) := by
  refine ⟨fun a => parseAddress_eq_ok_iff, ?_, ?_⟩
  · rintro ⟨cause, h⟩
    have hnot : ∀ n ≤ 0xFFFF, ¬ (AddressText text.toList n ∨ SignedAddress text.toList n) := by
      intro n hn htext
      have hofNat : (UInt16.ofNat n).toNat = n := UInt16.toNat_ofNat_of_lt' (Nat.lt_succ_of_le hn)
      rw [← hofNat, ← parseAddress_eq_ok_iff, h] at htext
      cases htext
    exact ⟨fun ⟨n, hn, htext⟩ => hnot n hn (.inl htext),
      fun ⟨n, hn, htext⟩ => hnot n hn (.inr htext)⟩
  · rintro ⟨hform, hsigned⟩
    cases hparse : parseAddress text with
    | ok a =>
      have ha : a.toNat ≤ 0xFFFF := Nat.le_of_lt_succ a.toNat_lt
      rcases parseAddress_eq_ok_iff.1 hparse with htext | htext
      · exact absurd ⟨_, ha, htext⟩ hform
      · exact absurd ⟨_, ha, htext⟩ hsigned
    | error e =>
      unfold parseAddress at hparse
      split at hparse
      case h_1 => cases hparse
      case h_2 cause _ => exact ⟨cause, hparse.symm⟩

/-- A text with a sign in none of the forms is read as an address. -/
theorem signed_address_is_parsed :
    parseAddress "+2000" = .ok 0x2000 ∧ ¬ ∃ n, AddressText "+2000".toList n := by
  refine ⟨by decide +kernel, ?_⟩
  rintro ⟨n, h⟩
  have hplus : '+' ∈ "+2000".toList := by decide
  exact absurd (h.isAlphanum hplus) (by decide)

end Banked8085.Monitor
