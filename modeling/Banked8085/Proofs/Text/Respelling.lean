import Mathlib.Data.List.Forall2
import Mathlib.Data.List.Induction
import Mathlib.Data.List.TakeWhile
import Banked8085.Assembler.Value
import Banked8085.Proofs.Text.Trim
import Banked8085.Text.Basic

/-! # Letter case outside quotations

`Respelled` relates two texts that differ at most in the case of letters outside quotations. All the
ways in which a source is taken apart lead from respelled texts to respelled pieces: `lines`, `trim`,
`cut` and `split`, and `splitHead` as long as the head has no quotes in it.
-/

namespace Banked8085
set_option autoImplicit false

open Assembler (upper)

/-! ## Letters -/

def letters : List Char :=
  (List.range 26).flatMap fun n => [Char.ofNat (65 + n), Char.ofNat (97 + n)]

theorem forall_letters {P : Char → Prop}
    (h : ∀ n < 26, P (Char.ofNat (65 + n)) ∧ P (Char.ofNat (97 + n))) : ∀ c ∈ letters, P c := by
  intro c hc
  obtain ⟨n, hn, hc⟩ := List.mem_flatMap.1 hc
  have hpair := h n (List.mem_range.1 hn)
  rcases List.mem_pair.1 hc with rfl | rfl
  · exact hpair.1
  · exact hpair.2

theorem toUpper_eq_or_mem (c : Char) : c.toUpper = c ∨ c ∈ letters ∧ c.toUpper ∈ letters := by
  by_cases h : 97 ≤ c.toNat ∧ c.toNat ≤ 122
  · have hletter : ∀ n < 123, 97 ≤ n →
        Char.ofNat n ∈ letters ∧ (Char.ofNat n).toUpper ∈ letters := by decide
    have hc := hletter c.toNat (by omega) h.1
    rw [Char.ofNat_toNat] at hc
    exact .inr hc
  · exact .inl (dif_neg h)

/-- Different characters with the same upper case are letters. -/
theorem eq_or_mem_letters {c d : Char} (h : c.toUpper = d.toUpper) :
    c = d ∨ c ∈ letters ∧ d ∈ letters := by
  rcases toUpper_eq_or_mem c with hc | ⟨hc, hc'⟩
  · rcases toUpper_eq_or_mem d with hd | ⟨hd, hd'⟩
    · exact .inl (hc.symm.trans (h.trans hd))
    · exact .inr ⟨hc ▸ h ▸ hd', hd⟩
  · rcases toUpper_eq_or_mem d with hd | ⟨hd, -⟩
    · exact .inr ⟨hc, hd ▸ h ▸ hc'⟩
    · exact .inr ⟨hc, hd⟩

theorem isBlank_letter : ∀ c ∈ letters, isBlank c = false := forall_letters (by decide)

theorem isQuote_letter : ∀ c ∈ letters, Quoted.isQuote c = false := forall_letters (by decide)

namespace Quoted

theorem isQuote_eq_false_of {p : Char → Bool} (hsingle : p '\'' = false) (hdouble : p '"' = false)
    {c : Char} (h : p c = true) : isQuote c = false := by
  cases hquote : isQuote c with
  | false => rfl
  | true =>
    simp only [isQuote, Bool.or_eq_true, beq_iff_eq] at hquote
    rcases hquote with rfl | rfl
    · exact absurd h (Bool.eq_false_iff.1 hsingle)
    · exact absurd h (Bool.eq_false_iff.1 hdouble)

/-- No character opens a quotation. -/
def Plain (text : List Char) : Prop := ∀ c ∈ text, isQuote c = false

instance (text : List Char) : Decidable (Plain text) :=
  List.decidableBAll (fun c => isQuote c = false) text

/-- The quotation that is open after a character of a source; none goes past the end of a line. -/
def nextInSource (quote : Option Char) (c : Char) : Option Char :=
  if c = '\n' then none else next quote c

theorem next_of_plain {c : Char} (h : isQuote c = false) : next none c = none := by
  unfold next
  rw [h]
  rfl

theorem plain_of_upper {text : List Char} (h : Plain (upper text)) : Plain text := by
  intro c hc
  rcases toUpper_eq_or_mem c with heq | ⟨hletter, -⟩
  · exact heq ▸ h _ (List.mem_map_of_mem hc)
  · exact isQuote_letter c hletter

theorem plain_of_blanks {text : List Char} (h : Blanks text) : Plain text := fun c hc =>
  isQuote_eq_false_of (by decide) (by decide) (h c hc)

theorem Plain.scan_eq {text : List Char} (h : Plain text) : scan none text = none := by
  induction text with
  | nil => rfl
  | cons c text ih =>
    rw [scan, List.foldl_cons, next_of_plain (h c List.mem_cons_self)]
    exact ih fun d hd => h d (List.mem_cons_of_mem _ hd)

end Quoted

/-! ## Respelled texts -/

/-- Two characters are equal up to case; inside a quotation they are equal. -/
def SameLetter (quote : Option Char) (c d : Char) : Prop :=
  c = d ∨ quote = none ∧ c.toUpper = d.toUpper

instance (quote : Option Char) (c d : Char) : Decidable (SameLetter quote c d) :=
  inferInstanceAs (Decidable (c = d ∨ quote = none ∧ c.toUpper = d.toUpper))

/-- The texts differ at most in the case of letters outside quotations, where `quote` is the
quotation in front of them and `next` says which one is open after a character. -/
inductive Respelled (next : Option Char → Char → Option Char) :
    Option Char → List Char → List Char → Prop
  | nil {quote} : Respelled next quote [] []
  | cons {quote c d s t} (h : SameLetter quote c d) (hrest : Respelled next (next quote c) s t) :
    Respelled next quote (c :: s) (d :: t)

namespace SameLetter
variable {quote : Option Char} {c d : Char}

theorem toUpper_eq (h : SameLetter quote c d) : c.toUpper = d.toUpper := by
  rcases h with rfl | ⟨-, h⟩
  · rfl
  · exact h

/-- What does not tell letters from each other does not tell these characters from each other. -/
theorem congr {α : Type} {f : Char → α} {a : α} (hf : ∀ c ∈ letters, f c = a)
    (h : SameLetter quote c d) : f c = f d := by
  rcases eq_or_mem_letters h.toUpper_eq with rfl | ⟨hc, hd⟩
  · rfl
  · rw [hf c hc, hf d hd]

theorem eq_iff {other : Char} (hother : other ∉ letters) (h : SameLetter quote c d) :
    c = other ↔ d = other := by
  rcases eq_or_mem_letters h.toUpper_eq with rfl | ⟨hc, hd⟩
  · rfl
  · exact iff_of_false (ne_of_mem_of_not_mem hc hother) (ne_of_mem_of_not_mem hd hother)

theorem eq_of_some {q : Char} (h : SameLetter (some q) c d) : c = d := by
  rcases h with rfl | ⟨h, -⟩
  · rfl
  · cases h

theorem isBlank_eq (h : SameLetter quote c d) : isBlank c = isBlank d := h.congr isBlank_letter

theorem next_eq (h : SameLetter quote c d) : Quoted.next quote c = Quoted.next quote d := by
  cases quote with
  | some q => rw [h.eq_of_some]
  | none => exact h.congr (f := Quoted.next none) (a := none) (forall_letters (by decide))

end SameLetter

namespace Respelled
/-- One line against another, or a piece that no quotation reaches into. -/
abbrev InLine : List Char → List Char → Prop := Respelled Quoted.next none

abbrev InSource : List Char → List Char → Prop := Respelled Quoted.nextInSource none

variable {next : Option Char → Char → Option Char} {quote : Option Char} {s s' t t' : List Char}

instance decidable (next : Option Char → Char → Option Char) :
    (quote : Option Char) → (s t : List Char) → Decidable (Respelled next quote s t)
  | _, [], [] => .isTrue .nil
  | _, [], _ :: _ => .isFalse nofun
  | _, _ :: _, [] => .isFalse nofun
  | quote, c :: s, d :: t =>
    have := decidable next (next quote c) s t
    decidable_of_iff (SameLetter quote c d ∧ Respelled next (next quote c) s t)
      ⟨fun h => .cons h.1 h.2, fun h => by cases h with | cons h hrest => exact ⟨h, hrest⟩⟩

theorem upper_eq (h : Respelled next quote s t) : upper s = upper t := by
  induction h with
  | nil => rfl
  | cons hc _ ih => exact congrArg₂ List.cons hc.toUpper_eq ih

theorem append (h : Respelled next quote s t) (h' : Respelled next (s.foldl next quote) s' t') :
    Respelled next quote (s ++ s') (t ++ t') := by
  induction h with
  | nil => exact h'
  | cons hc _ ih => exact .cons hc (ih h')

theorem of_append {u : List Char} (h : Respelled next quote (s ++ s') u) :
    ∃ t t', u = t ++ t' ∧ Respelled next quote s t ∧
      Respelled next (s.foldl next quote) s' t' := by
  induction s generalizing quote u with
  | nil => exact ⟨[], u, rfl, .nil, h⟩
  | cons c s ih =>
    cases h with
    | cons hc hrest =>
      obtain ⟨t, t', rfl, ht, ht'⟩ := ih hrest
      exact ⟨_ :: t, t', rfl, .cons hc ht, ht'⟩

/-- Quotations protect their letters up to the quote character that ends them. -/
theorem eq_of_not_mem {q : Char} (h : Respelled Quoted.next (some q) s t) (hq : q ∉ s) :
    s = t := by
  induction s generalizing t with
  | nil =>
    cases h
    rfl
  | cons c s ih =>
    cases h with
    | cons hc hrest =>
      obtain rfl := hc.eq_of_some
      have hne : c ≠ q := fun hcq => hq (hcq ▸ List.mem_cons_self)
      have hopen : Quoted.next (some q) c = some q := if_neg hne
      rw [hopen] at hrest
      rw [ih hrest fun hmem => hq (List.mem_cons_of_mem _ hmem)]

/-! ### Blanks -/

section While
variable {p : Char → Bool} (hp : ∀ {quote c d}, SameLetter quote c d → p c = p d)
include hp

theorem takeWhile (h : Respelled next quote s t) :
    Respelled next quote (s.takeWhile p) (t.takeWhile p) := by
  induction h with
  | nil => exact .nil
  | @cons quote c d s t hc _ ih =>
    rw [List.takeWhile_cons, List.takeWhile_cons, ← hp hc]
    split
    · exact .cons hc ih
    · exact .nil

theorem dropWhile (h : Respelled next quote s t) :
    Respelled next ((s.takeWhile p).foldl next quote) (s.dropWhile p) (t.dropWhile p) := by
  induction h with
  | nil => exact .nil
  | @cons quote c d s t hc hrest ih =>
    rw [List.takeWhile_cons, List.dropWhile_cons, List.dropWhile_cons, ← hp hc]
    split
    · exact ih
    · exact .cons hc hrest

end While

theorem trimEnd (h : Respelled next quote s t) :
    Respelled next quote (Banked8085.trimEnd s) (Banked8085.trimEnd t) := by
  induction s using List.reverseRecOn generalizing t with
  | nil =>
    cases h
    exact .nil
  | append_singleton s c ih =>
    obtain ⟨t, u, rfl, ht, hu⟩ := h.of_append
    obtain _ | ⟨hc, hrest⟩ := hu
    cases hrest
    rw [trimEnd_concat, trimEnd_concat, ← hc.isBlank_eq]
    split
    · exact ih ht
    · exact ht.append (.cons hc .nil)

theorem trim (h : Respelled next quote s t) :
    Respelled next ((s.takeWhile isBlank).foldl next quote) (Banked8085.trim s)
      (Banked8085.trim t) :=
  (h.dropWhile SameLetter.isBlank_eq).trimEnd

theorem scan_blanks (s : List Char) : Quoted.scan none (s.takeWhile isBlank) = none := by
  have hblanks : Blanks (s.takeWhile isBlank) := fun _ hc => List.mem_takeWhile_imp hc
  exact (Quoted.plain_of_blanks hblanks).scan_eq

theorem trim_none (h : InLine s t) : InLine (Banked8085.trim s) (Banked8085.trim t) := by
  have htrim := h.trim
  rw [← Quoted.scan, scan_blanks] at htrim
  exact htrim

/-! ### Separators -/

/-- The characters of two pieces of text, collected in reverse, with the quotation that is open
behind them. -/
structure Collected (quote : Option Char) (r r' : List Char) : Prop where
  respelled : InLine r.reverse r'.reverse
  scan_eq : Quoted.scan none r.reverse = quote

theorem Collected.nil : Collected none [] [] := ⟨.nil, rfl⟩

theorem Collected.cons {r r' : List Char} {c d : Char} (hr : Collected quote r r')
    (hc : SameLetter quote c d) : Collected (Quoted.next quote c) (c :: r) (d :: r') := by
  obtain ⟨hr, rfl⟩ := hr
  refine ⟨?_, ?_⟩
  · rw [List.reverse_cons, List.reverse_cons]
    exact hr.append (.cons hc .nil)
  · rw [List.reverse_cons, Quoted.scan, List.foldl_append]
    rfl

section Separator
variable {separator : Char} (hletter : separator ∉ letters)
  (hquote : Quoted.isQuote separator = false) {r r' : List Char}
include hletter hquote

theorem cutFrom (hr : Collected quote r r') (h : Respelled Quoted.next quote s t) :
    Option.Rel (fun p q => InLine p.1 q.1 ∧ InLine p.2 q.2)
      (Quoted.cutFrom separator r quote s) (Quoted.cutFrom separator r' quote t) := by
  induction s generalizing r r' quote t with
  | nil =>
    cases h
    exact .none
  | cons c s ih =>
    obtain _ | ⟨hc, hrest⟩ := h
    rename_i d t
    have hiff : quote = none ∧ c = separator ↔ quote = none ∧ d = separator :=
      and_congr_right fun _ => hc.eq_iff hletter
    simp only [Quoted.cutFrom, ← hiff, ← hc.next_eq]
    split
    case isTrue hcut =>
      obtain ⟨rfl, rfl⟩ := hcut
      rw [Quoted.next_of_plain hquote] at hrest
      exact .some ⟨hr.respelled, hrest⟩
    case isFalse => exact ih (hr.cons hc) hrest

theorem splitFrom (hr : Collected quote r r') (h : Respelled Quoted.next quote s t) :
    List.Forall₂ InLine
      (Quoted.splitFrom separator r quote s) (Quoted.splitFrom separator r' quote t) := by
  induction s generalizing r r' quote t with
  | nil =>
    cases h
    exact .cons hr.respelled .nil
  | cons c s ih =>
    obtain _ | ⟨hc, hrest⟩ := h
    rename_i d t
    have hiff : quote = none ∧ c = separator ↔ quote = none ∧ d = separator :=
      and_congr_right fun _ => hc.eq_iff hletter
    simp only [Quoted.splitFrom, ← hiff, ← hc.next_eq]
    split
    case isTrue hcut =>
      obtain ⟨rfl, rfl⟩ := hcut
      rw [Quoted.next_of_plain hquote] at hrest
      exact .cons hr.respelled (ih .nil hrest)
    case isFalse => exact ih (hr.cons hc) hrest

end Separator

/-! ### Lines -/

theorem eq_nil_iff (h : Respelled next quote s t) : s = [] ↔ t = [] := by
  cases h <;> simp

theorem finish_cons (c : Char) (r : List Char) :
    Lines.finish (c :: r) = if c = '\r' then r.reverse else (c :: r).reverse := by
  split
  case isTrue h =>
    subst h
    rfl
  case isFalse h =>
    unfold Lines.finish
    split
    case h_1 heq => exact absurd (List.cons.inj heq).1 h
    case h_2 => rfl

theorem finish {r r' : List Char} (h : Respelled next none r.reverse r'.reverse) :
    Respelled next none (Lines.finish r) (Lines.finish r') := by
  cases r with
  | nil =>
    rw [List.reverse_eq_nil_iff.1 (h.eq_nil_iff.1 rfl)]
    exact .nil
  | cons c r =>
    rw [List.reverse_cons] at h
    obtain ⟨t, u, heq, ht, hu⟩ := h.of_append
    obtain _ | ⟨hc, hrest⟩ := hu
    cases hrest
    rename_i d
    obtain rfl : r' = d :: t.reverse := by simpa using congrArg List.reverse heq
    simp only [finish_cons, ← hc.eq_iff (by decide : '\r' ∉ letters), List.reverse_reverse,
      List.reverse_cons]
    split
    · exact ht
    · exact ht.append (.cons hc .nil)

theorem linesAfter {r r' : List Char} (hr : Collected quote r r')
    (h : Respelled Quoted.nextInSource quote s t) :
    List.Forall₂ InLine (Lines.after r s) (Lines.after r' t) := by
  induction s generalizing r r' quote t with
  | nil =>
    cases h
    have hiff : r = [] ↔ r' = [] := by simpa using hr.respelled.eq_nil_iff
    simp only [Lines.after, ← hiff]
    split
    · exact .nil
    · exact .cons hr.respelled .nil
  | cons c s ih =>
    obtain _ | ⟨hc, hrest⟩ := h
    simp only [Lines.after, ← hc.eq_iff (by decide : '\n' ∉ letters)]
    split
    case isTrue hend =>
      rw [Quoted.nextInSource, if_pos hend] at hrest
      exact .cons hr.respelled.finish (ih .nil hrest)
    case isFalse hend =>
      rw [Quoted.nextInSource, if_neg hend] at hrest
      exact ih (hr.cons hc) hrest

theorem lines (h : InSource s t) :
    List.Forall₂ InLine (Banked8085.lines s) (Banked8085.lines t) :=
  linesAfter .nil h

/-! ### Quotations -/

theorem opens_eq (h : Respelled next quote s t) : Quoted.opens s = Quoted.opens t := by
  cases h with
  | nil => rfl
  | cons hc _ => exact hc.congr isQuote_letter

theorem inner {q : Char} (hq : q ∉ letters) (h : Respelled Quoted.next (some q) s t) :
    Option.Rel (Respelled Quoted.next (some q)) (Quoted.inner? (q :: s))
      (Quoted.inner? (q :: t)) := by
  rcases List.eq_nil_or_concat' s with rfl | ⟨s, c, rfl⟩
  · cases h
    exact .none
  · obtain ⟨t, u, rfl, ht, hu⟩ := h.of_append
    obtain _ | ⟨hc, hrest⟩ := hu
    cases hrest
    simp only [Quoted.inner?, List.getLast?_concat, List.dropLast_concat, Option.some.injEq,
      ← hc.eq_iff hq]
    split
    · exact .some ht
    · exact .none

end Respelled
end Banked8085
