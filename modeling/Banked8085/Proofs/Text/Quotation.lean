import Banked8085.Proofs.Text.Respelling

/-! # Text outside quotations

`Quoted.outside` is the part of a text in which separators count. Where a separator does not occur
in it, `cut` finds nothing and `split` reads on, so that pieces joined by separators are taken apart
again (`split_intercalate`), and blanks around the whole are blanks around pieces
(`map_trim_split_trim`).
-/

namespace Banked8085
set_option autoImplicit false

namespace Quoted
variable {quote : Option Char} {separator q : Char} {s t reversed : List Char}

/-- The characters in front of which no quotation is open. The quote that opens one is among them,
the quote that closes it is not. -/
def outside (quote : Option Char) : List Char → List Char
  | [] => []
  | c :: rest =>
    if quote = none then c :: outside (next quote c) rest else outside (next quote c) rest

theorem scan_append (s t : List Char) : scan quote (s ++ t) = scan (scan quote s) t :=
  List.foldl_append

theorem outside_append (s t : List Char) :
    outside quote (s ++ t) = outside quote s ++ outside (scan quote s) t := by
  induction s generalizing quote with
  | nil => rfl
  | cons c s ih =>
    simp only [List.cons_append, outside, ih]
    split <;> rfl

theorem outside_subset : outside quote s ⊆ s := by
  induction s generalizing quote with
  | nil => exact List.Subset.refl _
  | cons c s ih =>
    rw [outside]
    split
    · exact List.cons_subset_cons c ih
    · exact List.subset_cons_of_subset c ih

/-! ## Plain text and quotations -/

theorem Plain.outside_eq (h : Plain s) : outside none s = s := by
  induction s with
  | nil => rfl
  | cons c s ih =>
    rw [outside, if_pos rfl, next_of_plain (h c List.mem_cons_self),
      ih fun d hd => h d (List.mem_cons_of_mem _ hd)]

theorem scan_inside (h : q ∉ s) : scan (some q) s = some q := by
  induction s with
  | nil => rfl
  | cons c s ih =>
    rw [List.mem_cons, not_or] at h
    rw [scan, List.foldl_cons, next, if_neg (Ne.symm h.1)]
    exact ih h.2

theorem outside_inside (h : q ∉ s) : outside (some q) s = [] := by
  induction s with
  | nil => rfl
  | cons c s ih =>
    rw [List.mem_cons, not_or] at h
    rw [outside, if_neg nofun, next, if_neg (Ne.symm h.1)]
    exact ih h.2

theorem next_of_isQuote (hq : isQuote q = true) : next none q = some q := if_pos hq

/-- A quotation ends at its last character. -/
theorem scan_quotation (hq : isQuote q = true) (h : q ∉ s) :
    scan none (q :: (s ++ [q])) = none := by
  have hclose : next (some q) q = none := if_pos rfl
  calc scan none (q :: (s ++ [q])) = scan (some q) (s ++ [q]) :=
        congrArg (fun quote => scan quote (s ++ [q])) (next_of_isQuote hq)
    _ = scan (some q) [q] := by rw [scan_append, scan_inside h]
    _ = none := hclose

theorem outside_quotation (hq : isQuote q = true) (h : q ∉ s) :
    outside none (q :: (s ++ [q])) = [q] := by
  rw [outside, if_pos rfl, next_of_isQuote hq, outside_append, outside_inside h, scan_inside h]
  rfl

/-! ## Separators -/

/-- A text in which no separator counts is read over. -/
theorem cutFrom_append (h : separator ∉ outside quote s) :
    cutFrom separator reversed quote (s ++ t) =
      cutFrom separator (s.reverse ++ reversed) (scan quote s) t := by
  induction s generalizing quote reversed with
  | nil => rfl
  | cons c s ih =>
    rw [outside] at h
    rw [List.cons_append, cutFrom, List.reverse_cons, List.append_assoc]
    split at h
    case isTrue hquote =>
      rw [List.mem_cons, not_or] at h
      rw [if_neg fun hc => h.1 hc.2.symm]
      exact ih h.2
    case isFalse hquote =>
      rw [if_neg fun hc => hquote hc.1]
      exact ih h

theorem cut_append_cons (h : separator ∉ outside none s) (hclosed : scan none s = none) :
    cut separator (s ++ separator :: t) = some (s, t) := by
  have hread : cut separator (s ++ separator :: t) =
      cutFrom separator (s.reverse ++ []) (scan none s) (separator :: t) := cutFrom_append h
  rw [hread, hclosed, cutFrom, if_pos ⟨rfl, rfl⟩, List.append_nil, List.reverse_reverse]

/-- Of the separators that count, one is the first. -/
theorem exists_of_mem_outside (h : separator ∈ outside quote s) :
    ∃ before after, s = before ++ separator :: after ∧ separator ∉ outside quote before ∧
      scan quote before = none := by
  induction s generalizing quote with
  | nil => cases h
  | cons c s ih =>
    by_cases hfirst : quote = none ∧ c = separator
    · obtain ⟨rfl, rfl⟩ := hfirst
      exact ⟨[], s, rfl, List.not_mem_nil, rfl⟩
    · have hmem : ∀ text, separator ∈ outside quote (c :: text) ↔
          separator ∈ outside (next quote c) text := by
        intro text
        rw [outside]
        split
        case isTrue hquote =>
          rw [List.mem_cons]
          exact or_iff_right fun heq => hfirst ⟨hquote, heq.symm⟩
        case isFalse => rfl
      obtain ⟨before, after, rfl, hnot, hclosed⟩ := ih ((hmem s).1 h)
      exact ⟨c :: before, after, rfl, fun hbefore => hnot ((hmem before).1 hbefore), hclosed⟩

theorem cut_eq_none_iff : cut separator s = none ↔ separator ∉ outside none s := by
  constructor
  · intro h hmem
    obtain ⟨before, after, rfl, hnot, hclosed⟩ := exists_of_mem_outside hmem
    rw [cut_append_cons hnot hclosed] at h
    cases h
  · intro h
    have hread : cut separator (s ++ []) = cutFrom separator (s.reverse ++ []) (scan none s) [] :=
      cutFrom_append h
    rw [List.append_nil] at hread
    rw [hread, cutFrom]

theorem cut_eq_some_iff {before after : List Char} :
    cut separator s = some (before, after) ↔
      s = before ++ separator :: after ∧ separator ∉ outside none before ∧
        scan none before = none := by
  constructor
  · intro h
    have hmem : separator ∈ outside none s := by
      by_contra hnot
      rw [cut_eq_none_iff.2 hnot] at h
      cases h
    obtain ⟨first, rest, rfl, hnot, hclosed⟩ := exists_of_mem_outside hmem
    rw [cut_append_cons hnot hclosed] at h
    cases h
    exact ⟨rfl, hnot, hclosed⟩
  · rintro ⟨rfl, hnot, hclosed⟩
    exact cut_append_cons hnot hclosed

theorem splitFrom_append (h : separator ∉ outside quote s) :
    splitFrom separator reversed quote (s ++ t) =
      splitFrom separator (s.reverse ++ reversed) (scan quote s) t := by
  induction s generalizing quote reversed with
  | nil => rfl
  | cons c s ih =>
    rw [outside] at h
    rw [List.cons_append, splitFrom, List.reverse_cons, List.append_assoc]
    split at h
    case isTrue hquote =>
      rw [List.mem_cons, not_or] at h
      rw [if_neg fun hc => h.1 hc.2.symm]
      exact ih h.2
    case isFalse hquote =>
      rw [if_neg fun hc => hquote hc.1]
      exact ih h

theorem split_eq_singleton (h : separator ∉ outside none s) : split separator s = [s] := by
  have hread : split separator (s ++ []) = splitFrom separator (s.reverse ++ []) (scan none s) [] :=
    splitFrom_append h
  rw [List.append_nil, List.append_nil] at hread
  rw [hread, splitFrom, List.reverse_reverse]

theorem split_append_cons (h : separator ∉ outside none s) (hclosed : scan none s = none) :
    split separator (s ++ separator :: t) = s :: split separator t := by
  have hread : split separator (s ++ separator :: t) =
      splitFrom separator (s.reverse ++ []) (scan none s) (separator :: t) := splitFrom_append h
  rw [hread, hclosed, splitFrom, if_pos ⟨rfl, rfl⟩, List.append_nil, List.reverse_reverse]
  rfl

/-- Pieces in which all quotations are closed and no separator stands outside them are read back
from the text that they make with separators between them. -/
theorem split_intercalate {pieces : List (List Char)} (hne : pieces ≠ [])
    (hclosed : ∀ piece ∈ pieces, scan none piece = none)
    (hseparator : ∀ piece ∈ pieces, separator ∉ outside none piece) :
    split separator ([separator].intercalate pieces) = pieces := by
  induction pieces with
  | nil => exact absurd rfl hne
  | cons piece rest ih =>
    rw [List.forall_mem_cons] at hclosed hseparator
    cases rest with
    | nil => simpa using split_eq_singleton hseparator.1
    | cons next rest =>
      rw [List.intercalate_cons_cons, List.append_assoc, List.singleton_append,
        split_append_cons hseparator.1 hclosed.1, ih (List.cons_ne_nil _ _) hclosed.2 hseparator.2]

/-- A piece begins at the start and behind every separator that counts. -/
theorem length_splitFrom (hquote : isQuote separator = false) (reversed : List Char) :
    (splitFrom separator reversed quote s).length = (outside quote s).count separator + 1 := by
  induction s generalizing quote reversed with
  | nil => rfl
  | cons c s ih =>
    rw [splitFrom, outside]
    split
    case isTrue hcut =>
      obtain ⟨rfl, rfl⟩ := hcut
      rw [if_pos rfl, next_of_plain hquote, List.count_cons_self, List.length_cons, ih]
    case isFalse hcut =>
      rw [ih]
      split
      case isTrue hnone =>
        have hne : c ≠ separator := fun heq => hcut ⟨hnone, heq⟩
        rw [List.count_cons_of_ne hne]
      case isFalse => rfl

theorem not_mem_outside_intercalate {other : Char} {pieces : List (List Char)}
    (hquote : isQuote separator = false) (hother : other ≠ separator)
    (hclosed : ∀ piece ∈ pieces, scan none piece = none)
    (hout : ∀ piece ∈ pieces, other ∉ outside none piece) :
    other ∉ outside none ([separator].intercalate pieces) := by
  induction pieces with
  | nil => exact List.not_mem_nil
  | cons piece rest ih =>
    rw [List.forall_mem_cons] at hclosed hout
    cases rest with
    | nil => simpa using hout.1
    | cons next rest =>
      rw [List.intercalate_cons_cons, List.append_assoc, outside_append, hclosed.1,
        List.singleton_append, outside, if_pos rfl, next_of_plain hquote, List.mem_append,
        List.mem_cons]
      rintro (hmem | heq | hmem)
      · exact hout.1 hmem
      · exact hother heq
      · exact ih hclosed.2 hout.2 hmem

/-! ## Blanks around pieces -/

theorem isBlank_of_isQuote (h : isQuote q = true) : isBlank q = false := by
  cases hblank : isBlank q with
  | false => rfl
  | true =>
    have hplain : isQuote q = false := isQuote_eq_false_of (by decide) (by decide) hblank
    exact absurd h (Bool.eq_false_iff.1 hplain)

theorem not_mem_of_blanks (hseparator : isBlank separator = false) (h : Blanks s) :
    separator ∉ s := fun hmem => absurd (h separator hmem) (Bool.eq_false_iff.1 hseparator)

section Pad
variable {left right : List Char} (hl : Blanks left) (hr : Blanks right)
include hl hr

theorem scan_pad (h : scan none s = none) : scan none (left ++ s ++ right) = none := by
  rw [scan_append, scan_append, (plain_of_blanks hl).scan_eq, h, (plain_of_blanks hr).scan_eq]

theorem outside_pad (h : scan none s = none) :
    outside none (left ++ s ++ right) = left ++ outside none s ++ right := by
  have hleft := plain_of_blanks hl
  rw [outside_append, outside_append, scan_append, hleft.scan_eq, h, hleft.outside_eq,
    (plain_of_blanks hr).outside_eq]

end Pad

/-- Blanks in front of the first piece and behind the last one belong to them. -/
theorem map_trim_splitFrom (hseparator : isBlank separator = false) {left right : List Char}
    (hl : Blanks left) (hr : Blanks right) (reversed : List Char) :
    (splitFrom separator (reversed ++ left.reverse) quote (s ++ right)).map trim =
      (splitFrom separator reversed quote s).map trim := by
  induction s generalizing quote reversed left with
  | nil =>
    have hout : separator ∉ outside quote right := fun hmem =>
      not_mem_of_blanks hseparator hr (outside_subset hmem)
    have hread : splitFrom separator (reversed ++ left.reverse) quote (right ++ []) =
        [left ++ reversed.reverse ++ right] := by
      rw [splitFrom_append hout, splitFrom]
      simp
    rw [List.append_nil] at hread
    rw [List.nil_append, hread, splitFrom, List.map_singleton, List.map_singleton,
      trim_pad hl hr]
  | cons c s ih =>
    rw [List.cons_append, splitFrom, splitFrom]
    split
    · have hfirst : trim (reversed ++ left.reverse).reverse = trim reversed.reverse := by
        simpa using trim_pad hl blanks_nil reversed.reverse
      rw [List.map_cons, List.map_cons, hfirst]
      exact congrArg _ (ih blanks_nil [])
    · exact ih hl (c :: reversed)

theorem map_trim_split_trim (hseparator : isBlank separator = false) (text : List Char) :
    (split separator (trim text)).map trim = (split separator text).map trim := by
  obtain ⟨left, right, hl, hr, heq⟩ := exists_pad_trim text
  have hplain := plain_of_blanks hl
  have hout : separator ∉ outside none left := fun hmem =>
    not_mem_of_blanks hseparator hl (outside_subset hmem)
  have hread : split separator (left ++ (trim text ++ right)) =
      splitFrom separator ([] ++ left.reverse) none (trim text ++ right) := by
    rw [split, splitFrom_append hout, hplain.scan_eq, List.append_nil, List.nil_append]
  conv_rhs => rw [heq, List.append_assoc, hread, map_trim_splitFrom hseparator hl hr]
  rfl

theorem outside_trim (h : separator ∉ outside none s) : separator ∉ outside none (trim s) := by
  obtain ⟨left, right, hl, -, heq⟩ := exists_pad_trim s
  rw [heq, List.append_assoc, outside_append, (plain_of_blanks hl).scan_eq, outside_append] at h
  simp only [List.mem_append, not_or] at h
  exact h.2.1

end Quoted

/-! ## One line -/

theorem not_mem_intercalate {other separator : Char} {pieces : List (List Char)}
    (hother : other ≠ separator) (h : ∀ piece ∈ pieces, other ∉ piece) :
    other ∉ [separator].intercalate pieces := by
  induction pieces with
  | nil => exact List.not_mem_nil
  | cons piece rest ih =>
    rw [List.forall_mem_cons] at h
    cases rest with
    | nil => simpa using h.1
    | cons next rest =>
      rw [List.intercalate_cons_cons, List.append_assoc, List.mem_append, List.singleton_append,
        List.mem_cons]
      rintro (hmem | heq | hmem)
      · exact h.1 hmem
      · exact hother heq
      · exact ih h.2 hmem

theorem Lines.after_of_not_mem {reversed text : List Char} (hne : reversed ≠ [])
    (h : '\n' ∉ text) : Lines.after reversed text = [reversed.reverse ++ text] := by
  induction text generalizing reversed with
  | nil => rw [Lines.after, if_neg hne, List.append_nil]
  | cons c text ih =>
    rw [List.mem_cons, not_or] at h
    rw [Lines.after, if_neg (Ne.symm h.1), ih (List.cons_ne_nil _ _) h.2, List.reverse_cons,
      List.append_assoc, List.singleton_append]

theorem lines_of_not_mem {text : List Char} (hne : text ≠ []) (h : '\n' ∉ text) :
    lines text = [text] := by
  cases text with
  | nil => exact absurd rfl hne
  | cons c text =>
    rw [List.mem_cons, not_or] at h
    rw [lines, Lines.after, if_neg (Ne.symm h.1)]
    exact Lines.after_of_not_mem (List.cons_ne_nil _ _) h.2

end Banked8085
