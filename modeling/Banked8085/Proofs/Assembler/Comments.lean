import Banked8085.Proofs.Assembler.ErrorLine

/-! # Comments and blanks around a line

A line is read without its comment and without the blanks at its ends (`parse_congr`), so neither
has any influence (`surroundings_do_not_matter`). A semicolon begins a comment where no quotation is
open, unless an earlier one has begun it already.
-/

namespace Banked8085.Assembler
set_option autoImplicit false

variable {left text other : List Char}

theorem parse_congr (h : trim (withoutComment other) = trim (withoutComment text)) (number : Nat) :
    Line.parse number other = Line.parse number text := by
  rw [Line.parse, h]
  rfl

theorem withoutComment_blanks_append (h : Blanks left) (text : List Char) :
    withoutComment (left ++ text) = left ++ withoutComment text := by
  have hclosed : Quoted.scan none left = none := (Quoted.plain_of_blanks h).scan_eq
  have hcomment : ';' ∉ Quoted.outside none left := fun hmem =>
    Quoted.not_mem_of_blanks (by decide) h (Quoted.outside_subset hmem)
  have houtside : ∀ s, ';' ∉ Quoted.outside none (left ++ s) ↔ ';' ∉ Quoted.outside none s := by
    intro s
    rw [Quoted.outside_append, hclosed, List.mem_append, not_or]
    exact and_iff_right hcomment
  unfold withoutComment
  cases hcut : Quoted.cut ';' text with
  | none => rw [Quoted.cut_eq_none_iff.2 ((houtside text).2 (Quoted.cut_eq_none_iff.1 hcut))]
  | some parts =>
    obtain ⟨before, after⟩ := parts
    obtain ⟨rfl, hnot, hbefore⟩ := Quoted.cut_eq_some_iff.1 hcut
    have hscan : Quoted.scan none (left ++ before) = none := by
      rw [Quoted.scan_append, hclosed, hbefore]
    rw [← List.append_assoc, Quoted.cut_append_cons ((houtside before).2 hnot) hscan]

/-- A text that leaves no quotation open, or has a comment already, is followed by a comment. -/
theorem withoutComment_append_comment
    (h : Quoted.scan none text = none ∨ ';' ∈ Quoted.outside none text) (comment : List Char) :
    withoutComment (text ++ ';' :: comment) = withoutComment text := by
  unfold withoutComment
  cases hcut : Quoted.cut ';' text with
  | none =>
    have hnot := Quoted.cut_eq_none_iff.1 hcut
    rw [Quoted.cut_append_cons hnot (h.resolve_right hnot)]
  | some parts =>
    obtain ⟨before, after⟩ := parts
    obtain ⟨rfl, hnot, hclosed⟩ := Quoted.cut_eq_some_iff.1 hcut
    rw [List.append_assoc, List.cons_append, Quoted.cut_append_cons hnot hclosed]

/-- A line is read in the same way, to the same result or the same error, with blanks in front of
it, with blanks behind it, and with a comment behind it that does not stand in a quotation. -/
theorem surroundings_do_not_matter (number : Nat) (text : List Char) :
    (∀ left, Blanks left → Line.parse number (left ++ text) = Line.parse number text) ∧
    (∀ right, Blanks right → Line.parse number (text ++ right) = Line.parse number text) ∧
    (Quoted.scan none text = none ∨ ';' ∈ Quoted.outside none text →
      ∀ comment, Line.parse number (text ++ ';' :: comment) = Line.parse number text) := by
  refine ⟨fun left h => ?_, fun right h => parse_append_blanks h number text,
    fun h comment => ?_⟩
  · refine parse_congr ?_ number
    rw [withoutComment_blanks_append h]
    simpa using trim_pad h blanks_nil (withoutComment text)
  · refine parse_congr ?_ number
    rw [withoutComment_append_comment h]

/-- A comment with quotes, a colon and a comma in it, behind a string that is a semicolon. It leaves
a quotation open, but more of it changes nothing, nor do blanks around the line. -/
theorem surroundings_do_not_matter_quoted :
    let text := " x: DB ';', 'a'".toList
    let commented := text ++ ';' :: " it's: \"b, c".toList
    let line : Line := ⟨3, some ['X'], some (.bytes [.text [0x3B], .text [0x61]])⟩
    Line.parse 3 commented = .ok line ∧ Line.parse 3 (commented ++ ';' :: " d'".toList) = .ok line ∧
      Line.parse 3 ("\u3000".toList ++ text) = .ok line ∧
      Line.parse 3 (text ++ "\t ".toList) = .ok line := by
  intro text commented line
  have hplain : Line.parse 3 text = .ok line := by decide +kernel
  obtain ⟨hleft, hright, hcomment⟩ := surroundings_do_not_matter 3 text
  obtain ⟨-, -, hmore⟩ := surroundings_do_not_matter 3 commented
  have hcommented : Line.parse 3 commented = .ok line :=
    (hcomment (by decide +kernel) _).trans hplain
  exact ⟨hcommented, (hmore (by decide +kernel) _).trans hcommented,
    (hleft _ (by decide)).trans hplain, (hright _ (by decide)).trans hplain⟩

end Banked8085.Assembler
