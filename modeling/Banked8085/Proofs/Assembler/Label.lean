import Mathlib
import Banked8085.Assembler.Assembly
import Banked8085.Proofs.Results

/-! # Labels of parsed lines

Lines carry their labels in upper case, the form in which the symbol table keeps names
(`upper_label`).
-/

namespace Banked8085.Assembler
set_option autoImplicit false

theorem upper_upper (text : List Char) : upper (upper text) = upper text := by
  simp [upper]

theorem upper_of_splitLabel {text label rest : List Char}
    (h : splitLabel text = (some label, rest)) : upper label = label := by
  unfold splitLabel at h
  split at h
  · split at h
    · cases h
      exact upper_upper _
    · cases h
  · cases h

/-- A statement leaves the label of its line alone or uses it up. -/
theorem label_of_parseStatement {label label' : Option (List Char)} {text : List Char}
    {statement : Option Statement} (h : parseStatement label text = .ok (label', statement)) :
    label' = label ∨ label' = none := by
  unfold parseStatement at h
  simp only [] at h
  split at h
  · split at h
    · cases h
    · obtain ⟨v, -, h⟩ := bind_eq_ok.1 h
      cases h
      exact .inl rfl
  · split at h
    · split at h
      · cases h
      · obtain ⟨v, -, h⟩ := bind_eq_ok.1 h
        cases h
        exact .inr rfl
    all_goals
      first
      | cases h
        exact .inl rfl
      | obtain ⟨v, -, h⟩ := bind_eq_ok.1 h
        cases h
        exact .inl rfl

theorem upper_of_parse {number : Nat} {text label : List Char} {line : Line}
    (h : Line.parse number text = .ok line) (hlabel : line.label = some label) :
    upper label = label := by
  unfold Line.parse at h
  cases hsplit : splitLabel (trim (withoutComment text)) with
  | mk found rest =>
    simp only [hsplit] at h
    split at h
    · cases h
      obtain rfl : found = some label := hlabel
      exact upper_of_splitLabel hsplit
    · obtain ⟨⟨label', statement⟩, hparse, h⟩ := bind_eq_ok.1 h
      cases h
      obtain rfl : label' = some label := hlabel
      rcases label_of_parseStatement hparse with rfl | hnone
      · exact upper_of_splitLabel hsplit
      · cases hnone

theorem mem_parseLines {number : Nat} {texts : List (List Char)} {lines : List Line} {line : Line}
    (h : parseLines number texts = .ok lines) (hmem : line ∈ lines) :
    ∃ n text, Line.parse n text = .ok line := by
  induction texts generalizing number lines with
  | nil =>
    cases h
    cases hmem
  | cons text rest ih =>
    unfold parseLines at h
    split at h
    · cases h
    · rename_i first hfirst
      split at h
      · cases h
        obtain rfl := List.mem_singleton.1 hmem
        exact ⟨number, text, hfirst⟩
      · split at h
        · cases h
        · rename_i more hmore
          cases h
          rcases List.mem_cons.1 hmem with rfl | hmem
          · exact ⟨number, text, hfirst⟩
          · exact ih hmore hmem

theorem upper_label {source : List Char} {lines : List Line} {line : Line} {label : List Char}
    (h : parseSource source = .ok lines) (hmem : line ∈ lines) (hlabel : line.label = some label) :
    upper label = label := by
  obtain ⟨n, text, hparse⟩ := mem_parseLines h hmem
  exact upper_of_parse hparse hlabel

end Banked8085.Assembler
