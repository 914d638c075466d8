import Banked8085.Proofs.Assembler.LetterCase
import Banked8085.Proofs.Text.Numeral
import Banked8085.Proofs.Text.Quotation

/-! # Definitions on a line

`Definitions.ofText` finds the names that a line of text defines, as they are written: `NAME:` in
front of a statement, `NAME EQU operand` and `NAME: EQU operand`. A label is found without regard to
quotations, as the identifier that a line begins with (`leadingLabel_eq_some`). Reading the line
gives it these definitions, with the names in upper case (`readAs_of_parse`).
-/

namespace Banked8085.Assembler
set_option autoImplicit false

/-! ## Names on a line -/

/-- What a line defines, as it is written there: a label, and a constant with its operand. -/
structure Definitions where
  label : Option (List Char) := none
  constant : Option (List Char × List Char) := none
deriving DecidableEq

/-- The identifier that a text begins with and what is behind the colon that follows it. -/
def leadingLabel (text : List Char) : Option (List Char × List Char) :=
  let start := trimStart text
  let name := start.takeWhile continuesName
  match trimStart (start.dropWhile continuesName) with
  | ':' :: rest => if isIdentifier name then some (name, trim rest) else none
  | _ => none

namespace Definitions

/-- The definitions on a line with this label, if any, and this text behind it. -/
def ofParts (label : Option (List Char)) (text : List Char) : Definitions :=
  let (first, tail) := splitHead text
  let (second, operand) := splitHead tail
  if String.ofList (upper second) = "EQU" then { label, constant := some (first, operand) }
  else if String.ofList (upper first) = "EQU" then
    { constant := label.map fun name => (name, tail) }
  else { label }

def ofText (text : List Char) : Definitions :=
  let code := trim (withoutComment text)
  match leadingLabel code with
  | some (name, rest) => ofParts (some name) rest
  | none => ofParts none code

def names (definitions : Definitions) : List (List Char) :=
  definitions.label.toList ++ definitions.constant.toList.map Prod.fst

end Definitions

/-- All names that these lines define, in upper case and in order. -/
def definedNames (texts : List (List Char)) : List (List Char) :=
  texts.flatMap fun text => (Definitions.ofText text).names.map upper

/-! ## Labels -/

section Labels
variable {text name rest : List Char}

theorem isBlank_of_continuesName {c : Char} (h : continuesName c = true) : isBlank c = false := by
  simp only [continuesName, Bool.or_eq_true, beq_iff_eq] at h
  rcases h with (halnum | rfl) | rfl
  · exact isBlank_of_isAlphanum halnum
  · decide
  · decide

theorem continuesName_of_isIdentifier (h : isIdentifier name = true) :
    ∀ c ∈ name, continuesName c = true := by
  cases name with
  | nil => exact fun c hc => absurd hc List.not_mem_nil
  | cons first name =>
    rw [isIdentifier, Bool.and_eq_true, List.all_eq_true] at h
    refine List.forall_mem_cons.2 ⟨?_, h.2⟩
    have hfirst := h.1
    simp only [startsName, Bool.or_eq_true] at hfirst
    simp only [continuesName, Char.isAlphanum, Bool.or_eq_true]
    exact hfirst.imp_left (Or.imp_left Or.inl)

theorem not_continuesName_of_isBlank {c : Char} (h : isBlank c = true) :
    continuesName c = false := by
  cases hc : continuesName c with
  | false => rfl
  | true => exact absurd h (Bool.eq_false_iff.1 (isBlank_of_continuesName hc))

/-- A name stops at the first blank behind it, or at the colon. -/
theorem leadingLabel_of_pad {left right : List Char} (hname : isIdentifier name = true)
    (hleft : Blanks left) (hright : Blanks right) (after : List Char) :
    leadingLabel (left ++ (name ++ (right ++ ':' :: after))) = some (name, trim after) := by
  have hcontinues := continuesName_of_isIdentifier hname
  obtain ⟨first, more, rfl⟩ : ∃ first more, name = first :: more := by
    cases name with
    | nil => cases hname
    | cons first more => exact ⟨first, more, rfl⟩
  have hfirst := isBlank_of_continuesName (hcontinues first List.mem_cons_self)
  obtain ⟨stop, rest, hrest, hstop⟩ : ∃ stop rest, right ++ ':' :: after = stop :: rest ∧
      continuesName stop = false := by
    cases right with
    | nil => exact ⟨':', after, rfl, by decide⟩
    | cons c right =>
      exact ⟨c, right ++ ':' :: after, rfl,
        not_continuesName_of_isBlank (hright c List.mem_cons_self)⟩
  have hstart : trimStart (left ++ (first :: more ++ (right ++ ':' :: after))) =
      first :: more ++ (right ++ ':' :: after) := trimStart_append_cons hleft hfirst _
  have htake : (first :: more ++ (right ++ ':' :: after)).takeWhile continuesName =
      first :: more := by
    rw [List.takeWhile_append_of_pos hcontinues, hrest,
      List.takeWhile_cons_of_neg (Bool.eq_false_iff.1 hstop), List.append_nil]
  have hdrop : trimStart ((first :: more ++ (right ++ ':' :: after)).dropWhile continuesName) =
      ':' :: after := by
    rw [List.dropWhile_append_of_pos hcontinues, hrest,
      List.dropWhile_cons_of_neg (Bool.eq_false_iff.1 hstop), ← hrest]
    exact trimStart_append_cons hright (by decide) after
  simp only [leadingLabel, hstart, htake, hdrop, hname, if_true]

/-- A label is an identifier with blanks at most around it, and a colon behind them. -/
theorem leadingLabel_eq_some :
    leadingLabel text = some (name, rest) ↔ isIdentifier name = true ∧
      ∃ left right after, Blanks left ∧ Blanks right ∧
        text = left ++ (name ++ (right ++ ':' :: after)) ∧ rest = trim after := by
  constructor
  · intro h
    unfold leadingLabel at h
    simp only [] at h
    split at h
    case h_1 after hafter =>
      split at h
      case isTrue hname =>
        cases h
        refine ⟨hname, text.takeWhile isBlank,
          ((trimStart text).dropWhile continuesName).takeWhile isBlank, after,
          fun _ hc => List.mem_takeWhile_imp hc, fun _ hc => List.mem_takeWhile_imp hc, ?_, rfl⟩
        rw [← hafter]
        unfold trimStart
        rw [List.takeWhile_append_dropWhile, List.takeWhile_append_dropWhile,
          List.takeWhile_append_dropWhile]
      case isFalse => cases h
    case h_2 => cases h
  · rintro ⟨hname, left, right, after, hleft, hright, rfl, rfl⟩
    exact leadingLabel_of_pad hname hleft hright after

/-- A line is read with the label that it is written with. -/
theorem splitLabel_of_some (h : leadingLabel text = some (name, rest)) :
    splitLabel text = (some (upper name), rest) := by
  obtain ⟨hname, left, right, after, hleft, hright, rfl, rfl⟩ := leadingLabel_eq_some.1 h
  have hcontinues := continuesName_of_isIdentifier hname
  have hplain : Quoted.Plain (left ++ (name ++ right)) :=
    List.forall_mem_append.2 ⟨Quoted.plain_of_blanks hleft,
      List.forall_mem_append.2 ⟨plain_of_isIdentifier hname, Quoted.plain_of_blanks hright⟩⟩
  have hcolon : ':' ∉ left ++ (name ++ right) := by
    simp only [List.mem_append, not_or]
    exact ⟨Quoted.not_mem_of_blanks (by decide) hleft,
      fun hmem => absurd (hcontinues _ hmem) (by decide),
      Quoted.not_mem_of_blanks (by decide) hright⟩
  have hcut : Quoted.cut ':' (left ++ (name ++ right) ++ ':' :: after) =
      some (left ++ (name ++ right), after) :=
    Quoted.cut_append_cons (fun hmem => hcolon (Quoted.outside_subset hmem)) hplain.scan_eq
  rw [List.append_assoc, List.append_assoc] at hcut
  have htrim : trim (left ++ (name ++ right)) = name := by
    rw [← List.append_assoc, trim_pad hleft hright]
    exact trim_of_solid fun c hc => isBlank_of_continuesName (hcontinues c hc)
  simp only [splitLabel, hcut, htrim, hname, if_true]

theorem splitLabel_of_none (h : leadingLabel text = none) : splitLabel text = (none, text) := by
  unfold splitLabel
  split
  case h_1 before after hcut =>
    have hnot : ¬ isIdentifier (trim before) = true := by
      intro hname
      obtain ⟨left, right, hleft, hright, hbefore⟩ := exists_pad_trim before
      have htext : text = left ++ (trim before ++ (right ++ ':' :: after)) := by
        rw [(Quoted.cut_eq_some_iff.1 hcut).1]
        conv_lhs => rw [hbefore]
        rw [List.append_assoc, List.append_assoc]
      rw [htext, leadingLabel_of_pad hname hleft hright after] at h
      cases h
    rw [if_neg hnot]
  case h_2 => rfl

end Labels

/-! ## Reading a line -/

/-- The constant that a line defines, with its value before symbols are looked up. -/
def Line.constant? (line : Line) : Option (List Char × Value) :=
  match line.statement with
  | some (.constant name value) => some (name, value)
  | _ => none

def Line.names (line : Line) : List (List Char) :=
  line.label.toList ++ line.constant?.toList.map Prod.fst

theorem Line.constant?_eq_some {line : Line} {name : List Char} {value : Value}
    (h : line.constant? = some (name, value)) : line.statement = some (.constant name value) := by
  unfold constant? at h
  split at h
  case h_1 name value hs =>
    cases h
    exact hs
  case h_2 => cases h

theorem Line.constant?_eq_none {line : Line} :
    line.constant? = none ↔ ∀ name value, line.statement ≠ some (.constant name value) := by
  unfold constant?
  split
  case h_1 name value hs => exact iff_of_false nofun fun h => h name value hs
  case h_2 hs => exact iff_of_true rfl hs

/-- The line has these definitions, with the names in upper case and the operands as values. -/
structure Definitions.ReadAs (definitions : Definitions) (line : Line) : Prop where
  label : line.label = definitions.label.map upper
  constant : Option.Rel
    (fun written read => upper written.1 = read.1 ∧ parseValue written.2 = .ok read.2)
    definitions.constant line.constant?

theorem Definitions.ReadAs.names_eq {definitions : Definitions} {line : Line}
    (h : definitions.ReadAs line) : line.names = definitions.names.map upper := by
  have hconstant := h.constant
  rw [Line.names, names, h.label, List.map_append, Option.toList_map]
  congr 1
  generalize definitions.constant = written at hconstant ⊢
  generalize line.constant? = read at hconstant ⊢
  cases hconstant with
  | none => rfl
  | some hread => exact congrArg List.singleton hread.1.symm

theorem Definitions.ReadAs.exists_constant {definitions : Definitions} {line : Line}
    {name operand : List Char} (h : definitions.ReadAs line)
    (hconstant : definitions.constant = some (name, operand)) :
    ∃ value, parseValue operand = .ok value ∧ line.constant? = some (upper name, value) := by
  have hread := h.constant
  rw [hconstant] at hread
  generalize line.constant? = read at hread ⊢
  cases hread with
  | @some _ read hread =>
    obtain ⟨name', value⟩ := read
    exact ⟨value, hread.2, by rw [hread.1]⟩

/-- A statement takes the label of its line for a constant, or leaves it on the line. -/
theorem readAs_of_parseStatement {number : Nat} {label label' : Option (List Char)}
    {text : List Char} {statement : Option Statement}
    (h : parseStatement (label.map upper) text = .ok (label', statement)) :
    (Definitions.ofParts label text).ReadAs ⟨number, label', statement⟩ := by
  unfold parseStatement at h
  simp only [] at h
  unfold Definitions.ofParts
  simp only []
  split at h
  case isTrue hequ =>
    rw [if_pos hequ]
    split at h
    · cases h
    · obtain ⟨value, hvalue, h⟩ := bind_eq_ok.1 h
      cases h
      exact ⟨rfl, .some ⟨rfl, hvalue⟩⟩
  case isFalse hequ =>
    rw [if_neg hequ]
    generalize String.ofList (upper (splitHead text).1) = keyword at h ⊢
    have hother : keyword ≠ "EQU" → label' = label.map upper →
        (∀ name value, statement ≠ some (.constant name value)) →
        (if keyword = "EQU" then
            { constant := label.map fun name => (name, (splitHead text).2) }
          else { label } : Definitions).ReadAs ⟨number, label', statement⟩ := by
      intro hkeyword hlabel hstatement
      rw [if_neg hkeyword]
      refine ⟨hlabel, ?_⟩
      rw [Line.constant?_eq_none.2 hstatement]
      exact .none
    split at h
    case h_1 =>
      rw [if_pos rfl]
      cases label with
      | none => cases h
      | some name =>
        obtain ⟨value, hvalue, h⟩ := bind_eq_ok.1 h
        cases h
        exact ⟨rfl, .some ⟨rfl, hvalue⟩⟩
    case h_2 =>
      obtain ⟨value, -, h⟩ := bind_eq_ok.1 h
      cases h
      exact hother (by decide) rfl nofun
    case h_3 =>
      obtain ⟨bytes, hbytes, h⟩ := bind_eq_ok.1 h
      cases h
      obtain ⟨items, -, hbytes⟩ := bind_eq_ok.1 hbytes
      split at hbytes
      · cases hbytes
      · cases hbytes
        exact hother (by decide) rfl nofun
    case h_4 =>
      obtain ⟨words, hwords, h⟩ := bind_eq_ok.1 h
      cases h
      obtain ⟨values, -, hwords⟩ := bind_eq_ok.1 hwords
      split at hwords
      · cases hwords
      · cases hwords
        exact hother (by decide) rfl nofun
    case h_5 =>
      cases h
      exact hother (by decide) rfl nofun
    case h_6 =>
      cases h
      exact hother (by decide) rfl nofun
    case h_7 =>
      cases h
      exact hother (by assumption) rfl nofun

theorem readAs_of_parse {number : Nat} {text : List Char} {line : Line}
    (h : Line.parse number text = .ok line) : (Definitions.ofText text).ReadAs line := by
  have hparts : ∀ label rest, splitLabel (trim (withoutComment text)) = (label.map upper, rest) →
      (Definitions.ofParts label rest).ReadAs line := by
    intro label rest hsplit
    rw [Line.parse, hsplit] at h
    simp only [] at h
    split at h
    case isTrue hempty =>
      rw [List.isEmpty_iff.1 hempty]
      cases h
      exact ⟨rfl, .none⟩
    case isFalse =>
      obtain ⟨⟨label', statement⟩, hparse, h⟩ := bind_eq_ok.1 h
      cases h
      exact readAs_of_parseStatement hparse
  unfold Definitions.ofText
  simp only []
  split
  case h_1 name rest hlabel => exact hparts (some name) rest (splitLabel_of_some hlabel)
  case h_2 hlabel => exact hparts none _ (splitLabel_of_none hlabel)

end Banked8085.Assembler
