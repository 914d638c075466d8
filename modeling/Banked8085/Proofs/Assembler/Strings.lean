import Mathlib.Data.List.Forall2
import Banked8085.Assembler.Assembly
import Banked8085.Proofs.Results

/-! # Strings of byte directives

`sourceStrings` lists the strings of a source with their quotes, and `StringBytes` says which bytes
a string stands for. The lines that are parsed hold just these bytes (`stringBytes_of_parseSource`).
-/

namespace Banked8085.Assembler
set_option autoImplicit false

/-! ## Strings in texts -/

/-- The strings of a byte directive, with their quotes. -/
def statementStrings (text : List Char) : List (List Char) :=
  let (head, tail) := splitHead text
  if String.ofList (upper (splitHead tail).1) ≠ "EQU" ∧ String.ofList (upper head) = "DB" then
    (splitOperands tail).filter Quoted.opens
  else []

def lineStrings (text : List Char) : List (List Char) :=
  statementStrings (splitLabel (trim (withoutComment text))).2

/-- The strings of a source, as far as it is read. -/
def sourceStrings (source : List Char) : List (List Char) :=
  match parseSource source with
  | .ok parsed => ((lines source).take parsed.length).flatMap lineStrings
  | .error _ => []

theorem sourceStrings_of_ok {source : List Char} {parsed : List Line}
    (h : parseSource source = .ok parsed) :
    sourceStrings source = ((lines source).take parsed.length).flatMap lineStrings := by
  rw [sourceStrings, h]

/-- A string in its quotes, and its bytes. -/
def StringBytes (item : List Char) (bytes : List Byte) : Prop :=
  ∃ quote text, Quoted.isQuote quote = true ∧ item = quote :: (text ++ [quote]) ∧
    bytes = Utf8.encode text

/-! ## Strings in statements -/

def DataItem.text? : DataItem → Option (List Byte)
  | .text bytes => some bytes
  | .value _ => none

/-- The bytes of the strings of a statement. -/
def Statement.strings : Statement → List (List Byte)
  | .bytes items => items.filterMap DataItem.text?
  | _ => []

def Line.strings (line : Line) : List (List Byte) :=
  match line.statement with
  | some statement => statement.strings
  | none => []

theorem encode_injective {s t : List Char} (h : Utf8.encode s = Utf8.encode t) : s = t := by
  have hbytes : s.utf8Encode = t.utf8Encode := congrArg List.toByteArray h
  exact String.ofList_inj.1 (String.toByteArray_inj.1 hbytes)

theorem inner?_eq_some {quote : Char} {rest inner : List Char} :
    Quoted.inner? (quote :: rest) = some inner ↔ rest = inner ++ [quote] := by
  rw [Quoted.inner?]
  constructor
  · intro h
    split at h
    case isTrue hlast =>
      obtain rfl := Option.some.inj h
      exact (List.dropLast_append_getLast? quote hlast).symm
    case isFalse => cases h
  · rintro rfl
    rw [List.getLast?_concat, if_pos rfl, List.dropLast_concat]

theorem stringBytes_of_parseItems {operands : List (List Char)} {items : List DataItem}
    (h : operands.mapM DataItem.parse = .ok items) :
    List.Forall₂ StringBytes (operands.filter Quoted.opens) (items.filterMap DataItem.text?) := by
  have hall := forall₂_of_mapM h
  clear h
  induction hall with
  | nil => exact .nil
  | @cons operand item operands items hitem _ ih =>
    unfold DataItem.parse at hitem
    split at hitem
    case isTrue hopens =>
      cases operand with
      | nil => cases hopens
      | cons quote text =>
        split at hitem
        · rename_i inner hinner
          cases hitem
          rw [List.filter_cons_of_pos hopens]
          exact .cons ⟨quote, inner, hopens, by rw [inner?_eq_some.1 hinner], rfl⟩ ih
        · cases hitem
    case isFalse hopens =>
      rw [List.filter_cons_of_neg hopens]
      split at hitem
      · cases hitem
        exact ih
      · cases hitem

theorem stringBytes_of_parseStatement {label label' : Option (List Char)} {text : List Char}
    {statement : Option Statement} (number : Nat)
    (h : parseStatement label text = .ok (label', statement)) :
    List.Forall₂ StringBytes (statementStrings text) (Line.mk number label' statement).strings := by
  unfold parseStatement at h
  simp only [] at h
  unfold statementStrings
  simp only []
  split at h
  case isTrue hequ =>
    rw [if_neg fun hnot => hnot.1 hequ]
    split at h
    · cases h
    · obtain ⟨value, -, h⟩ := bind_eq_ok.1 h
      cases h
      exact .nil
  case isFalse hequ =>
    generalize String.ofList (upper (splitHead text).1) = keyword at h
    have hother : keyword ≠ "DB" → List.Forall₂ StringBytes
        (if String.ofList (upper (splitHead (splitHead text).2).1) ≠ "EQU" ∧ keyword = "DB" then
          (splitOperands (splitHead text).2).filter Quoted.opens else []) [] := by
      intro hne
      rw [if_neg fun h => hne h.2]
      exact .nil
    split at h
    case h_1 =>
      cases label with
      | none => cases h
      | some name =>
        obtain ⟨value, -, h⟩ := bind_eq_ok.1 h
        cases h
        exact hother (by decide)
    case h_2 =>
      obtain ⟨value, -, h⟩ := bind_eq_ok.1 h
      cases h
      exact hother (by decide)
    case h_3 =>
      rw [if_pos ⟨hequ, rfl⟩]
      obtain ⟨statement, hbytes, h⟩ := bind_eq_ok.1 h
      cases h
      obtain ⟨items, hitems, hbytes⟩ := bind_eq_ok.1 hbytes
      split at hbytes
      · cases hbytes
      · cases hbytes
        exact stringBytes_of_parseItems hitems
    case h_4 =>
      obtain ⟨statement, hwords, h⟩ := bind_eq_ok.1 h
      cases h
      obtain ⟨values, -, hwords⟩ := bind_eq_ok.1 hwords
      split at hwords
      · cases hwords
      · cases hwords
        exact hother (by decide)
    case h_5 =>
      cases h
      exact hother (by decide)
    case h_6 =>
      cases h
      exact hother (by decide)
    case h_7 =>
      cases h
      exact hother (by assumption)

theorem stringBytes_of_parse {number : Nat} {text : List Char} {line : Line}
    (h : Line.parse number text = .ok line) :
    List.Forall₂ StringBytes (lineStrings text) line.strings := by
  unfold Line.parse at h
  simp only [] at h
  unfold lineStrings
  split at h
  case isTrue hempty =>
    rw [List.isEmpty_iff.1 hempty]
    cases h
    exact .nil
  case isFalse =>
    obtain ⟨⟨label', statement⟩, hparse, h⟩ := bind_eq_ok.1 h
    cases h
    exact stringBytes_of_parseStatement number hparse

theorem forall₂_of_parseLines {number : Nat} {texts : List (List Char)} {parsed : List Line}
    (h : parseLines number texts = .ok parsed) :
    List.Forall₂ (fun text line => ∃ n, Line.parse n text = .ok line)
      (texts.take parsed.length) parsed := by
  induction texts generalizing number parsed with
  | nil =>
    cases h
    exact .nil
  | cons text texts ih =>
    unfold parseLines at h
    split at h
    · cases h
    · rename_i line hline
      split at h
      · cases h
        exact .cons ⟨number, hline⟩ .nil
      · split at h
        · cases h
        · rename_i more hmore
          cases h
          exact .cons ⟨number, hline⟩ (ih hmore)

theorem stringBytes_of_parseSource {source : List Char} {parsed : List Line}
    (h : parseSource source = .ok parsed) :
    List.Forall₂ StringBytes (sourceStrings source) (parsed.flatMap Line.strings) := by
  rw [sourceStrings_of_ok h]
  exact List.rel_flatMap (forall₂_of_parseLines h) fun text line hline =>
    hline.elim fun _ hparse => stringBytes_of_parse hparse

theorem exists_stringBytes (source : List Char) :
    ∃ bytes, List.Forall₂ StringBytes (sourceStrings source) bytes := by
  cases h : parseSource source with
  | error e =>
    rw [sourceStrings, h]
    exact ⟨[], .nil⟩
  | ok parsed => exact ⟨_, stringBytes_of_parseSource h⟩

end Banked8085.Assembler
