import Mathlib.Data.List.Forall2
import Banked8085.Proofs.Assembler.Build
import Banked8085.Proofs.Execution.Operation
import Banked8085.Proofs.Text.Respelling

/-! # Letter case in lines

A line that is respelled outside quotations is refused as the line was, or it has the same label and
a like statement (`parse_respelled`). `Statement.Alike` leaves two things open: the bytes of strings,
since a string may have its own quote character in it, and the spelling of operands, which are read
in the second pass.
-/

namespace Banked8085.Assembler
set_option autoImplicit false

open Respelled (InLine)

variable {s t : List Char}

/-! ## Values -/

theorem all_continuesName_eq {next : Option Char → Char → Option Char} {quote : Option Char}
    (h : Respelled next quote s t) : s.all continuesName = t.all continuesName := by
  have hletter : ∀ c ∈ letters, continuesName c = true := forall_letters (by decide)
  induction h with
  | nil => rfl
  | cons hc _ ih => rw [List.all_cons, List.all_cons, hc.congr hletter, ih]

theorem isIdentifier_eq {next : Option Char → Char → Option Char} {quote : Option Char}
    (h : Respelled next quote s t) : isIdentifier s = isIdentifier t := by
  have hstart : ∀ c ∈ letters, startsName c = true := forall_letters (by decide)
  cases h with
  | nil => rfl
  | cons hc hrest => rw [isIdentifier, isIdentifier, hc.congr hstart, all_continuesName_eq hrest]

theorem not_mem_letters_of_isQuote {q : Char} (h : Quoted.isQuote q = true) : q ∉ letters := by
  intro hmem
  rw [isQuote_letter q hmem] at h
  cases h

/-- A quotation at the beginning of a text. -/
theorem opens_cases {c : Char} (h : InLine (c :: s) t) (hc : Quoted.isQuote c = true) :
    ∃ u, t = c :: u ∧ Respelled Quoted.next (some c) s u := by
  obtain _ | ⟨hcd, hrest⟩ := h
  rename_i d u
  obtain rfl : c = d := ((hcd.eq_iff (not_mem_letters_of_isQuote hc)).1 rfl).symm
  have hopen : Quoted.next none c = some c := by
    unfold Quoted.next
    rw [hc]
    rfl
  rw [hopen] at hrest
  exact ⟨_, rfl, hrest⟩

namespace Value

theorem parseNumber_respelled (h : upper s = upper t) :
    Agree Eq (parseNumber s) (parseNumber t) := by
  unfold parseNumber
  rw [h]
  obtain ⟨radix, digits⟩ := radixAndDigits (upper t)
  dsimp only
  cases Numeral.read radix limit digits with
  | ok n => exact .ok rfl
  | error cause => exact .error _ _

theorem parseCharacter_respelled {q : Char} (hq : Quoted.isQuote q = true)
    (h : Respelled Quoted.next (some q) s t) :
    Agree Eq (parseCharacter (q :: s)) (parseCharacter (q :: t)) := by
  have hinner := h.inner (not_mem_letters_of_isQuote hq)
  unfold parseCharacter
  generalize Quoted.inner? (q :: s) = x at hinner
  generalize Quoted.inner? (q :: t) = y at hinner
  cases hinner with
  | none => exact .error _ _
  | some hinner =>
    cases hinner with
    | nil => exact .error _ _
    | cons hc hrest =>
      cases hrest with
      | nil =>
        obtain rfl := hc.eq_of_some
        dsimp only
        split
        · exact .ok rfl
        · exact .error _ _
      | cons hd hrest => exact .error _ _

theorem parse_respelled (h : InLine s t) : Agree Eq (parse s) (parse t) := by
  have htrim := h.trim_none
  unfold parse
  generalize trim s = u at htrim
  generalize trim t = v at htrim
  cases htrim with
  | nil => exact .error _ _
  | @cons _ c d u v hc hrest =>
    have htexts : InLine (c :: u) (d :: v) := .cons hc hrest
    have hdigit : c.isDigit = d.isDigit :=
      hc.congr (f := Char.isDigit) (a := false) (forall_letters (by decide))
    simp only [parseTrimmed, ← hc.congr isQuote_letter, ← hdigit, ← isIdentifier_eq htexts]
    split
    case isTrue hquote =>
      obtain ⟨w, hw, hrest⟩ := opens_cases htexts hquote
      cases hw
      exact parseCharacter_respelled hquote hrest
    case isFalse =>
      split
      · exact parseNumber_respelled htexts.upper_eq
      · split
        · exact .ok (congrArg symbol htexts.upper_eq)
        · exact .error _ _

end Value

theorem parseValue_respelled (h : InLine s t) : Agree Eq (parseValue s) (parseValue t) := by
  unfold parseValue
  obtain ⟨v, _, hs, ht, rfl⟩ | ⟨e, d, hs, ht⟩ := (Value.parse_respelled h).ok_or_error
  · rw [hs, ht]
    exact .ok rfl
  · rw [hs, ht]
    exact .error _ _

/-! ## Operands of instructions -/

section Operands
variable {symbols : SymbolTable}

theorem readNumber_respelled (h : InLine s t) :
    Agree Eq (readNumber symbols s) (readNumber symbols t) := by
  unfold readNumber
  obtain ⟨v, _, hs, ht, rfl⟩ | ⟨e, d, hs, ht⟩ := (Value.parse_respelled h).ok_or_error
  · rw [hs, ht]
    exact .refl _
  · rw [hs, ht]
    exact .error _ _

theorem readByte_respelled (h : InLine s t) :
    Agree Eq (readByte symbols s) (readByte symbols t) := by
  refine (readNumber_respelled h).bind ?_
  rintro n _ rfl
  exact .refl _

theorem readWord_respelled (h : InLine s t) :
    Agree Eq (readWord symbols s) (readWord symbols t) := by
  refine (readNumber_respelled h).bind ?_
  rintro n _ rfl
  exact .refl _

theorem spells_iff (h : InLine s t) (names : List (List Char)) :
    Spells s names ↔ Spells t names := by
  unfold Spells
  rw [h.upper_eq]

theorem readLocation_respelled (h : InLine s t) : Agree Eq (readLocation s) (readLocation t) :=
  .of_eq_ok_iff fun l => by rw [readLocation_eq_ok, readLocation_eq_ok, spells_iff h]

theorem readWidePair_respelled (h : InLine s t) : Agree Eq (readWidePair s) (readWidePair t) :=
  .of_eq_ok_iff fun p => by rw [readWidePair_eq_ok, readWidePair_eq_ok, spells_iff h]

theorem readStackPair_respelled (h : InLine s t) :
    Agree Eq (readStackPair s) (readStackPair t) :=
  .of_eq_ok_iff fun p => by rw [readStackPair_eq_ok, readStackPair_eq_ok, spells_iff h]

theorem readPointer_respelled (mnemonic : List Char) (h : InLine s t) :
    Agree Eq (readPointer mnemonic s) (readPointer mnemonic t) :=
  .of_eq_ok_iff fun p => by rw [readPointer_eq_ok, readPointer_eq_ok, spells_iff h]

theorem buildFrom_respelled (form : Form) (mnemonic : List Char) {s' t' : List Char}
    (h : InLine s t) (h' : InLine s' t') :
    Agree Eq (form.buildFrom mnemonic symbols s s') (form.buildFrom mnemonic symbols t t') := by
  cases form with
  | implied i => exact .ok rfl
  | location make =>
    exact (readLocation_respelled h).bind fun _ _ heq => .ok (congrArg make heq)
  | move =>
    refine (readLocation_respelled h).bind ?_
    rintro target _ rfl
    refine (readLocation_respelled h').bind ?_
    rintro source _ rfl
    exact .refl _
  | moveImmediate =>
    refine (readLocation_respelled h).bind ?_
    rintro target _ rfl
    exact (readByte_respelled h').bind fun _ _ heq => .ok (congrArg (Instruction.mvi target) heq)
  | pairImmediate =>
    refine (readWord_respelled h').bind ?_
    rintro value _ rfl
    exact (readWidePair_respelled h).bind fun _ _ heq =>
      .ok (congrArg (Instruction.lxi · value) heq)
  | pair make =>
    exact (readWidePair_respelled h).bind fun _ _ heq => .ok (congrArg make heq)
  | stack make =>
    exact (readStackPair_respelled h).bind fun _ _ heq => .ok (congrArg make heq)
  | pointer make =>
    exact (readPointer_respelled mnemonic h).bind fun _ _ heq => .ok (congrArg make heq)
  | immediate make =>
    exact (readByte_respelled h).bind fun _ _ heq => .ok (congrArg make heq)
  | address make =>
    exact (readWord_respelled h).bind fun _ _ heq => .ok (congrArg make heq)
  | restart =>
    refine (readByte_respelled h).bind ?_
    rintro vector _ rfl
    exact .refl _

theorem getD_respelled {texts texts' : List (List Char)} (h : List.Forall₂ InLine texts texts')
    (n : Nat) : InLine (texts.getD n []) (texts'.getD n []) := by
  induction h generalizing n with
  | nil => exact .nil
  | cons hs _ ih =>
    cases n with
    | zero => exact hs
    | succ n => exact ih n

theorem build_respelled (form : Form) (mnemonic : List Char) {texts texts' : List (List Char)}
    (h : List.Forall₂ InLine texts texts') :
    Agree Eq (form.build mnemonic texts symbols) (form.build mnemonic texts' symbols) := by
  unfold Form.build
  rw [h.length_eq]
  split
  · exact buildFrom_respelled form mnemonic (getD_respelled h 0) (getD_respelled h 1)
  · exact .error _ _

end Operands

/-! ## Parts of a line -/

theorem withoutComment_respelled (h : InLine s t) :
    InLine (withoutComment s) (withoutComment t) := by
  have hcut := Respelled.cutFrom (by decide : ';' ∉ letters) rfl .nil h
  unfold withoutComment Quoted.cut
  generalize Quoted.cutFrom ';' [] none s = x at hcut
  generalize Quoted.cutFrom ';' [] none t = y at hcut
  cases hcut with
  | none => exact h
  | some hparts => exact hparts.1

theorem splitLabel_respelled (h : InLine s t) :
    (splitLabel s).1 = (splitLabel t).1 ∧ InLine (splitLabel s).2 (splitLabel t).2 := by
  have hcut := Respelled.cutFrom (by decide : ':' ∉ letters) rfl .nil h
  unfold splitLabel Quoted.cut
  generalize Quoted.cutFrom ':' [] none s = x at hcut
  generalize Quoted.cutFrom ':' [] none t = y at hcut
  cases hcut with
  | none => exact ⟨rfl, h⟩
  | some hparts =>
    obtain ⟨hbefore, hafter⟩ := hparts
    simp only [← isIdentifier_eq hbefore.trim_none, ← hbefore.trim_none.upper_eq]
    split
    · exact ⟨rfl, hafter.trim_none⟩
    · exact ⟨rfl, h⟩

theorem splitOperands_respelled (h : InLine s t) :
    List.Forall₂ InLine (splitOperands s) (splitOperands t) := by
  have htrim := h.trim_none
  unfold splitOperands
  generalize trim s = u at htrim
  generalize trim t = v at htrim
  cases htrim with
  | nil => exact .nil
  | cons hc hrest =>
    have hsplit := Respelled.splitFrom (by decide : ',' ∉ letters) rfl .nil (.cons hc hrest)
    rw [List.forall₂_map_left_iff, List.forall₂_map_right_iff]
    exact hsplit.imp fun _ _ h => h.trim_none

/-- Behind a head with quotes in it a quotation may be open. -/
theorem splitHead_respelled {quote : Option Char} (h : Respelled Quoted.next quote s t) :
    Respelled Quoted.next quote (splitHead s).1 (splitHead t).1 ∧
      ∃ later, Respelled Quoted.next later (splitHead s).2 (splitHead t).2 ∧
        (quote = none → Quoted.Plain (splitHead s).1 → later = none) := by
  have hnot : ∀ {quote c d}, SameLetter quote c d → (!isBlank c) = !isBlank d :=
    fun hc => congrArg (!·) hc.isBlank_eq
  refine ⟨h.takeWhile hnot, _, (h.dropWhile (p := (!isBlank ·)) hnot).trim, ?_⟩
  rintro rfl hplain
  have hhead : Quoted.scan none (s.takeWhile (!isBlank ·)) = none := hplain.scan_eq
  rw [← Quoted.scan, ← Quoted.scan, hhead, Respelled.scan_blanks]

theorem plain_of_isIdentifier (h : isIdentifier s = true) : Quoted.Plain s := by
  cases s with
  | nil => exact fun c hc => absurd hc (List.not_mem_nil)
  | cons c s =>
    rw [isIdentifier, Bool.and_eq_true, List.all_eq_true] at h
    refine List.forall_mem_cons.2 ⟨?_, fun d hd => ?_⟩
    · exact Quoted.isQuote_eq_false_of (p := startsName) (by decide) (by decide) h.1
    · exact Quoted.isQuote_eq_false_of (p := continuesName) (by decide) (by decide) (h.2 d hd)

theorem plain_of_keyword {keyword : String} (h : String.ofList (upper s) = keyword)
    (hplain : Quoted.Plain keyword.toList) : Quoted.Plain s := by
  subst h
  rw [String.toList_ofList] at hplain
  exact Quoted.plain_of_upper hplain

theorem plain_of_form {form : Form} (h : form? s = some form) : Quoted.Plain s := by
  have hall : ∀ entry ∈ mnemonics, Quoted.Plain entry.1.toList := by decide
  have hentry := hall _ (mem_of_form h)
  rw [String.toList_ofList] at hentry
  exact hentry

/-! ## Statements -/

/-- An item of a byte directive takes as many bytes as the other, and no string is a value. -/
inductive DataItem.Alike : DataItem → DataItem → Prop
  | text {bytes bytes'} (h : bytes.length = bytes'.length) : Alike (.text bytes) (.text bytes')
  | value (v) : Alike (.value v) (.value v)

/-- Equal statements, except that strings may have other bytes, and operands another spelling where
the mnemonic is known. -/
inductive Statement.Alike : Statement → Statement → Prop
  | refl (statement) : Alike statement statement
  | bytes {items items'} (h : List.Forall₂ DataItem.Alike items items') :
    Alike (.bytes items) (.bytes items')
  | instruction {mnemonic operands operands'}
    (h : ∀ form, form? mnemonic = some form → List.Forall₂ InLine operands operands') :
    Alike (.instruction mnemonic operands) (.instruction mnemonic operands')

structure Line.Alike (line other : Line) : Prop where
  number_eq : line.number = other.number
  label_eq : line.label = other.label
  statement : Option.Rel Statement.Alike line.statement other.statement

theorem length_encode_respelled {next : Option Char → Char → Option Char} {quote : Option Char}
    (h : Respelled next quote s t) : (Utf8.encode s).length = (Utf8.encode t).length := by
  have hletter : ∀ c ∈ letters, (String.utf8EncodeChar c).length = 1 := forall_letters (by decide)
  induction h with
  | nil => rfl
  | cons hc _ ih =>
    rw [Utf8.encode, Utf8.encode, List.flatMap_cons, List.flatMap_cons, List.length_append,
      List.length_append, hc.congr (f := fun c => (String.utf8EncodeChar c).length) hletter,
      ← Utf8.encode, ← Utf8.encode, ih]

theorem parseItem_respelled (h : InLine s t) :
    Agree DataItem.Alike (DataItem.parse s) (DataItem.parse t) := by
  unfold DataItem.parse
  rw [← h.opens_eq]
  split
  case isTrue hopens =>
    cases s with
    | nil => cases hopens
    | cons q s =>
      obtain ⟨u, rfl, hrest⟩ := opens_cases h hopens
      have hinner := hrest.inner (not_mem_letters_of_isQuote hopens)
      generalize Quoted.inner? (q :: s) = x at hinner
      generalize Quoted.inner? (q :: u) = y at hinner
      cases hinner with
      | none => exact .error _ _
      | some hinner => exact .ok (.text (length_encode_respelled hinner))
  case isFalse =>
    obtain ⟨v, _, hs, ht, rfl⟩ | ⟨e, d, hs, ht⟩ := (parseValue_respelled h).ok_or_error
    · rw [hs, ht]
      exact .ok (.value v)
    · rw [hs, ht]
      exact .error _ _

/-- What `parseStatement` gives for a text and for a respelled one. -/
def AlikeResults (first second : Option (List Char) × Option Statement) : Prop :=
  first.1 = second.1 ∧ Option.Rel Statement.Alike first.2 second.2

theorem alikeResults_refl (result : Option (List Char) × Option Statement) :
    AlikeResults result result := by
  refine ⟨rfl, ?_⟩
  cases result.2 with
  | none => exact .none
  | some statement => exact .some (.refl statement)

theorem value_result_respelled {f : Value → Option (List Char) × Option Statement}
    (h : InLine s t) :
    Agree AlikeResults (do pure (f (← parseValue s))) (do pure (f (← parseValue t))) :=
  (parseValue_respelled h).bind fun _ _ heq => heq ▸ .ok (alikeResults_refl _)

theorem parseBytes_respelled (h : InLine s t) :
    Agree Statement.Alike (parseBytes s) (parseBytes t) := by
  refine (Agree.mapM (splitOperands_respelled h) fun _ _ => parseItem_respelled).bind ?_
  intro items items' hitems
  cases hitems with
  | nil => exact .error _ _
  | cons hitem hrest => exact .ok (.bytes (.cons hitem hrest))

theorem parseWords_respelled (h : InLine s t) :
    Agree Eq (parseWords s) (parseWords t) := by
  refine (Agree.mapM (splitOperands_respelled h) fun _ _ => parseValue_respelled).bind ?_
  intro values values' hvalues
  rw [List.forall₂_eq_eq_eq] at hvalues
  subst hvalues
  exact .refl _

/-- Keywords and mnemonics have no quotes in them, so that no quotation is open behind them. The
operands of a word that is neither do not matter. -/
theorem parseStatement_respelled (label : Option (List Char)) (h : InLine s t) :
    Agree AlikeResults (parseStatement label s) (parseStatement label t) := by
  obtain ⟨hhead, later, htail, hlater⟩ := splitHead_respelled h
  obtain ⟨hsecond, last, hrest, hlast⟩ := splitHead_respelled htail
  unfold parseStatement
  simp only [← hhead.upper_eq, ← hsecond.upper_eq, ← isIdentifier_eq hhead]
  split
  case isTrue hequ =>
    split
    case isTrue => exact .error _ _
    case isFalse hname =>
      have hlater := hlater rfl (plain_of_isIdentifier (by simpa using hname))
      have hlast := hlast hlater (plain_of_keyword hequ (by decide))
      subst hlast
      exact value_result_respelled hrest
  case isFalse =>
    generalize hkeyword : String.ofList (upper (splitHead s).1) = keyword
    have hplain : Quoted.Plain keyword.toList →
        InLine (splitHead s).2 (splitHead t).2 := by
      intro hplain
      rw [hlater rfl (plain_of_keyword hkeyword hplain)] at htail
      exact htail
    split
    case h_1 =>
      cases label with
      | none => exact .error _ _
      | some name => exact value_result_respelled (hplain (by decide))
    case h_2 => exact value_result_respelled (hplain (by decide))
    case h_3 =>
      exact (parseBytes_respelled (hplain (by decide))).bind fun _ _ h => .ok ⟨rfl, .some h⟩
    case h_4 =>
      exact (parseWords_respelled (hplain (by decide))).bind fun _ _ h =>
        h ▸ .ok (alikeResults_refl _)
    case h_5 => exact .ok (alikeResults_refl _)
    case h_6 => exact .ok (alikeResults_refl _)
    case h_7 =>
      refine .ok ⟨rfl, .some (.instruction fun form hform => ?_)⟩
      have hhead := Quoted.plain_of_upper (plain_of_form hform)
      rw [hlater rfl hhead] at htail
      exact splitOperands_respelled htail

theorem parse_respelled (number : Nat) (h : InLine s t) :
    Agree Line.Alike (Line.parse number s) (Line.parse number t) := by
  obtain ⟨hlabel, hrest⟩ := splitLabel_respelled (withoutComment_respelled h).trim_none
  unfold Line.parse
  simp only [← hlabel]
  have hempty : (splitLabel (trim (withoutComment s))).2.isEmpty =
      (splitLabel (trim (withoutComment t))).2.isEmpty := by
    rw [Bool.eq_iff_iff, List.isEmpty_iff, List.isEmpty_iff]
    exact hrest.eq_nil_iff
  rw [hempty]
  split
  · exact .ok ⟨rfl, rfl, .none⟩
  · refine (parseStatement_respelled _ hrest).bind ?_
    intro p q hpq
    exact .ok ⟨rfl, hpq.1, hpq.2⟩

end Banked8085.Assembler
