import Mathlib.Data.List.Forall2
import Banked8085.Proofs.Assembler.OperandField
import Banked8085.Proofs.Assembler.Passes
import Banked8085.Proofs.Assembler.Strings
import Banked8085.Proofs.Text.Numeral

/-! # Lines of data

A line with strings and numbers behind `DB`, or with numbers behind `DW`, assembles to their bytes
(`assemble_data_line`). Several readers go over such a line, for a comment, a label, the first
words, the operands and each operand; a `Literal` is an operand that looks the same to all of them,
whatever characters stand in its quotes.
-/

namespace Banked8085.Assembler
set_option autoImplicit false

open Numeral (Digits)

/-! ## Sources of one statement -/

theorem place_blank (data : List Byte) :
    ∃ image, Image.place {} 0 data = .ok image ∧ image.origin.getD 0 = 0 ∧
      image.bytes.toList = data := by
  by_cases hdata : data = []
  · subst hdata
    exact ⟨{}, Image.place_nil, rfl, rfl⟩
  · exact ⟨⟨some 0, #[] ++ data⟩, (Image.place_eq_ok hdata).2 (.inl ⟨rfl, rfl⟩), rfl, by simp⟩

/-- The bytes of a single statement are the image, from address zero on. -/
theorem assemble_single {source : String} {statement : Statement} {data : List Byte}
    (hparse : parseSource source.toList = .ok [⟨1, none, some statement⟩])
    (ho : ∀ value, statement ≠ .origin value)
    (hc : ∀ name value, statement ≠ .constant name value)
    (hemit : statement.emit {} = .ok data) (hlength : data.length ≤ 65536) :
    assemble source = .ok ⟨0, data, {}⟩ := by
  obtain ⟨image, hplace, horigin, hbytes⟩ := place_blank data
  have hline : (⟨1, none, some statement⟩ : Line).statement = some statement := rfl
  have hcounter : ¬ 65536 < (0 + UInt32.ofNat data.length : UInt32) := by
    rw [UInt32.lt_iff_toNat_lt, toNat_add_ofNat (Nat.lt_of_le_of_lt (Nat.add_le_add_left hlength _)
      (by decide)), UInt32.toNat_zero, Nat.zero_add]
    exact Nat.not_lt.2 hlength
  have hskip : Layout.skip {} (some statement) = .ok ⟨{}, 0 + UInt32.ofNat data.length⟩ := by
    rw [Layout.skip_other hc, size_of_emit hemit]
    exact bind_eq_ok.2 ⟨_, rfl, by rw [if_neg hcounter]; rfl⟩
  have hfirst : Layout.next {} ⟨1, none, some statement⟩ =
      .ok ⟨{}, 0 + UInt32.ofNat data.length⟩ :=
    Layout.next_eq_ok.2 ⟨{}, {}, Layout.seek_other (Line.ne_origin _ hline ho), rfl, hskip⟩
  have hsecond : Output.next {} {} ⟨1, none, some statement⟩ =
      .ok ⟨image, 0 + UInt32.ofNat data.length⟩ :=
    (Output.next_some hline).2 ((Output.put_other ho).2 ⟨data, image, hemit, hplace, rfl⟩)
  refine assemble_eq_ok.2 ⟨_, _, _, hparse, foldlM_cons_eq_ok.2 ⟨_, hfirst, rfl⟩,
    foldlM_cons_eq_ok.2 ⟨_, hsecond, rfl⟩, ?_⟩
  rw [horigin, hbytes]
  rfl

/-! ## Lines without label and comment -/

section Lines
variable {text operands word : List Char} {number : Nat}

theorem parse_of_unmarked {statement : Statement} (hcomment : ';' ∉ Quoted.outside none text)
    (hlabel : ':' ∉ Quoted.outside none text) (hne : trim text ≠ [])
    (hparse : parseStatement none (trim text) = .ok (none, some statement)) :
    Line.parse number text = .ok ⟨number, none, some statement⟩ := by
  have hempty : (trim text).isEmpty = false := by simpa using hne
  have hbody : withoutComment text = text := by
    rw [withoutComment, Quoted.cut_eq_none_iff.2 hcomment]
  have hsplit : splitLabel (trim text) = (none, trim text) := by
    rw [splitLabel, Quoted.cut_eq_none_iff.2 (Quoted.outside_trim hlabel)]
  simp only [Line.parse, hbody, hsplit, hempty, hparse]
  rfl

theorem parseSource_of_line {statement : Statement} (hne : text ≠ []) (hline : '\n' ∉ text)
    (hparse : Line.parse 1 text = .ok ⟨1, none, some statement⟩) (hend : statement ≠ .finish) :
    parseSource text = .ok [⟨1, none, some statement⟩] := by
  have hgo : some statement ≠ some Statement.finish := fun h => hend (Option.some.inj h)
  rw [parseSource, lines_of_not_mem hne hline]
  simp only [parseLines, hparse, if_neg hgo]

theorem splitHead_of_word (hne : word ≠ []) (hword : ∀ c ∈ word, isBlank c = false)
    (hoperands : trim operands ≠ []) :
    splitHead (trim (word ++ ' ' :: operands)) = (word, trim operands) := by
  obtain ⟨left, c, rest, hl, hc, rfl⟩ : ∃ left c rest, Blanks left ∧ isBlank c = false ∧
      operands = left ++ c :: rest :=
    (blanks_or_exists operands).resolve_left fun h => hoperands (trim_of_blanks h)
  obtain ⟨d, ds, rfl⟩ := List.exists_cons_of_ne_nil hne
  have hspace : Blanks (' ' :: left) := List.forall_mem_cons.2 ⟨by decide, hl⟩
  have hsolid : ∀ c ∈ d :: ds, (!isBlank c) = true := fun c hc => by rw [hword c hc]; rfl
  have htrim : trim (d :: ds ++ ' ' :: (left ++ c :: rest)) =
      d :: ds ++ ' ' :: (left ++ trim (left ++ c :: rest)) := by
    have hstart := trim_append_cons blanks_nil (hword d List.mem_cons_self)
      (ds ++ ' ' :: (left ++ c :: rest))
    have hend := trimEnd_append_cons hc (ds ++ ' ' :: left) rest
    rw [trim_append_cons hl hc]
    simp only [List.append_assoc, List.cons_append, List.nil_append] at hstart hend ⊢
    rw [hstart, hend]
  have hrest := (trim_pad hspace blanks_nil (trim (left ++ c :: rest))).trans (trim_trim _)
  rw [List.append_nil, List.cons_append] at hrest
  rw [htrim, splitHead, List.takeWhile_append_of_pos hsolid, List.dropWhile_append_of_pos hsolid]
  simp only [List.takeWhile_cons, List.dropWhile_cons]
  rw [if_neg (by decide), if_neg (by decide), hrest, List.append_nil]

/-! ## Statements of data -/

theorem parseStatement_bytes {items : List DataItem} (hne : items ≠ [])
    (hhead : splitHead text = ("DB".toList, operands))
    (hsecond : String.ofList (upper (splitHead operands).1) ≠ "EQU")
    (hparse : (splitOperands operands).mapM DataItem.parse = .ok items) :
    parseStatement none text = .ok (none, some (.bytes items)) := by
  have hempty : items.isEmpty = false := by simpa using hne
  have hbytes : parseBytes operands = .ok (.bytes items) := by
    simp only [parseBytes, hparse]
    exact bind_eq_ok.2 ⟨items, rfl, by rw [hempty]; rfl⟩
  simp only [parseStatement, hhead]
  rw [if_neg hsecond]
  exact bind_eq_ok.2 ⟨_, hbytes, rfl⟩

theorem parseStatement_words {values : List Value} (hne : values ≠ [])
    (hhead : splitHead text = ("DW".toList, operands))
    (hsecond : String.ofList (upper (splitHead operands).1) ≠ "EQU")
    (hparse : (splitOperands operands).mapM parseValue = .ok values) :
    parseStatement none text = .ok (none, some (.words values)) := by
  have hempty : values.isEmpty = false := by simpa using hne
  have hwords : parseWords operands = .ok (.words values) := by
    simp only [parseWords, hparse]
    exact bind_eq_ok.2 ⟨values, rfl, by rw [hempty]; rfl⟩
  simp only [parseStatement, hhead]
  rw [if_neg hsecond]
  exact bind_eq_ok.2 ⟨_, hwords, rfl⟩

end Lines

/-! ## Operands -/

/-- Outside quotations, an operand of a data line has letters, digits and blanks, which no reader of
the line takes for its own mark. -/
structure Literal (text : List Char) : Prop where
  scan_eq : Quoted.scan none text = none
  outside : ∀ c ∈ Quoted.outside none text,
    Quoted.isQuote c = true ∨ c.isAlphanum = true ∨ isBlank c = true
  exists_first : ∃ left first rest, text = left ++ first :: rest ∧ Blanks left ∧
    (Quoted.isQuote first = true ∨ first.isDigit = true)
  one_line : '\n' ∉ text

/-- What a literal does not have outside quotations, such as the characters that separate operands
or mark a comment or a label. -/
def IsMark (c : Char) : Prop :=
  Quoted.isQuote c = false ∧ c.isAlphanum = false ∧ isBlank c = false

instance (c : Char) : Decidable (IsMark c) :=
  inferInstanceAs (Decidable (_ ∧ _))

/-- The text is one for `a` with blanks around it, in one line. -/
def Padded {α : Type} (r : List Char → α → Prop) (text : List Char) (a : α) : Prop :=
  ∃ left item right, Blanks left ∧ Blanks right ∧ '\n' ∉ left ++ right ∧ r item a ∧
    text = left ++ item ++ right

/-- The operands of `DB` with their bytes: strings without their quote character, and numbers. -/
inductive DataText : List Char → List Byte → Prop
  | string {quote text} (hquote : Quoted.isQuote quote = true) (hclosed : quote ∉ text)
    (hline : '\n' ∉ text) : DataText (quote :: (text ++ [quote])) (Utf8.encode text)
  | number {text} {b : Byte} (h : NumberText text b.toNat) : DataText text [b]

namespace Literal
variable {text left right : List Char}

theorem not_mem (h : Literal text) {mark : Char} (hmark : IsMark mark) :
    mark ∉ Quoted.outside none text := by
  obtain ⟨hquote, halphanum, hblank⟩ := hmark
  intro hmem
  rcases h.outside mark hmem with hc | hc | hc
  · exact absurd hc (Bool.eq_false_iff.1 hquote)
  · exact absurd hc (Bool.eq_false_iff.1 halphanum)
  · exact absurd hc (Bool.eq_false_iff.1 hblank)

theorem pad (hl : Blanks left) (hr : Blanks right) (hline : '\n' ∉ left ++ right)
    (h : Literal text) : Literal (left ++ text ++ right) := by
  refine ⟨Quoted.scan_pad hl hr h.scan_eq, ?_, ?_, ?_⟩
  · intro c hc
    rw [Quoted.outside_pad hl hr h.scan_eq, List.mem_append, List.mem_append] at hc
    rcases hc with (hc | hc) | hc
    · exact .inr (.inr (hl c hc))
    · exact h.outside c hc
    · exact .inr (.inr (hr c hc))
  · obtain ⟨start, first, rest, rfl, hstart, hfirst⟩ := h.exists_first
    exact ⟨left ++ start, first, rest ++ right, by simp, hl.append hstart, hfirst⟩
  · have hmem := h.one_line
    simp only [List.mem_append, not_or] at hline ⊢
    exact ⟨⟨hline.1, hmem⟩, hline.2⟩

end Literal

theorem NumberText.literal {text : List Char} {n : Nat} (h : NumberText text n) :
    Literal text := by
  have hplain : Quoted.Plain text := fun c hc =>
    Quoted.isQuote_eq_false_of (by decide) (by decide) (h.isAlphanum hc)
  obtain ⟨first, rest, heq, hfirst⟩ := h.exists_first
  refine ⟨hplain.scan_eq, fun c hc => ?_, ⟨[], first, rest, heq, blanks_nil, .inr hfirst⟩, ?_⟩
  · rw [hplain.outside_eq] at hc
    exact .inr (.inl (h.isAlphanum hc))
  · intro hmem
    exact absurd (h.isAlphanum hmem) (by decide)

theorem NumberText.parseValue_eq {text : List Char} {n : Nat} (h : NumberText text n)
    (hn : n ≤ Value.limit) : parseValue text = .ok (.number n) := by
  rw [parseValue, h.parse_eq hn]

theorem NumberText.exists_word {text : List Char} {w : Word} (h : NumberText text w.toNat) :
    ∃ v, parseValue text = .ok v ∧ emitWord {} v = .ok [Word.low w, Word.high w] := by
  have hw : w.toNat < 65536 := w.toNat_lt
  refine ⟨.number w.toNat, h.parseValue_eq (by simp only [Value.limit]; omega), ?_⟩
  refine bind_eq_ok.2 ⟨w.toNat, rfl, ?_⟩
  rw [if_pos hw, UInt16.ofNat_toNat]
  rfl

namespace DataText
variable {text : List Char} {bytes : List Byte}

theorem literal (h : DataText text bytes) : Literal text := by
  cases h with
  | @string quote text hquote hclosed hline =>
    refine ⟨Quoted.scan_quotation hquote hclosed, fun c hc => .inl ?_,
      ⟨[], quote, text ++ [quote], rfl, blanks_nil, .inl hquote⟩, ?_⟩
    · rw [Quoted.outside_quotation hquote hclosed, List.mem_singleton] at hc
      rw [hc, hquote]
    · have hne : '\n' ≠ quote := by
        rintro rfl
        exact absurd hquote (by decide)
      simp [hne, hline]
  | number h => exact h.literal

theorem trim_eq (h : DataText text bytes) : trim text = text := by
  cases h with
  | string hquote =>
    have hblank := Quoted.isBlank_of_isQuote hquote
    exact trim_of_ends hblank hblank
  | number h => exact h.trim_eq

theorem exists_item (h : DataText text bytes) :
    ∃ item, DataItem.parse text = .ok item ∧ item.emit {} = .ok bytes := by
  cases h with
  | @string quote text hquote =>
    refine ⟨.text (Utf8.encode text), ?_, rfl⟩
    have hinner : Quoted.inner? (quote :: (text ++ [quote])) = some text := inner?_eq_some.2 rfl
    simp only [DataItem.parse, Quoted.opens, hquote, hinner, if_true]
  | @number _ b h =>
    have hb : b.toNat < 256 := b.toNat_lt
    refine ⟨.value (.number b.toNat), ?_, ?_⟩
    · obtain ⟨first, rest, heq, hfirst⟩ := h.exists_first
      have hopens : Quoted.opens text = false := by
        rw [heq]
        exact Quoted.isQuote_eq_false_of (by decide) (by decide) hfirst
      simp only [DataItem.parse, hopens, h.parseValue_eq (by simp only [Value.limit]; omega)]
      rfl
    · refine bind_eq_ok.2 ⟨b.toNat, rfl, ?_⟩
      rw [if_pos hb, UInt8.ofNat_toNat]
      rfl

end DataText

theorem forall₂_of_padded {α : Type} {r : List Char → α → Prop} {texts : List (List Char)}
    {values : List α} (hr : ∀ {text a}, r text a → Literal text ∧ trim text = text)
    (h : List.Forall₂ (Padded r) texts values) :
    (∀ text ∈ texts, Literal text) ∧ List.Forall₂ r (texts.map trim) values := by
  rw [List.forall₂_map_left_iff, ← List.forall₂_and_left]
  refine h.imp fun text a hpadded => ?_
  obtain ⟨left, item, right, hl, hr', hline, hitem, rfl⟩ := hpadded
  obtain ⟨hliteral, htrim⟩ := hr hitem
  refine ⟨hliteral.pad hl hr' hline, ?_⟩
  rwa [trim_pad hl hr', htrim]

/-! ## Whole lines -/

/-- A directive with its operands. -/
def directive (keyword : String) (operands : List (List Char)) : String :=
  keyword ++ " " ++ String.ofList ([','].intercalate operands)

section Directive
variable {texts : List (List Char)}

theorem exists_first_of_literals (hne : texts ≠ []) (hliteral : ∀ text ∈ texts, Literal text) :
    ∃ first rest, trim ([','].intercalate texts) = first :: rest ∧
      (Quoted.isQuote first = true ∨ first.isDigit = true) := by
  obtain ⟨text, texts, rfl⟩ := List.exists_cons_of_ne_nil hne
  obtain ⟨tail, htail⟩ : ∃ tail, [','].intercalate (text :: texts) = text ++ tail := by
    cases texts with
    | nil => exact ⟨[], by simp⟩
    | cons next texts =>
      rw [List.intercalate_cons_cons, List.append_assoc]
      exact ⟨_, rfl⟩
  obtain ⟨left, first, rest, rfl, hl, hfirst⟩ := (hliteral text List.mem_cons_self).exists_first
  have hblank : isBlank first = false := by
    rcases hfirst with hquote | hdigit
    · exact Quoted.isBlank_of_isQuote hquote
    · exact isBlank_of_isAlphanum (Bool.or_eq_true_iff.2 (.inr hdigit))
  rw [htail, List.append_assoc, List.cons_append, trim_append_cons hl hblank]
  exact ⟨first, _, rfl, hfirst⟩

/-- A quote or a digit begins no keyword. -/
theorem second_ne_equ {first : Char} {rest : List Char}
    (hfirst : Quoted.isQuote first = true ∨ first.isDigit = true) :
    String.ofList (upper (splitHead (first :: rest)).1) ≠ "EQU" := by
  have hletter : ∀ c ∈ letters, Quoted.isQuote c = false ∧ c.isDigit = false :=
    forall_letters (by decide)
  intro h
  have hupper : upper ((first :: rest).takeWhile (!isBlank ·)) = ['E', 'Q', 'U'] :=
    String.ofList_inj.1 h
  have hmem : first ∈ letters := by
    rw [List.takeWhile_cons] at hupper
    split at hupper
    · obtain ⟨hc, -⟩ := List.cons.inj hupper
      rcases toUpper_eq_or_mem first with heq | ⟨hmem, -⟩
      · rw [← heq, hc]
        decide
      · exact hmem
    · cases hupper
  rcases hfirst with hquote | hdigit
  · exact absurd hquote (Bool.eq_false_iff.1 (hletter first hmem).1)
  · exact absurd hdigit (Bool.eq_false_iff.1 (hletter first hmem).2)

theorem not_mem_outside_directive {word : List Char} {mark : Char} (hmark : IsMark mark)
    (hcomma : mark ≠ ',') (hword : ∀ c ∈ word, c.isAlphanum = true)
    (hliteral : ∀ text ∈ texts, Literal text) :
    mark ∉ Quoted.outside none (word ++ ' ' :: [','].intercalate texts) := by
  have hoperands : mark ∉ Quoted.outside none ([','].intercalate texts) :=
    Quoted.not_mem_outside_intercalate (by decide) hcomma
      (fun text htext => (hliteral text htext).scan_eq)
      fun text htext => (hliteral text htext).not_mem hmark
  have hplain : Quoted.Plain (word ++ [' ']) := by
    refine List.forall_mem_append.2 ⟨fun c hc => ?_, List.forall_mem_singleton.2 (by decide)⟩
    exact Quoted.isQuote_eq_false_of (by decide) (by decide) (hword c hc)
  obtain ⟨-, halphanum, hblank⟩ := hmark
  have hspace : mark ≠ ' ' := by
    rintro rfl
    exact absurd hblank (by decide)
  rw [List.append_cons, Quoted.outside_append, hplain.outside_eq, hplain.scan_eq]
  simp only [List.mem_append, List.mem_singleton, not_or]
  exact ⟨⟨fun hmem => absurd (hword mark hmem) (Bool.eq_false_iff.1 halphanum), hspace⟩, hoperands⟩

theorem newline_not_mem_directive {word : List Char} (hword : ∀ c ∈ word, c.isAlphanum = true)
    (hliteral : ∀ text ∈ texts, Literal text) :
    '\n' ∉ word ++ ' ' :: [','].intercalate texts := by
  have hoperands : '\n' ∉ [','].intercalate texts :=
    not_mem_intercalate (by decide) fun text htext => (hliteral text htext).one_line
  rw [List.mem_append, List.mem_cons, not_or, not_or]
  exact ⟨fun hmem => absurd (hword _ hmem) (by decide), by decide, hoperands⟩

/-- In front of its operands nothing in a line of literals is a comment, a label or a constant. -/
theorem parseSource_directive {keyword : String} {statement : Statement} (hne : texts ≠ [])
    (hsome : keyword.toList ≠ []) (hword : ∀ c ∈ keyword.toList, c.isAlphanum = true)
    (hliteral : ∀ text ∈ texts, Literal text)
    (hparse : ∀ text operands, splitHead text = (keyword.toList, operands) →
      String.ofList (upper (splitHead operands).1) ≠ "EQU" →
      splitOperands operands = texts.map trim →
      parseStatement none text = .ok (none, some statement))
    (hend : statement ≠ .finish) :
    parseSource (directive keyword texts).toList = .ok [⟨1, none, some statement⟩] := by
  have hsource : (directive keyword texts).toList =
      keyword.toList ++ ' ' :: [','].intercalate texts := by
    simp [directive]
  obtain ⟨first, rest, htrim, hfirst⟩ := exists_first_of_literals hne hliteral
  have hoperands : trim ([','].intercalate texts) ≠ [] := htrim ▸ List.cons_ne_nil _ _
  have hhead := splitHead_of_word hsome (fun c hc => isBlank_of_isAlphanum (hword c hc)) hoperands
  have hsecond : String.ofList (upper (splitHead (trim ([','].intercalate texts))).1) ≠ "EQU" :=
    htrim ▸ second_ne_equ hfirst
  have hsplit : splitOperands (trim ([','].intercalate texts)) = texts.map trim := by
    rw [splitOperands_trim, splitOperands_eq_map hoperands, Quoted.split_intercalate hne
      (fun text htext => (hliteral text htext).scan_eq)
      fun text htext => (hliteral text htext).not_mem (by decide)]
  have hline : trim (keyword.toList ++ ' ' :: [','].intercalate texts) ≠ [] := by
    intro hnil
    rw [hnil] at hhead
    exact hsome (Prod.mk.inj hhead).1.symm
  rw [hsource]
  refine parseSource_of_line ?_ (newline_not_mem_directive hword hliteral) ?_ hend
  · simp
  · exact parse_of_unmarked
      (not_mem_outside_directive (by decide) (by decide) hword hliteral)
      (not_mem_outside_directive (by decide) (by decide) hword hliteral) hline
      (hparse _ _ hhead hsecond hsplit)

end Directive

/-- A line of strings and numbers that all are bytes, or of numbers that all are words, with any
blanks around the commas, assembles to its data in order. -/
theorem assemble_data_line {texts : List (List Char)} (hne : texts ≠ []) :
    (∀ chunks, List.Forall₂ (Padded DataText) texts chunks → chunks.flatten.length ≤ 65536 →
        assemble (directive "DB" texts) = .ok ⟨0, chunks.flatten, {}⟩) ∧
      ∀ words : List Word,
        List.Forall₂ (Padded fun text w => NumberText text w.toNat) texts words →
        words.length ≤ 32768 →
        assemble (directive "DW" texts) =
          .ok ⟨0, words.flatMap fun w => [Word.low w, Word.high w], {}⟩ := by
  have hmap : texts.map trim ≠ [] := by simpa using hne
  constructor
  · intro chunks hall hlength
    obtain ⟨hliteral, hchunks⟩ := forall₂_of_padded (fun h => ⟨h.literal, h.trim_eq⟩) hall
    obtain ⟨items, hparse, hemit⟩ := exists_mapM_mapM (hchunks.imp fun _ _ h => h.exists_item)
    have hitems := ne_nil_of_mapM hparse hmap
    have hdata : (Statement.bytes items).emit {} = .ok chunks.flatten :=
      bind_eq_ok.2 ⟨chunks, hemit, rfl⟩
    have hsource : parseSource (directive "DB" texts).toList =
        .ok [⟨1, none, some (.bytes items)⟩] :=
      parseSource_directive hne (by simp) (by simp) hliteral
        (fun _ _ hhead hsecond hsplit =>
          parseStatement_bytes hitems hhead hsecond (hsplit ▸ hparse)) nofun
    exact assemble_single hsource nofun nofun hdata hlength
  · intro words hall hlength
    obtain ⟨hliteral, hwords⟩ := forall₂_of_padded (fun h => ⟨h.literal, h.trim_eq⟩) hall
    have hchunks : List.Forall₂
        (fun text chunk => ∃ v, parseValue text = .ok v ∧ emitWord {} v = .ok chunk)
        (texts.map trim) (words.map fun w => [Word.low w, Word.high w]) :=
      List.forall₂_map_right_iff.2 (hwords.imp fun _ _ h => h.exists_word)
    obtain ⟨values, hparse, hemit⟩ := exists_mapM_mapM hchunks
    have hvalues := ne_nil_of_mapM hparse hmap
    have hdata : (Statement.words values).emit {} =
        .ok (words.flatMap fun w => [Word.low w, Word.high w]) :=
      bind_eq_ok.2 ⟨_, hemit, by rw [List.flatMap_def]; rfl⟩
    have hsource : parseSource (directive "DW" texts).toList =
        .ok [⟨1, none, some (.words values)⟩] :=
      parseSource_directive hne (by simp) (by simp) hliteral
        (fun _ _ hhead hsecond hsplit =>
          parseStatement_words hvalues hhead hsecond (hsplit ▸ hparse)) nofun
    have hsize : (words.flatMap fun w => [Word.low w, Word.high w]).length = words.length * 2 := by
      simp [List.length_flatMap]
    exact assemble_single hsource nofun nofun hdata (by omega)

/-- Marks and the other quote stand in strings, and every way to write a number occurs. -/
theorem assemble_data_line_mixed :
    assemble (directive "DB" ["'a;b'".toList, " \"It's ü,\" ".toList, "0x1F".toList,
        "0fH ".toList, "10b".toList, " 07".toList]) =
      .ok ⟨0, [0x61, 0x3B, 0x62, 0x49, 0x74, 0x27, 0x73, 0x20, 0xC3, 0xBC, 0x2C, 0x1F, 0x0F, 2, 7],
        {}⟩ ∧
      assemble (directive "DW" ["0x1F".toList, "10b ".toList]) = .ok ⟨0, [0x1F, 0, 2, 0], {}⟩ := by
  have hdecimal : NumberText ['0', '7'] 7 :=
    .decimal (@Digits.snoc 10 ['0'] 0 '7' 7 (.single (by decide) (by decide)) (by decide)
      (by decide))
  have hprefix : NumberText ['0', 'x', '1', 'F'] 0x1F :=
    .hexPrefix (by decide) (@Digits.snoc 16 ['1'] 1 'F' 15 (.single (by decide) (by decide))
      (by decide) (by decide))
  have hsuffix : NumberText ['0', 'f', 'H'] 0x0F :=
    .hexSuffix (by decide) (@Digits.snoc 16 ['0'] 0 'f' 15 (.single (by decide) (by decide))
      (by decide) (by decide)) (by decide)
  have hbinary : NumberText ['1', '0', 'b'] 2 :=
    .binary (@Digits.snoc 2 ['1'] 1 '0' 0 (.single (by decide) (by decide)) (by decide)
      (by decide)) (by decide)
  have hsingle : DataText "'a;b'".toList (Utf8.encode "a;b".toList) :=
    @DataText.string '\'' "a;b".toList (by decide) (by decide) (by decide)
  have hdouble : DataText "\"It's ü,\"".toList (Utf8.encode "It's ü,".toList) :=
    @DataText.string '"' "It's ü,".toList (by decide) (by decide) (by decide)
  have hdata : List.Forall₂ (Padded DataText)
      ["'a;b'".toList, " \"It's ü,\" ".toList, "0x1F".toList, "0fH ".toList, "10b".toList,
        " 07".toList]
      [Utf8.encode "a;b".toList, Utf8.encode "It's ü,".toList, [0x1F], [0x0F], [2], [7]] :=
    .cons ⟨[], _, [], by decide, by decide, by decide, hsingle, rfl⟩
    (.cons ⟨[' '], _, [' '], by decide, by decide, by decide, hdouble, rfl⟩
    (.cons ⟨[], _, [], by decide, by decide, by decide, .number hprefix, rfl⟩
    (.cons ⟨[], _, [' '], by decide, by decide, by decide, .number hsuffix, rfl⟩
    (.cons ⟨[], _, [], by decide, by decide, by decide, .number hbinary, rfl⟩
    (.cons ⟨[' '], _, [], by decide, by decide, by decide, .number hdecimal, rfl⟩ .nil)))))
  have hwords : List.Forall₂ (Padded fun text w => NumberText text (UInt16.toNat w))
      ["0x1F".toList, "10b ".toList] [0x1F, 2] :=
    .cons ⟨[], _, [], by decide, by decide, by decide, hprefix, rfl⟩
    (.cons ⟨[], _, [' '], by decide, by decide, by decide, hbinary, rfl⟩ .nil)
  have hbytes : [Utf8.encode "a;b".toList, Utf8.encode "It's ü,".toList, [0x1F], [0x0F], [2],
      [7]].flatten = [0x61, 0x3B, 0x62, 0x49, 0x74, 0x27, 0x73, 0x20, 0xC3, 0xBC, 0x2C, 0x1F, 0x0F,
        2, 7] := by
    decide
  constructor
  · rw [← hbytes]
    exact (assemble_data_line (List.cons_ne_nil _ _)).1 _ hdata (by decide)
  · exact (assemble_data_line (List.cons_ne_nil _ _)).2 _ hwords (by decide)

end Banked8085.Assembler
