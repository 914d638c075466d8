import Mathlib.Data.List.Forall2
import Banked8085.Proofs.Assembler.LetterCase
import Banked8085.Proofs.Assembler.SecondPass
import Banked8085.Proofs.Assembler.Strings

/-! # Letter case in sources

A source that is respelled outside quotations assembles if the source does, with the same origin and
symbols (`assemble_respelled`). Bytes can differ in one place only: a string of a byte directive
reaches from its first to its last character, so that a letter in it may stand outside quotations.
-/

namespace Banked8085.Assembler
set_option autoImplicit false

open Respelled (InLine InSource)

/-! ## Lines -/

theorem Statement.Alike.finish_iff {statement other : Statement} (h : statement.Alike other) :
    statement = .finish ↔ other = .finish := by
  cases h with
  | refl => rfl
  | bytes => simp
  | instruction => simp

theorem Line.Alike.finish_iff {line other : Line} (h : line.Alike other) :
    line.statement = some .finish ↔ other.statement = some .finish := by
  have hstatement := h.statement
  generalize line.statement = x at hstatement
  generalize other.statement = y at hstatement
  cases hstatement with
  | none => rfl
  | some h => simpa using h.finish_iff

theorem parseLines_respelled {texts texts' : List (List Char)} (number : Nat)
    (h : List.Forall₂ InLine texts texts') :
    Agree (List.Forall₂ Line.Alike) (parseLines number texts) (parseLines number texts') := by
  induction h generalizing number with
  | nil => exact .ok .nil
  | cons htext _ ih =>
    unfold parseLines
    obtain ⟨line, other, hs, ht, hline⟩ | ⟨e, d, hs, ht⟩ :=
      (parse_respelled number htext).ok_or_error
    · simp only [hs, ht, hline.finish_iff]
      split
      · exact .ok (.cons hline .nil)
      · obtain ⟨more, more', hs, ht, hmore⟩ | ⟨e, d, hs, ht⟩ := (ih (number + 1)).ok_or_error
        · rw [hs, ht]
          exact .ok (.cons hline hmore)
        · rw [hs, ht]
          exact .error _ _
    · rw [hs, ht]
      exact .error _ _

/-! ## Symbols -/

theorem DataItem.Alike.size_eq {item other : DataItem} (h : item.Alike other) :
    item.size = other.size := by
  cases h with
  | text h => exact congrArg UInt32.ofNat h
  | value v => rfl

theorem Statement.Alike.size_eq {statement other : Statement} (h : statement.Alike other) :
    statement.size = other.size := by
  cases h with
  | refl => rfl
  | bytes h =>
    refine congrArg Except.ok ?_
    induction h with
    | nil => rfl
    | cons hitem _ ih => rw [List.foldr_cons, List.foldr_cons, hitem.size_eq, ih]
  | instruction => rfl

theorem Layout.seek_alike (layout : Layout) {statement other : Option Statement}
    (h : Option.Rel Statement.Alike statement other) : layout.seek statement = layout.seek other := by
  cases h with
  | none => rfl
  | some h =>
    cases h with
    | refl => rfl
    | bytes => rfl
    | instruction => rfl

theorem Layout.skip_alike (layout : Layout) {statement other : Option Statement}
    (h : Option.Rel Statement.Alike statement other) : layout.skip statement = layout.skip other := by
  cases h with
  | none => rfl
  | some h =>
    have hsize := h.size_eq
    cases h with
    | refl => rfl
    | bytes =>
      rw [Layout.skip_other (by simp), Layout.skip_other (by simp), hsize]
    | instruction => rfl

theorem Layout.next_alike (layout : Layout) {line other : Line} (h : line.Alike other) :
    layout.next line = layout.next other := by
  unfold next
  simp only [layout.seek_alike h.statement, h.label_eq, Layout.skip_alike _ h.statement]
  cases line
  cases other
  obtain rfl := h.number_eq
  rfl

theorem layOut_alike {lines others : List Line} (h : List.Forall₂ Line.Alike lines others) :
    layOut lines = layOut others := by
  have hpass : ∀ layout : Layout,
      lines.foldlM Layout.next layout = others.foldlM Layout.next layout := by
    intro layout
    induction h generalizing layout with
    | nil => rfl
    | cons hline _ ih =>
      rw [List.foldlM_cons, List.foldlM_cons, layout.next_alike hline]
      exact congrArg _ (funext ih)
  rw [layOut, layOut, hpass]

/-! ## Bytes of statements -/

theorem Statement.Alike.length_strings {statement other : Statement}
    (h : statement.Alike other) : statement.strings.length = other.strings.length := by
  cases h with
  | refl => rfl
  | bytes h =>
    unfold strings
    induction h with
    | nil => rfl
    | cons hitem _ ih =>
      cases hitem with
      | text => exact congrArg (· + 1) ih
      | value => exact ih
  | instruction => rfl

theorem Line.Alike.length_strings {line other : Line} (h : line.Alike other) :
    line.strings.length = other.strings.length := by
  have hstatement := h.statement
  unfold strings
  generalize line.statement = x at hstatement
  generalize other.statement = y at hstatement
  cases hstatement with
  | none => rfl
  | some h => exact h.length_strings

section Emit
variable {symbols : SymbolTable}

/-- What two runs put out: equally many bytes, and the same ones exactly if `same` holds. -/
def Matching (same : Prop) (data data' : List Byte) : Prop :=
  data.length = data'.length ∧ (data = data' ↔ same)

theorem Matching.append {same more : Prop} {data data' rest rest' : List Byte}
    (h : Matching same data data') (hrest : Matching more rest rest') :
    Matching (same ∧ more) (data ++ rest) (data' ++ rest') := by
  refine ⟨?_, ?_⟩
  · rw [List.length_append, List.length_append, h.1, hrest.1]
  · rw [List.append_eq_append_iff_of_size_eq_left h.1, h.2, hrest.2]

theorem matching_refl {same : Prop} (data : List Byte) (hsame : same) : Matching same data data :=
  ⟨rfl, iff_of_true rfl hsame⟩

theorem emitItems_alike {items items' : List DataItem}
    (h : List.Forall₂ DataItem.Alike items items') :
    Agree (fun chunks chunks' => Matching
        (items.filterMap DataItem.text? = items'.filterMap DataItem.text?)
        chunks.flatten chunks'.flatten)
      (items.mapM (DataItem.emit symbols)) (items'.mapM (DataItem.emit symbols)) := by
  induction h with
  | nil => exact .ok ⟨rfl, by simp⟩
  | cons hitem _ ih =>
    rw [List.mapM_cons, List.mapM_cons]
    cases hitem with
    | text hlength =>
      refine ih.bind fun chunks chunks' hchunks => .ok ?_
      simp only [List.filterMap_cons, DataItem.text?, List.cons.injEq]
      exact Matching.append ⟨hlength, Iff.rfl⟩ hchunks
    | value v =>
      refine (Agree.refl _).bind ?_
      rintro chunk _ rfl
      refine ih.bind fun chunks chunks' hchunks => .ok ?_
      simp only [List.filterMap_cons, DataItem.text?]
      have happend := (matching_refl chunk trivial).append hchunks
      rw [true_and] at happend
      exact happend

theorem emitInstruction_respelled {mnemonic : List Char} {operands operands' : List (List Char)}
    (h : ∀ form, form? mnemonic = some form → List.Forall₂ InLine operands operands') :
    Agree Eq (emitInstruction symbols mnemonic operands)
      (emitInstruction symbols mnemonic operands') := by
  refine .of_eq_ok_iff fun bytes => ?_
  rw [emitInstruction_eq_ok, emitInstruction_eq_ok]
  refine exists_congr fun form => exists_congr fun i => and_congr_right fun hform => ?_
  exact and_congr_left fun _ => (build_respelled form mnemonic (h form hform)).eq_ok_iff

theorem Statement.Alike.emit {statement other : Statement} (h : statement.Alike other) :
    Agree (Matching (statement.strings = other.strings)) (statement.emit symbols)
      (other.emit symbols) := by
  cases h with
  | refl =>
    refine (Agree.refl _).mono ?_
    rintro data _ rfl
    exact matching_refl data (by rfl)
  | bytes h => exact (emitItems_alike h).bind fun _ _ hchunks => .ok hchunks
  | instruction h =>
    refine (emitInstruction_respelled h).mono ?_
    rintro data _ rfl
    exact matching_refl data (by rfl)

/-! ## Images -/

structure Image.Alike (image other : Image) : Prop where
  origin_eq : image.origin = other.origin
  size_eq : image.bytes.size = other.bytes.size

theorem size_append_list (bytes : Array Byte) (data : List Byte) :
    (bytes ++ data).size = bytes.size + data.length := by
  rw [← Array.length_toList, Array.toList_appendList, List.length_append, Array.length_toList]

theorem append_eq_append_iff_of_size_eq {bytes bytes' : Array Byte} {data data' : List Byte}
    (h : bytes.size = bytes'.size) :
    bytes ++ data = bytes' ++ data' ↔ bytes = bytes' ∧ data = data' := by
  rw [← Array.toList_inj, Array.toList_appendList, Array.toList_appendList,
    List.append_eq_append_iff_of_size_eq_left (by simpa using h), Array.toList_inj]

theorem Image.Alike.place {image other : Image} {same : Prop} {data data' : List Byte}
    (h : image.Alike other) (hdata : Matching same data data') (start : UInt32) :
    Agree (fun later later' => later.Alike later' ∧
        (later.bytes = later'.bytes ↔ image.bytes = other.bytes ∧ same))
      (image.place start data) (other.place start data') := by
  obtain ⟨origin, bytes⟩ := image
  obtain ⟨origin', bytes'⟩ := other
  obtain ⟨rfl, hsize⟩ := h
  simp only at hsize
  obtain ⟨hlength, hsame⟩ := hdata
  have hempty : data.isEmpty = data'.isEmpty := by
    rw [Bool.eq_iff_iff, List.isEmpty_iff_length_eq_zero, List.isEmpty_iff_length_eq_zero, hlength]
  simp only [Image.place, Image.stop, ← hempty, ← hsize]
  split
  case isTrue hnil =>
    have hnil' : data' = [] := List.isEmpty_iff.1 (hempty ▸ hnil)
    rw [List.isEmpty_iff.1 hnil, hnil'] at hsame
    exact .ok ⟨⟨rfl, hsize⟩, by simp [← hsame]⟩
  case isFalse =>
    cases origin with
    | none =>
      refine .ok ⟨⟨rfl, ?_⟩, ?_⟩
      · rw [size_append_list, size_append_list, hsize, hlength]
      · rw [append_eq_append_iff_of_size_eq hsize, hsame]
    | some origin =>
      simp only [Option.map_some]
      split
      · exact .error _ _
      · generalize (start - (origin + UInt32.ofNat bytes.size)).toNat = gap
        have hgap : (bytes ++ Array.replicate gap (0 : Byte)).size =
            (bytes' ++ Array.replicate gap (0 : Byte)).size := by
          rw [Array.size_append, Array.size_append, hsize]
        refine .ok ⟨⟨rfl, ?_⟩, ?_⟩
        · rw [size_append_list, size_append_list, hgap, hlength]
        · rw [append_eq_append_iff_of_size_eq hgap, Array.append_left_inj, hsame]

namespace Output

/-- Outputs that differ at most in the values of their bytes, and do not exactly if `same` holds. -/
structure Alike (same : Prop) (output other : Output) : Prop where
  image : output.image.Alike other.image
  counter_eq : output.counter = other.counter
  bytes_eq_iff : output.image.bytes = other.image.bytes ↔ same

variable {output other : Output} {same : Prop}

theorem Alike.congr {same' : Prop} (h : output.Alike same other) (hiff : same ↔ same') :
    output.Alike same' other :=
  ⟨h.image, h.counter_eq, h.bytes_eq_iff.trans hiff⟩

theorem Alike.put {statement statement' : Statement} (h : output.Alike same other)
    (hs : statement.Alike statement') :
    Agree (Alike (same ∧ statement.strings = statement'.strings))
      (output.put symbols statement) (other.put symbols statement') := by
  rcases statement.origin_or_other with ⟨value, rfl⟩ | hother
  · cases hs with
    | refl =>
      refine (Agree.refl _).bind ?_
      rintro counter _ rfl
      exact .ok ⟨h.image, rfl, by simp [h.bytes_eq_iff]⟩
  · have hother' : ∀ value, statement' ≠ .origin value := by
      cases hs with
      | refl => exact hother
      | bytes => simp
      | instruction => simp
    rw [put_eq hother, put_eq hother']
    refine hs.emit.bind fun data data' hdata => ?_
    rw [h.counter_eq]
    refine (h.image.place hdata other.counter).bind fun image image' himage => ?_
    refine .ok ⟨himage.1, ?_, ?_⟩
    · rw [hdata.1]
    · rw [himage.2, h.bytes_eq_iff]

theorem Alike.next {line line' : Line} (h : output.Alike same other) (hl : line.Alike line') :
    Agree (Alike (same ∧ line.strings = line'.strings))
      (output.next symbols line) (other.next symbols line') := by
  have hstatement := hl.statement
  unfold Output.next Line.strings
  generalize line.statement = x at hstatement
  generalize line'.statement = y at hstatement
  cases hstatement with
  | none => exact .ok (h.congr (by simp))
  | some hs =>
    have hagree : Agree _ (output.put symbols _) (other.put symbols _) := h.put hs
    obtain ⟨later, later', hput, hput', hlater⟩ | ⟨e, d, hput, hput'⟩ := hagree.ok_or_error
    · simp only [Line.blame, hput, hput']
      exact .ok hlater
    · simp only [Line.blame, hput, hput']
      exact .error _ _

theorem Alike.pass {lines lines' : List Line} (h : output.Alike same other)
    (hl : List.Forall₂ Line.Alike lines lines') :
    Agree (Alike (same ∧ lines.flatMap Line.strings = lines'.flatMap Line.strings))
      (lines.foldlM (Output.next symbols) output) (lines'.foldlM (Output.next symbols) other) := by
  induction hl generalizing output other same with
  | nil => exact .ok (h.congr (by simp))
  | cons hline _ ih =>
    rw [List.foldlM_cons, List.foldlM_cons, List.flatMap_cons, List.flatMap_cons,
      List.append_eq_append_iff_of_size_eq_left hline.length_strings]
    refine (h.next hline).bind fun later later' hlater => ?_
    exact (ih hlater).mono fun _ _ hfinal => hfinal.congr and_assoc

end Output

theorem emitLines_alike {lines lines' : List Line} (h : List.Forall₂ Line.Alike lines lines') :
    Agree (fun image image' => image.Alike image' ∧ (image.bytes = image'.bytes ↔
        lines.flatMap Line.strings = lines'.flatMap Line.strings))
      (emitLines symbols lines) (emitLines symbols lines') := by
  have hstart : Output.Alike True {} {} := ⟨⟨rfl, rfl⟩, rfl, by simp⟩
  refine (hstart.pass h).bind fun output output' houtput => .ok ⟨houtput.image, ?_⟩
  rw [houtput.bytes_eq_iff, true_and]

end Emit

/-! ## Strings -/

theorem statementStrings_respelled {s t : List Char} (h : InLine s t) :
    List.Forall₂ InLine (statementStrings s) (statementStrings t) := by
  obtain ⟨hhead, later, htail, hlater⟩ := splitHead_respelled h
  obtain ⟨hsecond, -⟩ := splitHead_respelled htail
  unfold statementStrings
  simp only [← hhead.upper_eq, ← hsecond.upper_eq]
  split
  case isTrue hdb =>
    rw [hlater rfl (plain_of_keyword hdb.2 (by decide))] at htail
    refine List.rel_filter ?_ (splitOperands_respelled htail)
    intro operand operand' hoperand
    simp only [hoperand.opens_eq]
  case isFalse => exact .nil

theorem lineStrings_respelled {s t : List Char} (h : InLine s t) :
    List.Forall₂ InLine (lineStrings s) (lineStrings t) :=
  statementStrings_respelled (splitLabel_respelled (withoutComment_respelled h).trim_none).2

theorem parseSource_respelled {s t : List Char} (h : InSource s t) :
    Agree (List.Forall₂ Line.Alike) (parseSource s) (parseSource t) :=
  parseLines_respelled 1 h.lines

theorem sourceStrings_respelled {s t : List Char} (h : InSource s t) :
    List.Forall₂ InLine (sourceStrings s) (sourceStrings t) := by
  obtain ⟨parsed, parsed', hs, ht, hparsed⟩ | ⟨e, d, hs, ht⟩ :=
    (parseSource_respelled h).ok_or_error
  · rw [sourceStrings_of_ok hs, sourceStrings_of_ok ht, ← hparsed.length_eq]
    exact List.rel_flatMap (List.forall₂_take _ h.lines) fun _ _ h => lineStrings_respelled h
  · rw [sourceStrings, sourceStrings, hs, ht]
    exact .nil

theorem stringBytes_eq_iff {s t : List Char} {bytes bytes' : List Byte} (h : InLine s t)
    (hs : StringBytes s bytes) (ht : StringBytes t bytes') : bytes = bytes' ↔ s = t := by
  obtain ⟨quote, text, hquote, rfl, rfl⟩ := hs
  obtain ⟨quote', text', -, rfl, rfl⟩ := ht
  obtain ⟨u, hu, -⟩ := opens_cases h hquote
  obtain rfl : quote' = quote := (List.cons.inj hu).1
  constructor
  · intro hbytes
    rw [encode_injective hbytes]
  · intro htexts
    rw [List.append_cancel_right (List.cons.inj htexts).2]

theorem stringBytes_eq_iff_of_forall₂ {strings strings' : List (List Char)}
    {bytes bytes' : List (List Byte)} (h : List.Forall₂ InLine strings strings')
    (hs : List.Forall₂ StringBytes strings bytes) (ht : List.Forall₂ StringBytes strings' bytes') :
    bytes = bytes' ↔ strings = strings' := by
  induction h generalizing bytes bytes' with
  | nil =>
    cases hs
    cases ht
    simp
  | cons hstring _ ih =>
    obtain _ | ⟨hfirst, hs⟩ := hs
    obtain _ | ⟨hfirst', ht⟩ := ht
    rw [List.cons.injEq, List.cons.injEq, stringBytes_eq_iff hstring hfirst hfirst', ih hs ht]

/-- A string without its own quote character in it lies inside one quotation. -/
theorem eq_of_string {quote : Char} {text t : List Char} (hquote : Quoted.isQuote quote = true)
    (htext : quote ∉ text) (h : InLine (quote :: (text ++ [quote])) t) :
    quote :: (text ++ [quote]) = t := by
  obtain ⟨u, rfl, hrest⟩ := opens_cases h hquote
  obtain ⟨v, w, rfl, hv, hw⟩ := hrest.of_append
  obtain rfl := hv.eq_of_not_mem htext
  obtain _ | ⟨hc, hnil⟩ := hw
  cases hnil
  rw [(hc.eq_iff (not_mem_letters_of_isQuote hquote)).1 rfl]

theorem strings_eq_of_plain {strings strings' : List (List Char)} {bytes : List (List Byte)}
    (h : List.Forall₂ InLine strings strings') (hs : List.Forall₂ StringBytes strings bytes)
    (hplain : ∀ quote text, quote :: (text ++ [quote]) ∈ strings → quote ∉ text) :
    strings = strings' := by
  induction h generalizing bytes with
  | nil => rfl
  | cons hstring _ ih =>
    obtain _ | ⟨hfirst, hrest⟩ := hs
    obtain ⟨quote, text, hquote, rfl, -⟩ := hfirst
    have htext := hplain quote text List.mem_cons_self
    rw [eq_of_string hquote htext hstring,
      ih hrest fun quote text hmem => hplain quote text (List.mem_cons_of_mem _ hmem)]

/-! ## Assembly -/

theorem assemble_agree {source other : String} (h : InSource source.toList other.toList) :
    Agree (fun assembly assembly' => assembly.origin = assembly'.origin ∧
        assembly.symbols = assembly'.symbols ∧ assembly.bytes.length = assembly'.bytes.length ∧
        (assembly.bytes = assembly'.bytes ↔
          sourceStrings source.toList = sourceStrings other.toList))
      (assemble source) (assemble other) := by
  refine (parseSource_respelled h).with_eq.bind ?_
  rintro parsed parsed' ⟨hs, ht, hparsed⟩
  rw [layOut_alike hparsed]
  refine (Agree.refl (layOut parsed')).bind ?_
  rintro symbols _ rfl
  refine (emitLines_alike hparsed).bind fun image image' himage => .ok ?_
  obtain ⟨⟨horigin, hsize⟩, hbytes⟩ := himage
  refine ⟨by rw [horigin], rfl, hsize, ?_⟩
  rw [Array.toList_inj, hbytes]
  exact stringBytes_eq_iff_of_forall₂ (sourceStrings_respelled h)
    (stringBytes_of_parseSource hs) (stringBytes_of_parseSource ht)

/-- A source that is respelled outside quotations assembles if the source does, with the same origin
and symbols. It has the same bytes exactly if no letter of a string is changed, which needs a
string with its own quote character in it. -/
theorem assemble_respelled {source other : String} (h : InSource source.toList other.toList) :
    ((∃ assembly, assemble source = .ok assembly) ↔
        ∃ assembly, assemble other = .ok assembly) ∧
      (∀ assembly assembly', assemble source = .ok assembly → assemble other = .ok assembly' →
        assembly.origin = assembly'.origin ∧ assembly.symbols = assembly'.symbols ∧
          assembly.bytes.length = assembly'.bytes.length ∧
          (assembly.bytes = assembly'.bytes ↔
            sourceStrings source.toList = sourceStrings other.toList)) ∧
      ((∀ quote text, quote :: (text ++ [quote]) ∈ sourceStrings source.toList → quote ∉ text) →
        sourceStrings source.toList = sourceStrings other.toList) := by
  refine ⟨(assemble_agree h).exists_ok_iff,
    fun _ _ hs ht => (assemble_agree h).related hs ht, fun hplain => ?_⟩
  obtain ⟨bytes, hbytes⟩ := exists_stringBytes source.toList
  exact strings_eq_of_plain (sourceStrings_respelled h) hbytes hplain

/-- Labels, mnemonics, operands, numbers and comments in another case, beside a string. -/
theorem assemble_respelled_mixed :
    InSource "go: lxi h,0FFh ; load\n db \"It's\", go".toList
        "Go: LXI H,0ffH ; Load\n DB \"It's\", GO".toList ∧
      ∃ assembly assembly', assemble "go: lxi h,0FFh ; load\n db \"It's\", go" = .ok assembly ∧
        assemble "Go: LXI H,0ffH ; Load\n DB \"It's\", GO" = .ok assembly' ∧
        assembly.symbols = assembly'.symbols ∧ assembly.bytes = assembly'.bytes := by
  have hrespelled : InSource "go: lxi h,0FFh ; load\n db \"It's\", go".toList
      "Go: LXI H,0ffH ; Load\n DB \"It's\", GO".toList := by decide +kernel
  obtain ⟨hsucceeds, hequal, -⟩ := assemble_respelled hrespelled
  have hsource := eq_ok_get (x := assemble "go: lxi h,0FFh ; load\n db \"It's\", go")
    (by decide +kernel)
  obtain ⟨assembly', hother⟩ := hsucceeds.1 ⟨_, hsource⟩
  obtain ⟨-, hsymbols, -, hbytes⟩ := hequal _ _ hsource hother
  exact ⟨hrespelled, _, assembly', hsource, hother, hsymbols, hbytes.2 (by decide +kernel)⟩

/-- The letter between the two inner quotes is outside quotations and yet a byte of the string. -/
theorem respelled_string_changes_bytes :
    InSource " DB 'a'b'".toList " DB 'a'B'".toList ∧
      ∃ assembly assembly', assemble " DB 'a'b'" = .ok assembly ∧
        assemble " DB 'a'B'" = .ok assembly' ∧
        assembly.bytes = [0x61, 0x27, 0x62] ∧ assembly'.bytes = [0x61, 0x27, 0x42] := by
  refine ⟨by decide +kernel, (assemble " DB 'a'b'").toOption.get (by decide +kernel),
    (assemble " DB 'a'B'").toOption.get (by decide +kernel), eq_ok_get _, eq_ok_get _, ?_⟩
  decide +kernel

end Banked8085.Assembler
