import Mathlib.Data.List.Induction
import Banked8085.Proofs.Assembler.Label
import Banked8085.Proofs.Assembler.SecondPass

/-! # The two passes agree

Both passes keep an address counter, and a label is worth something only if they hold the same one
at its line. `counter_eq_iff` says when they do: unless the origin in force reads a name that is
defined further down, so that it is a hexadecimal number for the first pass and a symbol for the
second (`Displaced`). Over lines that are `Line.Bounded` the counters are true addresses, and so is
the end of the image (`inStep_of_pass`). `assemble_places_labels` carries this over to whole sources.
-/

namespace Banked8085.Assembler
set_option autoImplicit false

/-! ## The counters -/

/-- The counter of the first pass at the label of the line behind `before`. -/
def labelCounter (before : List Line) (line : Line) : Except AssemblyError UInt32 := do
  let layout ← before.foldlM Layout.next {}
  let sought ← line.blame (layout.seek line.statement)
  pure sought.counter

/-- The counter of the second pass at the statement of the line behind `before`. -/
def statementCounter (symbols : SymbolTable) (before : List Line) (line : Line) :
    Except AssemblyError UInt32 := do
  let output ← before.foldlM (Output.next symbols) {}
  match line.statement with
  | some (.origin value) => line.blame (symbols.address value)
  | _ => pure output.counter

theorem labelCounter_le {before : List Line} {line : Line} {first : UInt32}
    (h : labelCounter before line = .ok first) : first.toNat ≤ 65536 := by
  obtain ⟨layout, hlayout, h⟩ := bind_eq_ok.1 h
  obtain ⟨sought, hseek, h⟩ := bind_eq_ok.1 h
  obtain rfl : sought.counter = first := pure_eq_ok.1 h
  exact Layout.counter_le_of_seek (Layout.counter_le_of_pass hlayout) (blame_eq_ok.1 hseek)

def lastOrigin : List Line → Option (List Line × Value)
  | [] => none
  | line :: rest =>
    match lastOrigin rest, line.statement with
    | some (earlier, value), _ => some (line :: earlier, value)
    | none, some (.origin value) => some ([], value)
    | none, _ => none

/-- The last origin of the lines is a shadowed name: it was not yet defined where it stands, where
it reads as a number, and the complete table has another value for it. -/
def Displaced (symbols : SymbolTable) (lines : List Line) : Prop :=
  ∃ earlier value layout, lastOrigin lines = some (earlier, value) ∧
    earlier.foldlM Layout.next {} = .ok layout ∧ layout.symbols.Shadowed symbols value

theorem lastOrigin_concat_origin {before : List Line} {line : Line} {value : Value}
    (h : line.statement = some (.origin value)) :
    lastOrigin (before ++ [line]) = some (before, value) := by
  induction before with
  | nil => simp only [List.nil_append, lastOrigin, h]
  | cons first before ih => simp only [List.cons_append, lastOrigin, ih]

theorem lastOrigin_concat_other {before : List Line} {line : Line}
    (h : ∀ value, line.statement ≠ some (.origin value)) :
    lastOrigin (before ++ [line]) = lastOrigin before := by
  induction before with
  | nil => simp only [List.nil_append, lastOrigin]
  | cons first before ih => simp only [List.cons_append, lastOrigin, ih]

theorem displaced_concat_other {symbols : SymbolTable} {before : List Line} {line : Line}
    (h : ∀ value, line.statement ≠ some (.origin value)) :
    Displaced symbols (before ++ [line]) ↔ Displaced symbols before := by
  unfold Displaced
  rw [lastOrigin_concat_other h]

theorem displaced_concat_origin {symbols : SymbolTable} {before : List Line} {line : Line}
    {value : Value} {layout : Layout} (h : line.statement = some (.origin value))
    (hbefore : before.foldlM Layout.next {} = .ok layout) :
    Displaced symbols (before ++ [line]) ↔ layout.symbols.Shadowed symbols value := by
  unfold Displaced
  rw [lastOrigin_concat_origin h]
  constructor
  · intro h
    obtain ⟨earlier, value', layout', he, hlayout, hshadowed⟩ := h
    cases he
    obtain rfl : layout' = layout := Except.ok.inj (hlayout.symm.trans hbefore)
    exact hshadowed
  · intro hshadowed
    exact ⟨before, value, layout, rfl, hbefore, hshadowed⟩

/-! ## One line in both passes -/

section Step
variable {symbols : SymbolTable} {before : List Line} {line : Line} {layout layout' : Layout}
  {output output' : Output}

theorem statementCounter_other (houtput : before.foldlM (Output.next symbols) {} = .ok output)
    (ho : ∀ value, line.statement ≠ some (.origin value)) :
    statementCounter symbols before line = .ok output.counter := by
  refine bind_eq_ok.2 ⟨output, houtput, ?_⟩
  split
  · rename_i value hv
    exact absurd hv (ho value)
  · rfl

/-- Both passes reach a line with a counter and move it by the extent of the line. -/
theorem counters_of_next (hlayout : before.foldlM Layout.next {} = .ok layout)
    (houtput : before.foldlM (Output.next symbols) {} = .ok output)
    (hfirst : layout.next line = .ok layout') (hsecond : output.next symbols line = .ok output') :
    ∃ first second, labelCounter before line = .ok first ∧
      statementCounter symbols before line = .ok second ∧
      layout'.counter = first + UInt32.ofNat line.extent ∧
      output'.counter = second + UInt32.ofNat line.extent := by
  obtain ⟨sought, marked, hseek, -, -⟩ := Layout.next_eq_ok.1 hfirst
  have hlabel : labelCounter before line = .ok sought.counter :=
    bind_eq_ok.2 ⟨layout, hlayout, bind_eq_ok.2 ⟨sought, blame_eq_ok.2 hseek, rfl⟩⟩
  have hcounter := Layout.counter_of_next hfirst hseek
  cases hs : line.statement with
  | none =>
    rw [Output.next_none hs] at hsecond
    cases hsecond
    refine ⟨sought.counter, output.counter, hlabel, statementCounter_other houtput ?_, hcounter, ?_⟩
    · rw [hs]
      exact nofun
    · rw [Line.extent, hs]
      exact (UInt32.add_zero _).symm
  | some statement =>
    rw [Output.next_some hs] at hsecond
    rcases Output.put_cases hsecond with ⟨value, counter, rfl, haddress, rfl⟩ |
      ⟨ho, data, image, hemit, -, rfl⟩
    · refine ⟨sought.counter, counter, hlabel, bind_eq_ok.2 ⟨output, houtput, ?_⟩, hcounter, ?_⟩
      · rw [hs]
        exact blame_eq_ok.2 haddress
      · rw [Line.extent_some hs]
        exact (UInt32.add_zero _).symm
    · refine ⟨sought.counter, output.counter, hlabel,
        statementCounter_other houtput (line.ne_origin hs ho), hcounter, ?_⟩
      rw [Line.extent_some hs, ← length_of_emit hemit]

theorem counter_eq_iff_of_origin {value : Value} (hs : line.statement = some (.origin value))
    (hext : symbols.Extends layout.symbols) (hfirst : layout.next line = .ok layout')
    (hsecond : output.next symbols line = .ok output') :
    layout'.counter = output'.counter ↔ ¬ layout.symbols.Shadowed symbols value := by
  obtain ⟨sought, marked, hseek, -, -⟩ := Layout.next_eq_ok.1 hfirst
  have hcounter := Layout.counter_of_next hfirst hseek
  rw [Output.next_some hs] at hsecond
  rw [hs] at hseek
  obtain ⟨counter, haddress, rfl⟩ := Layout.seek_origin.1 hseek
  obtain ⟨counter', haddress', rfl⟩ := Output.put_origin.1 hsecond
  rw [Line.extent_some hs] at hcounter
  rw [hcounter.trans (UInt32.add_zero _), ← UInt32.toNat_inj]
  exact SymbolTable.resolve_eq_iff hext (address_eq_ok.1 haddress).1 (address_eq_ok.1 haddress').1

theorem counter_eq_iff_of_other (ho : ∀ value, line.statement ≠ some (.origin value))
    (hlayout : before.foldlM Layout.next {} = .ok layout)
    (houtput : before.foldlM (Output.next symbols) {} = .ok output)
    (hfirst : layout.next line = .ok layout') (hsecond : output.next symbols line = .ok output') :
    layout'.counter = output'.counter ↔ layout.counter = output.counter := by
  obtain ⟨first, second, hlabel, hstatement, hl, ho'⟩ :=
    counters_of_next hlayout houtput hfirst hsecond
  obtain ⟨l, hl', hlabel⟩ := bind_eq_ok.1 hlabel
  obtain rfl : l = layout := Except.ok.inj (hl'.symm.trans hlayout)
  obtain ⟨sought, hseek, hfirst'⟩ := bind_eq_ok.1 hlabel
  rw [blame_eq_ok, Layout.seek_other ho] at hseek
  cases hseek
  cases hfirst'
  rw [statementCounter_other houtput ho, Except.ok.injEq] at hstatement
  rw [hl, ho', hstatement, UInt32.add_left_inj]

end Step

/-! ## Runs over many lines -/

/-- Behind any lines that both passes accept, their counters agree unless the last origin is
displaced: only an origin can bring them together or apart, and it does so whatever they were
before. -/
theorem counter_eq_iff {symbols : SymbolTable} {lines : List Line} {layout : Layout}
    {output : Output} (hlayout : lines.foldlM Layout.next {} = .ok layout)
    (houtput : lines.foldlM (Output.next symbols) {} = .ok output)
    (hext : symbols.Extends layout.symbols) :
    layout.counter = output.counter ↔ ¬ Displaced symbols lines := by
  induction lines using List.reverseRecOn generalizing layout output with
  | nil =>
    cases hlayout
    cases houtput
    refine iff_of_true rfl ?_
    intro h
    obtain ⟨earlier, value, layout, h, -⟩ := h
    cases h
  | append_singleton before line ih =>
    obtain ⟨middle, hmiddle, hfirst⟩ := foldlM_concat_eq_ok.1 hlayout
    obtain ⟨middle', hmiddle', hsecond⟩ := foldlM_concat_eq_ok.1 houtput
    have hext' := hext.trans (Layout.extends_of_next hfirst)
    by_cases ho : ∃ value, line.statement = some (.origin value)
    · obtain ⟨value, hs⟩ := ho
      rw [displaced_concat_origin hs hmiddle]
      exact counter_eq_iff_of_origin hs hext' hfirst hsecond
    · have hother : ∀ value, line.statement ≠ some (.origin value) := fun value hv =>
        ho ⟨value, hv⟩
      rw [displaced_concat_other hother, ← ih hmiddle hmiddle' hext']
      exact counter_eq_iff_of_other hother hmiddle hmiddle' hfirst hsecond

/-! ## True addresses -/

/-- The counter of the second pass is ahead by less than an address space, and the image ends where
the counter once was. -/
structure InStep (layout : Layout) (output : Output) : Prop where
  counter_le : output.counter.toNat ≤ layout.counter.toNat + 65535
  stop_le : ∀ origin, output.image.origin = some origin →
    origin.toNat + output.image.bytes.size ≤ 131071

theorem InStep.bounded {layout : Layout} {output : Output} (h : InStep layout output) :
    output.image.Bounded := by
  intro origin horigin
  have hle := h.stop_le origin horigin
  omega

theorem inStep_of_next {symbols : SymbolTable} {line : Line} {layout layout' : Layout}
    {output output' : Output} (hbounded : line.Bounded) (hle : layout.counter.toNat ≤ 65536)
    (hblank : output.image.origin = none → output.image.bytes = #[])
    (hfirst : layout.next line = .ok layout') (hsecond : output.next symbols line = .ok output')
    (h : InStep layout output) : InStep layout' output' := by
  have hahead := h.counter_le
  have hline : 65536 + line.extent < 4294967296 := hbounded
  obtain ⟨data, hplace, ⟨hother, hlength, hcounter⟩ | ⟨rfl, hlt⟩⟩ := Output.place_of_next hsecond
  · have hfirst' := Layout.counter_of_next hfirst (Layout.seek_other hother)
    have hsize : layout'.counter.toNat = layout.counter.toNat + line.extent := by
      rw [hfirst', toNat_add_ofNat (by omega)]
    have hle' := Layout.counter_le_of_next hle hfirst
    have hsize' : output'.counter.toNat = output.counter.toNat + line.extent := by
      rw [hcounter, toNat_add_ofNat (by omega)]
    refine ⟨by omega, fun origin horigin => ?_⟩
    by_cases hdata : data = []
    · subst hdata
      rw [Image.place_nil, Except.ok.injEq] at hplace
      rw [← hplace] at horigin ⊢
      exact h.stop_le origin horigin
    · rw [h.bounded.size_of_place hblank hdata hplace horigin]
      omega
  · rw [Image.place_nil, Except.ok.injEq] at hplace
    refine ⟨by omega, ?_⟩
    rw [← hplace]
    exact h.stop_le

theorem inStep_of_pass {symbols : SymbolTable} {lines : List Line} {layout : Layout}
    {output : Output} (hbounded : ∀ line ∈ lines, line.Bounded)
    (hlayout : lines.foldlM Layout.next {} = .ok layout)
    (houtput : lines.foldlM (Output.next symbols) {} = .ok output) : InStep layout output := by
  induction lines using List.reverseRecOn generalizing layout output with
  | nil =>
    cases hlayout
    cases houtput
    exact ⟨Nat.zero_le _, nofun⟩
  | append_singleton before line ih =>
    obtain ⟨middle, hmiddle, hfirst⟩ := foldlM_concat_eq_ok.1 hlayout
    obtain ⟨middle', hmiddle', hsecond⟩ := foldlM_concat_eq_ok.1 houtput
    have hsound := Output.sound_of_pass hmiddle' Output.sound_start
    have hbefore := ih (fun l hl => hbounded l (List.mem_append_left _ hl)) hmiddle hmiddle'
    exact inStep_of_next (hbounded line (by simp)) (Layout.counter_le_of_pass hmiddle)
      hsound.image.bytes_of_none hfirst hsecond hbefore

/-! ## Whole sources -/

theorem assemble_eq_ok {source : String} {assembly : Assembly} :
    assemble source = .ok assembly ↔
      ∃ lines layout output, parseSource source.toList = .ok lines ∧
        lines.foldlM Layout.next {} = .ok layout ∧
        lines.foldlM (Output.next layout.symbols) {} = .ok output ∧
        assembly = ⟨(output.image.origin.getD 0).toUInt16, output.image.bytes.toList,
          layout.symbols⟩ := by
  unfold assemble
  rw [bind_eq_ok]
  constructor
  · intro h
    obtain ⟨lines, hlines, h⟩ := h
    obtain ⟨symbols, hsymbols, h⟩ := bind_eq_ok.1 h
    obtain ⟨image, himage, h⟩ := bind_eq_ok.1 h
    obtain ⟨layout, hlayout, hlay⟩ := bind_eq_ok.1 hsymbols
    cases hlay
    obtain ⟨output, houtput, hout⟩ := bind_eq_ok.1 himage
    cases hout
    exact ⟨lines, layout, output, hlines, hlayout, houtput, (pure_eq_ok.1 h).symm⟩
  · intro h
    obtain ⟨lines, layout, output, hlines, hlayout, houtput, rfl⟩ := h
    refine ⟨lines, hlines, bind_eq_ok.2 ⟨layout.symbols, bind_eq_ok.2 ⟨layout, hlayout, rfl⟩, ?_⟩⟩
    exact bind_eq_ok.2 ⟨output.image, bind_eq_ok.2 ⟨output, houtput, rfl⟩, rfl⟩

/-- The final image has the bytes of a line at the counter of its statement. -/
theorem bytes_of_pass {symbols : SymbolTable} {before after : List Line} {line : Line}
    {statement : Statement} {middle output : Output} {second : UInt32}
    (hbefore : before.foldlM (Output.next symbols) {} = .ok middle)
    (hafter : (line :: after).foldlM (Output.next symbols) middle = .ok output)
    (hsecond : statementCounter symbols before line = .ok second)
    (hs : line.statement = some statement) :
    ∃ data, statement.emit symbols = .ok data ∧
      (data ≠ [] → middle.image.Bounded → output.image.Holds second.toNat data) := by
  obtain ⟨later, hnext, hrest⟩ := foldlM_cons_eq_ok.1 hafter
  rw [Output.next_some hs] at hnext
  rcases Output.put_cases hnext with ⟨value, counter, rfl, -, -⟩ |
    ⟨ho, data, image, hemit, hplace, rfl⟩
  · exact ⟨[], rfl, fun h => absurd rfl h⟩
  · refine ⟨data, hemit, fun hdata hbounded => ?_⟩
    rw [statementCounter_other hbefore (line.ne_origin hs ho), Except.ok.injEq] at hsecond
    rw [← hsecond]
    have hsound := Output.sound_of_pass hbefore Output.sound_start
    exact Output.holds_of_pass hrest hdata
      (Image.holds_of_place hbounded hsound.image.bytes_of_none hdata hplace)

/-- In a source that assembles, both passes reach each line with the same counter exactly if the
origin in force is not displaced. Then the bytes of a labelled line lie at its label, provided that
the counters can count the bytes of each line before it. -/
theorem assemble_places_labels {source : String} {assembly : Assembly}
    (h : assemble source = .ok assembly) :
    ∃ lines, parseSource source.toList = .ok lines ∧
      ∀ before line after, lines = before ++ line :: after →
        ∃ first second, labelCounter before line = .ok first ∧
          statementCounter assembly.symbols before line = .ok second ∧
          (first = second ↔ ¬ Displaced assembly.symbols (before ++ [line])) ∧
          ∀ label, line.label = some label →
            assembly.symbols.find? label = some first.toNat ∧
            ∀ statement, line.statement = some statement →
              ∃ data, statement.emit assembly.symbols = .ok data ∧
                (data ≠ [] → first = second → (∀ earlier ∈ before, earlier.Bounded) →
                  assembly.origin.toNat ≤ first.toNat ∧
                  data <+: assembly.bytes.drop (first.toNat - assembly.origin.toNat)) := by
  obtain ⟨lines, layout, output, hlines, hlayout, houtput, rfl⟩ := assemble_eq_ok.1 h
  refine ⟨lines, hlines, ?_⟩
  rintro before line after rfl
  obtain ⟨l, hl, hlrest⟩ := foldlM_append_eq_ok.1 hlayout
  obtain ⟨o, ho, horest⟩ := foldlM_append_eq_ok.1 houtput
  obtain ⟨l', hl', hlafter⟩ := foldlM_cons_eq_ok.1 hlrest
  obtain ⟨o', ho', -⟩ := foldlM_cons_eq_ok.1 horest
  obtain ⟨first, second, hfirst, hsecond, hlsize, hosize⟩ := counters_of_next hl ho hl' ho'
  have hext := Layout.extends_of_pass hlafter
  refine ⟨first, second, hfirst, hsecond, ?_, ?_⟩
  · have hiff := counter_eq_iff (foldlM_concat_eq_ok.2 ⟨l, hl, hl'⟩)
      (foldlM_concat_eq_ok.2 ⟨o, ho, ho'⟩) hext
    rw [← hiff, hlsize, hosize, UInt32.add_left_inj]
  · intro label hlabel
    constructor
    · obtain ⟨l₀, hl₀, hseek⟩ := bind_eq_ok.1 hfirst
      obtain rfl : l₀ = l := Except.ok.inj (hl₀.symm.trans hl)
      obtain ⟨sought, hsought, hcounter⟩ := bind_eq_ok.1 hseek
      rw [← pure_eq_ok.1 hcounter]
      have hentry := Layout.label_of_next hl' (blame_eq_ok.1 hsought) hlabel
      have hmem : line ∈ before ++ line :: after :=
        List.mem_append_right _ List.mem_cons_self
      unfold SymbolTable.find?
      rw [upper_label hlines hmem hlabel]
      exact hext label _ hentry
    · intro statement hs
      obtain ⟨data, hemit, hholds⟩ := bytes_of_pass ho horest hsecond hs
      refine ⟨data, hemit, ?_⟩
      rintro hdata rfl hbounded
      obtain ⟨origin, horigin, hle, hstarts⟩ :=
        hholds hdata (inStep_of_pass hbounded hl ho).bounded
      have hword := (Output.sound_of_pass houtput Output.sound_start).image.toNat_origin
      rw [horigin, Option.getD_some] at hword
      simp only [horigin, Option.getD_some, hword]
      exact ⟨hle, hstarts⟩

/-- A jump over another instruction, back to the line in front of it. -/
theorem assemble_places_labels_loop :
    ∃ assembly, assemble " ORG 2000h\nstart: JMP next\n NOP\nnext: JNZ start" = .ok assembly ∧
      assembly.symbols.find? ['N', 'E', 'X', 'T'] = some 0x2004 ∧
      [0xC2, 0x00, 0x20] <+: assembly.bytes.drop (0x2004 - assembly.origin.toNat) := by
  refine ⟨_, eq_ok_get (by decide +kernel), ?_⟩
  obtain ⟨lines, hlines, hall⟩ := assemble_places_labels (eq_ok_get
    (x := assemble " ORG 2000h\nstart: JMP next\n NOP\nnext: JNZ start") (by decide +kernel))
  have hparse : parseSource " ORG 2000h\nstart: JMP next\n NOP\nnext: JNZ start".toList =
      .ok ([⟨1, none, some (.origin (.number 0x2000))⟩,
        ⟨2, some ['S', 'T', 'A', 'R', 'T'],
          some (.instruction ['J', 'M', 'P'] [['n', 'e', 'x', 't']])⟩,
        ⟨3, none, some (.instruction ['N', 'O', 'P'] [])⟩] ++
        ⟨4, some ['N', 'E', 'X', 'T'],
          some (.instruction ['J', 'N', 'Z'] [['s', 't', 'a', 'r', 't']])⟩ :: []) := by
    decide +kernel
  obtain ⟨first, second, hfirst, hsecond, -, hlabel⟩ :=
    hall _ _ _ (Except.ok.inj (hlines.symm.trans hparse))
  obtain rfl : 0x2004 = first := Except.ok.inj (Eq.trans (by decide +kernel) hfirst)
  obtain rfl : 0x2004 = second := Except.ok.inj (Eq.trans (by decide +kernel) hsecond)
  obtain ⟨hfind, hbytes⟩ := hlabel _ rfl
  obtain ⟨data, hemit, hstarts⟩ := hbytes _ rfl
  obtain rfl : [0xC2, 0x00, 0x20] = data := Except.ok.inj (Eq.trans (by decide +kernel) hemit)
  have haddress : (0x2004 : UInt32).toNat = 0x2004 := rfl
  have hbounded : ∀ earlier ∈ [(⟨1, none, some (.origin (.number 0x2000))⟩ : Line),
      ⟨2, some ['S', 'T', 'A', 'R', 'T'],
        some (.instruction ['J', 'M', 'P'] [['n', 'e', 'x', 't']])⟩,
      ⟨3, none, some (.instruction ['N', 'O', 'P'] [])⟩], earlier.Bounded := by
    unfold Line.Bounded
    decide +kernel
  rw [haddress] at hfind hstarts
  exact ⟨hfind, (hstarts (by decide) rfl hbounded).2⟩

/-- An origin that the first pass reads as a number and the second as a symbol. -/
theorem shadowed_origin_separates_counters :
    ∃ assembly before line after, assemble " ORG FFH\nL: NOP\nFFH EQU 12H" = .ok assembly ∧
      parseSource " ORG FFH\nL: NOP\nFFH EQU 12H".toList = .ok (before ++ line :: after) ∧
      line.label = some ['L'] ∧ labelCounter before line = .ok 255 ∧
      statementCounter assembly.symbols before line = .ok 18 ∧
      assembly.symbols.find? ['L'] = some 255 ∧ assembly.origin = 18 ∧
      assembly.bytes = [0] := by
  refine ⟨(assemble " ORG FFH\nL: NOP\nFFH EQU 12H").toOption.get (by decide +kernel),
    [⟨1, none, some (.origin (.symbol ['F', 'F', 'H']))⟩],
    ⟨2, some ['L'], some (.instruction ['N', 'O', 'P'] [])⟩,
    [⟨3, none, some (.constant ['F', 'F', 'H'] (.number 18))⟩], eq_ok_get _, ?_⟩
  decide +kernel

end Banked8085.Assembler
