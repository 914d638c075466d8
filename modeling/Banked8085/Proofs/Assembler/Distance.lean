import Banked8085.Proofs.Assembler.Passes

/-! # Distances between labels

The first pass moves its counter by the sizes of the statements, before any of their bytes are
known. `Line.Emits` says which bytes the second pass makes of a line. Over lines without an origin
the counter of the first pass moves by just the number of these bytes (`Layout.counter_of_pass`), so
two labels are as far apart as the bytes between them are many (`labels_measure_bytes`). As the
counter has 32 bits, the lines in between are `Line.Bounded`.
-/

namespace Banked8085.Assembler
set_option autoImplicit false

/-- With these symbols the line has these bytes; a line without a statement has none. -/
def Line.Emits (symbols : SymbolTable) (line : Line) (data : List Byte) : Prop :=
  match line.statement with
  | none => data = []
  | some statement => statement.emit symbols = .ok data

section Lines
variable {symbols : SymbolTable} {line : Line} {data : List Byte}

theorem Line.emits_none (h : line.statement = none) : line.Emits symbols data ↔ data = [] := by
  rw [Emits, h]

theorem Line.emits_some {statement : Statement} (h : line.statement = some statement) :
    line.Emits symbols data ↔ statement.emit symbols = .ok data := by
  rw [Emits, h]

theorem Line.Emits.length_eq (h : line.Emits symbols data) : data.length = line.extent := by
  cases hs : line.statement with
  | none =>
    rw [(emits_none hs).1 h, extent, hs]
    rfl
  | some statement => rw [length_of_emit ((emits_some hs).1 h), extent_some hs]

end Lines

/-! ## The second pass -/

namespace Output
variable {symbols : SymbolTable} {output later : Output}

theorem exists_emits_of_next {line : Line} (h : output.next symbols line = .ok later) :
    ∃ data, line.Emits symbols data := by
  cases hs : line.statement with
  | none => exact ⟨[], (Line.emits_none hs).2 rfl⟩
  | some statement =>
    rw [next_some hs] at h
    rcases put_cases h with ⟨value, counter, rfl, -, -⟩ | ⟨-, data, image, hemit, -, -⟩
    · exact ⟨[], (Line.emits_some hs).2 rfl⟩
    · exact ⟨data, (Line.emits_some hs).2 hemit⟩

/-- Each line that the second pass has gone over has its bytes. -/
theorem exists_emits_of_pass {lines : List Line}
    (h : lines.foldlM (next symbols) output = .ok later) :
    ∃ chunks, List.Forall₂ (Line.Emits symbols) lines chunks := by
  induction lines generalizing output with
  | nil => exact ⟨[], .nil⟩
  | cons line rest ih =>
    obtain ⟨middle, hnext, hrest⟩ := foldlM_cons_eq_ok.1 h
    obtain ⟨data, hdata⟩ := exists_emits_of_next hnext
    obtain ⟨chunks, hchunks⟩ := ih hrest
    exact ⟨data :: chunks, .cons hdata hchunks⟩

end Output

/-! ## The first pass -/

namespace Layout
variable {layout later sought : Layout} {symbols : SymbolTable}

/-- From its label on, a line takes as many addresses as it has bytes. -/
theorem toNat_counter_of_next {line : Line} {data : List Byte}
    (hle : layout.counter.toNat ≤ 65536) (hbounded : line.Bounded)
    (h : layout.next line = .ok later) (hseek : layout.seek line.statement = .ok sought)
    (hdata : line.Emits symbols data) :
    later.counter.toNat = sought.counter.toNat + data.length := by
  have hsought := counter_le_of_seek hle hseek
  have hline : 65536 + line.extent < 4294967296 := hbounded
  rw [counter_of_next h hseek, toNat_add_ofNat (by omega), hdata.length_eq]

/-- Lines without an origin take as many addresses as they have bytes. -/
theorem toNat_counter_of_pass {lines : List Line} {chunks : List (List Byte)}
    (hle : layout.counter.toNat ≤ 65536) (hbounded : ∀ line ∈ lines, line.Bounded)
    (h : lines.foldlM next layout = .ok later)
    (hother : ∀ line ∈ lines, ∀ value, line.statement ≠ some (.origin value))
    (hchunks : List.Forall₂ (Line.Emits symbols) lines chunks) :
    later.counter.toNat = layout.counter.toNat + chunks.flatten.length := by
  induction hchunks generalizing layout with
  | nil =>
    cases h
    rfl
  | @cons line data rest chunks hdata _ ih =>
    obtain ⟨middle, hnext, hrest⟩ := foldlM_cons_eq_ok.1 h
    obtain ⟨hline, hlines⟩ := List.forall_mem_cons.1 hother
    obtain ⟨hsmall, hmore⟩ := List.forall_mem_cons.1 hbounded
    rw [ih (counter_le_of_next hle hnext) hmore hrest hlines,
      toNat_counter_of_next hle hsmall hnext (seek_other hline) hdata, List.flatten_cons,
      List.length_append, Nat.add_assoc]

/-- In the end, a label stands for the counter at its line. -/
theorem find?_of_pass {source : List Char} {lines after : List Line} {line : Line}
    {label : List Char} {final : Layout} (hlines : parseSource source = .ok lines)
    (hmem : line ∈ lines) (hlabel : line.label = some label) (h : layout.next line = .ok later)
    (hseek : layout.seek line.statement = .ok sought)
    (hafter : after.foldlM next later = .ok final) :
    final.symbols.find? label = some sought.counter.toNat := by
  rw [SymbolTable.find?, upper_label hlines hmem hlabel]
  exact extends_of_pass hafter label _ (label_of_next h hseek hlabel)

end Layout

/-! ## Whole sources -/

/-- The first pass counts for each statement as many bytes as the second one makes of it, whatever
symbols it knows, as long as 32 bits can count them. In a source that assembles, the values of two
labels therefore differ by the number of bytes of the lines from the first label up to the second,
if no origin is in between. -/
theorem labels_measure_bytes :
    (∀ (symbols : SymbolTable) (statement : Statement) (data : List Byte),
      statement.emit symbols = .ok data → data.length < 4294967296 →
        ∃ size, statement.size = .ok size ∧ size.toNat = data.length) ∧
    ∀ (source : String) (assembly : Assembly), assemble source = .ok assembly →
      ∃ lines, parseSource source.toList = .ok lines ∧
        ∀ before first between last after,
          lines = before ++ first :: (between ++ last :: after) →
          (∀ line ∈ between ++ [last], ∀ value, line.statement ≠ some (.origin value)) →
          (∀ line ∈ first :: between, line.Bounded) →
          ∀ start stop, first.label = some start → last.label = some stop →
            ∃ value chunks,
              List.Forall₂ (Line.Emits assembly.symbols) (first :: between) chunks ∧
              assembly.symbols.find? start = some value ∧
              assembly.symbols.find? stop = some (value + chunks.flatten.length) := by
  constructor
  · intro symbols statement data hemit hlt
    exact ⟨_, size_of_emit hemit, by rw [UInt32.toNat_ofNat', Nat.mod_eq_of_lt hlt]⟩
  · intro source assembly h
    obtain ⟨lines, final, output, hlines, hlayout, houtput, rfl⟩ := assemble_eq_ok.1 h
    refine ⟨lines, hlines, ?_⟩
    rintro before first between last after rfl hother hbounded start stop hstart hstop
    obtain ⟨layout, hbefore, hfrom⟩ := foldlM_append_eq_ok.1 hlayout
    obtain ⟨layout', hfirst, hrest⟩ := foldlM_cons_eq_ok.1 hfrom
    obtain ⟨middle, hbetween, hto⟩ := foldlM_append_eq_ok.1 hrest
    obtain ⟨middle', hlast, hafter⟩ := foldlM_cons_eq_ok.1 hto
    obtain ⟨sought, -, hseek, -, -⟩ := Layout.next_eq_ok.1 hfirst
    have hseekLast : middle.seek last.statement = .ok middle :=
      Layout.seek_other (hother last (by simp))
    obtain ⟨output', -, houtput'⟩ := foldlM_append_eq_ok.1 houtput
    rw [← List.cons_append] at houtput'
    obtain ⟨output'', hfirst', -⟩ := foldlM_append_eq_ok.1 houtput'
    obtain ⟨chunks, hchunks⟩ := Output.exists_emits_of_pass hfirst'
    refine ⟨sought.counter.toNat, chunks, hchunks, ?_, ?_⟩
    · exact Layout.find?_of_pass hlines (by simp) hstart hfirst hseek hrest
    · obtain ⟨hsmall, hsmalls⟩ := List.forall_mem_cons.1 hbounded
      have hle := Layout.counter_le_of_pass hbefore
      cases hchunks with
      | @cons _ data _ rest hdata hmore =>
        have hother' : ∀ line ∈ between, ∀ value, line.statement ≠ some (.origin value) :=
          fun line hline => hother line (List.mem_append_left _ hline)
        have hcount := Layout.toNat_counter_of_pass (Layout.counter_le_of_next hle hfirst) hsmalls
          hbetween hother' hmore
        rw [Layout.toNat_counter_of_next hle hsmall hfirst hseek hdata] at hcount
        rw [Layout.find?_of_pass hlines (by simp) hstop hlast hseekLast hafter, hcount,
          List.flatten_cons, List.length_append, Nat.add_assoc]

/-- Four bytes stand between two labels. A constant and a line with only a label take none. -/
theorem labels_measure_bytes_four :
    ∃ assembly chunks, assemble "p: DB 'hi'\nk EQU 5\nr:\n DW k\nq: RET" = .ok assembly ∧
      List.Forall₂ (Line.Emits assembly.symbols)
        [⟨1, some ['P'], some (.bytes [.text [0x68, 0x69]])⟩,
          ⟨2, none, some (.constant ['K'] (.number 5))⟩,
          ⟨3, some ['R'], none⟩,
          ⟨4, none, some (.words [.symbol ['K']])⟩] chunks ∧
      assembly.symbols.find? ['P'] = some 0 ∧
      assembly.symbols.find? ['Q'] = some (0 + chunks.flatten.length) ∧
      chunks.flatten.length = 4 := by
  have hsource := eq_ok_get (x := assemble "p: DB 'hi'\nk EQU 5\nr:\n DW k\nq: RET")
    (by decide +kernel)
  obtain ⟨lines, hlines, hall⟩ := labels_measure_bytes.2 _ _ hsource
  have hparse : parseSource "p: DB 'hi'\nk EQU 5\nr:\n DW k\nq: RET".toList =
      .ok ([] ++ ⟨1, some ['P'], some (.bytes [.text [0x68, 0x69]])⟩ ::
        ([⟨2, none, some (.constant ['K'] (.number 5))⟩,
          ⟨3, some ['R'], none⟩,
          ⟨4, none, some (.words [.symbol ['K']])⟩] ++
        ⟨5, some ['Q'], some (.instruction ['R', 'E', 'T'] [])⟩ :: [])) := by
    decide +kernel
  have hbounded : ∀ line ∈ (⟨1, some ['P'], some (.bytes [.text [0x68, 0x69]])⟩ : Line) ::
      [⟨2, none, some (.constant ['K'] (.number 5))⟩, ⟨3, some ['R'], none⟩,
        ⟨4, none, some (.words [.symbol ['K']])⟩], line.Bounded := by
    unfold Line.Bounded
    decide
  obtain ⟨value, chunks, hchunks, hstart, hstop⟩ := hall _ _ _ _ _
    (Except.ok.inj (hlines.symm.trans hparse)) (by simp) hbounded _ _ rfl rfl
  obtain rfl : 0 = value := Option.some.inj (Eq.trans (by decide +kernel) hstart)
  have htotal : 4 = 0 + chunks.flatten.length :=
    Option.some.inj (Eq.trans (by decide +kernel) hstop)
  exact ⟨_, chunks, hsource, hchunks, hstart, hstop, by omega⟩

end Banked8085.Assembler
