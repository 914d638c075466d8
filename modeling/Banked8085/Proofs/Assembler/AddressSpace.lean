import Banked8085.Proofs.Assembler.Chunks
import Banked8085.Proofs.Assembler.Passes
import Banked8085.Proofs.Execution.Fetch

/-! # Programs in the address space

The first pass refuses lines that would go past the address space (`assemble_overrun`), but the bytes
are placed by the second one. The image fits, and a processor loads all of it, unless a line under a
displaced origin carries it past the end (`fits_iff_not_runsPast`, `displaced_of_runsPast`). All this
is said of lines that are `Line.Bounded`, since counters have 32 bits.
-/

namespace Banked8085.Assembler
set_option autoImplicit false

/-- All bytes of the program have addresses. -/
def Assembly.Fits (assembly : Assembly) : Prop :=
  assembly.origin.toNat + assembly.bytes.length ≤ 65536

/-- The line behind `before` has bytes which the second pass places past the address space. -/
def RunsPast (symbols : SymbolTable) (before : List Line) (line : Line) : Prop :=
  ∃ second statement data, statementCounter symbols before line = .ok second ∧
    line.statement = some statement ∧ statement.emit symbols = .ok data ∧ data ≠ [] ∧
    65536 < second.toNat + data.length

/-! ## The bound of the first pass -/

namespace Layout
variable {layout later : Layout}

/-- A label can only be refused because its name is taken. -/
theorem mark_cases (layout : Layout) (label : Option (List Char)) :
    (∃ marked, layout.mark label = .ok marked) ∨
      ∃ name, label = some name ∧ layout.mark label = .error (.symbol (.duplicate name)) := by
  cases label with
  | none => exact .inl ⟨layout, rfl⟩
  | some name =>
    by_cases hmem : name ∈ layout.symbols.entries
    · exact .inr ⟨name, rfl, by simp only [mark, define, SymbolTable.define, if_pos hmem]⟩
    · exact .inl ⟨_, define_eq_ok.2 ⟨_, SymbolTable.define_eq_ok.2 ⟨hmem, rfl⟩, rfl⟩⟩

theorem skip_overrun {statement : Statement} {size : UInt32} (hsize : statement.size = .ok size)
    (hle : layout.counter.toNat ≤ 65536) (hextent : 65536 + statement.extent < 4294967296)
    (hlt : 65536 < layout.counter.toNat + statement.extent) :
    layout.skip (some statement) = .error .overrun := by
  have hc : ∀ name value, statement ≠ .constant name value := by
    rintro name value rfl
    have hnone : (Statement.constant name value).extent = 0 := rfl
    omega
  have hpast : 65536 < layout.counter + size := by
    rw [size_eq_ofNat hsize, UInt32.lt_iff_toNat_lt, toNat_add_ofNat (by omega)]
    exact hlt
  rw [skip_other hc, hsize]
  show (if 65536 < layout.counter + size then _ else _) = _
  rw [if_pos hpast]
  rfl

end Layout

/-- A statement that takes bytes is known. -/
theorem exists_size_of_extent {statement : Statement} (h : statement.extent ≠ 0) :
    ∃ size, statement.size = .ok size := by
  cases statement with
  | instruction mnemonic operands =>
    cases hform : form? mnemonic with
    | none =>
      rw [Statement.extent, hform] at h
      exact absurd rfl h
    | some form => exact ⟨_, bind_eq_ok.2 ⟨form, knownForm_eq_ok.2 hform, rfl⟩⟩
  | bytes items => exact ⟨_, rfl⟩
  | words values => exact ⟨_, rfl⟩
  | origin address => exact ⟨_, rfl⟩
  | constant name value => exact ⟨_, rfl⟩
  | finish => exact ⟨_, rfl⟩

variable {lines before after : List Line} {line : Line}

theorem assemble_error_of_next {source : String} {layout : Layout} {e : AssemblyError}
    (hlines : parseSource source.toList = .ok (before ++ line :: after))
    (hlayout : before.foldlM Layout.next {} = .ok layout) (hnext : layout.next line = .error e) :
    assemble source = .error e := by
  have hlay : layOut (before ++ line :: after) = .error e := by
    unfold layOut
    rw [foldlM_eq_error hlayout hnext]
    rfl
  unfold assemble
  rw [hlines]
  show (layOut _ >>= _) = _
  rw [hlay]
  rfl

/-- A source is refused at the line at which the first pass would leave the address space. -/
theorem assemble_overrun {source : String} {first : UInt32}
    (hlines : parseSource source.toList = .ok (before ++ line :: after)) (hbounded : line.Bounded)
    (hfirst : labelCounter before line = .ok first) (hlt : 65536 < first.toNat + line.extent) :
    ∃ fault, assemble source = .error ⟨line.number, fault⟩ ∧
      (fault = .overrun ∨ ∃ name, line.label = some name ∧ fault = .symbol (.duplicate name)) := by
  obtain ⟨layout, hlayout, h⟩ := bind_eq_ok.1 hfirst
  obtain ⟨sought, hseek, h⟩ := bind_eq_ok.1 h
  obtain rfl : sought.counter = first := pure_eq_ok.1 h
  rw [blame_eq_ok] at hseek
  have hle := Layout.counter_le_of_seek (Layout.counter_le_of_pass hlayout) hseek
  obtain ⟨statement, hs⟩ : ∃ statement, line.statement = some statement := by
    rw [← Option.ne_none_iff_exists']
    intro hnone
    rw [Line.extent, hnone] at hlt
    exact absurd hlt (Nat.not_lt.2 hle)
  rw [Line.Bounded, Line.extent_some hs] at hbounded
  rw [Line.extent_some hs] at hlt
  obtain ⟨size, hsize⟩ : ∃ size, statement.size = .ok size := exists_size_of_extent (by omega)
  have herror : ∀ fault, (do
      let marked ← sought.mark line.label
      marked.skip line.statement) = .error fault →
      assemble source = .error ⟨line.number, fault⟩ := by
    intro fault h
    refine assemble_error_of_next hlines hlayout ?_
    unfold Layout.next
    rw [hseek]
    show line.blame (do
      let marked ← sought.mark line.label
      marked.skip line.statement) = _
    rw [h]
    rfl
  rcases sought.mark_cases line.label with ⟨marked, hmark⟩ | ⟨name, hname, hmark⟩
  · have hcounter := (Layout.of_mark hmark).1
    refine ⟨.overrun, herror _ ?_, .inl rfl⟩
    rw [hmark, hs]
    exact Layout.skip_overrun hsize (hcounter ▸ hle) hbounded (hcounter ▸ hlt)
  · refine ⟨.symbol (.duplicate name), herror _ ?_, .inr ⟨name, hname, rfl⟩⟩
    rw [hmark]
    rfl

/-! ## The bytes of the second pass -/

section SecondPass
variable {symbols : SymbolTable} {output final : Output} {chunks : List Chunk} {chunk : Chunk}

/-- Each chunk has the bytes of a line and the counter with which the second pass reaches it. -/
theorem line_of_chunk (hpass : lines.foldlM (Output.next symbols) output = .ok final)
    (hchunks : chunksFrom symbols output.counter lines = .ok chunks) (hmem : chunk ∈ chunks) :
    ∃ before line after statement middle, lines = before ++ line :: after ∧
      before.foldlM (Output.next symbols) output = .ok middle ∧ middle.counter = chunk.start ∧
      line.statement = some statement ∧ (∀ value, statement ≠ .origin value) ∧
      statement.emit symbols = .ok chunk.data := by
  induction lines generalizing output chunks with
  | nil =>
    cases hchunks
    cases hmem
  | cons line rest ih =>
    obtain ⟨middle, hnext, hrest⟩ := foldlM_cons_eq_ok.1 hpass
    obtain ⟨data, next, later, hemit, hlater, rfl⟩ := chunksFrom_cons.1 hchunks
    have hcounter : middle.counter = next := by
      obtain ⟨data', hemit', -⟩ := Output.next_eq_ok.1 hnext
      rw [hemit, Except.ok.injEq, Prod.mk.injEq] at hemit'
      exact hemit'.2.symm
    subst hcounter
    have hmem' : (data ≠ [] ∧ chunk = ⟨output.counter, data⟩) ∨ chunk ∈ later := by
      by_cases hdata : data = []
      · rw [if_pos hdata] at hmem
        exact .inr hmem
      · rw [if_neg hdata] at hmem
        rcases List.mem_cons.1 hmem with hfirst | hlater
        · exact .inl ⟨hdata, hfirst⟩
        · exact .inr hlater
    rcases hmem' with ⟨hdata, rfl⟩ | hmem'
    · cases hs : line.statement with
      | none =>
        rw [Line.emit_none hs, Except.ok.injEq, Prod.mk.injEq] at hemit
        exact absurd hemit.1.symm hdata
      | some statement =>
        rcases statement.origin_or_other with ⟨value, rfl⟩ | hother
        · exact absurd ((Line.emit_origin hs).1 hemit).1 hdata
        · exact ⟨[], line, rest, statement, output, rfl, rfl, rfl, hs, hother,
            ((Line.emit_other hs hother).1 hemit).1⟩
    · obtain ⟨before, line', after, statement, m, rfl, hbefore, hm⟩ := ih hrest hlater hmem'
      exact ⟨line :: before, line', after, statement, m, rfl,
        foldlM_cons_eq_ok.2 ⟨middle, hnext, hbefore⟩, hm⟩

/-- A line that runs past the address space stands under a displaced origin: where the two passes
agree, the first one has checked the same counter. -/
theorem displaced_of_runsPast {layout : Layout}
    (hlayout : (before ++ line :: after).foldlM Layout.next {} = .ok layout)
    (hpass : (before ++ line :: after).foldlM (Output.next layout.symbols) {} = .ok final)
    (hbounded : line.Bounded) (h : RunsPast layout.symbols before line) :
    Displaced layout.symbols (before ++ [line]) := by
  obtain ⟨second, statement, data, hsecond, hs, hemit, hdata, hlt⟩ := h
  obtain ⟨l, hl, hrest⟩ := foldlM_append_eq_ok.1 hlayout
  obtain ⟨l', hl', hafter⟩ := foldlM_cons_eq_ok.1 hrest
  obtain ⟨o, ho, hrest'⟩ := foldlM_append_eq_ok.1 hpass
  obtain ⟨o', ho', -⟩ := foldlM_cons_eq_ok.1 hrest'
  have hlayout' := foldlM_concat_eq_ok.2 ⟨l, hl, hl'⟩
  have hpass' := foldlM_concat_eq_ok.2 ⟨o, ho, ho'⟩
  by_contra hnot
  have hcounter := (counter_eq_iff hlayout' hpass' (Layout.extends_of_pass hafter)).2 hnot
  obtain ⟨first, second', hlabel, hsecond', hfirst, hnext⟩ := counters_of_next hl ho hl' ho'
  obtain rfl : second = second' := Except.ok.inj (hsecond.symm.trans hsecond')
  rw [hfirst, hnext, UInt32.add_left_inj] at hcounter
  have hle := Layout.counter_le_of_pass hlayout'
  have hfirst' := labelCounter_le hlabel
  have hline : 65536 + line.extent < 4294967296 := hbounded
  rw [hfirst, toNat_add_ofNat (by omega), Line.extent_some hs, ← length_of_emit hemit,
    hcounter] at hle
  omega

/-- The second pass does not count beyond two address spaces. -/
theorem chunk_bounded {layout : Layout} (hbounded : ∀ line ∈ lines, line.Bounded)
    (hlayout : lines.foldlM Layout.next {} = .ok layout)
    (hpass : lines.foldlM (Output.next symbols) {} = .ok final)
    (hchunks : chunksFrom symbols 0 lines = .ok chunks) (hmem : chunk ∈ chunks) :
    chunk.Bounded := by
  obtain ⟨before, line, after, statement, middle, rfl, hbefore, hcounter, hs, hother, hemit⟩ :=
    line_of_chunk hpass hchunks hmem
  obtain ⟨l, hl, hrest⟩ := foldlM_append_eq_ok.1 hlayout
  obtain ⟨l', hl', -⟩ := foldlM_cons_eq_ok.1 hrest
  have hstep := inStep_of_pass (fun e he => hbounded e (List.mem_append_left _ he)) hl hbefore
  have hahead := hstep.counter_le
  have hle := Layout.counter_le_of_pass hl
  have hline : 65536 + line.extent < 4294967296 := hbounded line (by simp)
  have hnext := Layout.counter_le_of_next hle hl'
  rw [Layout.counter_of_next hl' (Layout.seek_other (line.ne_origin hs hother)),
    toNat_add_ofNat (by omega), Line.extent_some hs, ← length_of_emit hemit] at hnext
  rw [Chunk.Bounded, Chunk.stop, ← hcounter]
  omega

end SecondPass

/-! ## Whole sources -/

/-- A program fits exactly if none of its lines runs past the address space. -/
theorem fits_iff_not_runsPast {source : String} {assembly : Assembly}
    (hlines : parseSource source.toList = .ok lines) (hbounded : ∀ line ∈ lines, line.Bounded)
    (h : assemble source = .ok assembly) :
    assembly.Fits ↔ ∀ before line after, lines = before ++ line :: after →
      ¬ RunsPast assembly.symbols before line := by
  obtain ⟨lines', layout, output, hlines', hlayout, houtput, rfl⟩ := assemble_eq_ok.1 h
  obtain rfl : lines = lines' := Except.ok.inj (hlines.symm.trans hlines')
  have himage : emitLines layout.symbols lines = .ok output.image :=
    bind_eq_ok.2 ⟨output, houtput, rfl⟩
  obtain ⟨chunks, hchunks, -⟩ := emitLines_eq_ok.1 himage
  have hshows := shows_of_emitLines himage hchunks fun chunk hchunk =>
    chunk_bounded hbounded hlayout houtput hchunks hchunk
  have horigin := (Output.sound_of_pass houtput Output.sound_start).image.toNat_origin
  unfold Assembly.Fits
  simp only [horigin, Array.length_toList]
  constructor
  · rintro hfits before line after rfl ⟨second, statement, data, hsecond, hs, hemit, hdata, hlt⟩
    obtain ⟨middle, hbefore, hafter⟩ := foldlM_append_eq_ok.1 houtput
    obtain ⟨earlier, hearlier, -⟩ := foldlM_append_eq_ok.1 hlayout
    have hstep := inStep_of_pass (fun e he => hbounded e (List.mem_append_left _ he)) hearlier
      hbefore
    obtain ⟨data', hemit', hholds⟩ := bytes_of_pass hbefore hafter hsecond hs
    obtain rfl : data = data' := Except.ok.inj (hemit.symm.trans hemit')
    have hdata' := hholds hdata hstep.bounded
    obtain ⟨origin, ho, -⟩ := id hdata'
    have hle := hdata'.stop_le hdata ho
    rw [ho, Option.getD_some] at hfits
    omega
  · intro hall
    by_contra hnot
    cases hlast : chunks.getLast? with
    | none =>
      have hnone := hshows.origin_eq_none.2 (List.getLast?_eq_none_iff.1 hlast)
      rw [hshows.blank hnone, hnone] at hnot
      exact hnot (by simp)
    | some last =>
      have hstop := hshows.stop
      rw [hlast] at hstop
      obtain ⟨origin, ho, hend⟩ := Option.map_eq_some_iff.1 hstop
      rw [ho, Option.getD_some] at hnot
      have hmem := List.mem_of_getLast? hlast
      obtain ⟨before, line, after, statement, middle, hsplit, hbefore, hcounter, hs, hother,
        hemit⟩ := line_of_chunk houtput hchunks hmem
      have hsecond := statementCounter_other hbefore (line.ne_origin hs hother)
      refine hall before line after hsplit ⟨middle.counter, statement, last.data, hsecond, hs,
        hemit, hshows.data_ne_nil last hmem, ?_⟩
      have hchunk : last.stop = middle.counter.toNat + last.data.length := by
        rw [hcounter]
        rfl
      omega

/-- A source whose code would leave the address space in the first pass is refused at that line.
What assembles fits unless the second pass carries a line under a displaced origin past the end,
and a processor loads all bytes of a program that fits, each at its address. Lines count as long as
counters of 32 bits can count their bytes. -/
theorem assembled_fits_unless_displaced {source : String} {lines : List Line}
    (hlines : parseSource source.toList = .ok lines) :
    (∀ before line after first, lines = before ++ line :: after → line.Bounded →
      labelCounter before line = .ok first → 65536 < first.toNat + line.extent →
      ∃ fault, assemble source = .error ⟨line.number, fault⟩ ∧
        (fault = .overrun ∨ ∃ name, line.label = some name ∧ fault = .symbol (.duplicate name))) ∧
    ∀ assembly, assemble source = .ok assembly →
      ((∀ line ∈ lines, line.Bounded) →
        (assembly.Fits ↔ ¬ ∃ before line after, lines = before ++ line :: after ∧
          RunsPast assembly.symbols before line ∧
          Displaced assembly.symbols (before ++ [line]))) ∧
      (assembly.Fits → ∀ (σ : Type) (cpu : Cpu σ),
        (cpu.loadProgram assembly.bytes assembly.origin).1 = assembly.bytes.length ∧
          (cpu.loadProgram assembly.bytes assembly.origin).2.memory.Holds assembly.origin
            assembly.bytes) := by
  constructor
  · rintro before line after first rfl hbounded hfirst hlt
    exact assemble_overrun hlines hbounded hfirst hlt
  · intro assembly h
    refine ⟨?_, ?_⟩
    · intro hbounded
      rw [fits_iff_not_runsPast hlines hbounded h]
      constructor
      · intro hall hexists
        obtain ⟨before, line, after, hsplit, hpast, -⟩ := hexists
        exact hall before line after hsplit hpast
      · intro hnone before line after hsplit hpast
        refine hnone ⟨before, line, after, hsplit, hpast, ?_⟩
        obtain ⟨lines', layout, output, hlines', hlayout, houtput, rfl⟩ := assemble_eq_ok.1 h
        obtain rfl : lines = lines' := Except.ok.inj (hlines.symm.trans hlines')
        subst hsplit
        exact displaced_of_runsPast hlayout houtput (hbounded line (by simp)) hpast
    · intro hfits σ cpu
      have hle : assembly.bytes.length ≤ 65536 - assembly.origin.toNat := by
        have hsum : assembly.origin.toNat + assembly.bytes.length ≤ 65536 := hfits
        omega
      exact ⟨Nat.min_eq_left hle, Memory.holds_load hfits⟩

/-- A word in the last two cells is loaded whole. One address further up it is refused. -/
theorem assembled_fits_unless_displaced_top :
    (∃ assembly, assemble " ORG 0FFFEh\n DW 1234h" = .ok assembly ∧
      ∀ cpu : Cpu Unit,
        (cpu.loadProgram assembly.bytes assembly.origin).2.memory.read 0xFFFF = 0x12) ∧
    ∃ fault, assemble " ORG 0FFFFh\n DW 1234h" = .error ⟨2, fault⟩ := by
  constructor
  · have hlines : parseSource " ORG 0FFFEh\n DW 1234h".toList = .ok
        [⟨1, none, some (.origin (.number 0xFFFE))⟩,
          ⟨2, none, some (.words [.number 0x1234])⟩] := by
      decide +kernel
    obtain ⟨assembly, h, horigin, hbytes⟩ : ∃ assembly,
        assemble " ORG 0FFFEh\n DW 1234h" = .ok assembly ∧ assembly.origin = 0xFFFE ∧
          assembly.bytes = [0x34, 0x12] := by
      refine ⟨_, eq_ok_get (by decide +kernel), ?_⟩
      decide +kernel
    have hfits : assembly.Fits := by
      unfold Assembly.Fits
      rw [horigin, hbytes]
      decide
    refine ⟨assembly, h, fun cpu => ?_⟩
    obtain ⟨-, hholds⟩ := ((assembled_fits_unless_displaced hlines).2 assembly h).2 hfits Unit cpu
    have hlast := hholds 1 (by rw [hbytes]; decide)
    simp only [horigin, hbytes] at hlast ⊢
    exact hlast
  · have hlines : parseSource " ORG 0FFFFh\n DW 1234h".toList = .ok
        [⟨1, none, some (.origin (.number 0xFFFF))⟩,
          ⟨2, none, some (.words [.number 0x1234])⟩] := by
      decide +kernel
    obtain ⟨fault, herror, -⟩ := (assembled_fits_unless_displaced hlines).1
      [⟨1, none, some (.origin (.number 0xFFFF))⟩] ⟨2, none, some (.words [.number 0x1234])⟩ []
      0xFFFF rfl (by unfold Line.Bounded; decide) rfl (by decide)
    exact ⟨fault, herror⟩

/-- An origin that the first pass reads as 255 and the second as 65535: the second byte of the word
has no address, and a loader drops it. -/
theorem displaced_origin_runs_past :
    ∃ assembly, assemble " ORG FFH\n DW 1234H\nFFH EQU 0FFFFH" = .ok assembly ∧
      assembly.origin = 0xFFFF ∧ assembly.bytes = [0x34, 0x12] ∧
      ∀ cpu : Cpu Unit, (cpu.loadProgram assembly.bytes assembly.origin).1 = 1 := by
  obtain ⟨assembly, h, horigin, hbytes⟩ : ∃ assembly,
      assemble " ORG FFH\n DW 1234H\nFFH EQU 0FFFFH" = .ok assembly ∧
        assembly.origin = 0xFFFF ∧ assembly.bytes = [0x34, 0x12] := by
    refine ⟨_, eq_ok_get (by decide +kernel), ?_⟩
    decide +kernel
  refine ⟨assembly, h, horigin, hbytes, fun cpu => ?_⟩
  rw [horigin, hbytes]
  rfl

end Banked8085.Assembler
