import Banked8085.Proofs.Assembler.Passes
import Banked8085.Proofs.Text.Quotation

/-! # The line of an error

An error that stops the reading of a source or the first pass over it is settled by the lines up to
the one it names, and no line behind the first `END` has any influence (`upToEnd`):
`parseLines_error_of_take`, `layOut_error_of_take`, `parseLines_of_end`. For whole sources see
`errors_are_local`.
-/

namespace Banked8085
set_option autoImplicit false

/-! ## Texts -/

/-- A text that is continued behind a line feed: its last line is complete, and the lines of the
continuation follow. -/
theorem exists_lines_append (head tail : List Char) :
    ∃ before reversed, lines head = before ++ (if reversed = [] then [] else [reversed.reverse]) ∧
      lines (head ++ '\n' :: tail) = before ++ Lines.finish reversed :: lines tail := by
  suffices h : ∀ start, ∃ before reversed,
      Lines.after start head = before ++ (if reversed = [] then [] else [reversed.reverse]) ∧
        Lines.after start (head ++ '\n' :: tail) =
          before ++ Lines.finish reversed :: lines tail from h []
  intro start
  induction head generalizing start with
  | nil => exact ⟨[], start, rfl, by rw [List.nil_append, Lines.after, if_pos rfl]; rfl⟩
  | cons c head ih =>
    rw [List.cons_append, Lines.after, Lines.after]
    by_cases hc : c = '\n'
    · obtain ⟨before, reversed, hhead, hall⟩ := ih []
      refine ⟨Lines.finish start :: before, reversed, ?_, ?_⟩
      · rw [if_pos hc, hhead, List.cons_append]
      · rw [if_pos hc, hall, List.cons_append]
    · obtain ⟨before, reversed, hhead, hall⟩ := ih (c :: start)
      refine ⟨before, reversed, ?_, ?_⟩
      · rw [if_neg hc, hhead]
      · rw [if_neg hc, hall]

namespace Assembler

/-! ## One line -/

theorem trim_withoutComment_append {right : List Char} (h : Blanks right) (text : List Char) :
    trim (withoutComment (text ++ right)) = trim (withoutComment text) := by
  have hcomment : ';' ∉ right := Quoted.not_mem_of_blanks (by decide) h
  unfold withoutComment
  cases hcut : Quoted.cut ';' text with
  | none =>
    have hnone : Quoted.cut ';' (text ++ right) = none := by
      rw [Quoted.cut_eq_none_iff, Quoted.outside_append, List.mem_append, not_or]
      exact ⟨Quoted.cut_eq_none_iff.1 hcut, fun hmem => hcomment (Quoted.outside_subset hmem)⟩
    rw [hnone]
    simpa using trim_pad blanks_nil h text
  | some parts =>
    obtain ⟨before, after⟩ := parts
    obtain ⟨rfl, hnot, hclosed⟩ := Quoted.cut_eq_some_iff.1 hcut
    rw [List.append_assoc, List.cons_append, Quoted.cut_append_cons hnot hclosed]

theorem parse_append_blanks {right : List Char} (h : Blanks right) (number : Nat)
    (text : List Char) : Line.parse number (text ++ right) = Line.parse number text := by
  rw [Line.parse, trim_withoutComment_append h]
  rfl

theorem parse_finish (number : Nat) (reversed : List Char) :
    Line.parse number (Lines.finish reversed) = Line.parse number reversed.reverse := by
  unfold Lines.finish
  split
  · rw [List.reverse_cons]
    exact (parse_append_blanks (by decide) number _).symm
  · rfl

/-- The number of a line has no influence on what is read there. -/
theorem parse_eq_map (number other : Nat) (text : List Char) :
    Line.parse number text =
      (Line.parse other text).map fun line => { line with number := number } := by
  unfold Line.parse
  cases splitLabel (trim (withoutComment text)) with
  | mk label rest =>
    by_cases hempty : rest.isEmpty
    · simp only [hempty, if_true]
      rfl
    · simp only [hempty]
      cases parseStatement label rest <;> rfl

theorem number_of_parse {number : Nat} {text : List Char} {line : Line}
    (h : Line.parse number text = .ok line) : line.number = number := by
  rw [parse_eq_map number number] at h
  cases hparse : Line.parse number text with
  | error cause =>
    rw [hparse] at h
    cases h
  | ok parsed =>
    rw [hparse] at h
    cases h
    rfl

/-- An `END` statement stands on the line. -/
def isEnd (text : List Char) : Bool :=
  match Line.parse 0 text with
  | .ok line => line.statement = some .finish
  | .error _ => false

theorem isEnd_iff {number : Nat} {text : List Char} {line : Line}
    (h : Line.parse number text = .ok line) :
    isEnd text = true ↔ line.statement = some .finish := by
  have hzero : Line.parse 0 text = .ok { line with number := 0 } := by
    rw [parse_eq_map 0 number, h]
    rfl
  rw [isEnd, hzero]
  exact decide_eq_true_iff

theorem isEnd_of_error {number : Nat} {text : List Char} {cause : LineError}
    (h : Line.parse number text = .error cause) : isEnd text = false := by
  rw [isEnd, parse_eq_map 0 number, h]
  rfl

theorem exists_parse_of_isEnd {text : List Char} (h : isEnd text = true) (number : Nat) :
    ∃ line, Line.parse number text = .ok line ∧ line.statement = some .finish := by
  cases hparse : Line.parse number text with
  | error cause =>
    rw [isEnd_of_error hparse] at h
    cases h
  | ok line => exact ⟨line, rfl, (isEnd_iff hparse).1 h⟩

/-- The lines up to the first `END`, which is one of them. -/
def upToEnd : List (List Char) → List (List Char)
  | [] => []
  | text :: rest => if isEnd text then [text] else text :: upToEnd rest

/-! ## Reading lines -/

section Reading
variable {number k : Nat} {text a b : List Char} {texts others rest before after after' :
  List (List Char)} {parsed parsed' : List Line} {e : AssemblyError}

theorem parseLines_cons_eq_error :
    parseLines number (text :: rest) = .error e ↔
      (∃ cause, Line.parse number text = .error cause ∧
        e = ⟨number, .malformed (trim text) cause⟩) ∨
      isEnd text = false ∧ (∃ line, Line.parse number text = .ok line) ∧
        parseLines (number + 1) rest = .error e := by
  rw [parseLines]
  cases hparse : Line.parse number text with
  | error cause =>
    constructor
    · intro h
      cases h
      exact .inl ⟨cause, rfl, rfl⟩
    · rintro (⟨cause', h, rfl⟩ | ⟨-, ⟨line, h⟩, -⟩)
      · cases h
        rfl
      · cases h
  | ok line =>
    have hend := isEnd_iff hparse
    by_cases hfinish : line.statement = some .finish
    · simp [hfinish, hend.2 hfinish]
    · have hnot : isEnd text = false := Bool.eq_false_iff.2 fun h => hfinish (hend.1 h)
      simp only [if_neg hfinish, hnot]
      cases parseLines (number + 1) rest <;> simp

theorem parseLines_cons_eq_ok :
    parseLines number (text :: rest) = .ok parsed ↔
      ∃ line, Line.parse number text = .ok line ∧
        (isEnd text = true ∧ parsed = [line] ∨
          isEnd text = false ∧
            ∃ more, parseLines (number + 1) rest = .ok more ∧ parsed = line :: more) := by
  rw [parseLines]
  cases hparse : Line.parse number text with
  | error cause => simp
  | ok line =>
    have hend := isEnd_iff hparse
    by_cases hfinish : line.statement = some .finish
    · simp [hfinish, hend.2 hfinish, eq_comm]
    · have hnot : isEnd text = false := Bool.eq_false_iff.2 fun h => hfinish (hend.1 h)
      simp only [if_neg hfinish, hnot]
      cases parseLines (number + 1) rest <;> simp [eq_comm]

/-- The line that cannot be read is one of those up to the first `END`. -/
theorem line_of_parseLines_error (h : parseLines number texts = .error e) :
    number ≤ e.line ∧ e.line < number + (upToEnd texts).length := by
  induction texts generalizing number with
  | nil => cases h
  | cons text rest ih =>
    rcases parseLines_cons_eq_error.1 h with ⟨cause, hparse, rfl⟩ | ⟨hnot, -, hrest⟩
    · rw [upToEnd, if_neg (Bool.eq_false_iff.1 (isEnd_of_error hparse)), List.length_cons]
      exact ⟨Nat.le_refl _, Nat.lt_add_of_pos_right (Nat.succ_pos _)⟩
    · obtain ⟨hfirst, hlast⟩ := ih hrest
      rw [upToEnd, if_neg (Bool.eq_false_iff.1 hnot), List.length_cons]
      exact ⟨by omega, by omega⟩

/-- What is read are the lines up to the first `END`, with their numbers. -/
theorem numbers_of_parseLines (h : parseLines number texts = .ok parsed) :
    parsed.map Line.number = List.range' number (upToEnd texts).length := by
  induction texts generalizing number parsed with
  | nil =>
    cases h
    rfl
  | cons text rest ih =>
    obtain ⟨line, hparse, ⟨hend, rfl⟩ | ⟨hnot, more, hmore, rfl⟩⟩ := parseLines_cons_eq_ok.1 h
    · rw [upToEnd, if_pos hend, List.map_singleton, number_of_parse hparse]
      rfl
    · rw [upToEnd, if_neg (Bool.eq_false_iff.1 hnot), List.map_cons, number_of_parse hparse,
        ih hmore, List.length_cons, List.range'_succ]

theorem number_of_parseLines {line : Line} {earlier later : List Line}
    (h : parseLines number texts = .ok (earlier ++ line :: later)) :
    line.number = number + earlier.length := by
  have hget : (List.range' number (upToEnd texts).length)[earlier.length]? = some line.number := by
    rw [← numbers_of_parseLines h]
    simp
  obtain ⟨hlt, hvalue⟩ := List.getElem?_eq_some_iff.1 hget
  rw [List.getElem_range', Nat.one_mul] at hvalue
  exact hvalue.symm

theorem exists_of_take_cons (h : others.take (k + 1) = (text :: rest).take (k + 1)) :
    ∃ more, others = text :: more ∧ more.take k = rest.take k := by
  cases others with
  | nil => cases h
  | cons other more =>
    rw [List.take_succ_cons, List.take_succ_cons, List.cons.injEq] at h
    obtain ⟨rfl, hrest⟩ := h
    exact ⟨more, rfl, hrest⟩

/-- The lines up to the one that cannot be read settle the error. -/
theorem parseLines_error_of_take (h : parseLines number texts = .error e)
    (hk : e.line < number + k) (hsame : others.take k = texts.take k) :
    parseLines number others = .error e := by
  induction texts generalizing number k others with
  | nil => cases h
  | cons text rest ih =>
    have hfirst := (line_of_parseLines_error h).1
    obtain ⟨k, rfl⟩ := Nat.exists_eq_add_of_lt (Nat.pos_of_lt_add_right (hfirst.trans_lt hk))
    rw [Nat.zero_add] at hk hsame
    obtain ⟨more, rfl, hmore⟩ := exists_of_take_cons hsame
    rcases parseLines_cons_eq_error.1 h with hcause | ⟨hnot, hparse, hrest⟩
    · exact parseLines_cons_eq_error.2 (.inl hcause)
    · have hlater : parseLines (number + 1) more = .error e := ih hrest (by omega) hmore
      exact parseLines_cons_eq_error.2 (.inr ⟨hnot, hparse, hlater⟩)

/-- The same texts are read as the same lines. -/
theorem take_of_parseLines (h : parseLines number texts = .ok parsed)
    (h' : parseLines number others = .ok parsed') (hsame : others.take k = texts.take k) :
    parsed'.take k = parsed.take k := by
  induction texts generalizing number k others parsed parsed' with
  | nil =>
    cases h
    cases k with
    | zero => rfl
    | succ k =>
      rw [List.take_nil, List.take_eq_nil_iff] at hsame
      obtain rfl := hsame.resolve_left (Nat.succ_ne_zero k)
      cases h'
      rfl
  | cons text rest ih =>
    cases k with
    | zero => rfl
    | succ k =>
      obtain ⟨more, rfl, hmore⟩ := exists_of_take_cons hsame
      obtain ⟨line, hparse, hparsed⟩ := parseLines_cons_eq_ok.1 h
      obtain ⟨line', hparse', hparsed'⟩ := parseLines_cons_eq_ok.1 h'
      obtain rfl : line = line' := Except.ok.inj (hparse.symm.trans hparse')
      rcases hparsed with ⟨hend, rfl⟩ | ⟨hnot, tail, htail, rfl⟩
      · rcases hparsed' with ⟨-, rfl⟩ | ⟨hnot, -⟩
        · rfl
        · simp [hend] at hnot
      · rcases hparsed' with ⟨hend, -⟩ | ⟨-, tail', htail', rfl⟩
        · simp [hend] at hnot
        · rw [List.take_succ_cons, List.take_succ_cons, ih htail htail' hmore]

/-- Nothing behind an `END` is read, however that line is written. -/
theorem parseLines_append_end (hend : isEnd a = true)
    (hread : ∀ n, Line.parse n b = Line.parse n a) :
    parseLines number (before ++ b :: after') = parseLines number (before ++ a :: after) := by
  induction before generalizing number with
  | nil =>
    obtain ⟨line, hparse, hfinish⟩ := exists_parse_of_isEnd hend number
    rw [List.nil_append, List.nil_append, parseLines, parseLines, hread, hparse]
    simp only [if_pos hfinish]
  | cons text before ih =>
    rw [List.cons_append, List.cons_append, parseLines, parseLines, ih]

theorem parseLines_of_end (hend : ∃ text ∈ texts.take k, isEnd text = true)
    (hsame : others.take k = texts.take k) : parseLines number others = parseLines number texts := by
  obtain ⟨text, hmem, hfinish⟩ := hend
  obtain ⟨before, after, heq⟩ := List.append_of_mem hmem
  have htexts : texts = before ++ text :: (after ++ texts.drop k) := by
    rw [← List.cons_append, ← List.append_assoc, ← heq, List.take_append_drop]
  have hothers : others = before ++ text :: (after ++ others.drop k) := by
    rw [← List.cons_append, ← List.append_assoc, ← heq, ← hsame, List.take_append_drop]
  rw [htexts, hothers]
  exact parseLines_append_end hfinish fun _ => rfl

/-- A source with an `END` may be continued behind its last line in any way. -/
theorem parseLines_lines_append {head : List Char}
    (hend : ∃ text ∈ lines head, isEnd text = true) (tail : List Char) :
    parseLines number (lines (head ++ '\n' :: tail)) = parseLines number (lines head) := by
  obtain ⟨before, reversed, hhead, hall⟩ := exists_lines_append head tail
  obtain ⟨text, hmem, hfinish⟩ := hend
  rw [hhead, List.mem_append] at hmem
  rw [hhead, hall]
  rcases hmem with hmem | hmem
  · obtain ⟨first, more, rfl⟩ := List.append_of_mem hmem
    rw [List.append_assoc, List.append_assoc, List.cons_append, List.cons_append]
    exact parseLines_append_end hfinish fun _ => rfl
  · by_cases hempty : reversed = []
    · rw [if_pos hempty] at hmem
      cases hmem
    · rw [if_neg hempty] at hmem ⊢
      obtain rfl := List.mem_singleton.1 hmem
      exact parseLines_append_end hfinish fun n => parse_finish n reversed

end Reading

/-! ## Passes -/

theorem blame_eq_error {α : Type} {line : Line} {result : Except Fault α} {e : AssemblyError} :
    line.blame result = .error e ↔ ∃ fault, result = .error fault ∧ e = ⟨line.number, fault⟩ := by
  cases result with
  | ok a => simp [Line.blame]
  | error fault => simp [Line.blame, eq_comm]

theorem Layout.line_of_next_error {layout : Layout} {line : Line} {e : AssemblyError}
    (h : layout.next line = .error e) : e.line = line.number := by
  obtain ⟨fault, -, rfl⟩ := blame_eq_error.1 h
  rfl

theorem Output.line_of_next_error {symbols : SymbolTable} {output : Output} {line : Line}
    {e : AssemblyError} (h : output.next symbols line = .error e) : e.line = line.number := by
  cases hs : line.statement with
  | none => simp [next, hs] at h
  | some statement =>
    simp only [next, hs] at h
    obtain ⟨fault, -, rfl⟩ := blame_eq_error.1 h
    rfl

theorem layOut_eq_error {parsed : List Line} {e : AssemblyError} :
    layOut parsed = .error e ↔ parsed.foldlM Layout.next {} = .error e :=
  bind_eq_error_of_total fun _ => ⟨_, rfl⟩

theorem emitLines_eq_error {symbols : SymbolTable} {parsed : List Line} {e : AssemblyError} :
    emitLines symbols parsed = .error e ↔ parsed.foldlM (Output.next symbols) {} = .error e :=
  bind_eq_error_of_total fun _ => ⟨_, rfl⟩

theorem assemble_eq_error {source : String} {e : AssemblyError} :
    assemble source = .error e ↔
      parseSource source.toList = .error e ∨
      ∃ parsed, parseSource source.toList = .ok parsed ∧
        (layOut parsed = .error e ∨
          ∃ symbols, layOut parsed = .ok symbols ∧ emitLines symbols parsed = .error e) := by
  rw [assemble, bind_eq_error]
  refine or_congr_right (exists_congr fun parsed => and_congr_right fun _ => ?_)
  rw [bind_eq_error]
  refine or_congr_right (exists_congr fun symbols => and_congr_right fun _ => ?_)
  exact bind_eq_error_of_total fun _ => ⟨_, rfl⟩

theorem line_of_assemble_error {source : String} {e : AssemblyError}
    (h : assemble source = .error e) :
    1 ≤ e.line ∧ e.line ≤ (upToEnd (lines source.toList)).length := by
  rcases assemble_eq_error.1 h with hread | ⟨parsed, hread, hpass⟩
  · have hline := line_of_parseLines_error hread
    omega
  · have hmem : ∃ line ∈ parsed, e.line = line.number := by
      rcases hpass with hfirst | ⟨symbols, -, hsecond⟩
      · obtain ⟨before, line, after, layout, rfl, -, hnext⟩ :=
          exists_of_foldlM_eq_error (layOut_eq_error.1 hfirst)
        exact ⟨line, by simp, Layout.line_of_next_error hnext⟩
      · obtain ⟨before, line, after, output, rfl, -, hnext⟩ :=
          exists_of_foldlM_eq_error (emitLines_eq_error.1 hsecond)
        exact ⟨line, by simp, Output.line_of_next_error hnext⟩
    obtain ⟨line, hline, heq⟩ := hmem
    have hnumber : line.number ∈ parsed.map Line.number := List.mem_map_of_mem hline
    rw [numbers_of_parseLines hread, List.mem_range'_1] at hnumber
    omega

/-- The lines up to the one at which the first pass stops settle its error, if the others can be
read. -/
theorem layOut_error_of_take {source other : List Char} {parsed parsed' : List Line}
    {e : AssemblyError} (h : parseSource source = .ok parsed) (h' : parseSource other = .ok parsed')
    (herror : layOut parsed = .error e)
    (hsame : (lines other).take e.line = (lines source).take e.line) :
    layOut parsed' = .error e := by
  obtain ⟨before, line, after, layout, rfl, hbefore, hnext⟩ :=
    exists_of_foldlM_eq_error (layOut_eq_error.1 herror)
  have hline : e.line = before.length + 1 := by
    rw [Layout.line_of_next_error hnext, number_of_parseLines h, Nat.add_comm]
  have hshared : parsed'.take e.line = before ++ [line] := by
    rw [take_of_parseLines h h' hsame, hline, List.take_length_add_append]
    rfl
  have hsplit : parsed' = before ++ line :: parsed'.drop e.line := by
    rw [← List.singleton_append, ← List.append_assoc, ← hshared, List.take_append_drop]
  rw [hsplit]
  exact layOut_eq_error.2 (foldlM_eq_error hbefore hnext)

/-! ## Errors of sources -/

/-- Two sources begin with the same `k` lines. -/
def SameLines (k : Nat) (source other : String) : Prop :=
  (lines other.toList).take k = (lines source.toList).take k

instance (k : Nat) (source other : String) : Decidable (SameLines k source other) :=
  inferInstanceAs (Decidable (_ = _))

/-- An error names a line, at the beginning of its text, and this line is not behind the first `END`.
If the line cannot be read, the lines up to it settle the error; if the first pass stops there, they
settle it for all sources that can be read. Whatever comes behind an `END`, changed or added, changes
neither the result nor the error. -/
theorem errors_are_local (source : String) (e : AssemblyError) :
    (assemble source = .error e →
      ("line " ++ toString e.line).toList <+: e.message.toList ∧
        1 ≤ e.line ∧ e.line ≤ (upToEnd (lines source.toList)).length) ∧
    (parseSource source.toList = .error e →
      ∀ other, SameLines e.line source other → assemble other = .error e) ∧
    (∀ parsed, parseSource source.toList = .ok parsed → layOut parsed = .error e →
      ∀ other parsed', SameLines e.line source other → parseSource other.toList = .ok parsed' →
        assemble other = .error e) ∧
    (∀ k, (∃ text ∈ (lines source.toList).take k, isEnd text = true) →
      ∀ other, SameLines k source other → assemble other = assemble source) ∧
    ((∃ text ∈ lines source.toList, isEnd text = true) →
      ∀ tail, assemble (source ++ "\n" ++ tail) = assemble source) := by
  refine ⟨fun h => ⟨?_, line_of_assemble_error h⟩, fun h other hsame => ?_,
    fun parsed h herror other parsed' hsame h' => ?_, fun k hend other hsame => ?_,
    fun hend tail => ?_⟩
  · refine ⟨(": " ++ e.fault.message).toList, ?_⟩
    rw [← String.toList_append, ← String.append_assoc]
    rfl
  · exact assemble_eq_error.2 (.inl (parseLines_error_of_take h (by omega) hsame))
  · exact assemble_eq_error.2 (.inr ⟨parsed', h', .inl (layOut_error_of_take h h' herror hsame)⟩)
  · have hread : parseSource other.toList = parseSource source.toList :=
      parseLines_of_end hend hsame
    rw [assemble, hread]
    rfl
  · have hread : parseSource (source ++ "\n" ++ tail).toList = parseSource source.toList := by
      rw [String.toList_append, String.toList_append, List.append_assoc]
      exact parseLines_lines_append hend tail.toList
    rw [assemble, hread]
    rfl

/-- An unknown mnemonic on the second line is what is wrong with two sources that differ in the third;
a text behind an `END` is ignored. -/
theorem errors_are_local_mnemonic :
    assemble " NOP\n FOO\n END" = .error ⟨2, .unknownMnemonic "FOO".toList⟩ ∧
      assemble " NOP\n FOO\n DB 1" = .error ⟨2, .unknownMnemonic "FOO".toList⟩ ∧
      ∀ tail, assemble (" NOP\n END ; done" ++ "\n" ++ tail) = assemble " NOP\n END ; done" := by
  have hread := eq_ok_get (x := parseSource " NOP\n FOO\n END".toList) (by decide +kernel)
  have hother := eq_ok_get (x := parseSource " NOP\n FOO\n DB 1".toList) (by decide +kernel)
  obtain ⟨-, -, hpass, -⟩ :=
    errors_are_local " NOP\n FOO\n END" ⟨2, .unknownMnemonic "FOO".toList⟩
  obtain ⟨-, -, -, -, hend⟩ :=
    errors_are_local " NOP\n END ; done" ⟨2, .unknownMnemonic "FOO".toList⟩
  have hlocal := hpass _ hread rfl
  refine ⟨hlocal _ _ rfl hread, hlocal _ _ ?_ hother, hend ?_⟩
  · decide +kernel
  · decide +kernel

end Assembler
end Banked8085
