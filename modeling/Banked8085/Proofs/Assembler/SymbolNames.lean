import Banked8085.Proofs.Assembler.Definitions
import Banked8085.Proofs.Assembler.ErrorLine

/-! # Names in the symbol table

The first pass adds the names of each line to its table and stops at one that is there already
(`Layout.hasNames_of_next`). In the end the table has just the names that the lines of the source
define, each of them defined once, and a constant has the value of its operand in the table as it
was at its line (`symbols_are_defined_once`).
-/

namespace Banked8085.Assembler
set_option autoImplicit false

/-! ## Names in a table -/

namespace SymbolTable
variable {table later early late : SymbolTable} {names : List (List Char)} {name : List Char}

/-- The table has just these names, and each of them was defined once. -/
structure HasNames (table : SymbolTable) (names : List (List Char)) : Prop where
  nodup : names.Nodup
  mem_iff : ∀ name, name ∈ table.entries ↔ name ∈ names

theorem hasNames_empty : HasNames {} [] :=
  ⟨.nil, fun _ => iff_of_false Std.TreeMap.not_mem_emptyc List.not_mem_nil⟩

theorem HasNames.define {value : Nat} (h : table.HasNames names)
    (hdefine : table.define name value = .ok later) : later.HasNames (names ++ [name]) := by
  obtain ⟨hnew, rfl⟩ := define_eq_ok.1 hdefine
  rw [h.mem_iff] at hnew
  constructor
  · rw [← List.concat_eq_append]
    exact h.nodup.concat hnew
  · intro other
    rw [Std.TreeMap.mem_insert, Std.LawfulEqCmp.compare_eq_iff_eq, h.mem_iff, List.mem_append,
      List.mem_singleton, or_comm, eq_comm]

/-- The table without all but these names. -/
def only (table : SymbolTable) (names : List (List Char)) : SymbolTable :=
  ⟨table.entries.filter fun name _ => names.contains name⟩

theorem resolve_congr (h : ∀ name : List Char, early.entries[name]? = late.entries[name]?)
    (value : Value) : early.resolve value = late.resolve value := by
  cases value with
  | number n => rfl
  | symbol name => simp only [resolve, h]

/-- Of a table that has grown, the names that were there first make the table that there was. -/
theorem resolve_only (h : early.HasNames names) (hext : late.Extends early) (value : Value) :
    (late.only names).resolve value = early.resolve value := by
  refine resolve_congr (fun name => ?_) value
  rw [only, Std.TreeMap.getElem?_filter']
  cases hearly : early.entries[name]? with
  | some n =>
    have hmem : name ∈ names := by
      rw [← h.mem_iff, Std.TreeMap.mem_iff_isSome_getElem?, hearly]
      rfl
    rw [hext name n hearly, Option.filter_some, if_pos (List.contains_iff_mem.2 hmem)]
  | none =>
    have hnot : name ∉ names := by
      rw [← h.mem_iff, Std.TreeMap.mem_iff_isSome_getElem?, hearly]
      exact nofun
    simp [hnot]

end SymbolTable

/-! ## The first pass -/

namespace Layout
variable {layout later : Layout} {names : List (List Char)} {name : List Char} {value : Value}

theorem hasNames_of_mark {label : Option (List Char)} (h : layout.symbols.HasNames names)
    (hmark : layout.mark label = .ok later) : later.symbols.HasNames (names ++ label.toList) := by
  cases label with
  | none =>
    cases hmark
    rw [Option.toList_none, List.append_nil]
    exact h
  | some label =>
    obtain ⟨symbols, hdefine, rfl⟩ := define_eq_ok.1 hmark
    exact h.define hdefine

theorem skip_constant :
    layout.skip (some (.constant name value)) = .ok later ↔
      ∃ n symbols, layout.symbols.resolve value = .ok n ∧
        layout.symbols.define name n = .ok symbols ∧ later = { layout with symbols } := by
  simp only [skip, bind_eq_ok, evaluate_eq_ok, define_eq_ok, exists_and_left]

theorem symbols_of_skip {statement : Option Statement}
    (hother : ∀ name value, statement ≠ some (.constant name value))
    (h : layout.skip statement = .ok later) : later.symbols = layout.symbols := by
  cases statement with
  | none =>
    cases h
    rfl
  | some s =>
    rcases skip_cases h with ⟨name, value, -, -, rfl, -, -⟩ | ⟨size, -, -, rfl⟩
    · exact absurd rfl (hother name value)
    · rfl

/-- In front of a line the table has these names, behind it also those of the line. -/
theorem hasNames_of_next {line : Line} (h : layout.symbols.HasNames names)
    (hnext : layout.next line = .ok later) : later.symbols.HasNames (names ++ line.names) := by
  obtain ⟨sought, marked, hseek, hmark, hskip⟩ := next_eq_ok.1 hnext
  rw [← symbols_of_seek hseek] at h
  have hmarked := hasNames_of_mark h hmark
  rw [Line.names, ← List.append_assoc]
  cases hconstant : line.constant? with
  | none =>
    rw [symbols_of_skip (Line.constant?_eq_none.1 hconstant) hskip, Option.toList_none,
      List.map_nil, List.append_nil]
    exact hmarked
  | some constant =>
    obtain ⟨name, value⟩ := constant
    rw [Line.constant?_eq_some hconstant] at hskip
    obtain ⟨n, symbols, -, hdefine, rfl⟩ := skip_constant.1 hskip
    exact hmarked.define hdefine

theorem hasNames_of_pass {lines : List Line} (h : layout.symbols.HasNames names)
    (hpass : lines.foldlM next layout = .ok later) :
    later.symbols.HasNames (names ++ lines.flatMap Line.names) := by
  induction lines generalizing layout names with
  | nil =>
    cases hpass
    rw [List.flatMap_nil, List.append_nil]
    exact h
  | cons line rest ih =>
    obtain ⟨middle, hnext, hrest⟩ := foldlM_cons_eq_ok.1 hpass
    rw [List.flatMap_cons, ← List.append_assoc]
    exact ih (hasNames_of_next h hnext) hrest

/-- A constant gets the value that its operand has in the table with the label of its line. -/
theorem constant_of_next {line : Line} (h : layout.symbols.HasNames names)
    (hnext : layout.next line = .ok later) (hconstant : line.constant? = some (name, value)) :
    ∃ (table : SymbolTable) (n : Nat), table.HasNames (names ++ line.label.toList) ∧
      later.symbols.Extends table ∧ table.resolve value = .ok n ∧
        later.symbols.entries[name]? = some n := by
  obtain ⟨sought, marked, hseek, hmark, hskip⟩ := next_eq_ok.1 hnext
  rw [← symbols_of_seek hseek] at h
  have hextends := extends_of_skip hskip
  rw [Line.constant?_eq_some hconstant] at hskip
  obtain ⟨n, symbols, hresolve, hdefine, rfl⟩ := skip_constant.1 hskip
  exact ⟨marked.symbols, n, hasNames_of_mark h hmark, hextends, hresolve,
    SymbolTable.getElem?_of_define hdefine⟩

/-- In the end a constant still has this value: of the names there are then, its operand is looked
up in those in front of it only. -/
theorem constant_of_pass {before after : List Line} {line : Line}
    (h : layout.symbols.HasNames names)
    (hpass : (before ++ line :: after).foldlM next layout = .ok later)
    (hconstant : line.constant? = some (name, value)) :
    ∃ n, (later.symbols.only
        (names ++ before.flatMap Line.names ++ line.label.toList)).resolve value = .ok n ∧
      later.symbols.entries[name]? = some n := by
  obtain ⟨middle, hbefore, hfrom⟩ := foldlM_append_eq_ok.1 hpass
  obtain ⟨defined, hnext, hafter⟩ := foldlM_cons_eq_ok.1 hfrom
  obtain ⟨table, n, htable, hextends, hresolve, hentry⟩ :=
    constant_of_next (hasNames_of_pass h hbefore) hnext hconstant
  have hlater := extends_of_pass hafter
  refine ⟨n, ?_, hlater name n hentry⟩
  rw [SymbolTable.resolve_only htable (hlater.trans hextends), hresolve]

end Layout

/-! ## Whole sources -/

theorem readAs_of_parseLines {number : Nat} {texts : List (List Char)} {parsed : List Line}
    (h : parseLines number texts = .ok parsed) :
    List.Forall₂ (fun text line => (Definitions.ofText text).ReadAs line) (upToEnd texts)
      parsed := by
  induction texts generalizing number parsed with
  | nil =>
    cases h
    exact .nil
  | cons text rest ih =>
    obtain ⟨line, hparse, ⟨hend, rfl⟩ | ⟨hnot, more, hmore, rfl⟩⟩ := parseLines_cons_eq_ok.1 h
    · rw [upToEnd, if_pos hend]
      exact .cons (readAs_of_parse hparse) .nil
    · rw [upToEnd, if_neg (Bool.eq_false_iff.1 hnot)]
      exact .cons (readAs_of_parse hparse) (ih hmore)

theorem flatMap_names_eq {texts : List (List Char)} {parsed : List Line}
    (h : List.Forall₂ (fun text line => (Definitions.ofText text).ReadAs line) texts parsed) :
    parsed.flatMap Line.names = definedNames texts := by
  induction h with
  | nil => rfl
  | cons hread _ ih =>
    rw [definedNames, List.flatMap_cons, List.flatMap_cons, hread.names_eq, ih]
    rfl

theorem upper_of_mem_definedNames {texts : List (List Char)} {name : List Char}
    (h : name ∈ definedNames texts) : upper name = name := by
  obtain ⟨text, -, hmem⟩ := List.mem_flatMap.1 h
  obtain ⟨written, -, rfl⟩ := List.mem_map.1 hmem
  exact upper_upper written

/-- In a source that assembles, no two names that it defines up to its first `END` are equal up to
letter case, and the table has just these names, found in any letter case. A constant has the value
of its operand in a table with only the names in front of it, the label of its line included. A
source that defines a name twice does not assemble. -/
theorem symbols_are_defined_once (source : String) :
    (∀ assembly, assemble source = .ok assembly →
      (definedNames (upToEnd (lines source.toList))).Nodup ∧
      (∀ name, name ∈ assembly.symbols.toList.map Prod.fst ↔
        name ∈ definedNames (upToEnd (lines source.toList))) ∧
      (∀ before text after name operand, upToEnd (lines source.toList) = before ++ text :: after →
        (Definitions.ofText text).constant = some (name, operand) →
        ∃ value n, parseValue operand = .ok value ∧
          (assembly.symbols.only (definedNames before ++
            (Definitions.ofText text).label.toList.map upper)).resolve value = .ok n ∧
          assembly.symbols.find? name = some n) ∧
      ∀ name n, (name, n) ∈ assembly.symbols.toList →
        ∀ spelling, upper spelling = upper name → assembly.symbols.find? spelling = some n) ∧
    (¬ (definedNames (upToEnd (lines source.toList))).Nodup → ∃ e, assemble source = .error e) := by
  have hnames : ∀ assembly, assemble source = .ok assembly →
      assembly.symbols.HasNames (definedNames (upToEnd (lines source.toList))) := by
    intro assembly h
    obtain ⟨parsed, layout, output, hparsed, hlayout, -, rfl⟩ := assemble_eq_ok.1 h
    have hpass := Layout.hasNames_of_pass SymbolTable.hasNames_empty hlayout
    rw [List.nil_append, flatMap_names_eq (readAs_of_parseLines hparsed)] at hpass
    exact hpass
  refine ⟨fun assembly h => ⟨(hnames assembly h).nodup, fun name => ?_, ?_, ?_⟩, fun hdouble => ?_⟩
  · rw [← (hnames assembly h).mem_iff, SymbolTable.toList, Std.TreeMap.map_fst_toList_eq_keys,
      Std.TreeMap.mem_keys]
  · intro before text after name operand htexts hconstant
    obtain ⟨parsed, layout, output, hparsed, hlayout, -, rfl⟩ := assemble_eq_ok.1 h
    have hread := readAs_of_parseLines hparsed
    rw [htexts] at hread
    obtain ⟨first, line, rest, rfl, hfirst, hline⟩ := exists_of_forall₂_append_cons hread
    obtain ⟨value, hvalue, hconstant⟩ := hline.exists_constant hconstant
    obtain ⟨n, hresolve, hentry⟩ :=
      Layout.constant_of_pass SymbolTable.hasNames_empty hlayout hconstant
    rw [List.nil_append, flatMap_names_eq hfirst, hline.label, Option.toList_map] at hresolve
    exact ⟨value, n, hvalue, hresolve, hentry⟩
  · intro name n hmem spelling hspelling
    have hentry := Std.TreeMap.mem_toList_iff_getElem?_eq_some.1 hmem
    have hname : name ∈ definedNames (upToEnd (lines source.toList)) := by
      rw [← (hnames assembly h).mem_iff, Std.TreeMap.mem_iff_isSome_getElem?, hentry]
      rfl
    rw [SymbolTable.find?, hspelling, upper_of_mem_definedNames hname]
    exact hentry
  · cases h : assemble source with
    | ok assembly => exact absurd (hnames assembly h).nodup hdouble
    | error e => exact ⟨e, rfl⟩

/-- A label in front of a constant, a label that names one, and labels of lines without bytes. The
operand of the first constant is the label of its own line, and nothing behind the `END` counts. -/
theorem symbols_are_defined_once_routes :
    (∃ assembly,
      assemble " ORG 10h\na: b EQU A\nc: equ b\nd: CPU 8085\nz: END\nA: NOP" = .ok assembly ∧
      (∀ name, name ∈ assembly.symbols.toList.map Prod.fst ↔
        name ∈ [['A'], ['B'], ['C'], ['D'], ['Z']]) ∧
      ∃ n, (assembly.symbols.only [['A']]).resolve (.symbol ['A']) = .ok n ∧
        assembly.symbols.find? ['b'] = some n) ∧
    ∃ e, assemble "a: NOP\nA EQU 5" = .error e := by
  constructor
  · have hsource := eq_ok_get
      (x := assemble " ORG 10h\na: b EQU A\nc: equ b\nd: CPU 8085\nz: END\nA: NOP")
      (by decide +kernel)
    obtain ⟨-, hnames, hconstants, -⟩ := (symbols_are_defined_once _).1 _ hsource
    have hdefined : definedNames (upToEnd (lines
        " ORG 10h\na: b EQU A\nc: equ b\nd: CPU 8085\nz: END\nA: NOP".toList)) =
        [['A'], ['B'], ['C'], ['D'], ['Z']] := by
      decide +kernel
    rw [hdefined] at hnames
    obtain ⟨value, n, hvalue, hresolve, hfind⟩ := hconstants [" ORG 10h".toList] "a: b EQU A".toList
      ["c: equ b".toList, "d: CPU 8085".toList, "z: END".toList] ['b'] ['A']
      (by decide +kernel) (by decide +kernel)
    obtain rfl : .symbol ['A'] = value := Except.ok.inj (Eq.trans (by decide +kernel) hvalue)
    have hbefore : definedNames [" ORG 10h".toList] ++
        (Definitions.ofText "a: b EQU A".toList).label.toList.map upper = [['A']] := by
      decide +kernel
    rw [hbefore] at hresolve
    exact ⟨_, hsource, hnames, n, hresolve, hfind⟩
  · exact (symbols_are_defined_once "a: NOP\nA EQU 5").2 (by decide +kernel)

end Banked8085.Assembler
