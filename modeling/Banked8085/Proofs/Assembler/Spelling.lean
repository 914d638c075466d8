import Mathlib.Data.List.Forall2
import Banked8085.Proofs.Execution.Opcodes
import Banked8085.Proofs.Execution.Operation
import Banked8085.Proofs.Text.Numeral

/-! # How instructions are spelled

Every instruction has one mnemonic and a list of operands. The assembler makes its bytes from just
the texts that spell them (`emitInstruction_iff_spelled`). As each instruction can be written and is
recovered from its bytes, mnemonics with operands and assigned opcodes with operand bytes correspond
one to one (`encoding_bijective`).
-/

namespace Banked8085
set_option autoImplicit false

open Assembler

/-! ## Operands -/

/-- What an operand text stands for. -/
inductive Denotation
  | location (l : Location)
  | wide (p : WidePair)
  | stack (p : StackPair)
  | value (n : Nat)

inductive Denotation.Kind
  | location | wide | stack | value

namespace Denotation

def kind : Denotation → Kind
  | location _ => .location
  | wide _ => .wide
  | stack _ => .stack
  | value _ => .value

def SpelledBy (symbols : SymbolTable) (text : List Char) : Denotation → Prop
  | location l => Spells text l.names
  | wide p => Spells text p.names
  | stack p => Spells text p.names
  | value n => readNumber symbols text = .ok n

theorem SpelledBy.unique {symbols : SymbolTable} {text : List Char} {d e : Denotation}
    (hd : d.SpelledBy symbols text) (he : e.SpelledBy symbols text) (hkind : d.kind = e.kind) :
    d = e := by
  cases d with
  | location l =>
    cases e with
    | location k =>
      exact congrArg location (eq_of_read (readLocation_eq_ok.2 hd) (readLocation_eq_ok.2 he))
    | _ => cases hkind
  | wide p =>
    cases e with
    | wide q =>
      exact congrArg wide (eq_of_read (readWidePair_eq_ok.2 hd) (readWidePair_eq_ok.2 he))
    | _ => cases hkind
  | stack p =>
    cases e with
    | stack q =>
      exact congrArg stack (eq_of_read (readStackPair_eq_ok.2 hd) (readStackPair_eq_ok.2 he))
    | _ => cases hkind
  | value n =>
    cases e with
    | value k => exact congrArg value (eq_of_read hd he)
    | _ => cases hkind

/-- A text for an operand: its first name, or the value in hexadecimal. -/
def text : Denotation → List Char
  | location l => l.names.headD []
  | wide p => p.names.headD []
  | stack p => p.names.headD []
  | value n => hexText n

theorem spelledBy_text (symbols : SymbolTable) {d : Denotation}
    (h : ∀ n, d = value n → n ≤ Value.limit) : d.SpelledBy symbols d.text := by
  have hpair : ∀ p : Pair, Spells (p.names.headD []) p.names := by
    intro p
    cases p <;> decide
  cases d with
  | location l => obtain r | _ := l <;> (try cases r) <;> exact List.mem_singleton_self _
  | wide p =>
    cases p with
    | pair p => exact hpair p
    | sp => exact List.mem_singleton_self _
  | stack p =>
    cases p with
    | pair p => exact hpair p
    | psw => exact List.mem_singleton_self _
  | value n => exact readNumber_hexText symbols (h n rfl)

end Denotation

/-- The operand texts stand for these operands. -/
def Spelled (symbols : SymbolTable) (texts : List (List Char)) (operands : List Denotation) :
    Prop :=
  List.Forall₂ (fun text d => d.SpelledBy symbols text) texts operands

theorem Spelled.unique {symbols : SymbolTable} {texts : List (List Char)}
    {first second : List Denotation} (h : Spelled symbols texts first)
    (h' : Spelled symbols texts second)
    (hkinds : first.map Denotation.kind = second.map Denotation.kind) : first = second := by
  induction h generalizing second with
  | nil =>
    cases h'
    rfl
  | cons hd _ ih =>
    obtain ⟨e, rest, he, hrest, rfl⟩ := List.forall₂_cons_left_iff.1 h'
    obtain ⟨hkind, hkinds⟩ := List.cons.inj hkinds
    rw [hd.unique he hkind, ih hrest hkinds]

theorem spelled_texts (symbols : SymbolTable) {operands : List Denotation}
    (h : ∀ n, .value n ∈ operands → n ≤ Value.limit) :
    Spelled symbols (operands.map Denotation.text) operands := by
  rw [Spelled, List.forall₂_map_left_iff, List.forall₂_same]
  intro d hd
  refine Denotation.spelledBy_text symbols ?_
  intro n hn
  exact h n (hn ▸ hd)

/-! ## Instructions -/

/-- The letters of a condition in the name of a jump, a call or a return. -/
def Condition.letters : Condition → List Char
  | .notZero => ['N', 'Z']
  | .zero => ['Z']
  | .noCarry => ['N', 'C']
  | .carry => ['C']
  | .parityOdd => ['P', 'O']
  | .parityEven => ['P', 'E']
  | .plus => ['P']
  | .minus => ['M']

/-- The name of an operation with a location and its name with an immediate value. -/
def AluOp.mnemonics : AluOp → String × String
  | .add => ("ADD", "ADI")
  | .adc => ("ADC", "ACI")
  | .sub => ("SUB", "SUI")
  | .sbb => ("SBB", "SBI")
  | .ana => ("ANA", "ANI")
  | .xra => ("XRA", "XRI")
  | .ora => ("ORA", "ORI")
  | .cmp => ("CMP", "CPI")

namespace Instruction

def mnemonic : Instruction → List Char
  | nop => "NOP".toList
  | hlt => "HLT".toList
  | ei => "EI".toList
  | di => "DI".toList
  | rim => "RIM".toList
  | sim => "SIM".toList
  | mov .. => "MOV".toList
  | mvi .. => "MVI".toList
  | lxi .. => "LXI".toList
  | stax _ => "STAX".toList
  | ldax _ => "LDAX".toList
  | sta _ => "STA".toList
  | lda _ => "LDA".toList
  | shld _ => "SHLD".toList
  | lhld _ => "LHLD".toList
  | xchg => "XCHG".toList
  | alu op _ => op.mnemonics.1.toList
  | aluImmediate op _ => op.mnemonics.2.toList
  | inr _ => "INR".toList
  | dcr _ => "DCR".toList
  | inx _ => "INX".toList
  | dcx _ => "DCX".toList
  | dad _ => "DAD".toList
  | daa => "DAA".toList
  | cma => "CMA".toList
  | stc => "STC".toList
  | cmc => "CMC".toList
  | rlc => "RLC".toList
  | rrc => "RRC".toList
  | ral => "RAL".toList
  | rar => "RAR".toList
  | jmp _ => "JMP".toList
  | jmpIf condition _ => 'J' :: condition.letters
  | call _ => "CALL".toList
  | callIf condition _ => 'C' :: condition.letters
  | ret => "RET".toList
  | retIf condition => 'R' :: condition.letters
  | rst _ => "RST".toList
  | pchl => "PCHL".toList
  | push _ => "PUSH".toList
  | pop _ => "POP".toList
  | xthl => "XTHL".toList
  | sphl => "SPHL".toList
  | input _ => "IN".toList
  | output _ => "OUT".toList

/-- The operands in the order of writing. -/
def denotations : Instruction → List Denotation
  | mov target source _ => [.location target, .location source]
  | mvi target value => [.location target, .value value.toNat]
  | lxi target value => [.wide target, .value value.toNat]
  | stax p | ldax p => [.wide (.pair p.pair)]
  | alu _ l | inr l | dcr l => [.location l]
  | inx p | dcx p | dad p => [.wide p]
  | push p | pop p => [.stack p]
  | aluImmediate _ b | input b | output b => [.value b.toNat]
  | sta w | lda w | shld w | lhld w => [.value w.toNat]
  | jmp w | jmpIf _ w | call w | callIf _ w => [.value w.toNat]
  | rst vector => [.value vector.val]
  | _ => []

theorem value_le_of_mem {i : Instruction} {n : Nat} (h : .value n ∈ i.denotations) :
    n ≤ Value.limit := by
  have hbyte : ∀ b : Byte, n = b.toNat → n ≤ Value.limit := by
    intro b hn
    have hlt := b.toNat_lt
    rw [hn, Value.limit]
    omega
  have hword : ∀ w : Word, n = w.toNat → n ≤ Value.limit := by
    intro w hn
    have hlt := w.toNat_lt
    rw [hn, Value.limit]
    omega
  cases i with
  | mvi _ b | aluImmediate _ b | input b | output b =>
    exact hbyte b (by simpa [denotations] using h)
  | lxi _ w | sta w | lda w | shld w | lhld w | jmp w | jmpIf _ w | call w | callIf _ w =>
    exact hword w (by simpa [denotations] using h)
  | rst vector =>
    have hlt := vector.isLt
    have hn : n = vector.val := by simpa [denotations] using h
    rw [hn, Value.limit]
    omega
  | _ => simp [denotations] at h

end Instruction

/-! ## Forms -/

namespace Assembler

/-- The kinds of the operands of a form. -/
def Form.kinds : Form → List Denotation.Kind
  | implied _ => []
  | location _ => [.location]
  | move => [.location, .location]
  | moveImmediate => [.location, .value]
  | pairImmediate => [.wide, .value]
  | pair _ | pointer _ => [.wide]
  | stack _ => [.stack]
  | immediate _ | address _ | restart => [.value]

/-- A form makes this instruction from some operands. -/
def Form.Makes (i : Instruction) : Form → Prop
  | implied instruction => i = instruction
  | location make => ∃ l, i = make l
  | move => ∃ target source h, i = .mov target source h
  | moveImmediate => ∃ target value, i = .mvi target value
  | pairImmediate => ∃ target value, i = .lxi target value
  | pair make => ∃ p, i = make p
  | stack make => ∃ p, i = make p
  | pointer make => ∃ p, i = make p
  | immediate make => ∃ b, i = make b
  | address make => ∃ w, i = make w
  | restart => ∃ n, i = .rst n

/-- The operands from which a form makes an instruction are the operands of that instruction. -/
def Form.Denoted : Form → Prop
  | implied i => i.denotations = []
  | location make => ∀ l, (make l).denotations = [.location l]
  | pair make => ∀ p, (make p).denotations = [.wide p]
  | stack make => ∀ p, (make p).denotations = [.stack p]
  | pointer make => ∀ p, (make p).denotations = [.wide (.pair p.pair)]
  | immediate make => ∀ b, (make b).denotations = [.value b.toNat]
  | address make => ∀ w, (make w).denotations = [.value w.toNat]
  | move | moveImmediate | pairImmediate | restart => True

theorem all_denoted : ∀ entry ∈ mnemonics, entry.2.Denoted := by
  simp only [mnemonics, List.forall_mem_cons, Form.Denoted, List.not_mem_nil, false_implies,
    implies_true, and_true, true_and]
  repeat' apply And.intro
  all_goals
    intros
    rfl

theorem all_mnemonic : ∀ entry ∈ mnemonics, entry.2.All (·.mnemonic = entry.1.toList) := by
  simp only [mnemonics, List.forall_mem_cons, Form.All, List.not_mem_nil, false_implies,
    implies_true, and_true]
  repeat' apply And.intro
  all_goals
    intros
    rfl

/-- Each instruction has a mnemonic whose form makes it. -/
theorem exists_form (i : Instruction) :
    ∃ form, form? i.mnemonic = some form ∧ form.Makes i := by
  cases i with
  | mov target source h => exact ⟨.move, rfl, target, source, h, rfl⟩
  | mvi target value => exact ⟨.moveImmediate, rfl, target, value, rfl⟩
  | lxi target value => exact ⟨.pairImmediate, rfl, target, value, rfl⟩
  | rst n => exact ⟨.restart, rfl, n, rfl⟩
  | inr l => exact ⟨.location .inr, rfl, l, rfl⟩
  | dcr l => exact ⟨.location .dcr, rfl, l, rfl⟩
  | alu op l => exact ⟨.location (.alu op), by cases op <;> rfl, l, rfl⟩
  | inx p => exact ⟨.pair .inx, rfl, p, rfl⟩
  | dcx p => exact ⟨.pair .dcx, rfl, p, rfl⟩
  | dad p => exact ⟨.pair .dad, rfl, p, rfl⟩
  | push p => exact ⟨.stack .push, rfl, p, rfl⟩
  | pop p => exact ⟨.stack .pop, rfl, p, rfl⟩
  | stax p => exact ⟨.pointer .stax, rfl, p, rfl⟩
  | ldax p => exact ⟨.pointer .ldax, rfl, p, rfl⟩
  | aluImmediate op b => exact ⟨.immediate (.aluImmediate op), by cases op <;> rfl, b, rfl⟩
  | input b => exact ⟨.immediate .input, rfl, b, rfl⟩
  | output b => exact ⟨.immediate .output, rfl, b, rfl⟩
  | sta w => exact ⟨.address .sta, rfl, w, rfl⟩
  | lda w => exact ⟨.address .lda, rfl, w, rfl⟩
  | shld w => exact ⟨.address .shld, rfl, w, rfl⟩
  | lhld w => exact ⟨.address .lhld, rfl, w, rfl⟩
  | jmp w => exact ⟨.address .jmp, rfl, w, rfl⟩
  | jmpIf c w => exact ⟨.address (.jmpIf c), by cases c <;> rfl, w, rfl⟩
  | call w => exact ⟨.address .call, rfl, w, rfl⟩
  | callIf c w => exact ⟨.address (.callIf c), by cases c <;> rfl, w, rfl⟩
  | retIf c => exact ⟨.implied (.retIf c), by cases c <;> rfl, rfl⟩
  | _ => exact ⟨.implied _, rfl, rfl⟩

/-! ## Bytes and spellings -/

section
variable {symbols : SymbolTable} {mnemonic : List Char} {operands : List (List Char)}
  {i : Instruction}

theorem spelled_singleton {d : Denotation} :
    Spelled symbols operands [d] ↔ ∃ text, operands = [text] ∧ d.SpelledBy symbols text := by
  rw [Spelled, List.forall₂_cons_right_iff]
  constructor
  · intro h
    obtain ⟨text, rest, hd, hrest, rfl⟩ := h
    cases hrest
    exact ⟨text, rfl, hd⟩
  · intro h
    obtain ⟨text, rfl, hd⟩ := h
    exact ⟨text, [], hd, .nil, rfl⟩

theorem spelled_pair {d e : Denotation} :
    Spelled symbols operands [d, e] ↔ ∃ first second, operands = [first, second] ∧
      d.SpelledBy symbols first ∧ e.SpelledBy symbols second := by
  rw [Spelled, List.forall₂_cons_right_iff]
  constructor
  · intro h
    obtain ⟨first, rest, hd, hrest, rfl⟩ := h
    obtain ⟨second, rfl, he⟩ := spelled_singleton.1 hrest
    exact ⟨first, second, rfl, hd, he⟩
  · intro h
    obtain ⟨first, second, rfl, hd, he⟩ := h
    exact ⟨first, [second], hd, spelled_singleton.2 ⟨second, rfl, he⟩, rfl⟩

theorem unary_iff_spelled {α : Type} {read : List Char → Except OperandError α}
    {make : α → Instruction} {denote : α → Denotation}
    (hread : ∀ text a, read text = .ok a ↔ (denote a).SpelledBy symbols text)
    (hmake : ∀ a, (make a).denotations = [denote a]) :
    (∃ text a, operands = [text] ∧ read text = .ok a ∧ i = make a) ↔
      (∃ a, i = make a) ∧ Spelled symbols operands i.denotations := by
  constructor
  · intro h
    obtain ⟨text, a, hoperands, ha, rfl⟩ := h
    rw [hmake]
    exact ⟨⟨a, rfl⟩, spelled_singleton.2 ⟨text, hoperands, (hread text a).1 ha⟩⟩
  · intro h
    obtain ⟨⟨a, rfl⟩, hspelled⟩ := h
    rw [hmake] at hspelled
    obtain ⟨text, hoperands, ha⟩ := spelled_singleton.1 hspelled
    exact ⟨text, a, hoperands, (hread text a).2 ha, rfl⟩

theorem binary_iff_spelled {α β : Type} {read : List Char → Except OperandError α}
    {read' : List Char → Except OperandError β} {make : α → β → Instruction}
    {denote : α → Denotation} {denote' : β → Denotation}
    (hread : ∀ text a, read text = .ok a ↔ (denote a).SpelledBy symbols text)
    (hread' : ∀ text b, read' text = .ok b ↔ (denote' b).SpelledBy symbols text)
    (hmake : ∀ a b, (make a b).denotations = [denote a, denote' b]) :
    (∃ first second a b, operands = [first, second] ∧ read first = .ok a ∧
      read' second = .ok b ∧ i = make a b) ↔
      (∃ a b, i = make a b) ∧ Spelled symbols operands i.denotations := by
  constructor
  · intro h
    obtain ⟨first, second, a, b, hoperands, ha, hb, rfl⟩ := h
    rw [hmake]
    exact ⟨⟨a, b, rfl⟩, spelled_pair.2
      ⟨first, second, hoperands, (hread first a).1 ha, (hread' second b).1 hb⟩⟩
  · intro h
    obtain ⟨⟨a, b, rfl⟩, hspelled⟩ := h
    rw [hmake] at hspelled
    obtain ⟨first, second, hoperands, ha, hb⟩ := spelled_pair.1 hspelled
    exact ⟨first, second, a, b, hoperands, (hread first a).2 ha, (hread' second b).2 hb, rfl⟩

/-- A form builds an instruction from just the texts that spell its operands. -/
theorem build_iff_spelled {form : Form} (hdenoted : form.Denoted) :
    form.build mnemonic operands symbols = .ok i ↔
      form.Makes i ∧ Spelled symbols operands i.denotations := by
  cases form with
  | implied instruction =>
    rw [build_implied]
    constructor
    · intro h
      obtain ⟨rfl, rfl⟩ := h
      exact ⟨rfl, (hdenoted : i.denotations = []) ▸ .nil⟩
    · intro h
      obtain ⟨rfl, hspelled⟩ := h
      rw [show i.denotations = [] from hdenoted] at hspelled
      cases hspelled
      exact ⟨rfl, rfl⟩
  | location make =>
    exact build_location.trans (unary_iff_spelled (fun _ _ => readLocation_eq_ok) hdenoted)
  | pair make =>
    exact build_pair.trans (unary_iff_spelled (fun _ _ => readWidePair_eq_ok) hdenoted)
  | stack make =>
    exact build_stack.trans (unary_iff_spelled (fun _ _ => readStackPair_eq_ok) hdenoted)
  | pointer make =>
    have hread : ∀ text p, readPointer mnemonic text = .ok p ↔
        Denotation.SpelledBy symbols text (.wide (.pair p.pair)) :=
      fun _ p => readPointer_eq_ok.trans (Iff.of_eq (congrArg (Spells _) p.names_eq))
    exact build_pointer.trans (unary_iff_spelled hread hdenoted)
  | immediate make =>
    exact build_immediate.trans (unary_iff_spelled (fun _ _ => readByte_eq_ok) hdenoted)
  | address make =>
    exact build_address.trans (unary_iff_spelled (fun _ _ => readWord_eq_ok) hdenoted)
  | move =>
    rw [build_move]
    constructor
    · intro h
      obtain ⟨first, second, target, source, hoperands, ht, hs, hm, rfl⟩ := h
      exact ⟨⟨target, source, hm, rfl⟩, spelled_pair.2
        ⟨first, second, hoperands, readLocation_eq_ok.1 ht, readLocation_eq_ok.1 hs⟩⟩
    · intro h
      obtain ⟨⟨target, source, hm, rfl⟩, hspelled⟩ := h
      obtain ⟨first, second, hoperands, ht, hs⟩ := spelled_pair.1 hspelled
      exact ⟨first, second, target, source, hoperands, readLocation_eq_ok.2 ht,
        readLocation_eq_ok.2 hs, hm, rfl⟩
  | moveImmediate =>
    exact build_moveImmediate.trans (binary_iff_spelled (fun _ _ => readLocation_eq_ok)
      (fun _ _ => readByte_eq_ok) fun _ _ => rfl)
  | pairImmediate =>
    exact build_pairImmediate.trans (binary_iff_spelled (fun _ _ => readWidePair_eq_ok)
      (fun _ _ => readWord_eq_ok) fun _ _ => rfl)
  | restart =>
    rw [build_restart]
    constructor
    · intro h
      obtain ⟨text, vector, hoperands, hv, hlt, rfl⟩ := h
      exact ⟨⟨⟨vector.toNat, hlt⟩, rfl⟩,
        spelled_singleton.2 ⟨text, hoperands, readByte_eq_ok.1 hv⟩⟩
    · intro h
      obtain ⟨⟨n, rfl⟩, hspelled⟩ := h
      obtain ⟨text, hoperands, hv⟩ := spelled_singleton.1 hspelled
      obtain ⟨vector, hvector⟩ : ∃ vector : Byte, vector.toNat = n.val := by
        refine ⟨UInt8.ofNat n.val, ?_⟩
        rw [UInt8.toNat_ofNat']
        omega
      refine ⟨text, vector, hoperands, readByte_eq_ok.2 (hvector ▸ hv), hvector ▸ n.isLt, ?_⟩
      exact congrArg Instruction.rst (Fin.ext hvector.symm)

theorem kinds_of_makes {form : Form} (hdenoted : form.Denoted) (h : form.Makes i) :
    i.denotations.map Denotation.kind = form.kinds := by
  cases form with
  | implied instruction =>
    cases h
    rw [show i.denotations = [] from hdenoted]
    rfl
  | move =>
    obtain ⟨target, source, hm, rfl⟩ := h
    rfl
  | moveImmediate =>
    obtain ⟨target, value, rfl⟩ := h
    rfl
  | pairImmediate =>
    obtain ⟨target, value, rfl⟩ := h
    rfl
  | restart =>
    obtain ⟨n, rfl⟩ := h
    rfl
  | _ =>
    obtain ⟨a, rfl⟩ := h
    rw [hdenoted a]
    rfl

/-- The bytes of an instruction are made from its mnemonic and from all texts that spell its
operands, and from nothing else. -/
theorem emitInstruction_iff_spelled :
    emitInstruction symbols mnemonic operands = .ok i.encode ↔
      mnemonic = i.mnemonic ∧ Spelled symbols operands i.denotations := by
  rw [emitInstruction_eq_ok]
  constructor
  · intro h
    obtain ⟨form, j, hform, hbuild, hencode⟩ := h
    have hij : i = j := by
      rw [← i.ofBytes_encode, hencode, j.ofBytes_encode]
    subst hij
    have hmem := mem_of_form hform
    have hmnemonic := (all_mnemonic _ hmem).of_build hbuild
    rw [String.toList_ofList] at hmnemonic
    exact ⟨hmnemonic.symm, ((build_iff_spelled (all_denoted _ hmem)).1 hbuild).2⟩
  · intro h
    obtain ⟨rfl, hspelled⟩ := h
    obtain ⟨form, hform, hmakes⟩ := exists_form i
    have hdenoted := all_denoted _ (mem_of_form hform)
    exact ⟨form, i, hform, (build_iff_spelled hdenoted).2 ⟨hmakes, hspelled⟩, rfl⟩

end

/-! ## The correspondence -/

/-- The texts stand for operands of the kinds that the form takes. -/
def Form.Denotes (form : Form) (symbols : SymbolTable) (texts : List (List Char))
    (operands : List Denotation) : Prop :=
  operands.map Denotation.kind = form.kinds ∧ Spelled symbols texts operands

theorem denotes_iff_of_spelled {form : Form} {symbols : SymbolTable} {texts : List (List Char)}
    {i : Instruction} (hkinds : i.denotations.map Denotation.kind = form.kinds)
    (h : Spelled symbols texts i.denotations) (operands : List Denotation) :
    form.Denotes symbols texts operands ↔ operands = i.denotations := by
  constructor
  · intro hdenotes
    exact hdenotes.2.unique h (hdenotes.1.trans hkinds.symm)
  · intro heq
    subst heq
    exact ⟨hkinds, h⟩

/-- Assigned opcodes with their operand bytes and mnemonics with their operands correspond one to
one. Each such byte sequence, which is just what a processor fetches, can be written without
symbols; no other bytes are ever made; and bytes determine the mnemonic and what the operand texts
stand for. -/
theorem encoding_bijective :
    (∀ opcode rest, opcode ∉ Instruction.unassigned →
      rest.length = Instruction.operandCount opcode →
      (∃ mnemonic texts, ∀ symbols,
        emitInstruction symbols mnemonic texts = .ok (opcode :: rest)) ∧
      ∀ (σ : Type) (cpu : Cpu σ), cpu.memory.Holds cpu.registers.pc (opcode :: rest) →
        cpu.fetch.1 = opcode :: rest) ∧
    (∀ symbols mnemonic texts bytes, emitInstruction symbols mnemonic texts = .ok bytes →
      ∃ opcode rest, bytes = opcode :: rest ∧ opcode ∉ Instruction.unassigned ∧
        rest.length = Instruction.operandCount opcode) ∧
    ∀ symbols mnemonic texts symbols' mnemonic' texts' bytes,
      emitInstruction symbols mnemonic texts = .ok bytes →
      emitInstruction symbols' mnemonic' texts' = .ok bytes →
      mnemonic = mnemonic' ∧ ∃ form operands, form? mnemonic = some form ∧
        (∀ other, form.Denotes symbols texts other ↔ other = operands) ∧
        (∀ other, form.Denotes symbols' texts' other ↔ other = operands) := by
  refine ⟨?_, ?_, ?_⟩
  · intro opcode rest hopcode hlength
    have hencode := Instruction.encode_ofBytes hopcode hlength
    generalize Instruction.ofBytes (opcode :: rest) = i at hencode
    rw [← hencode]
    refine ⟨⟨i.mnemonic, i.denotations.map Denotation.text, fun symbols => ?_⟩, ?_⟩
    · have hspelled : Spelled symbols (i.denotations.map Denotation.text) i.denotations :=
        spelled_texts symbols fun _ => Instruction.value_le_of_mem
      exact emitInstruction_iff_spelled.2 ⟨rfl, hspelled⟩
    · intro σ cpu hholds
      rw [Cpu.fetch_of_holds hholds]
  · intro symbols mnemonic texts bytes h
    obtain ⟨-, i, -, -, rfl⟩ := emitInstruction_eq_ok.1 h
    exact ⟨i.opcode, i.operandBytes, rfl, i.opcode_not_mem_unassigned,
      i.operandCount_opcode.symm⟩
  · intro symbols mnemonic texts symbols' mnemonic' texts' bytes h h'
    obtain ⟨-, i, -, -, rfl⟩ := emitInstruction_eq_ok.1 h
    obtain ⟨rfl, hspelled⟩ := emitInstruction_iff_spelled.1 h
    obtain ⟨rfl, hspelled'⟩ := emitInstruction_iff_spelled.1 h'
    obtain ⟨form, hform, hmakes⟩ := exists_form i
    have hkinds := kinds_of_makes (all_denoted _ (mem_of_form hform)) hmakes
    exact ⟨rfl, form, i.denotations, hform, denotes_iff_of_spelled hkinds hspelled,
      denotes_iff_of_spelled hkinds hspelled'⟩

/-- Both spellings of a pair and of a value name the same operands. -/
theorem encoding_bijective_lxi :
    ∃ operands, (∀ other, Form.pairImmediate.Denotes {} ["b".toList, "16".toList] other ↔
        other = operands) ∧
      (∀ other, Form.pairImmediate.Denotes {} ["BC".toList, "10h".toList] other ↔
        other = operands) ∧
      (∃ mnemonic texts, ∀ symbols, emitInstruction symbols mnemonic texts = .ok [1, 16, 0]) ∧
      ((Cpu.new ()).loadProgram [1, 16, 0] 0x0100).2.fetch.1 = [1, 16, 0] := by
  obtain ⟨hcovered, hassigned, hinjective⟩ := encoding_bijective
  have hb : emitInstruction {} "LXI".toList ["b".toList, "16".toList] = .ok [1, 16, 0] := by
    decide +kernel
  have hbc : emitInstruction {} "LXI".toList ["BC".toList, "10h".toList] = .ok [1, 16, 0] := by
    decide +kernel
  obtain ⟨opcode, rest, hbytes, hopcode, hlength⟩ := hassigned _ _ _ _ hb
  obtain ⟨rfl, rfl⟩ := List.cons.inj hbytes
  obtain ⟨hwritten, hfetch⟩ := hcovered 1 [16, 0] hopcode hlength
  obtain ⟨-, form, operands, hform, hdenotes, hdenotes'⟩ :=
    hinjective _ _ _ _ _ _ _ hb hbc
  have hlxi : form? "LXI".toList = some .pairImmediate := rfl
  obtain rfl := Option.some.inj (hlxi.symm.trans hform)
  exact ⟨operands, hdenotes, hdenotes', hwritten, hfetch _ _ (Memory.holds_load (by decide))⟩

end Assembler
end Banked8085
