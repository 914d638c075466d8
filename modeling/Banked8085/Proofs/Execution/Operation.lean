import Mathlib.Data.List.Nodup
import Banked8085.Proofs.Assembler.Build
import Banked8085.Proofs.Execution.Change

/-! # The operations that mnemonics name

`Operation` says, for each mnemonic of a transfer or of arithmetic and for its operand texts, what
they change in a state. It goes by the letters of the names and knows no opcode, and it takes the
values of operands from single registers and cells.
`step_performs_operation`: a step over the assembled bytes makes that change and no other.
-/

namespace Banked8085
set_option autoImplicit false

open Assembler

/-! ## Names -/

def Location.names : Location → List (List Char)
  | .register .a => [['A']]
  | .register .b => [['B']]
  | .register .c => [['C']]
  | .register .d => [['D']]
  | .register .e => [['E']]
  | .register .h => [['H']]
  | .register .l => [['L']]
  | .memory => [['M']]

def Pair.names : Pair → List (List Char)
  | .bc => [['B'], ['B', 'C']]
  | .de => [['D'], ['D', 'E']]
  | .hl => [['H'], ['H', 'L']]

def PointerPair.names : PointerPair → List (List Char)
  | .bc => Pair.names .bc
  | .de => Pair.names .de

theorem PointerPair.names_eq (p : PointerPair) : p.names = p.pair.names := by
  cases p <;> rfl

def WidePair.names : WidePair → List (List Char)
  | .pair p => p.names
  | .sp => [['S', 'P']]

def StackPair.names : StackPair → List (List Char)
  | .pair p => p.names
  | .psw => [['P', 'S', 'W']]

/-- A text is one of these names, in some letter case. -/
def Spells (text : List Char) (names : List (List Char)) : Prop := upper text ∈ names

instance (text : List Char) (names : List (List Char)) : Decidable (Spells text names) :=
  inferInstanceAs (Decidable (upper text ∈ names))

theorem readLocation_eq_ok {text : List Char} {l : Location} :
    readLocation text = .ok l ↔ Spells text l.names := by
  constructor
  · intro h
    unfold readLocation at h
    split at h
    case h_9 => cases h
    all_goals
      rename_i htext
      cases h
      simp [Spells, htext, Location.names]
  · intro h
    obtain r | _ := l
    · cases r <;> simp_all [Spells, Location.names, readLocation]
    · simp_all [Spells, Location.names, readLocation]

theorem pair?_eq_some {text : List Char} {p : Pair} :
    pair? text = some p ↔ Spells text p.names := by
  constructor
  · intro h
    unfold pair? at h
    split at h
    case h_7 => cases h
    all_goals
      rename_i htext
      cases h
      simp [Spells, htext, Pair.names]
  · intro h
    cases p <;>
      · simp only [Spells, Pair.names, List.mem_cons, List.not_mem_nil, or_false] at h
        rcases h with h | h <;> simp [pair?, h]

theorem readPair_eq_ok {α : Type} {pair : Pair → α} {last : String} {extra a : α}
    {text : List Char} (hlast : ∀ p : Pair, last.toList ∉ p.names) :
    readPair pair last extra text = .ok a ↔
      (∃ p, a = pair p ∧ Spells text p.names) ∨ a = extra ∧ upper text = last.toList := by
  unfold readPair
  constructor
  · intro h
    split at h
    case h_1 p hp =>
      cases h
      exact .inl ⟨p, rfl, pair?_eq_some.1 hp⟩
    case h_2 =>
      split at h
      case isTrue htext =>
        cases h
        exact .inr ⟨rfl, htext⟩
      case isFalse => cases h
  · intro h
    rcases h with ⟨p, rfl, hp⟩ | ⟨rfl, htext⟩
    · rw [pair?_eq_some.2 hp]
    · have hnone : pair? text = none := by
        by_contra hsome
        obtain ⟨p, hp⟩ := Option.ne_none_iff_exists'.1 hsome
        exact hlast p (htext ▸ pair?_eq_some.1 hp)
      rw [hnone]
      exact if_pos htext

theorem readWidePair_eq_ok {text : List Char} {p : WidePair} :
    readWidePair text = .ok p ↔ Spells text p.names := by
  rw [readWidePair, readPair_eq_ok (by intro p; cases p <;> decide)]
  cases p with
  | pair p => simp [WidePair.names]
  | sp => simp [WidePair.names, Spells]

theorem readStackPair_eq_ok {text : List Char} {p : StackPair} :
    readStackPair text = .ok p ↔ Spells text p.names := by
  rw [readStackPair, readPair_eq_ok (by intro p; cases p <;> decide)]
  cases p with
  | pair p => simp [StackPair.names]
  | psw => simp [StackPair.names, Spells]

theorem readPointer_eq_ok {m text : List Char} {p : PointerPair} :
    readPointer m text = .ok p ↔ Spells text p.names := by
  have hwide : readWidePair text = .ok (.pair p.pair) ↔ Spells text p.names := by
    rw [readWidePair_eq_ok, PointerPair.names_eq]
    rfl
  rw [← hwide, readPointer, bind_eq_ok]
  constructor
  · intro h
    obtain ⟨q, hq, h⟩ := h
    split at h
    · cases h
      exact hq
    · cases h
      exact hq
    · cases h
  · intro h
    refine ⟨_, h, ?_⟩
    cases p <;> rfl

/-! ## Effects -/

/-- What an instruction changes in a state, depending on its operands. -/
inductive Effect (σ : Type)
  | location (change : Cpu σ → Location → Change)
  | move (change : Cpu σ → Location → Location → Change)
  | moveImmediate (change : Cpu σ → Location → Byte → Change)
  | pair (change : Cpu σ → WidePair → Change)
  | pairImmediate (change : Cpu σ → WidePair → Word → Change)
  | stack (change : Cpu σ → StackPair → Change)
  | pointer (change : Cpu σ → PointerPair → Change)
  | immediate (change : Cpu σ → Byte → Change)
  | address (change : Cpu σ → Word → Change)

variable {σ : Type}

/-- With these operand texts, the effect on `cpu` is `change`. -/
def Effect.Means (symbols : SymbolTable) (cpu : Cpu σ) (operands : List (List Char))
    (change : Change) : Effect σ → Prop
  | location f => ∃ text l, operands = [text] ∧ Spells text l.names ∧ change = f cpu l
  | move f => ∃ first second target source, operands = [first, second] ∧
    Spells first target.names ∧ Spells second source.names ∧ change = f cpu target source
  | moveImmediate f => ∃ first second target, ∃ value : Byte, operands = [first, second] ∧
    Spells first target.names ∧ readNumber symbols second = .ok value.toNat ∧
    change = f cpu target value
  | pair f => ∃ text p, operands = [text] ∧ Spells text p.names ∧ change = f cpu p
  | pairImmediate f => ∃ first second target, ∃ value : Word, operands = [first, second] ∧
    Spells first target.names ∧ readNumber symbols second = .ok value.toNat ∧
    change = f cpu target value
  | stack f => ∃ text p, operands = [text] ∧ Spells text p.names ∧ change = f cpu p
  | pointer f => ∃ text p, operands = [text] ∧ Spells text p.names ∧ change = f cpu p
  | immediate f => ∃ text, ∃ value : Byte, operands = [text] ∧
    readNumber symbols text = .ok value.toNat ∧ change = f cpu value
  | address f => ∃ text, ∃ address : Word, operands = [text] ∧
    readNumber symbols text = .ok address.toNat ∧ change = f cpu address

def Change.put (cpu : Cpu σ) (target : Location) (value : Byte) : Change :=
  .location (Operand.pair cpu.registers .hl) value target

def Change.accumulate (f : Byte → Byte → Flags → Byte × Flags) (cpu : Cpu σ) (value : Byte) :
    Change :=
  let result := f cpu.registers.a value cpu.flags
  { registers := [(.a, result.1)], flags := some result.2 }

/-- A byte with the flags that show it. -/
def outcome (result : Byte) (auxCarry carry : Bool) : Byte × Flags :=
  (result, Operand.shown result auxCarry carry)

/-- The operations of the accumulator: the name with a location, the name with an immediate value,
and the new accumulator and flags. An operation that takes the carry in counts the carry that goes
out towards the auxiliary carry. -/
def accumulatorOperations : List (String × String × (Byte → Byte → Flags → Byte × Flags)) :=
  [("ADD", "ADI", fun a value _ =>
      outcome (a + value) (decide (15 < a.toNat % 16 + value.toNat % 16))
        (decide (255 < a.toNat + value.toNat))),
    ("ADC", "ACI", fun a value flags =>
      let carry := decide (255 < a.toNat + value.toNat + flags.carry.toNat)
      outcome (a + value + if flags.carry then 1 else 0)
        (decide (15 < a.toNat % 16 + value.toNat % 16 + carry.toNat)) carry),
    ("SUB", "SUI", fun a value _ =>
      outcome (a - value) (decide (a.toNat % 16 < value.toNat % 16)) (decide (a < value))),
    ("SBB", "SBI", fun a value flags =>
      let borrow := decide (a.toNat < value.toNat + flags.carry.toNat)
      outcome (a - value - if flags.carry then 1 else 0)
        (decide (a.toNat % 16 < value.toNat % 16 + borrow.toNat)) borrow),
    ("ANA", "ANI", fun a value _ => outcome (a &&& value) false false),
    ("XRA", "XRI", fun a value _ => outcome (a ^^^ value) false false),
    ("ORA", "ORI", fun a value _ => outcome (a ||| value) false false),
    ("CMP", "CPI", fun a value _ =>
      (a, Operand.shown (a - value) (decide (a.toNat % 16 < value.toNat % 16))
        (decide (a < value))))]

def effects : List (String × Effect σ) :=
  [("MOV", .move fun cpu target source => .put cpu target (Operand.byte cpu source)),
    ("MVI", .moveImmediate fun cpu target value => .put cpu target value),
    ("INR", .location fun cpu target =>
      let value := Operand.byte cpu target + 1
      { Change.put cpu target value with
        flags := some (Operand.shown value cpu.flags.auxCarry cpu.flags.carry) }),
    ("DCR", .location fun cpu target =>
      let value := Operand.byte cpu target - 1
      { Change.put cpu target value with
        flags := some (Operand.shown value cpu.flags.auxCarry cpu.flags.carry) }),
    ("LXI", .pairImmediate fun _ target value => .wide value target),
    ("INX", .pair fun cpu target => .wide (Operand.wide cpu.registers target + 1) target),
    ("DCX", .pair fun cpu target => .wide (Operand.wide cpu.registers target - 1) target),
    ("DAD", .pair fun cpu source =>
      let hl := Operand.pair cpu.registers .hl
      let value := Operand.wide cpu.registers source
      { Change.wide (hl + value) (.pair .hl) with
        flags := some { cpu.flags with carry := decide (65535 < hl.toNat + value.toNat) } }),
    ("PUSH", .stack fun cpu source =>
      let (high, low) := Operand.pushed cpu source
      { cells := [(cpu.registers.sp - 2, low), (cpu.registers.sp - 1, high)]
        sp := some (cpu.registers.sp - 2) }),
    ("POP", .stack fun cpu target =>
      let high := Operand.cell cpu (cpu.registers.sp + 1)
      let low := Operand.cell cpu cpu.registers.sp
      { Change.popped high low target with sp := some (cpu.registers.sp + 2) }),
    ("STAX", .pointer fun cpu p =>
      { cells := [(Operand.pointer cpu.registers p, cpu.registers.a)] }),
    ("LDAX", .pointer fun cpu p =>
      { registers := [(.a, Operand.cell cpu (Operand.pointer cpu.registers p))] }),
    ("STA", .address fun cpu address => { cells := [(address, cpu.registers.a)] }),
    ("LDA", .address fun cpu address => { registers := [(.a, Operand.cell cpu address)] }),
    ("SHLD", .address fun cpu address =>
      { cells := [(address, cpu.registers.l), (address + 1, cpu.registers.h)] }),
    ("LHLD", .address fun cpu address =>
      { registers := [(.h, Operand.cell cpu (address + 1)), (.l, Operand.cell cpu address)] })] ++
    accumulatorOperations.flatMap fun row =>
      [(row.1, .location fun cpu source => .accumulate row.2.2 cpu (Operand.byte cpu source)),
        (row.2.1, .immediate (.accumulate row.2.2))]

/-- What a mnemonic with these operand texts changes in a state. -/
def Operation (symbols : SymbolTable) (cpu : Cpu σ) (name : String) (operands : List (List Char))
    (change : Change) : Prop :=
  ∃ effect, (name, effect) ∈ effects ∧ effect.Means symbols cpu operands change

def operationNames : List String :=
  ["MOV", "MVI", "INR", "DCR", "LXI", "INX", "DCX", "DAD", "PUSH", "POP", "STAX", "LDAX",
    "STA", "LDA", "SHLD", "LHLD", "ADD", "ADI", "ADC", "ACI", "SUB", "SUI", "SBB", "SBI",
    "ANA", "ANI", "XRA", "XRI", "ORA", "ORI", "CMP", "CPI"]

theorem names_effects (σ : Type) :
    (effects : List (String × Effect σ)).map Prod.fst = operationNames := rfl

/-! ## Operands have one meaning -/

theorem eq_of_read {α : Type} {x : Except OperandError α} {a b : α} (ha : x = .ok a)
    (hb : x = .ok b) : a = b :=
  Except.ok.inj (ha.symm.trans hb)

theorem Effect.Means.unique {symbols : SymbolTable} {cpu : Cpu σ} {operands : List (List Char)}
    {first second : Change} {effect : Effect σ} (h : effect.Means symbols cpu operands first)
    (h' : effect.Means symbols cpu operands second) : first = second := by
  cases effect with
  | location f =>
    obtain ⟨text, l, rfl, hl, rfl⟩ := h
    obtain ⟨_, k, ⟨⟩, hk, rfl⟩ := h'
    rw [eq_of_read (readLocation_eq_ok.2 hl) (readLocation_eq_ok.2 hk)]
  | move f =>
    obtain ⟨text, text', l, m, rfl, hl, hm, rfl⟩ := h
    obtain ⟨_, _, k, n, ⟨⟩, hk, hn, rfl⟩ := h'
    have htarget : l = k := eq_of_read (readLocation_eq_ok.2 hl) (readLocation_eq_ok.2 hk)
    have hsource : m = n := eq_of_read (readLocation_eq_ok.2 hm) (readLocation_eq_ok.2 hn)
    rw [htarget, hsource]
  | moveImmediate f =>
    obtain ⟨text, text', l, v, rfl, hl, hv, rfl⟩ := h
    obtain ⟨_, _, k, w, ⟨⟩, hk, hw, rfl⟩ := h'
    have htarget : l = k := eq_of_read (readLocation_eq_ok.2 hl) (readLocation_eq_ok.2 hk)
    have hvalue : v = w := eq_of_read (readByte_eq_ok.2 hv) (readByte_eq_ok.2 hw)
    rw [htarget, hvalue]
  | pair f =>
    obtain ⟨text, p, rfl, hp, rfl⟩ := h
    obtain ⟨_, q, ⟨⟩, hq, rfl⟩ := h'
    rw [eq_of_read (readWidePair_eq_ok.2 hp) (readWidePair_eq_ok.2 hq)]
  | pairImmediate f =>
    obtain ⟨text, text', p, v, rfl, hp, hv, rfl⟩ := h
    obtain ⟨_, _, q, w, ⟨⟩, hq, hw, rfl⟩ := h'
    have htarget : p = q := eq_of_read (readWidePair_eq_ok.2 hp) (readWidePair_eq_ok.2 hq)
    have hvalue : v = w := eq_of_read (readWord_eq_ok.2 hv) (readWord_eq_ok.2 hw)
    rw [htarget, hvalue]
  | stack f =>
    obtain ⟨text, p, rfl, hp, rfl⟩ := h
    obtain ⟨_, q, ⟨⟩, hq, rfl⟩ := h'
    rw [eq_of_read (readStackPair_eq_ok.2 hp) (readStackPair_eq_ok.2 hq)]
  | pointer f =>
    obtain ⟨text, p, rfl, hp, rfl⟩ := h
    obtain ⟨_, q, ⟨⟩, hq, rfl⟩ := h'
    rw [eq_of_read ((readPointer_eq_ok (m := [])).2 hp) (readPointer_eq_ok.2 hq)]
  | immediate f =>
    obtain ⟨text, v, rfl, hv, rfl⟩ := h
    obtain ⟨_, w, ⟨⟩, hw, rfl⟩ := h'
    rw [eq_of_read (readByte_eq_ok.2 hv) (readByte_eq_ok.2 hw)]
  | address f =>
    obtain ⟨text, v, rfl, hv, rfl⟩ := h
    obtain ⟨_, w, ⟨⟩, hw, rfl⟩ := h'
    rw [eq_of_read (readWord_eq_ok.2 hv) (readWord_eq_ok.2 hw)]

/-! ## Forms realize effects -/

/-- The instructions of a form change just what the effect says. -/
def Effect.Realized : Effect σ → Form → Prop
  | location f, .location make => ∀ cpu next l,
    (f cpu l).Made next cpu ((cpu.jump next).execute (make l))
  | move f, .move => ∀ cpu next target source h,
    (f cpu target source).Made next cpu ((cpu.jump next).execute (.mov target source h))
  | moveImmediate f, .moveImmediate => ∀ cpu next target value,
    (f cpu target value).Made next cpu ((cpu.jump next).execute (.mvi target value))
  | pair f, .pair make => ∀ cpu next p,
    (f cpu p).Made next cpu ((cpu.jump next).execute (make p))
  | pairImmediate f, .pairImmediate => ∀ cpu next target value,
    (f cpu target value).Made next cpu ((cpu.jump next).execute (.lxi target value))
  | stack f, .stack make => ∀ cpu next p,
    (f cpu p).Made next cpu ((cpu.jump next).execute (make p))
  | pointer f, .pointer make => ∀ cpu next p,
    (f cpu p).Made next cpu ((cpu.jump next).execute (make p))
  | immediate f, .immediate make => ∀ cpu next value,
    (f cpu value).Made next cpu ((cpu.jump next).execute (make value))
  | address f, .address make => ∀ cpu next address,
    (f cpu address).Made next cpu ((cpu.jump next).execute (make address))
  | _, _ => False

theorem made_of_build {symbols : SymbolTable} {mnemonic : List Char} {operands : List (List Char)}
    {effect : Effect σ} {form : Form} {i : Instruction} (hrealized : effect.Realized form)
    (h : form.build mnemonic operands symbols = .ok i) (cpu : Cpu σ) (next : Word) :
    ∃ change, effect.Means symbols cpu operands change ∧
      change.Made next cpu ((cpu.jump next).execute i) := by
  cases effect <;> cases form <;> try exact hrealized.elim
  case location.location f make =>
    obtain ⟨text, l, hoperands, hl, rfl⟩ := build_location.1 h
    exact ⟨_, ⟨text, l, hoperands, readLocation_eq_ok.1 hl, rfl⟩, hrealized cpu next l⟩
  case move.move f =>
    obtain ⟨text, text', l, m, hoperands, hl, hm, hne, rfl⟩ := build_move.1 h
    exact ⟨_, ⟨text, text', l, m, hoperands, readLocation_eq_ok.1 hl, readLocation_eq_ok.1 hm, rfl⟩,
      hrealized cpu next l m hne⟩
  case moveImmediate.moveImmediate f =>
    obtain ⟨text, text', l, v, hoperands, hl, hv, rfl⟩ := build_moveImmediate.1 h
    exact ⟨_, ⟨text, text', l, v, hoperands, readLocation_eq_ok.1 hl, readByte_eq_ok.1 hv, rfl⟩,
      hrealized cpu next l v⟩
  case pair.pair f make =>
    obtain ⟨text, p, hoperands, hp, rfl⟩ := build_pair.1 h
    exact ⟨_, ⟨text, p, hoperands, readWidePair_eq_ok.1 hp, rfl⟩, hrealized cpu next p⟩
  case pairImmediate.pairImmediate f =>
    obtain ⟨text, text', p, v, hoperands, hp, hv, rfl⟩ := build_pairImmediate.1 h
    exact ⟨_, ⟨text, text', p, v, hoperands, readWidePair_eq_ok.1 hp, readWord_eq_ok.1 hv, rfl⟩,
      hrealized cpu next p v⟩
  case stack.stack f make =>
    obtain ⟨text, p, hoperands, hp, rfl⟩ := build_stack.1 h
    exact ⟨_, ⟨text, p, hoperands, readStackPair_eq_ok.1 hp, rfl⟩, hrealized cpu next p⟩
  case pointer.pointer f make =>
    obtain ⟨text, p, hoperands, hp, rfl⟩ := build_pointer.1 h
    exact ⟨_, ⟨text, p, hoperands, readPointer_eq_ok.1 hp, rfl⟩, hrealized cpu next p⟩
  case immediate.immediate f make =>
    obtain ⟨text, v, hoperands, hv, rfl⟩ := build_immediate.1 h
    exact ⟨_, ⟨text, v, hoperands, readByte_eq_ok.1 hv, rfl⟩, hrealized cpu next v⟩
  case address.address f make =>
    obtain ⟨text, v, hoperands, hv, rfl⟩ := build_address.1 h
    exact ⟨_, ⟨text, v, hoperands, readWord_eq_ok.1 hv, rfl⟩, hrealized cpu next v⟩

/-! ## The effects of the mnemonics -/

section Mnemonics
variable (cpu : Cpu σ) (next : Word)

theorem made_put (target : Location) (value : Byte) :
    (Change.put cpu target value).Made next cpu ((cpu.jump next).set target value) :=
  (Change.made_set (cpu.jump next) target value).of_jump

theorem made_wide (target : WidePair) (value : Word) :
    (Change.wide value target).Made next cpu ((cpu.jump next).setWide target value) :=
  (Change.made_setWide (cpu.jump next) target value).of_jump

theorem made_write (address : Word) (value : Byte) :
    Change.Made { cells := [(address, value)] } next cpu
      { cpu.jump next with memory := cpu.memory.write address value } :=
  (Change.made_write (cpu.jump next) address value).of_jump

theorem made_mov (target source : Location) (h : ¬(target = .memory ∧ source = .memory)) :
    (Change.put cpu target (Operand.byte cpu source)).Made next cpu
      ((cpu.jump next).execute (.mov target source h)) := by
  rw [Operand.byte_eq]
  exact made_put cpu next target (cpu.get source)

theorem made_inr (target : Location) :
    { Change.put cpu target (Operand.byte cpu target + 1) with
      flags := some (Operand.shown (Operand.byte cpu target + 1) cpu.flags.auxCarry
        cpu.flags.carry) }.Made next cpu
      ((cpu.jump next).execute (.inr target)) := by
  rw [Operand.byte_eq, Operand.shown_eq cpu.flags]
  exact (made_put cpu next target (cpu.get target + 1)).with_flags _

theorem made_dcr (target : Location) :
    { Change.put cpu target (Operand.byte cpu target - 1) with
      flags := some (Operand.shown (Operand.byte cpu target - 1) cpu.flags.auxCarry
        cpu.flags.carry) }.Made next cpu
      ((cpu.jump next).execute (.dcr target)) := by
  rw [Operand.byte_eq, Operand.shown_eq cpu.flags]
  exact (made_put cpu next target (cpu.get target - 1)).with_flags _

theorem made_inx (target : WidePair) :
    (Change.wide (Operand.wide cpu.registers target + 1) target).Made next cpu
      ((cpu.jump next).execute (.inx target)) := by
  rw [Operand.wide_eq]
  exact made_wide cpu next target (cpu.registers.wide target + 1)

theorem made_dcx (target : WidePair) :
    (Change.wide (Operand.wide cpu.registers target - 1) target).Made next cpu
      ((cpu.jump next).execute (.dcx target)) := by
  rw [Operand.wide_eq]
  exact made_wide cpu next target (cpu.registers.wide target - 1)

theorem made_dad (source : WidePair) :
    { Change.wide (Operand.pair cpu.registers .hl + Operand.wide cpu.registers source) (.pair .hl)
      with
      flags := some { cpu.flags with carry := decide (65535 <
        (Operand.pair cpu.registers .hl).toNat + (Operand.wide cpu.registers source).toNat) }
      }.Made next cpu ((cpu.jump next).execute (.dad source)) := by
  rw [Operand.wide_eq, Operand.pair_eq]
  have hsum := made_wide cpu next (.pair .hl)
    (cpu.registers.pair .hl + cpu.registers.wide source)
  exact hsum.with_flags _

theorem made_stax (p : PointerPair) :
    Change.Made { cells := [(Operand.pointer cpu.registers p, cpu.registers.a)] } next cpu
      ((cpu.jump next).execute (.stax p)) := by
  rw [Operand.pointer_eq]
  exact made_write cpu next (cpu.registers.pair p.pair) cpu.registers.a

theorem made_ldax (p : PointerPair) :
    Change.Made { registers := [(.a, Operand.cell cpu (Operand.pointer cpu.registers p))] } next cpu
      ((cpu.jump next).execute (.ldax p)) := by
  rw [Operand.pointer_eq]
  exact made_put cpu next (.register .a) (cpu.memory.read (cpu.registers.pair p.pair))

theorem made_shld (address : Word) :
    Change.Made { cells := [(address, cpu.registers.l), (address + 1, cpu.registers.h)] } next cpu
      ((cpu.jump next).execute (.shld address)) := by
  have hmade := (Change.made_writeWord (cpu.jump next) address (cpu.registers.pair .hl)).of_jump
  rw [Registers.pair, Word.high_ofBytes, Word.low_ofBytes] at hmade
  exact hmade

theorem made_lhld (address : Word) :
    Change.Made
      { registers := [(.h, Operand.cell cpu (address + 1)), (.l, Operand.cell cpu address)] } next
      cpu ((cpu.jump next).execute (.lhld address)) := by
  have hmade := (Change.made_setPair (cpu.jump next) .hl (cpu.memory.readWord address)).of_jump
  rw [Memory.readWord, Word.high_ofBytes, Word.low_ofBytes] at hmade
  exact hmade

theorem made_push (source : StackPair) :
    Change.Made
      { cells := [(cpu.registers.sp - 2, (Operand.pushed cpu source).2),
          (cpu.registers.sp - 1, (Operand.pushed cpu source).1)]
        sp := some (cpu.registers.sp - 2) } next cpu
      ((cpu.jump next).execute (.push source)) := by
  rw [Operand.pushed_eq]
  exact (Change.made_pushWord (cpu.jump next) (cpu.stackPair source)).of_jump

theorem made_pop (target : StackPair) :
    Change.Made
      { Change.popped (Operand.cell cpu (cpu.registers.sp + 1)) (Operand.cell cpu cpu.registers.sp)
          target with
        sp := some (cpu.registers.sp + 2) } next cpu
      ((cpu.jump next).execute (.pop target)) := by
  have hmade := (Change.made_popWord (cpu.jump next) target cpu.top).of_jump
  rw [Cpu.top, Memory.readWord, Word.high_ofBytes, Word.low_ofBytes] at hmade
  exact hmade

theorem made_sta (address : Word) :
    Change.Made { cells := [(address, cpu.registers.a)] } next cpu
      ((cpu.jump next).execute (.sta address)) :=
  made_write cpu next address cpu.registers.a

theorem made_lda (address : Word) :
    Change.Made { registers := [(.a, Operand.cell cpu address)] } next cpu
      ((cpu.jump next).execute (.lda address)) :=
  made_put cpu next (.register .a) (cpu.memory.read address)

end Mnemonics

section Accumulator
variable (op : AluOp) (cpu : Cpu σ) (next : Word)

theorem made_accumulate (value : Byte) :
    (Change.accumulate op.apply cpu value).Made next cpu
      ((cpu.jump next).execute (.aluImmediate op value)) :=
  (Change.made_setResult (cpu.jump next) (op.apply cpu.registers.a value cpu.flags)).of_jump

theorem made_alu (source : Location) :
    (Change.accumulate op.apply cpu (Operand.byte cpu source)).Made next cpu
      ((cpu.jump next).execute (.alu op source)) := by
  rw [Operand.byte_eq]
  exact made_accumulate op cpu next (cpu.get source)

end Accumulator

theorem fst_add (a value : Byte) (withCarry : Bool) (flags : Flags) :
    (Alu.add a value withCarry flags).1 =
      a + value + (if withCarry && flags.carry then 1 else 0) := by
  show UInt8.ofNat (a.toNat + value.toNat + _) = _
  rw [UInt8.ofNat_add, UInt8.ofNat_add, UInt8.ofNat_toNat, UInt8.ofNat_toNat]
  cases withCarry && flags.carry <;> rfl

theorem fst_subtract (a value : Byte) (withBorrow : Bool) (flags : Flags) :
    (Alu.subtract a value withBorrow flags).1 =
      a - value - (if withBorrow && flags.carry then 1 else 0) := by
  have ha := a.toNat_lt
  have hvalue := value.toNat_lt
  show UInt8.ofNat (256 + a.toNat - (value.toNat + (withBorrow && flags.carry).toNat)) = _
  rw [← UInt8.toNat_inj, UInt8.toNat_ofNat', UInt8.toNat_sub, UInt8.toNat_sub]
  cases withBorrow && flags.carry
  case false =>
    show _ = (2 ^ 8 - 0 + _) % 2 ^ 8
    rw [Bool.toNat_false]
    omega
  case true =>
    show _ = (2 ^ 8 - 1 + _) % 2 ^ 8
    rw [Bool.toNat_true]
    omega

theorem outcome_eq (flags : Flags) (result : Byte) (auxCarry carry : Bool) :
    outcome result auxCarry carry = (result, { flags with auxCarry, carry }.ofResult result) :=
  Prod.ext rfl (Operand.shown_eq flags result auxCarry carry)

theorem add_eq_outcome (a value : Byte) (withCarry : Bool) (flags : Flags) :
    let carryIn := withCarry && flags.carry
    let carry := decide (255 < a.toNat + value.toNat + carryIn.toNat)
    Alu.add a value withCarry flags = outcome (a + value + if carryIn then 1 else 0)
      (decide (15 < a.toNat % 16 + value.toNat % 16 + (withCarry && carry).toNat)) carry := by
  intro carryIn carry
  rw [outcome_eq flags, ← fst_add]
  rfl

theorem subtract_eq_outcome (a value : Byte) (withBorrow : Bool) (flags : Flags) :
    let borrowIn := withBorrow && flags.carry
    let borrow := decide (a.toNat < value.toNat + borrowIn.toNat)
    Alu.subtract a value withBorrow flags = outcome (a - value - if borrowIn then 1 else 0)
      (decide (a.toNat % 16 < value.toNat % 16 + (withBorrow && borrow).toNat)) borrow := by
  intro borrowIn borrow
  rw [outcome_eq flags, ← fst_subtract]
  rfl

theorem subtract_false_eq (a value : Byte) (flags : Flags) :
    Alu.subtract a value false flags =
      outcome (a - value) (decide (a.toNat % 16 < value.toNat % 16)) (decide (a < value)) :=
  (subtract_eq_outcome a value false flags).trans
    (congrArg (outcome · _ _) (UInt8.sub_zero _))

theorem operation_of_row : ∀ row ∈ accumulatorOperations, ∃ op : AluOp,
    form? row.1.toList = some (.location (.alu op)) ∧
      form? row.2.1.toList = some (.immediate (.aluImmediate op)) ∧ row.2.2 = op.apply := by
  simp only [accumulatorOperations, List.forall_mem_cons, List.not_mem_nil, false_implies,
    implies_true, and_true]
  refine ⟨⟨.add, rfl, rfl, ?_⟩, ⟨.adc, rfl, rfl, ?_⟩, ⟨.sub, rfl, rfl, ?_⟩,
    ⟨.sbb, rfl, rfl, ?_⟩, ⟨.ana, rfl, rfl, ?_⟩, ⟨.xra, rfl, rfl, ?_⟩, ⟨.ora, rfl, rfl, ?_⟩,
    ⟨.cmp, rfl, rfl, ?_⟩⟩ <;> funext a value flags
  · exact (congrArg (outcome · _ _) (UInt8.add_zero _)).symm.trans
      (add_eq_outcome a value false flags).symm
  · exact (add_eq_outcome a value true flags).symm
  · exact (subtract_false_eq a value flags).symm
  · exact (subtract_eq_outcome a value true flags).symm
  · exact outcome_eq flags _ _ _
  · exact outcome_eq flags _ _ _
  · exact outcome_eq flags _ _ _
  · exact Prod.ext rfl (congrArg Prod.snd (subtract_false_eq a value flags)).symm

theorem realized_of_mem {name : String} {effect : Effect σ} (h : (name, effect) ∈ effects) :
    ∃ form, form? name.toList = some form ∧ effect.Realized form := by
  rcases List.mem_append.1 h with hmem | hmem
  · simp only [List.mem_cons, List.not_mem_nil, or_false, Prod.mk.injEq] at hmem
    rcases hmem with ⟨rfl, rfl⟩ | ⟨rfl, rfl⟩ | ⟨rfl, rfl⟩ | ⟨rfl, rfl⟩ | ⟨rfl, rfl⟩ | ⟨rfl, rfl⟩ |
      ⟨rfl, rfl⟩ | ⟨rfl, rfl⟩ | ⟨rfl, rfl⟩ | ⟨rfl, rfl⟩ | ⟨rfl, rfl⟩ | ⟨rfl, rfl⟩ | ⟨rfl, rfl⟩ |
      ⟨rfl, rfl⟩ | ⟨rfl, rfl⟩ | ⟨rfl, rfl⟩
    · exact ⟨.move, rfl, made_mov⟩
    · exact ⟨.moveImmediate, rfl, made_put⟩
    · exact ⟨.location .inr, rfl, made_inr⟩
    · exact ⟨.location .dcr, rfl, made_dcr⟩
    · exact ⟨.pairImmediate, rfl, made_wide⟩
    · exact ⟨.pair .inx, rfl, made_inx⟩
    · exact ⟨.pair .dcx, rfl, made_dcx⟩
    · exact ⟨.pair .dad, rfl, made_dad⟩
    · exact ⟨.stack .push, rfl, made_push⟩
    · exact ⟨.stack .pop, rfl, made_pop⟩
    · exact ⟨.pointer .stax, rfl, made_stax⟩
    · exact ⟨.pointer .ldax, rfl, made_ldax⟩
    · exact ⟨.address .sta, rfl, made_sta⟩
    · exact ⟨.address .lda, rfl, made_lda⟩
    · exact ⟨.address .shld, rfl, made_shld⟩
    · exact ⟨.address .lhld, rfl, made_lhld⟩
  · obtain ⟨⟨name, immediate, f⟩, hrow, hmem⟩ := List.mem_flatMap.1 hmem
    obtain ⟨op, hname, himmediate, rfl⟩ := operation_of_row _ hrow
    simp only [List.mem_cons, List.not_mem_nil, or_false, Prod.mk.injEq] at hmem
    rcases hmem with ⟨rfl, rfl⟩ | ⟨rfl, rfl⟩
    · exact ⟨.location (.alu op), hname, made_alu op⟩
    · exact ⟨.immediate (.aluImmediate op), himmediate, made_accumulate op⟩

theorem effect_unique {name : String} {first second : Effect σ}
    (h : (name, first) ∈ effects) (h' : (name, second) ∈ effects) : first = second := by
  have hnodup : ((effects : List (String × Effect σ)).map Prod.fst).Nodup := by
    rw [names_effects]
    decide +kernel
  have heq := List.inj_on_of_nodup_map hnodup h h' rfl
  exact (Prod.mk.inj heq).2

/-- Operands that are accepted give a mnemonic one operation. A step over the assembled bytes
performs it and changes nothing else. -/
theorem step_performs_operation {symbols : SymbolTable} {name : String}
    {operands : List (List Char)} {bytes : List Byte} {cpu : Cpu σ}
    (hname : name ∈ operationNames)
    (hemit : emitInstruction symbols name.toList operands = .ok bytes)
    (hrunning : cpu.halted = false) (hholds : cpu.memory.Holds cpu.registers.pc bytes) :
    ∃ change, (∀ other, Operation symbols cpu name operands other ↔ other = change) ∧
      change.Made (cpu.registers.pc + UInt16.ofNat bytes.length) cpu cpu.next := by
  obtain ⟨form, i, hform, hbuild, rfl⟩ := emitInstruction_eq_ok.1 hemit
  rw [← names_effects σ] at hname
  obtain ⟨⟨_, effect⟩, hmem, rfl⟩ := List.mem_map.1 hname
  obtain ⟨form', hform', hrealized⟩ := realized_of_mem hmem
  cases hform.symm.trans hform'
  obtain ⟨change, hmeans, hmade⟩ := made_of_build hrealized hbuild cpu
    (cpu.registers.pc + UInt16.ofNat i.encode.length)
  refine ⟨change, ?_, ?_⟩
  · intro other
    constructor
    · intro h
      obtain ⟨effect', hmem', hmeans'⟩ := h
      cases effect_unique hmem hmem'
      exact hmeans'.unique hmeans
    · intro h
      exact ⟨effect, hmem, h ▸ hmeans⟩
  · rw [Cpu.next_of_holds hrunning hholds]
    exact hmade

/-- `LXI` to the fourth pair, and an addition of the byte that `HL` points at. -/
theorem step_performs_operation_operands :
    (∃ cpu : Cpu Unit, cpu = ((Cpu.new ()).loadProgram [0x31, 0x34, 0x12] 0x0100).2 ∧
      emitInstruction {} "LXI".toList ["sp".toList, "1234h".toList] = .ok [0x31, 0x34, 0x12] ∧
      cpu.next.registers.sp = 0x1234 ∧ cpu.next.registers.pc = 0x0103) ∧
    ∃ cpu : Cpu Unit,
      cpu = { ((Cpu.new ()).load [0x86, 0x30] 0x0100).2 with
        registers := { a := 0x02, h := 0x01, l := 0x01, pc := 0x0100 } } ∧
      emitInstruction {} "ADD".toList ["m".toList] = .ok [0x86] ∧
      cpu.next.registers.a = 0x32 ∧ cpu.next.memory.peek cpu.memory.active 0x0101 = 0x30 := by
  constructor
  · refine ⟨_, rfl, ?_⟩
    generalize hcpu : ((Cpu.new ()).loadProgram [0x31, 0x34, 0x12] 0x0100).2 = cpu
    have hholds : cpu.memory.Holds 0x0100 [0x31, 0x34, 0x12] := by
      rw [← hcpu]
      exact Memory.holds_load (by decide)
    have hpc : cpu.registers.pc = 0x0100 := by
      rw [← hcpu]
      rfl
    have hrunning : cpu.halted = false := by
      rw [← hcpu]
      rfl
    have hemit : emitInstruction {} "LXI".toList ["sp".toList, "1234h".toList] =
        .ok [0x31, 0x34, 0x12] := by decide +kernel
    have hlxi : Operation {} cpu "LXI" ["sp".toList, "1234h".toList] { sp := some 0x1234 } := by
      refine ⟨.pairImmediate fun _ target value => .wide value target, ?_, ?_⟩
      · simp [effects]
      · exact ⟨_, _, .sp, 0x1234, rfl, by decide +kernel, by decide +kernel, rfl⟩
    obtain ⟨change, hunique, hmade⟩ := step_performs_operation (by decide +kernel) hemit hrunning
      (hpc ▸ hholds)
    cases (hunique _).1 hlxi
    have hsp := hmade.sp
    have hnext := hmade.pc
    rw [hpc] at hnext
    exact ⟨hemit, hsp, hnext⟩
  · refine ⟨_, rfl, ?_⟩
    generalize hcpu : ({ ((Cpu.new ()).load [0x86, 0x30] 0x0100).2 with
      registers := { a := 0x02, h := 0x01, l := 0x01, pc := 0x0100 } } : Cpu Unit) = cpu
    have hholds : cpu.memory.Holds 0x0100 ([0x86] ++ [0x30]) := by
      rw [← hcpu]
      exact Memory.holds_load (by decide)
    have hregisters : cpu.registers = { a := 0x02, h := 0x01, l := 0x01, pc := 0x0100 } := by
      rw [← hcpu]
    have hpc : cpu.registers.pc = 0x0100 := by rw [hregisters]
    have hrunning : cpu.halted = false := by
      rw [← hcpu]
      rfl
    have hemit : emitInstruction {} "ADD".toList ["m".toList] = .ok [0x86] := by decide +kernel
    have hbyte : Operand.byte cpu .memory = 0x30 := by
      rw [Operand.byte, Operand.pair, hregisters]
      exact hholds 1 (by decide)
    have hadd : Operation {} cpu "ADD" ["m".toList]
        (.accumulate (fun a value _ => outcome (a + value)
          (decide (15 < a.toNat % 16 + value.toNat % 16)) (decide (255 < a.toNat + value.toNat)))
          cpu (Operand.byte cpu .memory)) :=
      ⟨_, List.mem_append_right _ (List.mem_flatMap.2 ⟨_, List.mem_cons_self,
        List.mem_cons_self⟩), _, .memory, rfl, by decide +kernel, rfl⟩
    obtain ⟨change, hunique, hmade⟩ := step_performs_operation (by decide +kernel) hemit hrunning
      (hpc ▸ hholds.left)
    cases (hunique _).1 hadd
    have ha := hmade.register .a
    have hcell := hmade.cell cpu.memory.active 0x0101
    rw [hbyte, Change.accumulate, hregisters] at ha
    rw [if_pos rfl] at hcell
    exact ⟨hemit, ha, hcell.trans (hholds 1 (by decide))⟩

end Banked8085
