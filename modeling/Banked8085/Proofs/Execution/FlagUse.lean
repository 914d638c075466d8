import Banked8085.Proofs.Execution.Opcodes

/-! # Flags during execution

The opcodes fall into kinds by their use of the flags (`FlagUse.ofOpcode`). An opcode leaves the
flags outside the footprint of its kind as they are, and `FlagUse.Sets` says what becomes of the
others: most results show in sign, zero and parity (`Flags.Shows`). Both hold of every step
(`step_uses_flags`).
-/

namespace Banked8085
set_option autoImplicit false

/-! ## Single flags -/

inductive Flag
  | sign | zero | auxCarry | parity | carry
deriving DecidableEq, Repr

def Flags.get (flags : Flags) : Flag → Bool
  | .sign => flags.sign
  | .zero => flags.zero
  | .auxCarry => flags.auxCarry
  | .parity => flags.parity
  | .carry => flags.carry

/-- Sign, zero and parity are those of a result. -/
structure Flags.Shows (flags : Flags) (result : Byte) : Prop where
  sign : flags.sign = result.bit 7
  zero : flags.zero = (result == 0)
  parity : flags.parity = result.evenParity

theorem Flags.shows_ofResult (flags : Flags) (result : Byte) :
    (flags.ofResult result).Shows result := ⟨rfl, rfl, rfl⟩

/-! ## Kinds of opcodes -/

/-- A kind of opcodes that treat the flags alike. -/
inductive FlagUse
  | arithmetic | comparison | logic | counting | adjusting | carryOnly | loading | none
deriving DecidableEq, Repr

namespace FlagUse

/-- The flags that an opcode of this kind may change. -/
def footprint : FlagUse → List Flag
  | arithmetic | comparison | logic | loading => [.sign, .zero, .auxCarry, .parity, .carry]
  | counting => [.sign, .zero, .parity]
  | adjusting => [.sign, .zero, .parity, .carry]
  | carryOnly => [.carry]
  | none => []

/-- The kind of an opcode, in this order: `ADD`, `ADC`, `SUB` and `SBB`; `ANA`, `XRA` and `ORA`;
`CMP`; `INR`; `DCR`; `DAD`, the rotations, `STC` and `CMC`; `DAA`; `POP PSW`. The immediate forms of
an accumulator operation stand apart from the others. -/
def ofOpcode (op : Byte) : FlagUse :=
  if 0x80 ≤ op ∧ op ≤ 0x9F ∨ op ∈ [0xC6, 0xCE, 0xD6, 0xDE] then arithmetic
  else if 0xA0 ≤ op ∧ op ≤ 0xB7 ∨ op ∈ [0xE6, 0xEE, 0xF6] then logic
  else if 0xB8 ≤ op ∧ op ≤ 0xBF ∨ op = 0xFE then comparison
  else if op ∈ [0x04, 0x0C, 0x14, 0x1C, 0x24, 0x2C, 0x34, 0x3C] then counting
  else if op ∈ [0x05, 0x0D, 0x15, 0x1D, 0x25, 0x2D, 0x35, 0x3D] then counting
  else if op ∈ [0x09, 0x19, 0x29, 0x39, 0x07, 0x0F, 0x17, 0x1F, 0x37, 0x3F] then carryOnly
  else if op = 0x27 then adjusting
  else if op = 0xF1 then loading
  else none

theorem ofOpcode_of_mem_unassigned : ∀ op ∈ Instruction.unassigned, ofOpcode op = none := by
  simp only [Instruction.unassigned, List.forall_mem_cons, List.not_mem_nil, false_implies,
    implies_true, and_true]
  decide

end FlagUse

/-! ## Flags outside a footprint -/

namespace Flags
variable {flag : Flag} (flags : Flags)

theorem get_ofResult (h : flag ∉ FlagUse.counting.footprint) (result : Byte) :
    (flags.ofResult result).get flag = flags.get flag := by
  cases flag with
  | auxCarry | carry => rfl
  | sign | zero | parity => exact absurd (by decide) h

theorem get_with_carry (h : flag ∉ FlagUse.carryOnly.footprint) (carry : Bool) :
    { flags with carry }.get flag = flags.get flag := by
  cases flag with
  | carry => exact absurd (by decide) h
  | _ => rfl

end Flags

/-! ## Kinds of instructions -/

def AluOp.flagUse : AluOp → FlagUse
  | .add | .adc | .sub | .sbb => .arithmetic
  | .ana | .xra | .ora => .logic
  | .cmp => .comparison

namespace Instruction

def flagUse : Instruction → FlagUse
  | .alu op _ | .aluImmediate op _ => op.flagUse
  | .inr _ | .dcr _ => .counting
  | .daa => .adjusting
  | .dad _ | .rlc | .rrc | .ral | .rar | .stc | .cmc => .carryOnly
  | .pop .psw => .loading
  | _ => .none

theorem ofOpcode_opcode (i : Instruction) : FlagUse.ofOpcode i.opcode = i.flagUse := by
  have hlocation : ∀ n < 8, FlagUse.ofOpcode (fields 0 n 4) = .counting ∧
      FlagUse.ofOpcode (fields 0 n 5) = .counting ∧ FlagUse.ofOpcode (fields 0 n 6) = .none := by
    decide
  have hpair : ∀ n < 4, FlagUse.ofOpcode (fields 0 (2 * n) 1) = .none ∧
      FlagUse.ofOpcode (fields 0 (2 * n + 1) 1) = .carryOnly ∧
      FlagUse.ofOpcode (fields 0 (2 * n) 3) = .none ∧
      FlagUse.ofOpcode (fields 0 (2 * n + 1) 3) = .none ∧
      FlagUse.ofOpcode (fields 3 (2 * n) 5) = .none := by decide
  have hcondition : ∀ n < 8, FlagUse.ofOpcode (fields 3 n 0) = .none ∧
      FlagUse.ofOpcode (fields 3 n 2) = .none ∧ FlagUse.ofOpcode (fields 3 n 4) = .none ∧
      FlagUse.ofOpcode (fields 3 n 7) = .none := by decide
  have hmove : ∀ n < 8, ∀ k < 8, FlagUse.ofOpcode (fields 1 n k) = .none := by decide
  have halu : ∀ n < 8, ∀ k < 8, FlagUse.ofOpcode (fields 2 n k) = (AluOp.ofCode n).flagUse := by
    decide
  have himmediate : ∀ n < 8, FlagUse.ofOpcode (fields 3 n 6) = (AluOp.ofCode n).flagUse := by
    decide
  cases i with
  | mov target source h => exact hmove _ target.code_lt _ source.code_lt
  | alu op source =>
    have h := halu _ op.code_lt _ source.code_lt
    rwa [AluOp.ofCode_code] at h
  | aluImmediate op value =>
    have h := himmediate _ op.code_lt
    rwa [AluOp.ofCode_code] at h
  | inr target => exact (hlocation _ target.code_lt).1
  | dcr target => exact (hlocation _ target.code_lt).2.1
  | mvi target value => exact (hlocation _ target.code_lt).2.2
  | lxi p w => exact (hpair _ p.code_lt).1
  | dad p => exact (hpair _ p.code_lt).2.1
  | inx p => exact (hpair _ p.code_lt).2.2.1
  | dcx p => exact (hpair _ p.code_lt).2.2.2.1
  | push p => exact (hpair _ p.code_lt).2.2.2.2
  | retIf c => exact (hcondition _ c.code_lt).1
  | jmpIf c w => exact (hcondition _ c.code_lt).2.1
  | callIf c w => exact (hcondition _ c.code_lt).2.2.1
  | rst n => exact (hcondition _ n.isLt).2.2.2
  | pop p => obtain p | _ := p <;> (try cases p) <;> rfl
  | stax p => cases p <;> rfl
  | ldax p => cases p <;> rfl
  | _ => rfl

end Instruction

/-! ## Results -/

namespace Alu
variable (acc value : Byte) (flags : Flags)

theorem shows_compare : (compare acc value flags).Shows (acc - value) := by
  have hresult : UInt8.ofNat (256 + acc.toNat - value.toNat) = acc - value := by
    have hacc := acc.toNat_lt
    have hvalue := value.toNat_lt
    rw [← UInt8.toNat_inj, UInt8.toNat_ofNat', UInt8.toNat_sub]
    omega
  rw [← hresult]
  exact Flags.shows_ofResult _ _

theorem carry_compare : (compare acc value flags).carry = decide (acc < value) := rfl

theorem shows_decimalAdjust :
    (decimalAdjust acc flags).2.Shows (decimalAdjust acc flags).1 := Flags.shows_ofResult _ _

theorem carry_decimalAdjust (h : flags.carry = true) :
    (decimalAdjust acc flags).2.carry = true := by
  simp [decimalAdjust, Flags.ofResult, h]

end Alu

/-! ## What each kind sets -/

variable {σ : Type}

/-- The byte that a comparison takes: a location by the lowest bits of its opcode, or the next
byte. -/
def Cpu.compared (cpu : Cpu σ) (op : Byte) : Byte :=
  if op = 0xFE then cpu.memory.read (cpu.registers.pc + 1) else cpu.get (.ofCode (op.toNat % 8))

/-- What becomes of the flags in the footprint of an opcode of this kind. Counting shows in the
location that the middle bits of the opcode number. -/
def FlagUse.Sets (op : Byte) (before after : Cpu σ) : FlagUse → Prop
  | arithmetic => after.flags.Shows after.registers.a
  | comparison =>
    after.flags.Shows (before.registers.a - before.compared op) ∧
      after.flags.carry = decide (before.registers.a < before.compared op) ∧
      after.registers.a = before.registers.a
  | logic =>
    after.flags.Shows after.registers.a ∧ after.flags.carry = false ∧ after.flags.auxCarry = false
  | counting => after.flags.Shows (after.get (.ofCode (op.toNat / 8)))
  | adjusting =>
    after.flags.Shows after.registers.a ∧ (before.flags.carry = true → after.flags.carry = true)
  | loading => after.flags = .unpack (before.memory.read before.registers.sp)
  | carryOnly | none => True

namespace Cpu
variable (cpu : Cpu σ)

theorem get_jump (target : Word) (l : Location) : (cpu.jump target).get l = cpu.get l := by
  obtain r | _ := l <;> (try cases r) <;> rfl

theorem get_set (l : Location) (value : Byte) : (cpu.set l value).get l = value := by
  cases l with
  | register r => simp [get, set]
  | memory => simp [get, set, Memory.read_write]

theorem get_with_flags (flags : Flags) (l : Location) : { cpu with flags }.get l = cpu.get l := by
  cases l <;> rfl

theorem flags_set (l : Location) (value : Byte) : (cpu.set l value).flags = cpu.flags := by
  cases l <;> rfl

/-! ## Instructions -/

/-- An instruction keeps the flags that are not in its footprint. -/
theorem flags_execute {i : Instruction} {flag : Flag} (h : flag ∉ i.flagUse.footprint) :
    (cpu.execute i).flags.get flag = cpu.flags.get flag := by
  have hall : ∀ op : AluOp, flag ∈ op.flagUse.footprint := by
    intro op
    cases op <;> cases flag <;> decide
  cases i with
  | alu op source | aluImmediate op value => exact absurd (hall op) h
  | inr | dcr => exact Flags.get_ofResult _ h _
  | dad | rlc | rrc | ral | rar | stc | cmc => exact Flags.get_with_carry _ h _
  | daa =>
    cases flag with
    | auxCarry => rfl
    | _ => exact absurd (by decide) h
  | pop target =>
    cases target with
    | pair p => rfl
    | psw => exact absurd (by cases flag <;> decide) h
  | mov target | mvi target => exact congrArg (Flags.get · flag) (cpu.flags_set target _)
  | output port =>
    simp only [execute, writePort]
    split <;> rfl
  | jmpIf | callIf | retIf =>
    simp only [execute]
    split <;> rfl
  | _ => rfl

/-- An accumulator operation that takes `value` sets the flags of its kind. -/
theorem sets_setResult {op : AluOp} {code value : Byte} (target : Word)
    (hvalue : op = .cmp → cpu.compared code = value) :
    op.flagUse.Sets code cpu
      ((cpu.jump target).setResult (op.apply cpu.registers.a value cpu.flags)) := by
  cases op with
  | add | adc | sub | sbb => exact Flags.shows_ofResult _ _
  | ana | xra | ora => exact ⟨⟨rfl, rfl, rfl⟩, rfl, rfl⟩
  | cmp =>
    rw [← hvalue rfl]
    exact ⟨Alu.shows_compare _ _ _, Alu.carry_compare _ _ _, rfl⟩

/-- Counting a location up or down sets the flags to what it then holds. -/
theorem shows_count (l : Location) (result : Byte) (flags : Flags) :
    (flags.ofResult result).Shows
      ({ cpu.set l result with flags := flags.ofResult result }.get l) := by
  rw [get_with_flags, get_set]
  exact Flags.shows_ofResult _ _

theorem sets_execute {i : Instruction} (h : cpu.memory.Holds cpu.registers.pc i.encode)
    (target : Word) : i.flagUse.Sets i.opcode cpu ((cpu.jump target).execute i) := by
  have hmiddle : ∀ l : Location, Location.ofCode ((Instruction.inr l).opcode.toNat / 8) = l ∧
      Location.ofCode ((Instruction.dcr l).opcode.toNat / 8) = l := by
    intro l
    obtain r | _ := l <;> (try cases r) <;> decide
  have hlower : ∀ l : Location, (Instruction.alu .cmp l).opcode ≠ 0xFE ∧
      Location.ofCode ((Instruction.alu .cmp l).opcode.toNat % 8) = l := by
    intro l
    obtain r | _ := l <;> (try cases r) <;> decide
  cases i with
  | alu op source =>
    refine cpu.sets_setResult target ?_
    rintro rfl
    rw [compared, if_neg (hlower source).1, (hlower source).2, get_jump]
  | aluImmediate op value =>
    refine cpu.sets_setResult target ?_
    rintro rfl
    exact h.tail.head
  | inr l =>
    show Flags.Shows _ (((cpu.jump target).execute (.inr l)).get _)
    rw [(hmiddle l).1]
    exact shows_count _ l _ _
  | dcr l =>
    show Flags.Shows _ (((cpu.jump target).execute (.dcr l)).get _)
    rw [(hmiddle l).2]
    exact shows_count _ l _ _
  | daa => exact ⟨Alu.shows_decimalAdjust _ _, Alu.carry_decimalAdjust _ _⟩
  | pop p =>
    cases p with
    | pair p => trivial
    | psw => exact congrArg Flags.unpack (Word.low_ofBytes _ _)
  | _ => trivial

/-! ## Steps -/

theorem ofOpcode_eq_flagUse :
    FlagUse.ofOpcode (cpu.memory.read cpu.registers.pc) = cpu.instruction.flagUse := by
  obtain ⟨rest, hbytes, -⟩ := cpu.exists_nextBytes_eq
  rw [instruction, hbytes]
  by_cases h : cpu.memory.read cpu.registers.pc ∈ Instruction.unassigned
  · rw [FlagUse.ofOpcode_of_mem_unassigned _ h]
    exact (congrArg Instruction.flagUse (Instruction.decode_of_mem_unassigned h _ _)).symm
  · rw [← Instruction.ofOpcode_opcode]
    exact congrArg FlagUse.ofOpcode (Instruction.opcode_decode h _ _).symm

end Cpu

end Banked8085
