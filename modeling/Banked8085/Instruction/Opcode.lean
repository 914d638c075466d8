import Banked8085.Instruction.Basic

/-! # Opcodes

An opcode consists of three bit fields: a group of two bits, then a middle and a lower field of
three bits each. Locations, pairs, conditions and operations are numbered in these fields.

* `Instruction.encode`: the opcode and the operand bytes of an instruction;
* `Instruction.operandCount`: how many operand bytes follow an opcode;
* `Instruction.decode`: the instruction with an opcode and the bytes after it.

Decoding gives back whatever was encoded (`decode_opcode`). The ten opcodes of `unassigned` belong
to no instruction and decode to `nop` (`decode_of_mem_unassigned`).
-/

namespace Banked8085
set_option autoImplicit false

/-! ## Numbers in the bit fields -/

def Location.code : Location → Nat
  | .register .b => 0
  | .register .c => 1
  | .register .d => 2
  | .register .e => 3
  | .register .h => 4
  | .register .l => 5
  | .memory => 6
  | .register .a => 7

def Location.ofCode : Nat → Location
  | 0 => .register .b
  | 1 => .register .c
  | 2 => .register .d
  | 3 => .register .e
  | 4 => .register .h
  | 5 => .register .l
  | 6 => .memory
  | _ => .register .a

theorem Location.code_lt (l : Location) : l.code < 8 := by
  obtain r | _ := l <;> (try cases r) <;> decide

@[simp] theorem Location.ofCode_code (l : Location) : ofCode l.code = l := by
  obtain r | _ := l <;> (try cases r) <;> rfl

def Pair.code : Pair → Nat
  | .bc => 0
  | .de => 1
  | .hl => 2

def WidePair.code : WidePair → Nat
  | .pair p => p.code
  | .sp => 3

def WidePair.ofCode : Nat → WidePair
  | 0 => .pair .bc
  | 1 => .pair .de
  | 2 => .pair .hl
  | _ => .sp

theorem WidePair.code_lt (p : WidePair) : p.code < 4 := by
  obtain q | _ := p <;> (try cases q) <;> decide

@[simp] theorem WidePair.ofCode_code (p : WidePair) : ofCode p.code = p := by
  obtain q | _ := p <;> (try cases q) <;> rfl

def StackPair.code : StackPair → Nat
  | .pair p => p.code
  | .psw => 3

def StackPair.ofCode : Nat → StackPair
  | 0 => .pair .bc
  | 1 => .pair .de
  | 2 => .pair .hl
  | _ => .psw

theorem StackPair.code_lt (p : StackPair) : p.code < 4 := by
  obtain q | _ := p <;> (try cases q) <;> decide

@[simp] theorem StackPair.ofCode_code (p : StackPair) : ofCode p.code = p := by
  obtain q | _ := p <;> (try cases q) <;> rfl

def PointerPair.code (p : PointerPair) : Nat := p.pair.code

def Condition.code : Condition → Nat
  | .notZero => 0
  | .zero => 1
  | .noCarry => 2
  | .carry => 3
  | .parityOdd => 4
  | .parityEven => 5
  | .plus => 6
  | .minus => 7

def Condition.ofCode : Nat → Condition
  | 0 => .notZero
  | 1 => .zero
  | 2 => .noCarry
  | 3 => .carry
  | 4 => .parityOdd
  | 5 => .parityEven
  | 6 => .plus
  | _ => .minus

theorem Condition.code_lt (c : Condition) : c.code < 8 := by
  cases c <;> decide

@[simp] theorem Condition.ofCode_code (c : Condition) : ofCode c.code = c := by
  cases c <;> rfl

def AluOp.code : AluOp → Nat
  | .add => 0
  | .adc => 1
  | .sub => 2
  | .sbb => 3
  | .ana => 4
  | .xra => 5
  | .ora => 6
  | .cmp => 7

def AluOp.ofCode : Nat → AluOp
  | 0 => .add
  | 1 => .adc
  | 2 => .sub
  | 3 => .sbb
  | 4 => .ana
  | 5 => .xra
  | 6 => .ora
  | _ => .cmp

theorem AluOp.code_lt (op : AluOp) : op.code < 8 := by
  cases op <;> decide

@[simp] theorem AluOp.ofCode_code (op : AluOp) : ofCode op.code = op := by
  cases op <;> rfl

namespace Instruction

/-! ## Encoding -/

/-- The opcode with the given group, middle field and lower field. -/
def fields (group middle lower : Nat) : Byte := UInt8.ofNat (64 * group + 8 * middle + lower)

def opcode : Instruction → Byte
  | nop => fields 0 0 0
  | rim => fields 0 4 0
  | sim => fields 0 6 0
  | lxi p _ => fields 0 (2 * p.code) 1
  | dad p => fields 0 (2 * p.code + 1) 1
  | stax p => fields 0 (2 * p.code) 2
  | ldax p => fields 0 (2 * p.code + 1) 2
  | shld _ => fields 0 4 2
  | lhld _ => fields 0 5 2
  | sta _ => fields 0 6 2
  | lda _ => fields 0 7 2
  | inx p => fields 0 (2 * p.code) 3
  | dcx p => fields 0 (2 * p.code + 1) 3
  | inr l => fields 0 l.code 4
  | dcr l => fields 0 l.code 5
  | mvi l _ => fields 0 l.code 6
  | rlc => fields 0 0 7
  | rrc => fields 0 1 7
  | ral => fields 0 2 7
  | rar => fields 0 3 7
  | daa => fields 0 4 7
  | cma => fields 0 5 7
  | stc => fields 0 6 7
  | cmc => fields 0 7 7
  | hlt => fields 1 6 6
  | mov target source _ => fields 1 target.code source.code
  | alu op source => fields 2 op.code source.code
  | retIf c => fields 3 c.code 0
  | pop p => fields 3 (2 * p.code) 1
  | ret => fields 3 1 1
  | pchl => fields 3 5 1
  | sphl => fields 3 7 1
  | jmpIf c _ => fields 3 c.code 2
  | jmp _ => fields 3 0 3
  | output _ => fields 3 2 3
  | input _ => fields 3 3 3
  | xthl => fields 3 4 3
  | xchg => fields 3 5 3
  | di => fields 3 6 3
  | ei => fields 3 7 3
  | callIf c _ => fields 3 c.code 4
  | push p => fields 3 (2 * p.code) 5
  | call _ => fields 3 1 5
  | aluImmediate op _ => fields 3 op.code 6
  | rst n => fields 3 n.val 7

def operandBytes : Instruction → List Byte
  | mvi _ v | aluImmediate _ v | input v | output v => [v]
  | lxi _ w | shld w | lhld w | sta w | lda w => [w.low, w.high]
  | jmp w | jmpIf _ w | call w | callIf _ w => [w.low, w.high]
  | _ => []

def encode (i : Instruction) : List Byte := i.opcode :: i.operandBytes

@[simp] theorem length_encode (i : Instruction) : i.encode.length = i.size := by
  cases i <;> rfl

/-! ## Decoding -/

/-- Group 0: word transfers and arithmetic, single locations, rotations. -/
def decodeData (middle lower : Nat) (value : Byte) (word : Word) : Instruction :=
  let pair := WidePair.ofCode (middle / 2)
  match lower with
  | 0 =>
    match middle with
    | 4 => rim
    | 6 => sim
    | _ => nop
  | 1 => if middle % 2 = 0 then lxi pair word else dad pair
  | 2 =>
    match middle with
    | 0 => stax .bc
    | 1 => ldax .bc
    | 2 => stax .de
    | 3 => ldax .de
    | 4 => shld word
    | 5 => lhld word
    | 6 => sta word
    | _ => lda word
  | 3 => if middle % 2 = 0 then inx pair else dcx pair
  | 4 => inr (.ofCode middle)
  | 5 => dcr (.ofCode middle)
  | 6 => mvi (.ofCode middle) value
  | _ =>
    match middle with
    | 0 => rlc
    | 1 => rrc
    | 2 => ral
    | 3 => rar
    | 4 => daa
    | 5 => cma
    | 6 => stc
    | _ => cmc

/-- Group 1: moves between two locations. -/
def decodeMove (middle lower : Nat) : Instruction :=
  if h : Location.ofCode middle = .memory ∧ Location.ofCode lower = .memory then hlt
  else mov (.ofCode middle) (.ofCode lower) h

/-- Group 3: jumps, calls, returns, stack, ports and immediate arithmetic. -/
def decodeControl (middle lower : Nat) (value : Byte) (word : Word) : Instruction :=
  match lower with
  | 0 => retIf (.ofCode middle)
  | 1 =>
    match middle with
    | 1 => ret
    | 3 => nop
    | 5 => pchl
    | 7 => sphl
    | _ => pop (.ofCode (middle / 2))
  | 2 => jmpIf (.ofCode middle) word
  | 3 =>
    match middle with
    | 0 => jmp word
    | 1 => nop
    | 2 => output value
    | 3 => input value
    | 4 => xthl
    | 5 => xchg
    | 6 => di
    | _ => ei
  | 4 => callIf (.ofCode middle) word
  | 5 =>
    if middle % 2 = 0 then push (.ofCode (middle / 2))
    else if middle = 1 then call word
    else nop
  | 6 => aluImmediate (.ofCode middle) value
  | _ => rst ⟨middle % 8, Nat.mod_lt _ (by decide)⟩

def decodeFields (group middle lower : Nat) (first second : Byte) : Instruction :=
  match group with
  | 0 => decodeData middle lower first (Word.ofBytes second first)
  | 1 => decodeMove middle lower
  | 2 => alu (.ofCode middle) (.ofCode lower)
  | _ => decodeControl middle lower first (Word.ofBytes second first)

/-- The instruction with this opcode; it uses as many of the two bytes after it as it needs. -/
def decode (opcode first second : Byte) : Instruction :=
  decodeFields (opcode.toNat / 64) (opcode.toNat / 8 % 8) (opcode.toNat % 8) first second

def ofBytes (bytes : List Byte) : Instruction :=
  decode (bytes.getD 0 0) (bytes.getD 1 0) (bytes.getD 2 0)

def byteOpcodes : List Byte :=
  [0x06, 0x0E, 0x16, 0x1E, 0x26, 0x2E, 0x36, 0x3E,
    0xC6, 0xCE, 0xD6, 0xDE, 0xE6, 0xEE, 0xF6, 0xFE, 0xDB, 0xD3]

def wordOpcodes : List Byte :=
  [0x01, 0x11, 0x21, 0x31, 0x22, 0x2A, 0x32, 0x3A,
    0xC3, 0xC2, 0xCA, 0xD2, 0xDA, 0xE2, 0xEA, 0xF2, 0xFA,
    0xCD, 0xC4, 0xCC, 0xD4, 0xDC, 0xE4, 0xEC, 0xF4, 0xFC]

def operandCount (opcode : Byte) : Nat :=
  if opcode ∈ byteOpcodes then 1 else if opcode ∈ wordOpcodes then 2 else 0

/-- The opcodes without a documented instruction. They do nothing. -/
def unassigned : List Byte := [0x08, 0x10, 0x18, 0x28, 0x38, 0xCB, 0xD9, 0xDD, 0xED, 0xFD]

theorem decode_of_mem_unassigned {op : Byte} (h : op ∈ unassigned) (first second : Byte) :
    decode op first second = nop := by
  simp only [unassigned, List.mem_cons, List.not_mem_nil, or_false] at h
  rcases h with rfl | rfl | rfl | rfl | rfl | rfl | rfl | rfl | rfl | rfl <;> rfl

/-! ## Decoding what was encoded -/

/-- Decoding splits an opcode into the fields that it was made of. -/
theorem decode_fields {group middle lower : Nat} (hg : group < 4) (hm : middle < 8)
    (hl : lower < 8) (first second : Byte) :
    decode (fields group middle lower) first second =
      decodeFields group middle lower first second := by
  have e : (fields group middle lower).toNat = 64 * group + 8 * middle + lower := by
    rw [fields, UInt8.toNat_ofNat']
    omega
  have hgroup : (64 * group + 8 * middle + lower) / 64 = group := by omega
  have hmiddle : (64 * group + 8 * middle + lower) / 8 % 8 = middle := by omega
  have hlower : (64 * group + 8 * middle + lower) % 8 = lower := by omega
  rw [decode, e, hgroup, hmiddle, hlower]

/-- Decoding the bytes of an instruction, whatever follows them, gives it back. -/
theorem decode_opcode (i : Instruction) (rest : List Byte) :
    decode i.opcode ((i.operandBytes ++ rest).getD 0 0) ((i.operandBytes ++ rest).getD 1 0) =
      i := by
  cases i with
  | mov target source h =>
    rw [opcode, decode_fields (by decide) target.code_lt source.code_lt]
    simp only [decodeFields, decodeMove, Location.ofCode_code]
    exact dif_neg h
  | mvi target value =>
    rw [opcode, decode_fields (by decide) target.code_lt (by decide)]
    simp [decodeFields, decodeData, operandBytes]
  | lxi p w =>
    have hp := p.code_lt
    rw [opcode, decode_fields (by decide) (by omega) (by decide)]
    simp [decodeFields, decodeData, operandBytes]
  | stax p => cases p <;> rfl
  | ldax p => cases p <;> rfl
  | alu op source =>
    rw [opcode, decode_fields (by decide) op.code_lt source.code_lt]
    simp [decodeFields]
  | aluImmediate op value =>
    rw [opcode, decode_fields (by decide) op.code_lt (by decide)]
    simp [decodeFields, decodeControl, operandBytes]
  | inr target =>
    rw [opcode, decode_fields (by decide) target.code_lt (by decide)]
    simp [decodeFields, decodeData]
  | dcr target =>
    rw [opcode, decode_fields (by decide) target.code_lt (by decide)]
    simp [decodeFields, decodeData]
  | inx p =>
    have hp := p.code_lt
    rw [opcode, decode_fields (by decide) (by omega) (by decide)]
    simp [decodeFields, decodeData]
  | dcx p =>
    have hp := p.code_lt
    have hhalf : (2 * p.code + 1) / 2 = p.code := by omega
    rw [opcode, decode_fields (by decide) (by omega) (by decide)]
    simp [decodeFields, decodeData, hhalf]
  | dad p =>
    have hp := p.code_lt
    have hhalf : (2 * p.code + 1) / 2 = p.code := by omega
    rw [opcode, decode_fields (by decide) (by omega) (by decide)]
    simp [decodeFields, decodeData, hhalf]
  | jmpIf c w =>
    rw [opcode, decode_fields (by decide) c.code_lt (by decide)]
    simp [decodeFields, decodeControl, operandBytes]
  | callIf c w =>
    rw [opcode, decode_fields (by decide) c.code_lt (by decide)]
    simp [decodeFields, decodeControl, operandBytes]
  | retIf c =>
    rw [opcode, decode_fields (by decide) c.code_lt (by decide)]
    simp [decodeFields, decodeControl]
  | rst n =>
    rw [opcode, decode_fields (by decide) n.isLt (by decide)]
    simp [decodeFields, decodeControl, Nat.mod_eq_of_lt n.isLt]
  | push p =>
    have hp := p.code_lt
    rw [opcode, decode_fields (by decide) (by omega) (by decide)]
    simp [decodeFields, decodeControl]
  | pop p => obtain p | _ := p <;> (try cases p) <;> rfl
  | input port | output port =>
    rw [opcode, decode_fields (by decide) (by decide) (by decide)]
    simp [decodeFields, decodeControl, operandBytes]
  | sta w | lda w | shld w | lhld w | jmp w | call w =>
    rw [opcode, decode_fields (by decide) (by decide) (by decide)]
    simp [decodeFields, decodeData, decodeControl, operandBytes]
  | _ => rfl

end Instruction
end Banked8085
