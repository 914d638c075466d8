import Banked8085.Instruction.Opcode

/-! # Mnemonics

The names of the instructions and what operands each of them takes:

* `Form`: a shape of operands, with the instruction that they make;
* `Form.size`: the length in bytes, which does not depend on the operands;
* `mnemonics`: the form of each mnemonic, in upper case.
-/

namespace Banked8085.Assembler
set_option autoImplicit false

/-- The operands that a mnemonic takes. -/
inductive Form
  | implied (instruction : Instruction)
  | location (make : Location → Instruction)
  | move
  | moveImmediate
  | pairImmediate
  | pair (make : WidePair → Instruction)
  | stack (make : StackPair → Instruction)
  | pointer (make : PointerPair → Instruction)
  | immediate (make : Byte → Instruction)
  | address (make : Word → Instruction)
  | restart

namespace Form

def size : Form → Nat
  | moveImmediate | immediate _ => 2
  | pairImmediate | address _ => 3
  | _ => 1

/-- The opcode with zeros in the fields for operands. -/
def template : Form → Byte
  | implied i => i.opcode
  | location make => (make (.register .b)).opcode
  | move => Instruction.opcode (.mov (.register .b) (.register .b) (by decide))
  | moveImmediate => Instruction.opcode (.mvi (.register .b) 0)
  | pairImmediate => Instruction.opcode (.lxi (.pair .bc) 0)
  | pair make => (make (.pair .bc)).opcode
  | stack make => (make (.pair .bc)).opcode
  | pointer make => (make .bc).opcode
  | immediate make => (make 0).opcode
  | address make => (make 0).opcode
  | restart => Instruction.opcode (.rst ⟨0, by decide⟩)

end Form

def mnemonics : List (String × Form) :=
  [("NOP", .implied .nop), ("RIM", .implied .rim), ("SIM", .implied .sim),
    ("HLT", .implied .hlt), ("RLC", .implied .rlc), ("RRC", .implied .rrc),
    ("RAL", .implied .ral), ("RAR", .implied .rar), ("DAA", .implied .daa),
    ("CMA", .implied .cma), ("STC", .implied .stc), ("CMC", .implied .cmc),
    ("XCHG", .implied .xchg), ("XTHL", .implied .xthl), ("SPHL", .implied .sphl),
    ("PCHL", .implied .pchl), ("EI", .implied .ei), ("DI", .implied .di),
    ("RET", .implied .ret), ("RNZ", .implied (.retIf .notZero)), ("RZ", .implied (.retIf .zero)),
    ("RNC", .implied (.retIf .noCarry)), ("RC", .implied (.retIf .carry)),
    ("RPO", .implied (.retIf .parityOdd)), ("RPE", .implied (.retIf .parityEven)),
    ("RP", .implied (.retIf .plus)), ("RM", .implied (.retIf .minus)),
    ("MOV", .move), ("MVI", .moveImmediate), ("INR", .location .inr), ("DCR", .location .dcr),
    ("ADD", .location (.alu .add)), ("ADC", .location (.alu .adc)),
    ("SUB", .location (.alu .sub)), ("SBB", .location (.alu .sbb)),
    ("ANA", .location (.alu .ana)), ("XRA", .location (.alu .xra)),
    ("ORA", .location (.alu .ora)), ("CMP", .location (.alu .cmp)),
    ("LXI", .pairImmediate), ("INX", .pair .inx), ("DCX", .pair .dcx), ("DAD", .pair .dad),
    ("PUSH", .stack .push), ("POP", .stack .pop),
    ("STAX", .pointer .stax), ("LDAX", .pointer .ldax),
    ("ADI", .immediate (.aluImmediate .add)), ("ACI", .immediate (.aluImmediate .adc)),
    ("SUI", .immediate (.aluImmediate .sub)), ("SBI", .immediate (.aluImmediate .sbb)),
    ("ANI", .immediate (.aluImmediate .ana)), ("XRI", .immediate (.aluImmediate .xra)),
    ("ORI", .immediate (.aluImmediate .ora)), ("CPI", .immediate (.aluImmediate .cmp)),
    ("IN", .immediate .input), ("OUT", .immediate .output),
    ("STA", .address .sta), ("LDA", .address .lda), ("SHLD", .address .shld),
    ("LHLD", .address .lhld), ("JMP", .address .jmp),
    ("JNZ", .address (.jmpIf .notZero)), ("JZ", .address (.jmpIf .zero)),
    ("JNC", .address (.jmpIf .noCarry)), ("JC", .address (.jmpIf .carry)),
    ("JPO", .address (.jmpIf .parityOdd)), ("JPE", .address (.jmpIf .parityEven)),
    ("JP", .address (.jmpIf .plus)), ("JM", .address (.jmpIf .minus)),
    ("CALL", .address .call),
    ("CNZ", .address (.callIf .notZero)), ("CZ", .address (.callIf .zero)),
    ("CNC", .address (.callIf .noCarry)), ("CC", .address (.callIf .carry)),
    ("CPO", .address (.callIf .parityOdd)), ("CPE", .address (.callIf .parityEven)),
    ("CP", .address (.callIf .plus)), ("CM", .address (.callIf .minus)),
    ("RST", .restart)]

def form? (mnemonic : List Char) : Option Form := mnemonics.lookup (String.ofList mnemonic)

end Banked8085.Assembler
