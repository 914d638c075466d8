import Banked8085.Alu
import Banked8085.Registers

/-! # Instructions

The instruction set as a data type, with typed operands:

* `Location`: a register, or the byte in memory that the pair `HL` points at;
* `WidePair`, `StackPair`, `PointerPair`: the pairs that word arithmetic, the stack and the
  indirect accumulator transfers accept;
* `Condition`: the flag test of a conditional jump, call or return;
* `Instruction`: one instruction with its operands, and `Instruction.size`, its length in bytes.
-/

namespace Banked8085
set_option autoImplicit false

/-! ## Operands -/

/-- A byte operand: a register, or the cell at the address in `HL`. -/
inductive Location
  | register (r : Register)
  | memory
deriving DecidableEq, Repr, Inhabited

/-- A pair on the stack: a register pair, or the accumulator with the packed flags. -/
inductive StackPair
  | pair (p : Pair)
  | psw
deriving DecidableEq, Repr, Inhabited

/-- A pair that holds the address of an indirect accumulator transfer. -/
inductive PointerPair
  | bc | de
deriving DecidableEq, Repr, Inhabited

def PointerPair.pair : PointerPair → Pair
  | .bc => .bc
  | .de => .de

inductive Condition
  | notZero | zero | noCarry | carry | parityOdd | parityEven | plus | minus
deriving DecidableEq, Repr, Inhabited

def Condition.holds : Condition → Flags → Bool
  | .notZero, f => !f.zero
  | .zero, f => f.zero
  | .noCarry, f => !f.carry
  | .carry, f => f.carry
  | .parityOdd, f => !f.parity
  | .parityEven, f => f.parity
  | .plus, f => !f.sign
  | .minus, f => f.sign

/-! ## Instructions -/

/-- One instruction: control, transfers, arithmetic and logic, jumps with calls and returns, the
stack, and ports, in this order. A move from memory to memory does not exist: its place in the opcode
map is taken by `hlt`. -/
inductive Instruction
  | nop | hlt | ei | di | rim | sim
  | mov (target source : Location) (h : ¬(target = .memory ∧ source = .memory))
  | mvi (target : Location) (value : Byte)
  | lxi (target : WidePair) (value : Word)
  | stax (pointer : PointerPair)
  | ldax (pointer : PointerPair)
  | sta (address : Word)
  | lda (address : Word)
  | shld (address : Word)
  | lhld (address : Word)
  | xchg
  | alu (op : AluOp) (source : Location)
  | aluImmediate (op : AluOp) (value : Byte)
  | inr (target : Location)
  | dcr (target : Location)
  | inx (target : WidePair)
  | dcx (target : WidePair)
  | dad (source : WidePair)
  | daa | cma | stc | cmc
  | rlc | rrc | ral | rar
  | jmp (target : Word)
  | jmpIf (condition : Condition) (target : Word)
  | call (target : Word)
  | callIf (condition : Condition) (target : Word)
  | ret
  | retIf (condition : Condition)
  | rst (vector : Fin 8)
  | pchl
  | push (source : StackPair)
  | pop (target : StackPair)
  | xthl
  | sphl
  | input (port : Byte)
  | output (port : Byte)
deriving DecidableEq, Repr, Inhabited

def Instruction.size : Instruction → Nat
  | .mvi .. | .aluImmediate .. | .input _ | .output _ => 2
  | .lxi .. | .sta _ | .lda _ | .shld _ | .lhld _ => 3
  | .jmp _ | .jmpIf .. | .call _ | .callIf .. => 3
  | _ => 1

end Banked8085
