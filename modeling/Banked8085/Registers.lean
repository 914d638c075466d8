import Banked8085.Word
import Banked8085.Text.Hex

/-! # The register file

Seven eight-bit registers, the stack pointer and the program counter. Pairs are views of two
registers, the first one holding the high byte:

* `Registers.get`, `Registers.set`: one register;
* `Registers.pair`, `Registers.setPair`: `BC`, `DE` or `HL` as a word;
* `Registers.wide`, `Registers.setWide`: the same with `SP` as the fourth pair.
-/

namespace Banked8085
set_option autoImplicit false

inductive Register
  | a | b | c | d | e | h | l
deriving DecidableEq, Repr, Inhabited

inductive Pair
  | bc | de | hl
deriving DecidableEq, Repr, Inhabited

/-- A pair of word arithmetic: a register pair or the stack pointer. -/
inductive WidePair
  | pair (p : Pair)
  | sp
deriving DecidableEq, Repr, Inhabited

def Pair.upper : Pair → Register
  | .bc => .b
  | .de => .d
  | .hl => .h

def Pair.lower : Pair → Register
  | .bc => .c
  | .de => .e
  | .hl => .l

/-- The register file. After a reset the stack pointer is at the top of the address space and all
other registers are zero. -/
structure Registers where
  a : Byte := 0
  b : Byte := 0
  c : Byte := 0
  d : Byte := 0
  e : Byte := 0
  h : Byte := 0
  l : Byte := 0
  sp : Word := 0xFFFF
  pc : Word := 0
deriving DecidableEq, Repr, Inhabited

namespace Registers

def get (r : Registers) : Register → Byte
  | .a => r.a
  | .b => r.b
  | .c => r.c
  | .d => r.d
  | .e => r.e
  | .h => r.h
  | .l => r.l

def set (r : Registers) (name : Register) (value : Byte) : Registers :=
  match name with
  | .a => { r with a := value }
  | .b => { r with b := value }
  | .c => { r with c := value }
  | .d => { r with d := value }
  | .e => { r with e := value }
  | .h => { r with h := value }
  | .l => { r with l := value }

@[simp] theorem get_set (r : Registers) (m n : Register) (value : Byte) :
    (r.set m value).get n = if m = n then value else r.get n := by
  cases m <;> cases n <;> rfl

@[simp] theorem sp_set (r : Registers) (n : Register) (value : Byte) :
    (r.set n value).sp = r.sp := by
  cases n <;> rfl

@[simp] theorem pc_set (r : Registers) (n : Register) (value : Byte) :
    (r.set n value).pc = r.pc := by
  cases n <;> rfl

def pair (r : Registers) (p : Pair) : Word := Word.ofBytes (r.get p.upper) (r.get p.lower)

def setPair (r : Registers) (p : Pair) (value : Word) : Registers :=
  (r.set p.upper value.high).set p.lower value.low

@[simp] theorem pair_setPair (r : Registers) (p : Pair) (value : Word) :
    (r.setPair p value).pair p = value := by
  cases p <;> simp [pair, setPair, Pair.upper, Pair.lower]

theorem pair_setPair_of_ne (r : Registers) {p q : Pair} (value : Word) (h : p ≠ q) :
    (r.setPair p value).pair q = r.pair q := by
  cases p <;> cases q <;> simp_all [pair, setPair, Pair.upper, Pair.lower]

@[simp] theorem setPair_pair (r : Registers) (p : Pair) : r.setPair p (r.pair p) = r := by
  cases p <;> simp [pair, setPair, Pair.upper, Pair.lower, set, get]

@[simp] theorem sp_setPair (r : Registers) (p : Pair) (value : Word) :
    (r.setPair p value).sp = r.sp := by
  simp [setPair]

@[simp] theorem pc_setPair (r : Registers) (p : Pair) (value : Word) :
    (r.setPair p value).pc = r.pc := by
  simp [setPair]

def wide (r : Registers) : WidePair → Word
  | .pair p => r.pair p
  | .sp => r.sp

def setWide (r : Registers) (p : WidePair) (value : Word) : Registers :=
  match p with
  | .pair p => r.setPair p value
  | .sp => { r with sp := value }

@[simp] theorem wide_setWide (r : Registers) (p : WidePair) (value : Word) :
    (r.setWide p value).wide p = value := by
  cases p <;> simp [wide, setWide]

/-- The registers on two lines: the seven bytes, then the two words. -/
def text (r : Registers) : String :=
  "A:" ++ Hex.byte r.a ++ " B:" ++ Hex.byte r.b ++ " C:" ++ Hex.byte r.c ++
    " D:" ++ Hex.byte r.d ++ " E:" ++ Hex.byte r.e ++ " H:" ++ Hex.byte r.h ++
    " L:" ++ Hex.byte r.l ++ "\nSP:" ++ Hex.word r.sp ++ " PC:" ++ Hex.word r.pc

end Registers
end Banked8085
