import Mathlib.Tactic.FinCases
import Banked8085.Proofs.Execution.Stores

/-! # Words in memory

Five instructions store a word and five load one, and operands of three-byte instructions are words
as well. `Instruction.storedWord?` and `Instruction.loadedFrom?` say which word goes where. All of
them keep to one convention: the bytes `[w.low, w.high]` from the address on, which wraps
(`execute_of_storedWord`, `receives_of_holds`, `wordOperand_of_holds`). So whatever one of them stores
is read back by each of the others (`stored_words_are_read_back`).
-/

namespace Banked8085
set_option autoImplicit false

/-! ## The two bytes of a word -/

namespace Memory
variable {m : Memory} {a w : Word}

theorem Holds.cons {start : Word} {b : Byte} {bytes : List Byte} (hfirst : m.read start = b)
    (hrest : m.Holds (start + 1) bytes) : m.Holds start (b :: bytes) := by
  intro k hk
  cases k with
  | zero => simpa using hfirst
  | succ k =>
    have haddress : start + UInt16.ofNat (k + 1) = start + 1 + UInt16.ofNat k := by
      rw [UInt16.ofNat_add, UInt16.add_assoc, UInt16.add_comm 1]
      rfl
    rw [haddress, List.getElem_cons_succ]
    exact hrest k (Nat.lt_of_succ_lt_succ hk)

theorem Holds.bytesAt_eq {start : Word} {bytes : List Byte} (h : m.Holds start bytes) :
    m.bytesAt start bytes.length = bytes := by
  refine List.ext_getElem (m.length_bytesAt start _) ?_
  intro k hk hk'
  rw [← h k hk']
  exact (m.holds_bytesAt start bytes.length k hk).symm

theorem holds_word_iff :
    m.Holds a [w.low, w.high] ↔ m.read a = w.low ∧ m.read (a + 1) = w.high :=
  ⟨fun h => ⟨h.head, h.tail.head⟩, fun h => .cons h.1 (.cons h.2 nofun)⟩

theorem holds_writeWord (m : Memory) (a w : Word) :
    (m.writeWord a w).Holds a [w.low, w.high] := by
  have hne : a + 1 ≠ a := succ_ne a
  simp [holds_word_iff, writeWord, read_write, hne]

theorem Holds.readWord_eq (h : m.Holds a [w.low, w.high]) : m.readWord a = w := by
  obtain ⟨hlow, hhigh⟩ := holds_word_iff.1 h
  rw [readWord, hlow, hhigh, Word.ofBytes_high_low]

theorem writeWord_writeWord (m : Memory) (a v w : Word) :
    (m.writeWord a v).writeWord a w = m.writeWord a w := by
  refine ext_peek rfl fun bank address => ?_
  simp only [writeWord, peek_write, active_write]
  split
  · rfl
  · split <;> rfl

theorem writeWord_readWord (m : Memory) (a : Word) : m.writeWord a (m.readWord a) = m := by
  refine ext_peek rfl fun bank address => ?_
  simp only [writeWord, readWord, Word.high_ofBytes, Word.low_ofBytes, peek_write, active_write]
  split
  case isTrue h =>
    obtain ⟨rfl, rfl⟩ := h
    rfl
  case isFalse =>
    split
    case isTrue h =>
      obtain ⟨rfl, rfl⟩ := h
      rfl
    case isFalse => rfl

end Memory

theorem Registers.pair_eq_iff {r s : Registers} {p : Pair} :
    r.pair p = s.pair p ↔ r.get p.upper = s.get p.upper ∧ r.get p.lower = s.get p.lower := by
  constructor
  · intro h
    have hhigh := congrArg Word.high h
    have hlow := congrArg Word.low h
    simp only [pair, Word.high_ofBytes, Word.low_ofBytes] at hhigh hlow
    exact ⟨hhigh, hlow⟩
  · rintro ⟨hhigh, hlow⟩
    rw [pair, pair, hhigh, hlow]

theorem Registers.setPair_setPair (r : Registers) (p : Pair) (v w : Word) :
    (r.setPair p v).setPair p w = r.setPair p w := by
  cases p <;> rfl

/-! ## Instructions that move words -/

variable {σ : Type}

namespace Instruction

/-- The address and the word that an instruction stores. A call stores the program counter, which
already points behind it. -/
def storedWord? (cpu : Cpu σ) : Instruction → Option (Word × Word)
  | .push source => some (cpu.registers.sp - 2, cpu.stackPair source)
  | .call _ | .rst _ => some (cpu.registers.sp - 2, cpu.registers.pc)
  | .callIf condition _ =>
    if condition.holds cpu.flags then some (cpu.registers.sp - 2, cpu.registers.pc) else none
  | .shld address => some (address, cpu.registers.pair .hl)
  | .xthl => some (cpu.registers.sp, cpu.registers.pair .hl)
  | _ => none

/-- The address of the word that an instruction loads. -/
def loadedFrom? (cpu : Cpu σ) : Instruction → Option Word
  | .pop _ | .ret | .xthl => some cpu.registers.sp
  | .retIf condition => if condition.holds cpu.flags then some cpu.registers.sp else none
  | .lhld address => some address
  | _ => none

/-- The word has arrived where this instruction loads it to. -/
def Receives (word : Word) (after : Cpu σ) : Instruction → Prop
  | .pop (.pair p) => after.registers.pair p = word
  | .pop .psw => after.registers.a = word.high ∧ after.flags = .unpack word.low
  | .ret | .retIf _ => after.registers.pc = word
  | .lhld _ | .xthl => after.registers.pair .hl = word
  | _ => False

/-- The operand of a three-byte instruction. -/
def wordOperand? : Instruction → Option Word
  | .lxi _ w | .sta w | .lda w | .shld w | .lhld w => some w
  | .jmp w | .jmpIf _ w | .call w | .callIf _ w => some w
  | _ => none

theorem wordOperand_decode {op : Byte} (h : operandCount op = 2) (first second : Byte) :
    (decode op first second).wordOperand? = some (Word.ofBytes second first) := by
  have hmem : op ∈ wordOpcodes := by
    by_contra hnone
    simp only [operandCount, hnone, if_false] at h
    split at h <;> cases h
  fin_cases hmem <;> rfl

end Instruction

namespace Cpu
variable {cpu : Cpu σ} {i : Instruction} {a w : Word}

/-! ## Writers -/

/-- An instruction that stores a word changes no other memory. All but `SHLD` store it at the stack
pointer that they leave. -/
theorem execute_of_storedWord (h : i.storedWord? cpu = some (a, w)) :
    (cpu.execute i).memory = cpu.memory.writeWord a w ∧
      ((∀ address, i ≠ .shld address) → (cpu.execute i).registers.sp = a) := by
  cases i with
  | push | call | rst =>
    cases h
    exact ⟨rfl, fun _ => rfl⟩
  | shld address =>
    cases h
    exact ⟨rfl, fun hstack => absurd rfl (hstack _)⟩
  | xthl =>
    cases h
    exact ⟨rfl, fun _ => cpu.registers.sp_setPair _ _⟩
  | callIf condition target =>
    by_cases hholds : condition.holds cpu.flags
    · have hexecute : cpu.execute (.callIf condition target) = cpu.enter target := if_pos hholds
      have hword : (Instruction.callIf condition target).storedWord? cpu =
        some (cpu.registers.sp - 2, cpu.registers.pc) := if_pos hholds
      rw [hword] at h
      cases h
      rw [hexecute]
      exact ⟨rfl, fun _ => rfl⟩
    · have hnone : (Instruction.callIf condition target).storedWord? cpu = none := if_neg hholds
      rw [hnone] at h
      cases h
  | _ => cases h

/-! ## Readers -/

theorem receives_of_holds (hholds : cpu.memory.Holds a [w.low, w.high])
    (h : i.loadedFrom? cpu = some a) : i.Receives w (cpu.execute i) := by
  have hword : cpu.memory.readWord a = w := hholds.readWord_eq
  cases i with
  | pop target =>
    cases h
    have htop : cpu.top = w := hword
    cases target with
    | pair p =>
      show (cpu.dropWord.registers.setPair p cpu.top).pair p = w
      rw [Registers.pair_setPair, htop]
    | psw =>
      show cpu.top.high = w.high ∧ Flags.unpack cpu.top.low = .unpack w.low
      rw [htop]
      exact ⟨rfl, rfl⟩
  | ret =>
    cases h
    exact hword
  | retIf condition =>
    by_cases hcondition : condition.holds cpu.flags
    · have hexecute : cpu.execute (.retIf condition) = cpu.leave := if_pos hcondition
      have hfrom : (Instruction.retIf condition).loadedFrom? cpu = some cpu.registers.sp :=
        if_pos hcondition
      rw [hfrom] at h
      cases h
      rw [hexecute]
      exact hword
    · have hnone : (Instruction.retIf condition).loadedFrom? cpu = none := if_neg hcondition
      rw [hnone] at h
      cases h
  | xthl =>
    cases h
    exact (cpu.registers.pair_setPair .hl _).trans hword
  | lhld address =>
    cases h
    exact (cpu.registers.pair_setPair .hl _).trans hword
  | _ => cases h

/-- An instruction of three bytes takes the word behind its opcode as its operand. -/
theorem wordOperand_of_holds (hholds : cpu.memory.Holds (cpu.registers.pc + 1) [w.low, w.high])
    (hcount : Instruction.operandCount (cpu.memory.read cpu.registers.pc) = 2) :
    cpu.instruction.wordOperand? = some w := by
  have hbytes : cpu.nextBytes = [cpu.memory.read cpu.registers.pc, w.low, w.high] := by
    rw [nextBytes, hcount]
    exact (hholds.cons rfl).bytesAt_eq
  rw [instruction, hbytes]
  exact (Instruction.wordOperand_decode hcount w.low w.high).trans
    (congrArg some (Word.ofBytes_high_low w))

/-! ## Exchanges -/

variable (cpu)

theorem execute_xthl :
    cpu.execute .xthl =
      { cpu with
        registers := cpu.registers.setPair .hl cpu.top
        memory := cpu.memory.writeWord cpu.registers.sp (cpu.registers.pair .hl) } := rfl

/-- An exchange with the top of the stack pops a word, pushes `HL` and puts the word into `HL`. -/
theorem execute_xthl_eq :
    cpu.execute .xthl =
      (cpu.dropWord.pushWord (cpu.registers.pair .hl)).setWide (.pair .hl) cpu.top := by
  have hsp : cpu.registers.sp + 2 - 2 = cpu.registers.sp := UInt16.add_sub_cancel _ _
  simp only [execute_xthl, dropWord, pushWord, setWide, hsp]
  rfl

theorem execute_xthl_xthl : (cpu.execute .xthl).execute .xthl = cpu := by
  have hsp : (cpu.execute .xthl).registers.sp = cpu.registers.sp := by
    rw [execute_xthl, Registers.sp_setPair]
  have hpair : (cpu.execute .xthl).registers.pair .hl = cpu.top := by
    rw [execute_xthl, Registers.pair_setPair]
  have htop : (cpu.execute .xthl).top = cpu.registers.pair .hl := by
    rw [top, hsp, execute_xthl, Memory.readWord_writeWord]
  have hregisters : (cpu.execute .xthl).registers.setPair .hl (cpu.registers.pair .hl) =
      cpu.registers := by
    rw [execute_xthl, Registers.setPair_setPair, Registers.setPair_pair]
  have hmemory : (cpu.execute .xthl).memory.writeWord cpu.registers.sp cpu.top = cpu.memory := by
    rw [execute_xthl, Memory.writeWord_writeWord, top, Memory.writeWord_readWord]
  rw [execute_xthl, htop, hsp, hpair, hregisters, hmemory]
  rfl

end Cpu

/-- Every word that an instruction stores stands in the active bank with its low byte first, at an
address that wraps, and every instruction that loads the word from there gets it back, as does the
fetch of an operand. So `LHLD` undoes `SHLD`, two exchanges with the top of the stack undo each
other, and one of them is a pop and a push. -/
theorem stored_words_are_read_back (cpu : Cpu σ) :
    (∀ i a w, i.storedWord? cpu = some (a, w) →
      let stored := cpu.execute i
      stored.memory.active = cpu.memory.active ∧
        ((∀ address, i ≠ .shld address) → stored.registers.sp = a) ∧
        stored.memory.Holds a [w.low, w.high] ∧
        ∀ reader : Cpu σ, reader.memory.Holds a [w.low, w.high] →
          (∀ j : Instruction, j.loadedFrom? reader = some a → j.Receives w (reader.execute j)) ∧
          (reader.registers.pc = a → (reader.fetchBytes 2).1 = [w.low, w.high]) ∧
          (reader.registers.pc + 1 = a →
            Instruction.operandCount (reader.memory.read reader.registers.pc) = 2 →
            reader.instruction.wordOperand? = some w)) ∧
      (∀ (a : Word) (changed : Cpu σ), changed.memory = (cpu.execute (.shld a)).memory →
        let restored := changed.execute (.lhld a)
        restored.registers.h = cpu.registers.h ∧ restored.registers.l = cpu.registers.l) ∧
      (cpu.execute .xthl).execute .xthl = cpu ∧
      cpu.execute .xthl =
        (cpu.dropWord.pushWord (cpu.registers.pair .hl)).setWide (.pair .hl) cpu.top ∧
      (cpu.execute .xthl).registers.sp = cpu.registers.sp := by
  refine ⟨?_, ?_, cpu.execute_xthl_xthl, cpu.execute_xthl_eq, cpu.registers.sp_setPair _ _⟩
  · intro i a w h stored
    obtain ⟨hmemory, hsp⟩ := Cpu.execute_of_storedWord h
    have hactive : stored.memory.active = cpu.memory.active := by
      rw [show stored.memory = _ from hmemory, Memory.active_writeWord]
    have hstored : stored.memory.Holds a [w.low, w.high] := by
      rw [show stored.memory = _ from hmemory]
      exact Memory.holds_writeWord _ _ _
    refine ⟨hactive, hsp, hstored, ?_⟩
    intro reader hreader
    refine ⟨fun j hj => Cpu.receives_of_holds hreader hj, ?_, ?_⟩
    · intro hpc
      rw [← hpc] at hreader
      exact congrArg Prod.fst (Cpu.fetchBytes_of_holds hreader)
    · intro hpc hcount
      rw [← hpc] at hreader
      exact Cpu.wordOperand_of_holds hreader hcount
  · intro a changed hchanged restored
    have hpair : restored.registers.pair .hl = cpu.registers.pair .hl := by
      have hholds : changed.memory.Holds a
          [(cpu.registers.pair .hl).low, (cpu.registers.pair .hl).high] := by
        rw [hchanged]
        exact Memory.holds_writeWord _ _ _
      exact Cpu.receives_of_holds (i := .lhld a) hholds rfl
    exact Registers.pair_eq_iff.1 hpair

/-- `PUSH B` with the stack pointer at one stores across the end of the bank, and `LHLD 0FFFFH`
reads the word back. -/
theorem stored_words_are_read_back_across :
    let cpu : Cpu Unit := { Cpu.new () with registers := { b := 0x12, c := 0x34, sp := 1 } }
    let stored := cpu.execute (.push (.pair .bc))
    (Instruction.push (.pair .bc)).storedWord? cpu = some (0xFFFF, 0x1234) ∧
      stored.registers.sp = 0xFFFF ∧ stored.memory.read 0xFFFF = 0x34 ∧
      stored.memory.read 0x0000 = 0x12 ∧
      (stored.execute (.lhld 0xFFFF)).registers.pair .hl = 0x1234 := by
  intro cpu stored
  have hword : (Instruction.push (.pair .bc)).storedWord? cpu = some (0xFFFF, 0x1234) := by decide
  obtain ⟨-, hsp, hholds, hread⟩ := (stored_words_are_read_back cpu).1 _ _ _ hword
  obtain ⟨hlow, hhigh⟩ := Memory.holds_word_iff.1 hholds
  exact ⟨hword, hsp nofun, hlow, hhigh, (hread stored hholds).1 (.lhld 0xFFFF) rfl⟩

end Banked8085
