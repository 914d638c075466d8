import Banked8085.Cpu.Execute

/-! # Fetching an instruction that lies in memory

`Memory.Holds` says that the active bank holds given bytes. If it holds the bytes of an instruction
at the program counter, then a step fetches exactly these and executes that instruction
(`next_of_holds`). `Cpu.instruction` is the instruction that a step executes, whatever memory holds
(`next_eq_execute`).
-/

namespace Banked8085
set_option autoImplicit false

/-! ## Bytes in memory -/

/-- The active bank holds these bytes from `start` on. The addresses wrap. -/
def Memory.Holds (m : Memory) (start : Word) (bytes : List Byte) : Prop :=
  ∀ k (h : k < bytes.length), m.read (start + UInt16.ofNat k) = bytes[k]

namespace Memory
variable {m : Memory} {start : Word} {bytes : List Byte}

theorem Holds.head {b : Byte} (h : m.Holds start (b :: bytes)) : m.read start = b := by
  have h0 := h 0 (Nat.succ_pos _)
  simpa using h0

theorem Holds.tail {b : Byte} (h : m.Holds start (b :: bytes)) : m.Holds (start + 1) bytes := by
  intro k hk
  have hnext := h (k + 1) (Nat.succ_lt_succ hk)
  have haddress : start + 1 + UInt16.ofNat k = start + UInt16.ofNat (k + 1) := by
    rw [UInt16.ofNat_add, UInt16.add_assoc, UInt16.add_comm 1]
    rfl
  rw [haddress, hnext, List.getElem_cons_succ]

theorem Holds.left {more : List Byte} (h : m.Holds start (bytes ++ more)) :
    m.Holds start bytes := by
  intro k hk
  have hboth := h k (by rw [List.length_append]; omega)
  rw [List.getElem_append_left hk] at hboth
  exact hboth

/-- The bytes that the active bank holds from `start` on. -/
def bytesAt (m : Memory) (start : Word) (count : Nat) : List Byte :=
  (List.range count).map fun k => m.read (start + UInt16.ofNat k)

@[simp] theorem length_bytesAt (m : Memory) (start : Word) (count : Nat) :
    (m.bytesAt start count).length = count := by
  simp [bytesAt]

theorem holds_bytesAt (m : Memory) (start : Word) (count : Nat) :
    m.Holds start (m.bytesAt start count) := by
  intro k hk
  simp [bytesAt]

theorem holds_load (hfit : start.toNat + bytes.length ≤ 65536) :
    (m.load bytes start).2.Holds start bytes := by
  intro k hk
  have haddress : (start + UInt16.ofNat k).toNat = start.toNat + k := by
    rw [UInt16.toNat_add, UInt16.toNat_ofNat']
    omega
  rw [read, peek_load, active_load, haddress, if_pos ⟨rfl, Nat.le_add_right _ _⟩,
    Nat.add_sub_cancel_left, List.getElem?_eq_getElem hk]
  rfl

end Memory

/-! ## The bytes of an instruction -/

namespace Instruction

theorem operandCount_opcode (i : Instruction) : operandCount i.opcode = i.operandBytes.length := by
  have hlocation : ∀ n < 8, operandCount (fields 0 n 4) = 0 ∧ operandCount (fields 0 n 5) = 0 ∧
      operandCount (fields 0 n 6) = 1 := by decide
  have hpair : ∀ n < 4, operandCount (fields 0 (2 * n) 1) = 2 ∧
      operandCount (fields 0 (2 * n + 1) 1) = 0 ∧ operandCount (fields 0 (2 * n) 3) = 0 ∧
      operandCount (fields 0 (2 * n + 1) 3) = 0 := by decide
  have hstack : ∀ n < 4, operandCount (fields 3 (2 * n) 1) = 0 ∧
      operandCount (fields 3 (2 * n) 5) = 0 := by decide
  have hcondition : ∀ n < 8, operandCount (fields 3 n 0) = 0 ∧ operandCount (fields 3 n 2) = 2 ∧
      operandCount (fields 3 n 4) = 2 := by decide
  have hmove : ∀ n < 8, ∀ k < 8, operandCount (fields 1 n k) = 0 ∧
      operandCount (fields 2 n k) = 0 := by decide
  have hlast : ∀ n < 8, operandCount (fields 3 n 6) = 1 ∧ operandCount (fields 3 n 7) = 0 := by
    decide
  cases i with
  | mov target source h => exact (hmove _ target.code_lt _ source.code_lt).1
  | alu op source => exact (hmove _ op.code_lt _ source.code_lt).2
  | inr target => exact (hlocation _ target.code_lt).1
  | dcr target => exact (hlocation _ target.code_lt).2.1
  | mvi target value => exact (hlocation _ target.code_lt).2.2
  | lxi p w => exact (hpair _ p.code_lt).1
  | dad p => exact (hpair _ p.code_lt).2.1
  | inx p => exact (hpair _ p.code_lt).2.2.1
  | dcx p => exact (hpair _ p.code_lt).2.2.2
  | pop p => exact (hstack _ p.code_lt).1
  | push p => exact (hstack _ p.code_lt).2
  | retIf c => exact (hcondition _ c.code_lt).1
  | jmpIf c w => exact (hcondition _ c.code_lt).2.1
  | callIf c w => exact (hcondition _ c.code_lt).2.2
  | aluImmediate op value => exact (hlast _ op.code_lt).1
  | rst n => exact (hlast _ n.isLt).2
  | stax p => cases p <;> rfl
  | ldax p => cases p <;> rfl
  | _ => rfl

theorem ofBytes_encode (i : Instruction) : ofBytes i.encode = i := by
  have h := decode_opcode i []
  rw [List.append_nil] at h
  exact h

end Instruction

/-! ## Fetching -/

namespace Cpu
variable {σ : Type} {cpu : Cpu σ} {i : Instruction}

@[simp] theorem registers_jump (cpu : Cpu σ) (target : Word) :
    (cpu.jump target).registers = { cpu.registers with pc := target } := rfl

@[simp] theorem memory_jump (cpu : Cpu σ) (target : Word) :
    (cpu.jump target).memory = cpu.memory := rfl

@[simp] theorem jump_jump (cpu : Cpu σ) (first second : Word) :
    (cpu.jump first).jump second = cpu.jump second := rfl

theorem fetchBytes_of_holds {bytes : List Byte}
    (h : cpu.memory.Holds cpu.registers.pc bytes) :
    cpu.fetchBytes bytes.length =
      (bytes, cpu.jump (cpu.registers.pc + UInt16.ofNat bytes.length)) := by
  induction bytes generalizing cpu with
  | nil =>
    have hpc : cpu.registers.pc + UInt16.ofNat 0 = cpu.registers.pc := UInt16.add_zero _
    rw [List.length_nil, hpc]
    rfl
  | cons b bytes ih =>
    have htail : (cpu.jump (cpu.registers.pc + 1)).memory.Holds (cpu.registers.pc + 1) bytes :=
      h.tail
    have hrest := ih htail
    have hpc : cpu.registers.pc + 1 + UInt16.ofNat bytes.length =
        cpu.registers.pc + UInt16.ofNat (bytes.length + 1) := by
      rw [UInt16.ofNat_add, UInt16.add_assoc, UInt16.add_comm 1]
      rfl
    simp only [List.length_cons, fetchBytes, fetchByte, h.head, hrest, registers_jump, hpc,
      jump_jump]

/-- A fetch takes all bytes of the instruction at the program counter and no more. -/
theorem fetch_of_holds (h : cpu.memory.Holds cpu.registers.pc i.encode) :
    cpu.fetch = (i.encode, cpu.jump (cpu.registers.pc + UInt16.ofNat i.encode.length)) := by
  have hall := fetchBytes_of_holds h
  have hopcode : cpu.memory.read cpu.registers.pc = i.opcode := h.head
  simp only [Instruction.encode, List.length_cons, fetchBytes, fetchByte, hopcode] at hall
  simp only [fetch, fetchByte, hopcode, Instruction.operandCount_opcode]
  exact hall

theorem next_of_holds (hrunning : cpu.halted = false)
    (h : cpu.memory.Holds cpu.registers.pc i.encode) :
    cpu.next = (cpu.jump (cpu.registers.pc + UInt16.ofNat i.encode.length)).execute i := by
  rw [next_of_running hrunning, advance, fetch_of_holds h]
  simp only [Instruction.ofBytes_encode]

/-! ## The next instruction -/

variable (cpu)

/-- The bytes from the program counter on, as many as its opcode calls for. -/
def nextBytes (cpu : Cpu σ) : List Byte :=
  let pc := cpu.registers.pc
  cpu.memory.bytesAt pc (Instruction.operandCount (cpu.memory.read pc) + 1)

def instruction (cpu : Cpu σ) : Instruction := .ofBytes cpu.nextBytes

theorem fetch_eq :
    cpu.fetch =
      (cpu.nextBytes, cpu.jump (cpu.registers.pc + UInt16.ofNat cpu.nextBytes.length)) := by
  have h := fetchBytes_of_holds (cpu.memory.holds_bytesAt cpu.registers.pc
    (Instruction.operandCount (cpu.memory.read cpu.registers.pc) + 1))
  rw [Memory.length_bytesAt] at h
  rw [nextBytes, Memory.length_bytesAt]
  exact h

/-- A step of a running processor moves the program counter and then executes the instruction. -/
theorem next_eq_execute {cpu : Cpu σ} (h : cpu.halted = false) :
    cpu.next =
      (cpu.jump (cpu.registers.pc + UInt16.ofNat cpu.nextBytes.length)).execute
        cpu.instruction := by
  rw [next_of_running h, advance, fetch_eq]
  rfl

theorem instruction_of_holds {cpu : Cpu σ} (h : cpu.memory.Holds cpu.registers.pc i.encode) :
    cpu.instruction = i := by
  have hfetch := congrArg Prod.fst ((cpu.fetch_eq).symm.trans (fetch_of_holds h))
  rw [instruction, show cpu.nextBytes = i.encode from hfetch, Instruction.ofBytes_encode]

end Cpu
end Banked8085
