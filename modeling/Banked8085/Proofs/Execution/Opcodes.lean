import Mathlib.Tactic.IntervalCases
import Banked8085.Proofs.Execution.Fetch

/-! # The opcode map

Encoding and decoding are inverse to each other between the instructions and the byte sequences that
begin with an assigned opcode (`ofBytes_encode`, `encode_ofBytes`). No instruction has one of the
other opcodes (`opcode_not_mem_unassigned`), so the bytes at the program counter tell which
instruction is next (`instruction_eq_iff`).
-/

namespace Banked8085
set_option autoImplicit false

/-! ## Numbers in the bit fields -/

theorem Location.code_ofCode : ∀ n < 8, (ofCode n).code = n := by decide

theorem WidePair.code_ofCode : ∀ n < 4, (ofCode n).code = n := by decide

theorem Condition.code_ofCode : ∀ n < 8, (ofCode n).code = n := by decide

theorem AluOp.code_ofCode : ∀ n < 8, (ofCode n).code = n := by decide

namespace Instruction

/-! ## Opcodes of decoded instructions -/

variable {middle lower : Nat} (value : Byte) (word : Word)

/-- In the rows whose columns name different instructions, each column has the opcode of its place,
or the place is unassigned. -/
theorem opcode_decodeData (hm : middle < 8) (hl : lower < 8)
    (h : fields 0 middle lower ∉ unassigned) :
    (decodeData middle lower value word).opcode = fields 0 middle lower := by
  have hlocation := Location.code_ofCode middle hm
  have hpair := WidePair.code_ofCode (middle / 2) (by omega)
  have heven : middle % 2 = 0 → 2 * (WidePair.ofCode (middle / 2)).code = middle := by omega
  have hodd : middle % 2 ≠ 0 → 2 * (WidePair.ofCode (middle / 2)).code + 1 = middle := by omega
  match lower, hl with
  | 0, _ =>
    interval_cases middle
    all_goals
      first
      | rfl
      | exact absurd (by decide) h
  | 1, _ =>
    by_cases hmod : middle % 2 = 0
    · rw [decodeData, if_pos hmod]
      exact congrArg (fields 0 · 1) (heven hmod)
    · rw [decodeData, if_neg hmod]
      exact congrArg (fields 0 · 1) (hodd hmod)
  | 2, _ => interval_cases middle <;> rfl
  | 3, _ =>
    by_cases hmod : middle % 2 = 0
    · rw [decodeData, if_pos hmod]
      exact congrArg (fields 0 · 3) (heven hmod)
    · rw [decodeData, if_neg hmod]
      exact congrArg (fields 0 · 3) (hodd hmod)
  | 4, _ => exact congrArg (fields 0 · 4) hlocation
  | 5, _ => exact congrArg (fields 0 · 5) hlocation
  | 6, _ => exact congrArg (fields 0 · 6) hlocation
  | 7, _ => interval_cases middle <;> rfl

/-- The place of a move from memory to memory is that of `hlt`. -/
theorem opcode_decodeMove (hm : middle < 8) (hl : lower < 8) :
    (decodeMove middle lower).opcode = fields 1 middle lower := by
  have hmiddle := Location.code_ofCode middle hm
  have hlower := Location.code_ofCode lower hl
  unfold decodeMove
  split
  case isTrue h =>
    rw [← hmiddle, ← hlower, h.1, h.2]
    rfl
  case isFalse h => exact congrArg₂ (fields 1) hmiddle hlower

theorem opcode_decodeControl (hm : middle < 8) (hl : lower < 8)
    (h : fields 3 middle lower ∉ unassigned) :
    (decodeControl middle lower value word).opcode = fields 3 middle lower := by
  have hcondition := Condition.code_ofCode middle hm
  match lower, hl with
  | 0, _ => exact congrArg (fields 3 · 0) hcondition
  | 2, _ => exact congrArg (fields 3 · 2) hcondition
  | 4, _ => exact congrArg (fields 3 · 4) hcondition
  | 6, _ => exact congrArg (fields 3 · 6) (AluOp.code_ofCode middle hm)
  | 7, _ => exact congrArg (fields 3 · 7) (Nat.mod_eq_of_lt hm)
  | 1, _ | 3, _ | 5, _ =>
    interval_cases middle
    all_goals
      first
      | rfl
      | exact absurd (by decide) h

theorem opcode_decodeFields {group : Nat} (first second : Byte) (hg : group < 4) (hm : middle < 8)
    (hl : lower < 8) (h : fields group middle lower ∉ unassigned) :
    (decodeFields group middle lower first second).opcode = fields group middle lower := by
  match group, hg with
  | 0, _ => exact opcode_decodeData _ _ hm hl h
  | 1, _ => exact opcode_decodeMove hm hl
  | 2, _ => exact congrArg₂ (fields 2) (AluOp.code_ofCode _ hm) (Location.code_ofCode _ hl)
  | 3, _ => exact opcode_decodeControl _ _ hm hl h

/-- An assigned opcode decodes to an instruction that has it. -/
theorem opcode_decode {op : Byte} (h : op ∉ unassigned) (first second : Byte) :
    (decode op first second).opcode = op := by
  have hop := op.toNat_lt
  have hfields : fields (op.toNat / 64) (op.toNat / 8 % 8) (op.toNat % 8) = op := by
    have hsum : 64 * (op.toNat / 64) + 8 * (op.toNat / 8 % 8) + op.toNat % 8 = op.toNat := by
      omega
    rw [fields, hsum, UInt8.ofNat_toNat]
  have hdecode := opcode_decodeFields first second (by omega) (Nat.mod_lt _ (by decide))
    (Nat.mod_lt _ (by decide)) (hfields.symm ▸ h)
  rw [hfields] at hdecode
  exact hdecode

/-! ## Operand bytes of decoded instructions -/

/-- A decoded instruction has as many of the two bytes after the opcode as it takes. -/
theorem operandBytes_decode (op first second : Byte) :
    (decode op first second).operandBytes <+: [first, second] := by
  unfold decode decodeFields decodeData decodeMove decodeControl
  repeat' split
  all_goals simp [operandBytes]

theorem encode_ofBytes {op : Byte} {rest : List Byte} (hop : op ∉ unassigned)
    (hlength : rest.length = operandCount op) : (ofBytes (op :: rest)).encode = op :: rest := by
  have hopcode : (ofBytes (op :: rest)).opcode = op := opcode_decode hop _ _
  have hprefix : (ofBytes (op :: rest)).operandBytes <+: [rest.getD 0 0, rest.getD 1 0] :=
    operandBytes_decode op _ _
  have hcount := operandCount_opcode (ofBytes (op :: rest))
  rw [hopcode, ← hlength] at hcount
  have hbytes := List.prefix_iff_eq_take.1 hprefix
  rw [← hcount] at hbytes
  have htwo : rest.length ≤ 2 := hcount ▸ hprefix.length_le
  rw [encode, hopcode, hbytes]
  rcases rest with _ | ⟨first, _ | ⟨second, _ | ⟨third, rest⟩⟩⟩
  · rfl
  · rfl
  · rfl
  · simp only [List.length_cons] at htwo
    omega

/-! ## Unassigned opcodes -/

theorem opcode_not_mem_unassigned (i : Instruction) : i.opcode ∉ unassigned := by
  intro h
  have hdecode := decode_opcode i []
  rw [decode_of_mem_unassigned h] at hdecode
  rw [← hdecode] at h
  exact absurd h (by decide)

end Instruction

/-! ## The next instruction -/

namespace Cpu
variable {σ : Type} (cpu : Cpu σ)

theorem exists_nextBytes_eq :
    ∃ rest, cpu.nextBytes = cpu.memory.read cpu.registers.pc :: rest ∧
      rest.length = Instruction.operandCount (cpu.memory.read cpu.registers.pc) := by
  have hfirst : cpu.registers.pc + UInt16.ofNat 0 = cpu.registers.pc := UInt16.add_zero _
  rw [nextBytes, Memory.bytesAt, List.range_succ_eq_map, List.map_cons, hfirst]
  exact ⟨_, rfl, by simp⟩

/-- A step executes an instruction that has an effect just when its bytes are next. -/
theorem instruction_eq_iff {i : Instruction} (h : i ≠ .nop) :
    cpu.instruction = i ↔ cpu.nextBytes = i.encode := by
  obtain ⟨rest, hbytes, hlength⟩ := cpu.exists_nextBytes_eq
  constructor
  · intro hi
    have hassigned : cpu.memory.read cpu.registers.pc ∉ Instruction.unassigned := by
      intro hmem
      apply h
      rw [← hi, instruction, hbytes]
      exact Instruction.decode_of_mem_unassigned hmem _ _
    rw [← hi, instruction, hbytes, Instruction.encode_ofBytes hassigned hlength]
  · intro hi
    rw [instruction, hi, Instruction.ofBytes_encode]

end Cpu
end Banked8085
