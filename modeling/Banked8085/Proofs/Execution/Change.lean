import Banked8085.Proofs.Execution.Operand

/-! # What an instruction changes

A `Change` lists the registers and the cells of the active bank that get new values, with the stack
pointer and the flags if they do. `Change.Made` says that a state differs from an earlier one by
that and by nothing else, apart from the program counter. Each way in which the processor stores
the result of a transfer or of an operation makes one change.
-/

namespace Banked8085
set_option autoImplicit false

structure Change where
  registers : List (Register × Byte) := []
  sp : Option Word := none
  flags : Option Flags := none
  cells : List (Word × Byte) := []

namespace Change

/-! ## Changes of one operand -/

def location (pointer : Word) (value : Byte) : Location → Change
  | .register r => { registers := [(r, value)] }
  | .memory => { cells := [(pointer, value)] }

def pair (high low : Byte) : Pair → Change
  | .bc => { registers := [(.b, high), (.c, low)] }
  | .de => { registers := [(.d, high), (.e, low)] }
  | .hl => { registers := [(.h, high), (.l, low)] }

def wide (value : Word) : WidePair → Change
  | .pair p => pair (Operand.upper value) (Operand.lower value) p
  | .sp => { sp := some value }

/-- What a pop of two bytes sets; for the status word it is the accumulator and the flags. -/
def popped (high low : Byte) : StackPair → Change
  | .pair p => pair high low p
  | .psw => { registers := [(.a, high)], flags := some (Operand.flags low) }

/-! ## Changes of a state -/

variable {σ : Type}

/-- `after` is `before` with this change, and continues at `next`. -/
structure Made (change : Change) (next : Word) (before after : Cpu σ) : Prop where
  register : ∀ r, Operand.register after.registers r =
    (change.registers.lookup r).getD (Operand.register before.registers r)
  sp : after.registers.sp = change.sp.getD before.registers.sp
  pc : after.registers.pc = next
  flags : after.flags = change.flags.getD before.flags
  cell : ∀ bank address, after.memory.peek bank address =
    if bank = before.memory.active then
      (change.cells.lookup address).getD (before.memory.peek bank address)
    else before.memory.peek bank address
  active : after.memory.active = before.memory.active
  ports : after.ports = before.ports
  halted : after.halted = before.halted
  interruptsEnabled : after.interruptsEnabled = before.interruptsEnabled

variable {change : Change} {next : Word} {before after : Cpu σ}

theorem Made.of_jump {target : Word} (h : change.Made next (before.jump target) after) :
    change.Made next before after :=
  ⟨h.register, h.sp, h.pc, h.flags, h.cell, h.active, h.ports, h.halted, h.interruptsEnabled⟩

theorem Made.with_flags (h : change.Made next before after) (flags : Flags) :
    { change with flags := some flags }.Made next before { after with flags } :=
  ⟨h.register, h.sp, h.pc, rfl, h.cell, h.active, h.ports, h.halted, h.interruptsEnabled⟩

theorem Made.with_sp (h : change.Made next before after) (sp : Word) :
    { change with sp := some sp }.Made next before
      { after with registers := { after.registers with sp } } :=
  ⟨fun r => (by cases r <;> rfl : _ = Operand.register after.registers r).trans (h.register r),
    rfl, h.pc,
    h.flags, h.cell, h.active, h.ports, h.halted, h.interruptsEnabled⟩

/-! ## Lookups -/

theorem lookup_cons {α : Type} [DecidableEq α] (a b : α) (value : Byte) (l : List (α × Byte)) :
    List.lookup a ((b, value) :: l) = if a = b then some value else l.lookup a := by
  by_cases h : a = b
  · rw [if_pos h, h, List.lookup_cons_self]
  · have hne : (a == b) = false := beq_false_of_ne h
    rw [if_neg h, List.lookup_cons, hne]

theorem register_setPair (r : Registers) (p : Pair) (value : Word) (n : Register) :
    Operand.register (r.setPair p value) n =
      ((pair value.high value.low p).registers.lookup n).getD (Operand.register r n) := by
  cases p <;> cases n <;> rfl

variable (m : Memory) (bank : Bank) (address : Word)

theorem peek_write (a : Word) (value : Byte) :
    (m.write a value).peek bank address =
      if bank = m.active then (List.lookup address [(a, value)]).getD (m.peek bank address)
      else m.peek bank address := by
  rw [m.peek_write, lookup_cons]
  by_cases hbank : bank = m.active
  · by_cases haddress : address = a
    · simp [hbank, haddress]
    · simp [hbank, haddress, Ne.symm haddress]
  · simp [hbank, Ne.symm hbank]

theorem peek_writeWord (a value : Word) :
    (m.writeWord a value).peek bank address =
      if bank = m.active then
        (List.lookup address [(a, value.low), (a + 1, value.high)]).getD (m.peek bank address)
      else m.peek bank address := by
  have hne : a + 1 ≠ a := Memory.succ_ne a
  rw [Memory.writeWord, peek_write, peek_write, Memory.active_write]
  simp only [lookup_cons, List.lookup_nil]
  by_cases hbank : bank = m.active
  · by_cases haddress : address = a
    · simp [hbank, haddress, hne.symm]
    · simp [hbank, haddress]
  · simp [hbank]

/-! ## Changes by the processor -/

variable (cpu : Cpu σ)

theorem made_write (a : Word) (value : Byte) :
    Made { cells := [(a, value)] } cpu.registers.pc cpu
      { cpu with memory := cpu.memory.write a value } :=
  ⟨fun _ => rfl, rfl, rfl, rfl, fun bank address => peek_write _ bank address a value, rfl, rfl,
    rfl, rfl⟩

theorem made_writeWord (a value : Word) :
    Made { cells := [(a, value.low), (a + 1, value.high)] } cpu.registers.pc cpu
      { cpu with memory := cpu.memory.writeWord a value } :=
  ⟨fun _ => rfl, rfl, rfl, rfl, fun bank address => peek_writeWord _ bank address a value, rfl, rfl,
    rfl, rfl⟩

theorem made_set (l : Location) (value : Byte) :
    (location (Operand.pair cpu.registers .hl) value l).Made cpu.registers.pc cpu
      (cpu.set l value) := by
  cases l with
  | register r =>
    refine ⟨?_, cpu.registers.sp_set r value, cpu.registers.pc_set r value, rfl, ?_, rfl, rfl, rfl,
      rfl⟩
    · intro n
      cases r <;> cases n <;> rfl
    · intro bank address
      exact (ite_self _).symm
  | memory => exact made_write cpu _ value

theorem made_setPair (p : Pair) (value : Word) :
    (pair value.high value.low p).Made cpu.registers.pc cpu (cpu.setWide (.pair p) value) := by
  refine ⟨register_setPair cpu.registers p value, ?_, cpu.registers.pc_setPair p value, ?_, ?_, rfl,
    rfl, rfl, rfl⟩
  · cases p <;> rfl
  · cases p <;> rfl
  · intro bank address
    cases p <;> exact (ite_self _).symm

theorem made_setWide (p : WidePair) (value : Word) :
    (wide value p).Made cpu.registers.pc cpu (cpu.setWide p value) := by
  cases p with
  | pair p =>
    rw [wide, Operand.upper_eq, Operand.lower_eq]
    exact made_setPair cpu p value
  | sp =>
    refine ⟨?_, rfl, rfl, rfl, ?_, rfl, rfl, rfl, rfl⟩
    · intro n
      cases n <;> rfl
    · intro bank address
      exact (ite_self _).symm

theorem made_setResult (result : Byte × Flags) :
    Made { registers := [(.a, result.1)], flags := some result.2 } cpu.registers.pc cpu
      (cpu.setResult result) :=
  (made_set cpu (.register .a) result.1).with_flags result.2

theorem made_pushWord (value : Word) :
    Made
      { cells := [(cpu.registers.sp - 2, value.low), (cpu.registers.sp - 1, value.high)]
        sp := some (cpu.registers.sp - 2) }
      cpu.registers.pc cpu (cpu.pushWord value) := by
  have hupper : cpu.registers.sp - 2 + 1 = cpu.registers.sp - 1 := by grind
  have hmade := (made_writeWord cpu (cpu.registers.sp - 2) value).with_sp (cpu.registers.sp - 2)
  rw [hupper] at hmade
  exact hmade

theorem made_popWord (p : StackPair) (value : Word) :
    Made { popped value.high value.low p with sp := some (cpu.registers.sp + 2) } cpu.registers.pc
      cpu (cpu.dropWord.setStackPair p value) := by
  cases p with
  | pair p =>
    have h := (made_setPair cpu p value).with_sp (cpu.registers.sp + 2)
    cases p <;> exact h
  | psw =>
    rw [popped, Operand.flags_eq]
    exact (made_setResult cpu (value.high, .unpack value.low)).with_sp (cpu.registers.sp + 2)

end Change
end Banked8085
