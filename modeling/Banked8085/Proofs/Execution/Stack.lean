import Banked8085.Proofs.Execution.Words

/-! # Saving and restoring on the stack

A program saves pairs by pushes and restores them by pops in the opposite order. Whatever happened to
the registers in between, the saved pairs come back and the others keep what they got, as long as the
pushed words fit into a bank; the stack pointer may wrap on the way (`pops_restore_pushes`).
-/

namespace Banked8085
set_option autoImplicit false

/-! ## Addresses below the stack pointer -/

/-- The `count` addresses below `sp`, the nearest first. They wrap. -/
def Word.below (sp : Word) (count : Nat) : List Word :=
  (List.range count).map fun k => sp - 1 - UInt16.ofNat k

namespace Word
variable {sp a : Word} {count : Nat}

theorem mem_below : a ∈ sp.below count ↔ (sp - 1 - a).toNat < count := by
  simp only [below, List.mem_map, List.mem_range]
  constructor
  · rintro ⟨k, hk, rfl⟩
    have hdistance : sp - 1 - (sp - 1 - UInt16.ofNat k) = UInt16.ofNat k := by grind
    rw [hdistance, UInt16.toNat_ofNat']
    omega
  · intro h
    refine ⟨_, h, ?_⟩
    rw [UInt16.ofNat_toNat]
    grind

/-- The addresses of one more word lie below, and then those below them. -/
theorem below_add_two (sp : Word) (count : Nat) :
    [sp - 1, sp - 2] ++ (sp - 2).below count ⊆ sp.below (count + 2) := by
  intro a ha
  rw [mem_below]
  rcases List.mem_append.1 ha with hpair | hrest
  · simp only [List.mem_cons, List.not_mem_nil, or_false] at hpair
    have hfirst : sp - 1 - (sp - 1) = 0 := by grind
    have hsecond : sp - 1 - (sp - 2) = 1 := by grind
    rcases hpair with rfl | rfl
    · rw [hfirst]
      exact Nat.succ_pos _
    · rw [hsecond]
      exact Nat.le_add_left 2 count
  · rw [mem_below] at hrest
    have hdistance : sp - 1 - a = sp - 2 - 1 - a + 2 := by grind
    rw [hdistance, UInt16.toNat_add]
    simp only [UInt16.reduceToNat]
    omega

/-- Up to the size of a bank, the addresses below do not reach the word at the stack pointer. -/
theorem word_not_mem_below (sp : Word) (h : count + 2 ≤ 65536) :
    sp ∉ sp.below count ∧ sp + 1 ∉ sp.below count := by
  have hfirst : sp - 1 - sp = 65535 := by grind
  have hsecond : sp - 1 - (sp + 1) = 65534 := by grind
  rw [mem_below, mem_below, hfirst, hsecond]
  simp only [UInt16.reduceToNat]
  omega

end Word

/-! ## Changes below the stack -/

theorem Memory.Within.holds_word {m after : Memory} {a w : Word} {addresses : List Word}
    (h : Memory.Within addresses m after) (hactive : after.active = m.active)
    (hfirst : a ∉ addresses) (hsecond : a + 1 ∉ addresses)
    (hholds : m.Holds a [w.low, w.high]) : after.Holds a [w.low, w.high] := by
  have hkept : ∀ address, address ∉ addresses → after.read address = m.read address := by
    intro address hnot
    by_contra hne
    rw [read, read, hactive] at hne
    exact hnot (h _ _ hne).2
  rw [holds_word_iff, hkept a hfirst, hkept (a + 1) hsecond]
  exact holds_word_iff.1 hholds

/-! ## Selectors -/

variable {σ : Type}

namespace StackPair

/-- The opcode that pushes a pair. -/
def pushOpcode : StackPair → Byte
  | .pair .bc => 0xC5
  | .pair .de => 0xD5
  | .pair .hl => 0xE5
  | .psw => 0xF5

/-- The opcode that pops a pair. -/
def popOpcode : StackPair → Byte
  | .pair .bc => 0xC1
  | .pair .de => 0xD1
  | .pair .hl => 0xE1
  | .psw => 0xF1

theorem ofBytes_pushOpcode (s : StackPair) : Instruction.ofBytes [s.pushOpcode] = .push s := by
  obtain p | _ := s <;> (try cases p) <;> rfl

theorem ofBytes_popOpcode (s : StackPair) : Instruction.ofBytes [s.popOpcode] = .pop s := by
  obtain p | _ := s <;> (try cases p) <;> rfl

/-- Two states have the same contents of a pair; the status word is the accumulator and all flags. -/
def Agree (first second : Cpu σ) : StackPair → Prop
  | .pair p => first.registers.get p.upper = second.registers.get p.upper ∧
    first.registers.get p.lower = second.registers.get p.lower
  | .psw => first.registers.a = second.registers.a ∧ first.flags = second.flags

theorem Agree.trans {first second third : Cpu σ} {s : StackPair} (h : s.Agree first second)
    (h' : s.Agree second third) : s.Agree first third := by
  cases s <;> exact ⟨h.1.trans h'.1, h.2.trans h'.2⟩

end StackPair

namespace Cpu

/-- Execute opcodes without operands, one after the other. -/
def executeAll (cpu : Cpu σ) (opcodes : List Byte) : Cpu σ :=
  opcodes.foldl (fun cpu op => cpu.execute (.ofBytes [op])) cpu

theorem executeAll_append (cpu : Cpu σ) (first second : List Byte) :
    cpu.executeAll (first ++ second) = (cpu.executeAll first).executeAll second :=
  List.foldl_append

theorem executeAll_push (cpu : Cpu σ) (s : StackPair) (rest : List Byte) :
    cpu.executeAll (s.pushOpcode :: rest) = (cpu.execute (.push s)).executeAll rest := by
  rw [executeAll, List.foldl_cons, s.ofBytes_pushOpcode]
  rfl

theorem executeAll_pop (cpu : Cpu σ) (s : StackPair) :
    cpu.executeAll [s.popOpcode] = cpu.execute (.pop s) := by
  rw [executeAll, List.foldl_cons, s.ofBytes_popOpcode]
  rfl

variable {cpu : Cpu σ}

/-! ## One push and one pop -/

theorem agree_push (s t : StackPair) : t.Agree (cpu.execute (.push s)) cpu := by
  cases t with
  | pair p => cases p <;> exact ⟨rfl, rfl⟩
  | psw => exact ⟨rfl, rfl⟩

theorem agree_pop_of_ne {s t : StackPair} (h : t ≠ s) : t.Agree (cpu.execute (.pop s)) cpu := by
  cases s with
  | psw =>
    cases t with
    | psw => exact absurd rfl h
    | pair q => cases q <;> exact ⟨rfl, rfl⟩
  | pair p =>
    cases t with
    | psw => cases p <;> exact ⟨rfl, rfl⟩
    | pair q =>
      have hne : p ≠ q := fun hpq => h (hpq ▸ rfl)
      exact Registers.pair_eq_iff.1 (cpu.dropWord.registers.pair_setPair_of_ne cpu.top hne)

theorem sp_pop (s : StackPair) :
    (cpu.execute (.pop s)).registers.sp = cpu.registers.sp + 2 := by
  cases s with
  | pair p => exact cpu.dropWord.registers.sp_setPair p cpu.top
  | psw => rfl

theorem memory_pop (s : StackPair) : (cpu.execute (.pop s)).memory = cpu.memory :=
  cpu.dropWord.memory_setStackPair s cpu.top

/-- A pop restores what was pushed from an earlier state if the pushed word is still there. -/
theorem agree_pop {s : StackPair} {earlier : Cpu σ}
    (h : cpu.memory.Holds cpu.registers.sp
      [(earlier.stackPair s).low, (earlier.stackPair s).high]) :
    s.Agree (cpu.execute (.pop s)) earlier := by
  have hreceived := receives_of_holds (i := .pop s) h rfl
  cases s with
  | pair p => exact Registers.pair_eq_iff.1 hreceived
  | psw =>
    obtain ⟨ha, hflags⟩ := hreceived
    rw [stackPair, Word.high_ofBytes] at ha
    rw [stackPair, Word.low_ofBytes, Flags.unpack_pack] at hflags
    exact ⟨ha, hflags⟩

/-! ## Any number of pushes and pops -/

/-- `restored` has the stack pointer and the selected pairs of `before` and the other pairs of
`changed`. Only the cells of the pushed words have changed since `before`. -/
structure Restored (selectors : List StackPair) (before changed restored : Cpu σ) : Prop where
  sp : restored.registers.sp = before.registers.sp
  saved : ∀ s ∈ selectors, s.Agree restored before
  kept : ∀ s ∉ selectors, s.Agree restored changed
  active : restored.memory.active = before.memory.active
  memory : Memory.Within (before.registers.sp.below (2 * selectors.length)) before.memory
    restored.memory

variable {changed restored : Cpu σ} {selectors : List StackPair}

/-- One more push before and its pop behind. The words that are pushed later lie below the first one
and do not reach around to it. -/
theorem Restored.cons {s : StackPair} (hroom : selectors.length + 1 ≤ 32768)
    (h : Restored selectors (cpu.execute (.push s)) changed restored) :
    Restored (s :: selectors) cpu changed (restored.execute (.pop s)) := by
  have hpushed : (cpu.execute (.push s)).memory.Holds (cpu.registers.sp - 2)
      [(cpu.stackPair s).low, (cpu.stackPair s).high] := Memory.holds_writeWord _ _ _
  have htop : restored.registers.sp = cpu.registers.sp - 2 := h.sp
  have hheld : restored.memory.Holds restored.registers.sp
      [(cpu.stackPair s).low, (cpu.stackPair s).high] := by
    rw [htop]
    have hfits : 2 * selectors.length + 2 ≤ 65536 := by omega
    obtain ⟨hfirst, hsecond⟩ := Word.word_not_mem_below (cpu.registers.sp - 2) hfits
    exact h.memory.holds_word h.active hfirst hsecond hpushed
  have hpopped : s.Agree (restored.execute (.pop s)) cpu := agree_pop hheld
  refine ⟨?_, ?_, ?_, ?_, ?_⟩
  · rw [sp_pop, htop]
    grind
  · intro t ht
    by_cases hts : t = s
    · exact hts ▸ hpopped
    · have hrest : t ∈ selectors := (List.mem_cons.1 ht).resolve_left hts
      exact (agree_pop_of_ne hts).trans ((h.saved t hrest).trans (agree_push s t))
  · intro t ht
    obtain ⟨hts, hrest⟩ := not_or.1 (mt List.mem_cons.2 ht)
    exact (agree_pop_of_ne hts).trans (h.kept t hrest)
  · rw [memory_pop]
    exact h.active
  · rw [memory_pop]
    exact ((cpu.within_pushWord _).trans h.memory rfl).mono (Word.below_add_two _ _)

/-- Pairs are pushed, the registers and the flags change, and the pairs are popped in the opposite
order: the stack pointer and the pushed pairs are as before the first push, the other pairs keep what
they got, and the memory has changed at most in the bytes just below the stack. -/
theorem pops_restore_pushes (hroom : selectors.length ≤ 32768)
    (hmemory : changed.memory = (cpu.executeAll (selectors.map StackPair.pushOpcode)).memory)
    (hsp : changed.registers.sp =
      (cpu.executeAll (selectors.map StackPair.pushOpcode)).registers.sp) :
    Restored selectors cpu changed
      (changed.executeAll (selectors.reverse.map StackPair.popOpcode)) := by
  induction selectors generalizing cpu with
  | nil =>
    have hmemory' : changed.memory = cpu.memory := hmemory
    refine ⟨hsp, nofun, ?_, ?_, ?_⟩
    · intro s _
      cases s <;> exact ⟨rfl, rfl⟩
    · exact congrArg Memory.active hmemory'
    · show Memory.Within _ _ changed.memory
      rw [hmemory']
      exact Memory.within_refl _ _
  | cons s rest ih =>
    rw [List.map_cons, executeAll_push] at hmemory hsp
    rw [List.length_cons] at hroom
    rw [List.reverse_cons, List.map_append, executeAll_append, List.map_singleton, executeAll_pop]
    exact (ih (by omega) hmemory hsp).cons hroom

/-- Three words are pushed across the end of the bank, one of them the status word. -/
theorem pops_restore_pushes_wrapped :
    let selectors : List StackPair := [.pair .bc, .psw, .pair .bc]
    let cpu : Cpu Unit :=
      { Cpu.new () with registers := { a := 1, b := 2, c := 3, sp := 3 }, flags := { carry := true } }
    let pushed := cpu.executeAll [0xC5, 0xF5, 0xC5]
    let changed : Cpu Unit := { pushed with
      registers := { a := 0xAA, b := 0xBB, c := 0xCC, d := 0xDD, sp := pushed.registers.sp }
      flags := {} }
    let restored := changed.executeAll [0xC1, 0xF1, 0xC1]
    selectors.length ≤ 32768 ∧ pushed.registers.sp = 0xFFFD ∧ restored.registers.sp = 3 ∧
      (restored.registers.b = 2 ∧ restored.registers.c = 3) ∧
      (restored.registers.a = 1 ∧ restored.flags = { carry := true }) ∧
      (restored.registers.d = 0xDD ∧ restored.registers.e = 0) := by
  intro selectors cpu pushed changed restored
  have hroom : selectors.length ≤ 32768 := by decide
  have h : Restored selectors cpu changed restored := pops_restore_pushes hroom rfl rfl
  exact ⟨hroom, by decide, h.sp, h.saved (.pair .bc) (by decide), h.saved .psw (by decide),
    h.kept (.pair .de) (by decide)⟩

end Cpu
end Banked8085
