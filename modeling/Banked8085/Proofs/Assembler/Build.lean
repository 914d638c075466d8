import Mathlib.Data.List.Basic
import Banked8085.Assembler.Assembly
import Banked8085.Proofs.Results

/-! # Instructions built from operand texts

What a successful `Form.build` says about the operand texts: one lemma for each form. From them,
`size_of_build`: an instruction takes the bytes that its mnemonic announces, whatever its operands.
-/

namespace Banked8085.Assembler
set_option autoImplicit false

variable {mnemonic : List Char} {symbols : SymbolTable} {operands : List (List Char)}
  {i : Instruction}

/-! ## One operand, two operands -/

theorem build_eq_ok {form : Form} :
    form.build mnemonic operands symbols = .ok i ↔
      operands.length = form.arity ∧
        form.buildFrom mnemonic symbols (operands.getD 0 []) (operands.getD 1 []) = .ok i := by
  unfold Form.build
  by_cases h : operands.length = form.arity
  · simp [h]
  · simp [h]

theorem build_implied {instruction : Instruction} :
    (Form.implied instruction).build mnemonic operands symbols = .ok i ↔
      operands = [] ∧ i = instruction := by
  rw [build_eq_ok]
  simp only [Form.arity, Form.buildFrom, pure_eq_ok, List.length_eq_zero_iff]
  constructor
  · intro h
    obtain ⟨rfl, rfl⟩ := h
    exact ⟨rfl, rfl⟩
  · intro h
    obtain ⟨rfl, rfl⟩ := h
    exact ⟨rfl, rfl⟩

section Unary
variable {α : Type} {read : List Char → Except OperandError α} {make : α → Instruction}

theorem build_unary {form : Form} (harity : form.arity = 1)
    (hform : ∀ first second, form.buildFrom mnemonic symbols first second =
      (do pure (make (← read first)))) :
    form.build mnemonic operands symbols = .ok i ↔
      ∃ name a, operands = [name] ∧ read name = .ok a ∧ i = make a := by
  rw [build_eq_ok, harity, hform, bind_eq_ok]
  constructor
  · intro h
    obtain ⟨hlength, a, hread, hmake⟩ := h
    obtain ⟨name, rfl⟩ := List.length_eq_one_iff.1 hlength
    exact ⟨name, a, rfl, hread, (pure_eq_ok.1 hmake).symm⟩
  · intro h
    obtain ⟨name, a, rfl, hread, rfl⟩ := h
    exact ⟨rfl, a, hread, rfl⟩

end Unary

theorem build_location {make : Location → Instruction} :
    (Form.location make).build mnemonic operands symbols = .ok i ↔
      ∃ name l, operands = [name] ∧ readLocation name = .ok l ∧ i = make l :=
  build_unary rfl fun _ _ => rfl

theorem build_pair {make : WidePair → Instruction} :
    (Form.pair make).build mnemonic operands symbols = .ok i ↔
      ∃ name p, operands = [name] ∧ readWidePair name = .ok p ∧ i = make p :=
  build_unary rfl fun _ _ => rfl

theorem build_stack {make : StackPair → Instruction} :
    (Form.stack make).build mnemonic operands symbols = .ok i ↔
      ∃ name p, operands = [name] ∧ readStackPair name = .ok p ∧ i = make p :=
  build_unary rfl fun _ _ => rfl

theorem build_pointer {make : PointerPair → Instruction} :
    (Form.pointer make).build mnemonic operands symbols = .ok i ↔
      ∃ name p, operands = [name] ∧ readPointer mnemonic name = .ok p ∧ i = make p :=
  build_unary rfl fun _ _ => rfl

theorem build_immediate {make : Byte → Instruction} :
    (Form.immediate make).build mnemonic operands symbols = .ok i ↔
      ∃ text b, operands = [text] ∧ readByte symbols text = .ok b ∧ i = make b :=
  build_unary rfl fun _ _ => rfl

theorem build_address {make : Word → Instruction} :
    (Form.address make).build mnemonic operands symbols = .ok i ↔
      ∃ text w, operands = [text] ∧ readWord symbols text = .ok w ∧ i = make w :=
  build_unary rfl fun _ _ => rfl

theorem build_move :
    Form.move.build mnemonic operands symbols = .ok i ↔
      ∃ first second target source, operands = [first, second] ∧
        readLocation first = .ok target ∧ readLocation second = .ok source ∧
        ∃ h, i = .mov target source h := by
  rw [build_eq_ok]
  simp only [Form.arity, Form.buildFrom]
  constructor
  · intro h
    obtain ⟨hlength, h⟩ := h
    obtain ⟨first, second, rfl⟩ := List.length_eq_two.1 hlength
    obtain ⟨target, htarget, h⟩ := bind_eq_ok.1 h
    obtain ⟨source, hsource, h⟩ := bind_eq_ok.1 h
    refine ⟨first, second, target, source, rfl, htarget, hsource, ?_⟩
    by_cases hm : target = .memory ∧ source = .memory
    · rw [dif_pos hm] at h
      cases h
    · rw [dif_neg hm] at h
      exact ⟨hm, (pure_eq_ok.1 h).symm⟩
  · intro h
    obtain ⟨first, second, target, source, rfl, htarget, hsource, hm, rfl⟩ := h
    refine ⟨rfl, bind_eq_ok.2 ⟨target, htarget, bind_eq_ok.2 ⟨source, hsource, ?_⟩⟩⟩
    rw [dif_neg hm]
    rfl

theorem build_moveImmediate :
    Form.moveImmediate.build mnemonic operands symbols = .ok i ↔
      ∃ first second target value, operands = [first, second] ∧
        readLocation first = .ok target ∧ readByte symbols second = .ok value ∧
        i = .mvi target value := by
  rw [build_eq_ok]
  simp only [Form.arity, Form.buildFrom]
  constructor
  · intro h
    obtain ⟨hlength, h⟩ := h
    obtain ⟨first, second, rfl⟩ := List.length_eq_two.1 hlength
    obtain ⟨target, htarget, h⟩ := bind_eq_ok.1 h
    obtain ⟨value, hvalue, h⟩ := bind_eq_ok.1 h
    exact ⟨first, second, target, value, rfl, htarget, hvalue, (pure_eq_ok.1 h).symm⟩
  · intro h
    obtain ⟨first, second, target, value, rfl, htarget, hvalue, rfl⟩ := h
    exact ⟨rfl, bind_eq_ok.2 ⟨target, htarget, bind_eq_ok.2 ⟨value, hvalue, rfl⟩⟩⟩

/-- The word is read before the pair. -/
theorem build_pairImmediate :
    Form.pairImmediate.build mnemonic operands symbols = .ok i ↔
      ∃ first second target value, operands = [first, second] ∧
        readWidePair first = .ok target ∧ readWord symbols second = .ok value ∧
        i = .lxi target value := by
  rw [build_eq_ok]
  simp only [Form.arity, Form.buildFrom]
  constructor
  · intro h
    obtain ⟨hlength, h⟩ := h
    obtain ⟨first, second, rfl⟩ := List.length_eq_two.1 hlength
    obtain ⟨value, hvalue, h⟩ := bind_eq_ok.1 h
    obtain ⟨target, htarget, h⟩ := bind_eq_ok.1 h
    exact ⟨first, second, target, value, rfl, htarget, hvalue, (pure_eq_ok.1 h).symm⟩
  · intro h
    obtain ⟨first, second, target, value, rfl, htarget, hvalue, rfl⟩ := h
    exact ⟨rfl, bind_eq_ok.2 ⟨value, hvalue, bind_eq_ok.2 ⟨target, htarget, rfl⟩⟩⟩

theorem build_restart :
    Form.restart.build mnemonic operands symbols = .ok i ↔
      ∃ text vector, operands = [text] ∧ readByte symbols text = .ok vector ∧
        ∃ h : vector.toNat < 8, i = .rst ⟨vector.toNat, h⟩ := by
  rw [build_eq_ok]
  simp only [Form.arity, Form.buildFrom]
  constructor
  · intro h
    obtain ⟨hlength, h⟩ := h
    obtain ⟨text, rfl⟩ := List.length_eq_one_iff.1 hlength
    obtain ⟨vector, hvector, h⟩ := bind_eq_ok.1 h
    refine ⟨text, vector, rfl, hvector, ?_⟩
    by_cases hlt : vector.toNat < 8
    · rw [dif_pos hlt] at h
      exact ⟨hlt, (pure_eq_ok.1 h).symm⟩
    · rw [dif_neg hlt] at h
      cases h
  · intro h
    obtain ⟨text, vector, rfl, hvector, hlt, rfl⟩ := h
    refine ⟨rfl, bind_eq_ok.2 ⟨vector, hvector, ?_⟩⟩
    rw [dif_pos hlt]
    rfl

/-! ## Values -/

theorem readByte_eq_ok {text : List Char} {b : Byte} :
    readByte symbols text = .ok b ↔ readNumber symbols text = .ok b.toNat := by
  unfold readByte
  rw [bind_eq_ok]
  constructor
  · intro h
    obtain ⟨n, hn, h⟩ := h
    by_cases hlt : n < 256
    · rw [if_pos hlt, pure_eq_ok] at h
      rw [hn, ← h, UInt8.toNat_ofNat', Nat.mod_eq_of_lt hlt]
    · rw [if_neg hlt] at h
      cases h
  · intro h
    refine ⟨b.toNat, h, ?_⟩
    rw [if_pos b.toNat_lt, pure_eq_ok]
    exact UInt8.ofNat_toNat

theorem readWord_eq_ok {text : List Char} {w : Word} :
    readWord symbols text = .ok w ↔ readNumber symbols text = .ok w.toNat := by
  unfold readWord
  rw [bind_eq_ok]
  constructor
  · intro h
    obtain ⟨n, hn, h⟩ := h
    by_cases hlt : n < 65536
    · rw [if_pos hlt, pure_eq_ok] at h
      rw [hn, ← h, UInt16.toNat_ofNat', Nat.mod_eq_of_lt hlt]
    · rw [if_neg hlt] at h
      cases h
  · intro h
    refine ⟨w.toNat, h, ?_⟩
    rw [if_pos w.toNat_lt, pure_eq_ok]
    exact UInt16.ofNat_toNat

/-! ## Mnemonics -/

theorem mem_of_form {form : Form} (h : form? mnemonic = some form) :
    (String.ofList mnemonic, form) ∈ mnemonics := by
  obtain ⟨before, after, hsplit, -⟩ := List.lookup_eq_some_iff.1 h
  rw [hsplit]
  exact List.mem_append_right _ List.mem_cons_self

theorem knownForm_eq_ok {form : Form} :
    knownForm mnemonic = .ok form ↔ form? mnemonic = some form := by
  unfold knownForm
  cases form? mnemonic with
  | none => simp
  | some f => simp

theorem emitInstruction_eq_ok {bytes : List Byte} :
    emitInstruction symbols mnemonic operands = .ok bytes ↔
      ∃ form i, form? mnemonic = some form ∧ form.build mnemonic operands symbols = .ok i ∧
        bytes = i.encode := by
  unfold emitInstruction
  rw [bind_eq_ok]
  constructor
  · intro h
    obtain ⟨form, hform, h⟩ := h
    cases hbuild : form.build mnemonic operands symbols with
    | error cause =>
      rw [hbuild] at h
      cases h
    | ok i =>
      rw [hbuild] at h
      exact ⟨form, i, knownForm_eq_ok.1 hform, hbuild, (pure_eq_ok.1 h).symm⟩
  · intro h
    obtain ⟨form, i, hform, hbuild, rfl⟩ := h
    refine ⟨form, knownForm_eq_ok.2 hform, ?_⟩
    rw [hbuild]
    rfl

/-! ## What a form makes -/

/-- A property of all instructions of a form. -/
def Form.All (P : Instruction → Prop) : Form → Prop
  | implied i => P i
  | location make => ∀ l, P (make l)
  | move => ∀ target source h, P (.mov target source h)
  | moveImmediate => ∀ target value, P (.mvi target value)
  | pairImmediate => ∀ target value, P (.lxi target value)
  | pair make => ∀ p, P (make p)
  | stack make => ∀ p, P (make p)
  | pointer make => ∀ p, P (make p)
  | immediate make => ∀ b, P (make b)
  | address make => ∀ w, P (make w)
  | restart => ∀ n, P (.rst n)

theorem Form.All.of_build {P : Instruction → Prop} {form : Form} (hall : form.All P)
    (h : form.build mnemonic operands symbols = .ok i) : P i := by
  cases form with
  | implied instruction =>
    obtain ⟨-, rfl⟩ := build_implied.1 h
    exact hall
  | location make =>
    obtain ⟨-, l, -, -, rfl⟩ := build_location.1 h
    exact hall l
  | move =>
    obtain ⟨-, -, target, source, -, -, -, hm, rfl⟩ := build_move.1 h
    exact hall target source hm
  | moveImmediate =>
    obtain ⟨-, -, target, value, -, -, -, rfl⟩ := build_moveImmediate.1 h
    exact hall target value
  | pairImmediate =>
    obtain ⟨-, -, target, value, -, -, -, rfl⟩ := build_pairImmediate.1 h
    exact hall target value
  | pair make =>
    obtain ⟨-, p, -, -, rfl⟩ := build_pair.1 h
    exact hall p
  | stack make =>
    obtain ⟨-, p, -, -, rfl⟩ := build_stack.1 h
    exact hall p
  | pointer make =>
    obtain ⟨-, p, -, -, rfl⟩ := build_pointer.1 h
    exact hall p
  | immediate make =>
    obtain ⟨-, b, -, -, rfl⟩ := build_immediate.1 h
    exact hall b
  | address make =>
    obtain ⟨-, w, -, -, rfl⟩ := build_address.1 h
    exact hall w
  | restart =>
    obtain ⟨-, vector, -, -, hlt, rfl⟩ := build_restart.1 h
    exact hall ⟨vector.toNat, hlt⟩

/-! ## Sizes -/

theorem all_size : ∀ entry ∈ mnemonics, entry.2.All (·.size = entry.2.size) := by
  simp only [mnemonics, List.forall_mem_cons, Form.All, List.not_mem_nil, false_implies,
    implies_true, and_true]
  repeat' apply And.intro
  all_goals
    intros
    rfl

theorem size_of_build {form : Form} (hform : form? mnemonic = some form)
    (h : form.build mnemonic operands symbols = .ok i) : i.size = form.size :=
  (all_size _ (mem_of_form hform)).of_build h

end Banked8085.Assembler
