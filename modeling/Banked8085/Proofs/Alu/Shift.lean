import Banked8085.Proofs.Alu.Chain

/-! # Shifts of numbers of several bytes

A rotation through the carry hands the bit that leaves one byte to the next one. `Alu.upward`
applies a byte operation from the least significant byte on and `Alu.downward` from the most
significant byte on, and both hand the flags along. Rotating left upward doubles the number that the
bytes write, and rotating right downward halves it, each with the carry as the missing bit; either
undoes the other (`shifts_compute_numbers`).
-/

namespace Banked8085.Alu
set_option autoImplicit false

/-! ## Folds over the bytes of a number -/

/-- Apply an operation to each byte in turn, the least significant one first. -/
def upward (op : Byte → Flags → Byte × Flags) : List Byte → Flags → List Byte × Flags
  | [], flags => ([], flags)
  | b :: rest, flags =>
    let lowest := op b flags
    let others := upward op rest lowest.2
    (lowest.1 :: others.1, others.2)

/-- Apply an operation to each byte in turn, the most significant one first. -/
def downward (op : Byte → Flags → Byte × Flags) : List Byte → Flags → List Byte × Flags
  | [], flags => ([], flags)
  | b :: rest, flags =>
    let others := downward op rest flags
    let lowest := op b others.2
    (lowest.1 :: others.1, lowest.2)

section Folds
variable {op back : Byte → Flags → Byte × Flags}

@[simp] theorem length_upward (bytes : List Byte) (flags : Flags) :
    (upward op bytes flags).1.length = bytes.length := by
  induction bytes generalizing flags with
  | nil => rfl
  | cons b rest ih => exact congrArg Nat.succ (ih _)

@[simp] theorem length_downward (bytes : List Byte) (flags : Flags) :
    (downward op bytes flags).1.length = bytes.length := by
  induction bytes with
  | nil => rfl
  | cons b rest ih => exact congrArg Nat.succ ih

/-- The second operation brings back the byte and the flags that the first one was given. -/
def Undoes (back op : Byte → Flags → Byte × Flags) : Prop :=
  ∀ b flags, back (op b flags).1 (op b flags).2 = (b, flags)

theorem downward_upward (h : Undoes back op) (bytes : List Byte) (flags : Flags) :
    downward back (upward op bytes flags).1 (upward op bytes flags).2 = (bytes, flags) := by
  induction bytes generalizing flags with
  | nil => rfl
  | cons b rest ih => simp only [upward, downward, ih, h b flags]

theorem upward_downward (h : Undoes back op) (bytes : List Byte) (flags : Flags) :
    upward back (downward op bytes flags).1 (downward op bytes flags).2 = (bytes, flags) := by
  induction bytes with
  | nil => rfl
  | cons b rest ih => simp only [upward, downward, h b _, ih]

/-- The operation changes no flag but the carry. -/
def ChangesCarry (op : Byte → Flags → Byte × Flags) : Prop :=
  ∀ b flags, ∃ carry, (op b flags).2 = { flags with carry }

theorem flags_upward (h : ChangesCarry op) (bytes : List Byte) (flags : Flags) :
    ∃ carry, (upward op bytes flags).2 = { flags with carry } := by
  induction bytes generalizing flags with
  | nil => exact ⟨flags.carry, rfl⟩
  | cons b rest ih =>
    obtain ⟨between, hlowest⟩ := h b flags
    obtain ⟨carry, hothers⟩ := ih (op b flags).2
    rw [hlowest] at hothers
    refine ⟨carry, ?_⟩
    simp only [upward, hlowest, hothers]

theorem flags_downward (h : ChangesCarry op) (bytes : List Byte) (flags : Flags) :
    ∃ carry, (downward op bytes flags).2 = { flags with carry } := by
  induction bytes with
  | nil => exact ⟨flags.carry, rfl⟩
  | cons b rest ih =>
    obtain ⟨between, hothers⟩ := ih
    obtain ⟨carry, hlowest⟩ := h b (downward op rest flags).2
    rw [hothers] at hlowest
    refine ⟨carry, ?_⟩
    simp only [downward, hothers, hlowest]

end Folds

/-! ## Rotations through the carry -/

theorem changesCarry_rotateLeftThrough : ChangesCarry rotateLeftThrough := fun b _ => ⟨b.bit 7, rfl⟩

theorem changesCarry_rotateRightThrough : ChangesCarry rotateRightThrough :=
  fun b _ => ⟨b.bit 0, rfl⟩

theorem toNat_bit (b : Byte) (i : Nat) : (b.bit i).toNat = b.toNat / 2 ^ i % 2 :=
  Nat.toNat_testBit b.toNat i

/-- Nine bits rotate: the top bit of the byte leaves into the carry, and the carry comes in. -/
theorem toNat_rotateLeftThrough (b : Byte) (flags : Flags) :
    (rotateLeftThrough b flags).1.toNat + 256 * (rotateLeftThrough b flags).2.carry.toNat =
      2 * b.toNat + flags.carry.toNat := by
  have hb := b.toNat_lt
  have hc : flags.carry.toNat ≤ 1 := Bool.toNat_le _
  simp only [rotateLeftThrough, UInt8.toNat_ofNat', toNat_bit]
  omega

theorem toNat_rotateRightThrough (b : Byte) (flags : Flags) :
    2 * (rotateRightThrough b flags).1.toNat + (rotateRightThrough b flags).2.carry.toNat =
      b.toNat + 256 * flags.carry.toNat := by
  have hb := b.toNat_lt
  have hc : flags.carry.toNat ≤ 1 := Bool.toNat_le _
  simp only [rotateRightThrough, UInt8.toNat_ofNat', toNat_bit]
  omega

theorem eq_of_toNat_eq {result : Byte × Flags} {b : Byte} {flags : Flags}
    (hflags : ∃ carry, result.2 = { flags with carry }) (hbyte : result.1.toNat = b.toNat)
    (hcarry : result.2.carry.toNat = flags.carry.toNat) : result = (b, flags) := by
  obtain ⟨byte, after⟩ := result
  obtain ⟨carry, rfl⟩ := hflags
  obtain rfl : byte = b := UInt8.toNat_inj.1 hbyte
  obtain rfl : carry = flags.carry := Function.LeftInverse.injective Bool.ofNat_toNat hcarry
  rfl

theorem rotateRightThrough_undoes : Undoes rotateRightThrough rotateLeftThrough := by
  intro b flags
  have hleft := toNat_rotateLeftThrough b flags
  have hright := toNat_rotateRightThrough (rotateLeftThrough b flags).1
    (rotateLeftThrough b flags).2
  have hcarry := Bool.toNat_le flags.carry
  have hcarry' := Bool.toNat_le (rotateRightThrough (rotateLeftThrough b flags).1
    (rotateLeftThrough b flags).2).2.carry
  exact eq_of_toNat_eq ⟨_, rfl⟩ (by omega) (by omega)

theorem rotateLeftThrough_undoes : Undoes rotateLeftThrough rotateRightThrough := by
  intro b flags
  have hright := toNat_rotateRightThrough b flags
  have hleft := toNat_rotateLeftThrough (rotateRightThrough b flags).1
    (rotateRightThrough b flags).2
  have hb := b.toNat_lt
  have hb' := (rotateLeftThrough (rotateRightThrough b flags).1
    (rotateRightThrough b flags).2).1.toNat_lt
  exact eq_of_toNat_eq ⟨_, rfl⟩ (by omega) (by omega)

/-! ## Shifts of numbers -/

/-- Rotating all bytes left doubles the number; the carry is its lowest bit, and the bit beyond the
last byte leaves into the carry. -/
theorem number_upward (bytes : List Byte) (flags : Flags) :
    let left := upward rotateLeftThrough bytes flags
    number left.1 + 256 ^ bytes.length * left.2.carry.toNat =
      2 * number bytes + flags.carry.toNat := by
  induction bytes generalizing flags with
  | nil => simp [upward]
  | cons b rest ih =>
    have hlowest := toNat_rotateLeftThrough b flags
    have hothers := ih (rotateLeftThrough b flags).2
    simp only [upward, number_cons, List.length_cons, pow_succ] at hothers ⊢
    linear_combination hlowest + 256 * hothers

/-- Rotating all bytes right halves the number with the carry in front of it; what is left over is
the carry. -/
theorem number_downward (bytes : List Byte) (flags : Flags) :
    let right := downward rotateRightThrough bytes flags
    2 * number right.1 + right.2.carry.toNat =
      number bytes + 256 ^ bytes.length * flags.carry.toNat := by
  induction bytes with
  | nil => simp [downward]
  | cons b rest ih =>
    have hlowest := toNat_rotateRightThrough b (downward rotateRightThrough rest flags).2
    simp only [downward, number_cons, List.length_cons, pow_succ] at ih ⊢
    linear_combination hlowest + 256 * ih

/-- The range of `n` bytes is twice the weight of its top bit. -/
theorem two_mul_top {n : Nat} (hn : 0 < n) : 2 * 2 ^ (8 * n - 1) = 256 ^ n := by
  have hbits : 8 * n - 1 + 1 = 8 * n := by omega
  rw [mul_comm, ← pow_succ, hbits, pow_mul]
  rfl

theorem testBit_top {x k : Nat} (h : x < 2 * 2 ^ k) : x.testBit k = decide (2 ^ k ≤ x) := by
  rw [← pow_succ'] at h
  by_cases hle : 2 ^ k ≤ x
  · rw [Nat.testBit_of_two_pow_le_and_two_pow_add_one_gt hle h, decide_eq_true hle]
  · rw [Nat.testBit_lt_two_pow (Nat.lt_of_not_le hle), decide_eq_false hle]

variable {n : Nat} {x : List Byte}

theorem upward_rotateLeftThrough (hn : 0 < n) (hx : x.length = n) (flags : Flags) :
    let left := upward rotateLeftThrough x flags
    number left.1 = (2 * number x + flags.carry.toNat) % 256 ^ n ∧
      left.2 = { flags with carry := (number x).testBit (8 * n - 1) } := by
  intro left
  have hlt := number_lt left.1
  have hxlt := number_lt x
  have hshift : number left.1 + 256 ^ x.length * left.2.carry.toNat =
      2 * number x + flags.carry.toNat := number_upward x flags
  rw [length_upward] at hlt
  simp only [hx] at hlt hxlt hshift
  have hcarry : left.2.carry = (number x).testBit (8 * n - 1) := by
    have hin := Bool.toNat_le flags.carry
    rw [← two_mul_top hn] at hlt hxlt hshift
    rw [testBit_top hxlt]
    cases hout : left.2.carry with
    | false =>
      simp only [hout, Bool.toNat_false] at hshift
      exact (decide_eq_false (by omega)).symm
    | true =>
      simp only [hout, Bool.toNat_true] at hshift
      exact (decide_eq_true (by omega)).symm
  constructor
  · rw [← hshift, Nat.add_mul_mod_self_left, Nat.mod_eq_of_lt hlt]
  · obtain ⟨carry, hflags⟩ := flags_upward changesCarry_rotateLeftThrough x flags
    rw [← hcarry, show left.2 = _ from hflags]

theorem downward_rotateRightThrough (hn : 0 < n) (hx : x.length = n) (flags : Flags) :
    let right := downward rotateRightThrough x flags
    number right.1 = number x / 2 + flags.carry.toNat * 2 ^ (8 * n - 1) ∧
      right.2 = { flags with carry := (number x).testBit 0 } := by
  intro right
  have hshift : 2 * number right.1 + right.2.carry.toNat =
      number x + 256 ^ x.length * flags.carry.toNat := number_downward x flags
  have hout := Bool.toNat_le right.2.carry
  rw [hx, ← two_mul_top hn, mul_assoc, mul_comm (2 ^ (8 * n - 1))] at hshift
  have hcarry : right.2.carry = (number x).testBit 0 := by
    apply Function.LeftInverse.injective Bool.ofNat_toNat
    rw [Nat.toNat_testBit, pow_zero, Nat.div_one]
    omega
  constructor
  · omega
  · obtain ⟨carry, hflags⟩ := flags_downward changesCarry_rotateRightThrough x flags
    rw [← hcarry, show right.2 = _ from hflags]

/-- The bytes of a number are rotated through the carry, the least significant one first to the
left, the most significant one first to the right. To the left, the number is doubled and the carry
added, in the range of its bytes, and the top bit leaves into the carry; to the right, the number is
halved with the carry as the new top bit, and the lowest bit leaves. No other flag changes, and each
way undoes the other. -/
theorem shifts_compute_numbers (hn : 0 < n) (hx : x.length = n) (flags : Flags) :
    let left := upward rotateLeftThrough x flags
    let right := downward rotateRightThrough x flags
    (left.1.length = n ∧ number left.1 = (2 * number x + flags.carry.toNat) % 256 ^ n ∧
        left.2 = { flags with carry := (number x).testBit (8 * n - 1) }) ∧
      (right.1.length = n ∧
        number right.1 = number x / 2 + flags.carry.toNat * 2 ^ (8 * n - 1) ∧
        right.2 = { flags with carry := (number x).testBit 0 }) ∧
      downward rotateRightThrough left.1 left.2 = (x, flags) ∧
      upward rotateLeftThrough right.1 right.2 = (x, flags) := by
  intro left right
  refine ⟨⟨?_, upward_rotateLeftThrough hn hx flags⟩,
    ⟨?_, downward_rotateRightThrough hn hx flags⟩,
    downward_upward rotateRightThrough_undoes x flags,
    upward_downward rotateLeftThrough_undoes x flags⟩
  · rw [length_upward, hx]
  · rw [length_downward, hx]

/-- A number of three bytes whose top bit and lowest bit are set, with a carry. -/
theorem shifts_compute_numbers_wrap :
    let x : List Byte := [0x01, 0x80, 0xC0]
    let flags : Flags := { zero := true, carry := true }
    let left := upward rotateLeftThrough x flags
    let right := downward rotateRightThrough x flags
    (0 < 3 ∧ x.length = 3) ∧ number x = 0xC08001 ∧
      number left.1 = 0x810003 ∧ left.2 = { zero := true, carry := true } ∧
      number right.1 = 0xE04000 ∧ right.2 = { zero := true, carry := true } ∧
      downward rotateRightThrough left.1 left.2 = (x, flags) := by
  intro x flags left right
  have hnumber : number x = 0xC08001 := by decide
  have hlength : x.length = 3 := rfl
  obtain ⟨⟨-, hleft, hleftFlags⟩, ⟨-, hright, hrightFlags⟩, hundone, -⟩ :=
    shifts_compute_numbers (by decide) hlength flags
  rw [hnumber] at hleft hleftFlags hright hrightFlags
  exact ⟨⟨by decide, hlength⟩, hnumber, hleft.trans (by decide), hleftFlags.trans (by decide),
    hright.trans (by decide), hrightFlags.trans (by decide), hundone⟩

end Banked8085.Alu
