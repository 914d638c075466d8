import Mathlib.Data.Nat.Digits.Lemmas
import Mathlib.Tactic.LinearCombination
import Banked8085.Alu

/-! # Arithmetic on numbers of several bytes

`Alu.chain` applies a byte operation position by position, the least significant byte first, and
hands the flags on. `Alu.number` is the number that a list of bytes writes. A chain adds or subtracts
these numbers when each of its steps adds or subtracts bytes (`number_chain`), whatever the length;
`chains_compute_numbers` states the results, the final carry, and the agreement with `addWord`.
-/

namespace Banked8085.Alu
set_option autoImplicit false

/-! ## Numbers -/

/-- The number that these bytes write, the least significant first. -/
def number (bytes : List Byte) : Nat := Nat.ofDigits 256 (bytes.map UInt8.toNat)

@[simp] theorem number_nil : number [] = 0 := rfl

@[simp] theorem number_cons (b : Byte) (bytes : List Byte) :
    number (b :: bytes) = b.toNat + 256 * number bytes := Nat.ofDigits_cons

theorem number_lt (bytes : List Byte) : number bytes < 256 ^ bytes.length := by
  have hdigits : ∀ d ∈ bytes.map UInt8.toNat, d < 256 := by
    intro d hd
    obtain ⟨b, -, rfl⟩ := List.mem_map.1 hd
    exact b.toNat_lt
  have h := Nat.ofDigits_lt_base_pow_length (by decide) hdigits
  rwa [List.length_map] at h

/-! ## Chains -/

/-- Apply an operation to each pair of bytes in turn. `withCarry` says whether the first pair takes
the carry in; the others do. -/
def chain (op : Byte → Byte → Bool → Flags → Byte × Flags) :
    Bool → List (Byte × Byte) → Flags → List Byte × Flags
  | _, [], flags => ([], flags)
  | withCarry, (x, y) :: rest, flags =>
    let first := op x y withCarry flags
    let others := chain op true rest first.2
    (first.1 :: others.1, others.2)

variable {op : Byte → Byte → Bool → Flags → Byte × Flags}

@[simp] theorem length_chain (withCarry : Bool) (pairs : List (Byte × Byte)) (flags : Flags) :
    (chain op withCarry pairs flags).1.length = pairs.length := by
  induction pairs generalizing withCarry flags with
  | nil => rfl
  | cons p rest ih => exact congrArg Nat.succ (ih true _)

theorem zip_of_length {n : Nat} (hn : 0 < n) {x y : List Byte} (hx : x.length = n)
    (hy : y.length = n) :
    (x.zip y).map Prod.fst = x ∧ (x.zip y).map Prod.snd = y ∧ (x.zip y).length = n ∧
      x.zip y ≠ [] := by
  have hlength : (x.zip y).length = n := by
    rw [List.length_zip]
    omega
  exact ⟨List.map_fst_zip (by omega), List.map_snd_zip (by omega), hlength,
    List.ne_nil_of_length_pos (hlength ▸ hn)⟩

/-- The carry that an operation takes in. -/
def carryIn (withCarry : Bool) (flags : Flags) : Nat := (withCarry && flags.carry).toNat

/-- An operation combines bytes: it computes `x + sign * y` and moves a multiple of 256 between the
result and the carry. -/
def Combines (op : Byte → Byte → Bool → Flags → Byte × Flags) (sign : ℤ) : Prop :=
  ∀ x y withCarry flags, ((op x y withCarry flags).1.toNat : ℤ) =
    x.toNat + sign * (y.toNat + carryIn withCarry flags -
      256 * (op x y withCarry flags).2.carry.toNat)

/-- A chain combines numbers as its steps combine bytes: what leaves a byte enters the next one. -/
theorem number_chain {sign : ℤ} (hop : Combines op sign) (withCarry : Bool)
    {pairs : List (Byte × Byte)} (h : withCarry = true ∨ pairs ≠ []) (flags : Flags) :
    (number (chain op withCarry pairs flags).1 : ℤ) =
      number (pairs.map Prod.fst) + sign * (number (pairs.map Prod.snd) + carryIn withCarry flags -
        256 ^ pairs.length * (chain op withCarry pairs flags).2.carry.toNat) := by
  induction pairs generalizing withCarry flags with
  | nil =>
    obtain rfl := h.resolve_right (· rfl)
    simp [chain, carryIn]
  | cons p rest ih =>
    obtain ⟨x, y⟩ := p
    have hfirst := hop x y withCarry flags
    have hothers := ih true (.inl rfl) (op x y withCarry flags).2
    simp only [chain, List.map_cons, List.length_cons, number_cons, Nat.cast_add, Nat.cast_mul,
      pow_succ, carryIn, Bool.true_and] at hfirst hothers ⊢
    push_cast at hothers ⊢
    linear_combination hfirst + 256 * hothers

/-- A chain that begins without the carry leaves its bytes in range and the rest to the carry. -/
theorem number_chain_begin {sign : ℤ} (hop : Combines op sign) {pairs : List (Byte × Byte)}
    (h : pairs ≠ []) (flags : Flags) :
    let result := chain op false pairs flags
    number result.1 < 256 ^ pairs.length ∧
      (number (pairs.map Prod.fst) : ℤ) + sign * number (pairs.map Prod.snd) =
        number result.1 + sign * (256 ^ pairs.length * result.2.carry.toNat) := by
  intro result
  have hlength : result.1.length = pairs.length := length_chain false pairs flags
  have hchain := number_chain hop false (.inr h) flags
  simp only [carryIn, Bool.false_and, Bool.toNat_false, Nat.cast_zero] at hchain
  exact ⟨hlength ▸ number_lt result.1, by linear_combination -hchain⟩

/-! ## Sums and differences -/

theorem toNat_addWord (left right : Word) (flags : Flags) :
    (addWord left right flags).1.toNat = (left.toNat + right.toNat) % 65536 :=
  UInt16.toNat_add left right

theorem carry_addWord (left right : Word) (flags : Flags) :
    (addWord left right flags).2.carry = decide (65536 ≤ left.toNat + right.toNat) := rfl

theorem combines_add : Combines add 1 := by
  intro x y withCarry flags
  have hx := x.toNat_lt
  have hy := y.toNat_lt
  have hc : (withCarry && flags.carry).toNat ≤ 1 := Bool.toNat_le _
  simp only [add, Flags.ofResult, carryIn, UInt8.toNat_ofNat']
  by_cases h : 255 < x.toNat + y.toNat + (withCarry && flags.carry).toNat
  · simp only [h, decide_true, Bool.toNat_true]
    omega
  · simp only [h, decide_false, Bool.toNat_false]
    omega

theorem combines_subtract : Combines subtract (-1) := by
  intro x y withCarry flags
  have hx := x.toNat_lt
  have hy := y.toNat_lt
  have hc : (withCarry && flags.carry).toNat ≤ 1 := Bool.toNat_le _
  simp only [subtract, Flags.ofResult, carryIn, UInt8.toNat_ofNat']
  by_cases h : x.toNat < y.toNat + (withCarry && flags.carry).toNat
  · simp only [h, decide_true, Bool.toNat_true]
    omega
  · simp only [h, decide_false, Bool.toNat_false]
    omega

/-- A sum is carried out modulo the range of its bytes, and the carry says what was left over. -/
theorem number_chain_add {pairs : List (Byte × Byte)} (h : pairs ≠ []) (flags : Flags) :
    let left := number (pairs.map Prod.fst)
    let right := number (pairs.map Prod.snd)
    let sum := chain add false pairs flags
    number sum.1 = (left + right) % 256 ^ pairs.length ∧
      sum.2.carry = decide (256 ^ pairs.length ≤ left + right) := by
  intro left right sum
  obtain ⟨hlt, hsum⟩ := number_chain_begin combines_add h flags
  have htotal : left + right = number sum.1 + 256 ^ pairs.length * sum.2.carry.toNat := by
    rw [one_mul, one_mul] at hsum
    exact_mod_cast hsum
  constructor
  · rw [htotal, Nat.add_mul_mod_self_left, Nat.mod_eq_of_lt hlt]
  · rw [htotal]
    cases sum.2.carry with
    | false => simpa using hlt
    | true => simp

/-- A difference is carried out modulo the range of its bytes, and the carry is the borrow. -/
theorem number_chain_subtract {pairs : List (Byte × Byte)} (h : pairs ≠ []) (flags : Flags) :
    let left := number (pairs.map Prod.fst)
    let right := number (pairs.map Prod.snd)
    let difference := chain subtract false pairs flags
    (number difference.1 : ℤ) = ((left : ℤ) - right) % 256 ^ pairs.length ∧
      difference.2.carry = decide (left < right) := by
  intro left right difference
  obtain ⟨hlt, hdifference⟩ := number_chain_begin combines_subtract h flags
  have htotal : (left : ℤ) - right =
      number difference.1 - 256 ^ pairs.length * difference.2.carry.toNat := by
    linear_combination hdifference
  have hlt' : (number difference.1 : ℤ) < 256 ^ pairs.length := by exact_mod_cast hlt
  constructor
  · rw [htotal, Int.sub_mul_emod_self_left, Int.emod_eq_of_lt (Int.natCast_nonneg _) hlt']
  · cases hborrow : difference.2.carry with
    | false =>
      simp only [hborrow, Bool.toNat_false] at htotal
      have hle : right ≤ left := by omega
      simp [hle]
    | true =>
      simp only [hborrow, Bool.toNat_true] at htotal
      have hless : left < right := by omega
      simp [hless]

/-- Numbers of any length are added and subtracted byte by byte, the first byte without the carry:
the result is right modulo `256 ^ n` and the carry says whether it left that range. The addition of
words is the chain of length two. -/
theorem chains_compute_numbers {n : Nat} (hn : 0 < n) {x y : List Byte} (hx : x.length = n)
    (hy : y.length = n) (flags : Flags) :
    let sum := chain add false (x.zip y) flags
    let difference := chain subtract false (x.zip y) flags
    (sum.1.length = n ∧ number sum.1 = (number x + number y) % 256 ^ n ∧
        sum.2.carry = decide (256 ^ n ≤ number x + number y)) ∧
      (difference.1.length = n ∧
        (number difference.1 : ℤ) = ((number x : ℤ) - number y) % 256 ^ n ∧
        difference.2.carry = decide (number x < number y)) ∧
      (n = 2 →
        let word := addWord (.ofNat (number x)) (.ofNat (number y)) flags
        word.1.toNat = number sum.1 ∧ word.2.carry = sum.2.carry) := by
  intro sum difference
  obtain ⟨hleft, hright, hlength, hne⟩ := zip_of_length hn hx hy
  have hsum := number_chain_add hne flags
  have hdifference := number_chain_subtract hne flags
  simp only [hleft, hright, hlength] at hsum hdifference
  refine ⟨⟨?_, hsum⟩, ⟨?_, hdifference⟩, ?_⟩
  · rw [length_chain, hlength]
  · rw [length_chain, hlength]
  · rintro rfl word
    have hrange : 256 ^ 2 = 65536 := rfl
    have hxlt := number_lt x
    have hylt := number_lt y
    rw [hx, hrange] at hxlt
    rw [hy, hrange] at hylt
    have hword : (UInt16.ofNat (number x)).toNat = number x ∧
        (UInt16.ofNat (number y)).toNat = number y := by
      simp only [UInt16.toNat_ofNat']
      omega
    rw [hsum.1, hsum.2, hrange, toNat_addWord, carry_addWord, hword.1, hword.2]
    exact ⟨rfl, rfl⟩

/-- Both words reach the end of the range together: the sum is zero with a carry. -/
theorem chains_compute_numbers_wrap :
    let x : List Byte := [0xFF, 0x80]
    let y : List Byte := [0x01, 0x7F]
    let sum := chain add false (x.zip y) {}
    let difference := chain subtract false (x.zip y) {}
    (0 < 2 ∧ x.length = 2 ∧ y.length = 2) ∧ number sum.1 = 0 ∧ sum.2.carry = true ∧
      number difference.1 = 0x01FE ∧ difference.2.carry = false ∧
      (addWord 0x80FF 0x7F01 {}).1.toNat = number sum.1 := by
  intro x y sum difference
  have hnumbers : number x = 0x80FF ∧ number y = 0x7F01 := by decide
  have hlength : x.length = 2 ∧ y.length = 2 := ⟨rfl, rfl⟩
  obtain ⟨⟨-, hsum, hcarry⟩, ⟨-, hdifference, hborrow⟩, hword⟩ :=
    chains_compute_numbers Nat.two_pos hlength.1 hlength.2 {}
  rw [hnumbers.1, hnumbers.2] at hsum hcarry hdifference hborrow hword
  exact ⟨⟨Nat.two_pos, hlength⟩, hsum, hcarry, Int.ofNat.inj hdifference, hborrow, (hword rfl).1⟩

end Banked8085.Alu
