import Banked8085.Proofs.Alu.Chain

/-! # Decimal addition

A packed decimal byte holds two digits. `Alu.addDecimal` adds two such bytes and adjusts the sum, so
a chain of it adds decimal numbers of any length. Its carry is always the decimal one
(`carry_addDecimal`), but the adjustment goes by the auxiliary carry, which an addition computes from
the carry that leaves the byte: if a carry comes in, completes a low digit and does not go out, then
the low digit stays unadjusted. `decimal_chain` says that just these positions spoil a sum.
-/

namespace Banked8085.Alu
set_option autoImplicit false

/-! ## Packed decimal bytes -/

/-- Both halves of the byte are decimal digits. -/
def IsDecimal (b : Byte) : Prop := b.toNat / 16 ≤ 9 ∧ b.toNat % 16 ≤ 9

instance (b : Byte) : Decidable (IsDecimal b) :=
  inferInstanceAs (Decidable (b.toNat / 16 ≤ 9 ∧ b.toNat % 16 ≤ 9))

/-- The two digits of a packed byte as a number. -/
def decimal (b : Byte) : Nat := 10 * (b.toNat / 16) + b.toNat % 16

theorem IsDecimal.lt {b : Byte} (h : IsDecimal b) : decimal b < 100 := by
  obtain ⟨hhigh, hlow⟩ := h
  rw [decimal]
  omega

/-- The number that packed bytes write, the least significant first. -/
def decimalNumber (bytes : List Byte) : Nat := Nat.ofDigits 100 (bytes.map decimal)

@[simp] theorem decimalNumber_nil : decimalNumber [] = 0 := rfl

@[simp] theorem decimalNumber_cons (b : Byte) (bytes : List Byte) :
    decimalNumber (b :: bytes) = decimal b + 100 * decimalNumber bytes := Nat.ofDigits_cons

/-- These bytes are packed, and `value` is their number. -/
structure Packs (bytes : List Byte) (value : Nat) : Prop where
  digits : ∀ b ∈ bytes, IsDecimal b
  number_eq : decimalNumber bytes = value

instance (bytes : List Byte) (value : Nat) : Decidable (Packs bytes value) :=
  decidable_of_iff (bytes.all (fun b => decide (IsDecimal b)) = true ∧ decimalNumber bytes = value)
    ⟨fun h => ⟨fun b hb => of_decide_eq_true (List.all_eq_true.1 h.1 b hb), h.2⟩,
      fun h => ⟨List.all_eq_true.2 fun b hb => decide_eq_true (h.digits b hb), h.number_eq⟩⟩

theorem packs_nil {value : Nat} : Packs [] value ↔ value = 0 :=
  ⟨fun h => h.number_eq.symm, fun h => ⟨List.forall_mem_nil _, h.symm⟩⟩

theorem packs_cons {b : Byte} {bytes : List Byte} {value : Nat} :
    Packs (b :: bytes) value ↔
      IsDecimal b ∧ decimal b = value % 100 ∧ Packs bytes (value / 100) := by
  constructor
  · intro h
    have hb : IsDecimal b := h.digits b List.mem_cons_self
    have hlt := hb.lt
    have hvalue := h.number_eq
    rw [decimalNumber_cons] at hvalue
    refine ⟨hb, by omega, ⟨fun d hd => h.digits d (List.mem_cons_of_mem _ hd), by omega⟩⟩
  · intro h
    obtain ⟨hb, hfirst, hrest⟩ := h
    refine ⟨List.forall_mem_cons.2 ⟨hb, hrest.digits⟩, ?_⟩
    rw [decimalNumber_cons, hrest.number_eq, hfirst]
    exact Nat.mod_add_div value 100

/-! ## The adjustment -/

/-- The sum of two packed bytes, before the adjustment: `high` and `low` are the sums of the upper
and of the lower digits. -/
structure HoldsDigits (acc : Byte) (flags : Flags) (high low : Nat) : Prop where
  high_le : high ≤ 18
  low_le : low ≤ 19
  acc_eq : acc.toNat = (16 * high + low) % 256
  carry_eq : flags.carry = decide (255 < 16 * high + low)
  low_of_auxCarry : flags.auxCarry = true → 9 < low

section
variable {acc : Byte} {flags : Flags} {high low : Nat}

/-- The low digit is corrected. -/
def AdjustsLow (acc : Byte) (flags : Flags) : Prop :=
  9 < acc.toNat % 16 ∨ flags.auxCarry = true

instance : Decidable (AdjustsLow acc flags) :=
  inferInstanceAs (Decidable (9 < acc.toNat % 16 ∨ flags.auxCarry = true))

theorem toNat_decimalAdjust (acc : Byte) (flags : Flags) :
    (decimalAdjust acc flags).1.toNat =
      (acc.toNat + (if AdjustsLow acc flags then 0x06 else 0) +
        (if (decimalAdjust acc flags).2.carry then 0x60 else 0)) % 256 := by
  have hlow : (decide (9 < acc.toNat % 16) || flags.auxCarry) = true ↔ AdjustsLow acc flags := by
    rw [Bool.or_eq_true, decide_eq_true_eq, AdjustsLow]
  simp only [decimalAdjust, Flags.ofResult, hlow, UInt8.toNat_add]
  split <;> split <;> simp only [UInt8.reduceToNat] <;> omega

/-- The adjustment sets the carry if and only if the digits sum up to a hundred. -/
theorem HoldsDigits.carry (h : HoldsDigits acc flags high low) :
    (decimalAdjust acc flags).2.carry = decide (100 ≤ 10 * high + low) := by
  obtain ⟨hhigh, hlow, hacc, hcarry, -⟩ := h
  have hlower : acc.toNat % 16 = low % 16 := by omega
  have hupper : acc.toNat / 16 = (high + low / 16) % 16 := by omega
  rw [Bool.eq_iff_iff]
  simp only [decimalAdjust, Flags.ofResult, hcarry, hlower, hupper, Bool.or_eq_true,
    Bool.and_eq_true, decide_eq_true_eq]
  omega

/-- With the low digit settled, the correction of the upper one leaves the last digit of `high`. -/
theorem decimal_of_upper {b : Byte} {sum : Nat} (hhigh : high ≤ 19) (hlow : low ≤ 9)
    (hsum : sum % 256 = (16 * high + low) % 256)
    (hb : b.toNat = (sum + (if 10 ≤ high then 0x60 else 0)) % 256) :
    IsDecimal b ∧ decimal b = 10 * (high % 10) + low := by
  have hdigits : b.toNat = 16 * (high % 10) + low := by
    split at hb <;> omega
  simp only [IsDecimal, decimal]
  omega

/-- The adjusted byte is the decimal sum if and only if a low digit above nine is corrected. Corrected
or not, it makes up one more upper digit. -/
theorem HoldsDigits.decimal_iff (h : HoldsDigits acc flags high low) :
    IsDecimal (decimalAdjust acc flags).1 ∧
        decimal (decimalAdjust acc flags).1 = (10 * high + low) % 100 ↔
      (9 < low → AdjustsLow acc flags) := by
  have hresult := toNat_decimalAdjust acc flags
  simp only [h.carry, decide_eq_true_eq] at hresult
  generalize (decimalAdjust acc flags).1 = result at hresult ⊢
  obtain ⟨hhigh, hlow, hacc, -, haux⟩ := h
  have hcarry : 9 < low → (100 ≤ 10 * high + low ↔ 10 ≤ high + 1) := by omega
  by_cases hadjust : AdjustsLow acc flags
  · have hnine : 9 < low := by
      rcases hadjust with habove | hset
      · omega
      · exact haux hset
    simp only [if_pos hadjust, hacc, hcarry hnine] at hresult
    obtain ⟨hdecimal, hvalue⟩ :=
      decimal_of_upper (by omega) (by omega : low - 10 ≤ 9) (by omega) hresult
    simp only [hdecimal, hvalue, hadjust, implies_true, iff_true, true_and]
    omega
  · simp only [if_neg hadjust, hacc, Nat.add_zero] at hresult
    by_cases hnine : 9 < low
    · have hwrapped : 16 ≤ low := by
        by_contra hbelow
        exact hadjust (.inl (by omega))
      simp only [hcarry hnine] at hresult
      obtain ⟨hdecimal, hvalue⟩ :=
        decimal_of_upper (by omega) (by omega : low - 16 ≤ 9) (by omega) hresult
      simp only [hdecimal, hvalue, hadjust, hnine, true_implies, iff_false, true_and]
      omega
    · have hupper : 100 ≤ 10 * high + low ↔ 10 ≤ high := by omega
      simp only [hupper] at hresult
      obtain ⟨hdecimal, hvalue⟩ :=
        decimal_of_upper (by omega) (by omega : low ≤ 9) (by omega) hresult
      simp only [hdecimal, hvalue, hnine, false_implies, iff_true, true_and]
      omega

end

/-! ## One byte -/

/-- Add two packed bytes and adjust the sum. -/
def addDecimal (x y : Byte) (withCarry : Bool) (flags : Flags) : Byte × Flags :=
  let sum := add x y withCarry flags
  decimalAdjust sum.1 sum.2

/-- A carry that comes in completes the low digit and does not leave the byte. -/
def Hides (x y : Byte) : Prop :=
  x.toNat % 16 + y.toNat % 16 = 15 ∧ x.toNat + y.toNat + 1 ≤ 0xFF

variable {x y : Byte}

theorem decimal_add_decimal (x y : Byte) (carry : Nat) :
    decimal x + decimal y + carry =
      10 * (x.toNat / 16 + y.toNat / 16) + (x.toNat % 16 + y.toNat % 16 + carry) := by
  simp only [decimal]
  omega

/-- The auxiliary carry of an addition: it counts a carry that goes out. -/
theorem auxCarry_add (x y : Byte) (withCarry : Bool) (flags : Flags) :
    (add x y withCarry flags).2.auxCarry = true ↔
      15 < x.toNat % 16 + y.toNat % 16 + (withCarry && (add x y withCarry flags).2.carry).toNat :=
  decide_eq_true_iff

theorem holdsDigits_add (hx : IsDecimal x) (hy : IsDecimal y) (withCarry : Bool) (flags : Flags) :
    HoldsDigits (add x y withCarry flags).1 (add x y withCarry flags).2
      (x.toNat / 16 + y.toNat / 16)
      (x.toNat % 16 + y.toNat % 16 + carryIn withCarry flags) := by
  obtain ⟨hx₁, hx₀⟩ := hx
  obtain ⟨hy₁, hy₀⟩ := hy
  have hc : carryIn withCarry flags ≤ 1 := Bool.toNat_le _
  have hsum : x.toNat + y.toNat + carryIn withCarry flags =
      16 * (x.toNat / 16 + y.toNat / 16) +
        (x.toNat % 16 + y.toNat % 16 + carryIn withCarry flags) := by omega
  refine ⟨by omega, by omega, ?_, ?_, ?_⟩
  · rw [← hsum]
    exact UInt8.toNat_ofNat'
  · rw [← hsum]
    rfl
  · intro haux
    rw [auxCarry_add] at haux
    have hout := Bool.toNat_le (withCarry && (add x y withCarry flags).2.carry)
    omega

/-- The decimal carry is right, whatever the adjustment made of the byte. -/
theorem carry_addDecimal (hx : IsDecimal x) (hy : IsDecimal y) (withCarry : Bool) (flags : Flags) :
    (addDecimal x y withCarry flags).2.carry =
      decide (100 ≤ decimal x + decimal y + carryIn withCarry flags) := by
  rw [decimal_add_decimal]
  exact (holdsDigits_add hx hy withCarry flags).carry

/-- The low digit is corrected where it has to be, unless the byte hides the carry that comes in. -/
theorem adjustsLow_add_iff (hx : IsDecimal x) (hy : IsDecimal y) (withCarry : Bool)
    (flags : Flags) :
    (9 < x.toNat % 16 + y.toNat % 16 + carryIn withCarry flags →
        AdjustsLow (add x y withCarry flags).1 (add x y withCarry flags).2) ↔
      ¬(carryIn withCarry flags = 1 ∧ Hides x y) := by
  have hc : carryIn withCarry flags ≤ 1 := Bool.toNat_le _
  obtain ⟨-, -, hacc, hcarry, -⟩ := holdsDigits_add hx hy withCarry flags
  obtain ⟨hx₁, hx₀⟩ := hx
  obtain ⟨hy₁, hy₀⟩ := hy
  rw [AdjustsLow, auxCarry_add, hacc, hcarry, Hides]
  cases withCarry with
  | false =>
    have hnone : carryIn false flags = 0 := rfl
    simp only [hnone, Bool.false_and, Bool.toNat_false]
    omega
  | true =>
    rw [Bool.true_and]
    by_cases hout : 255 < 16 * (x.toNat / 16 + y.toNat / 16) +
        (x.toNat % 16 + y.toNat % 16 + carryIn true flags)
    · rw [decide_eq_true hout, Bool.toNat_true]
      omega
    · rw [decide_eq_false hout, Bool.toNat_false]
      omega

/-- The sum of two packed bytes is right unless it hides the carry that comes in. -/
theorem decimal_addDecimal_iff (hx : IsDecimal x) (hy : IsDecimal y) (withCarry : Bool)
    (flags : Flags) :
    IsDecimal (addDecimal x y withCarry flags).1 ∧
        decimal (addDecimal x y withCarry flags).1 =
          (decimal x + decimal y + carryIn withCarry flags) % 100 ↔
      ¬(carryIn withCarry flags = 1 ∧ Hides x y) := by
  rw [decimal_add_decimal, ← adjustsLow_add_iff hx hy]
  exact (holdsDigits_add hx hy withCarry flags).decimal_iff

/-! ## Numbers of any length -/

/-- In the sum of `left`, `right` and `first`, a carry comes into the byte at `position`. -/
def CarriesInto (position first left right : Nat) : Prop :=
  100 ^ position ≤ left % 100 ^ position + right % 100 ^ position + first

theorem carriesInto_zero {first : Nat} (hfirst : first ≤ 1) (left right : Nat) :
    CarriesInto 0 first left right ↔ first = 1 := by
  simp only [CarriesInto, pow_zero, Nat.mod_one]
  omega

theorem carriesInto_succ {a b : Nat} (ha : a < 100) (hb : b < 100)
    (position first left right : Nat) :
    CarriesInto (position + 1) first (a + 100 * left) (b + 100 * right) ↔
      CarriesInto position ((a + b + first) / 100) left right := by
  have hmod : ∀ c m, c < 100 →
      (c + 100 * m) % 100 ^ (position + 1) = c + 100 * (m % 100 ^ position) := by
    intro c m hc
    have hlast : (c + 100 * m) % 100 = c := by omega
    have hrest : (c + 100 * m) / 100 = m := by omega
    rw [pow_succ', Nat.mod_mul, hlast, hrest]
  rw [CarriesInto, CarriesInto, hmod a left ha, hmod b right hb, pow_succ]
  omega

/-- The carry of one byte, as the next one takes it in. -/
theorem carryIn_addDecimal (hx : IsDecimal x) (hy : IsDecimal y) (withCarry : Bool)
    (flags : Flags) :
    carryIn true (addDecimal x y withCarry flags).2 =
      (decimal x + decimal y + carryIn withCarry flags) / 100 := by
  have hc : carryIn withCarry flags ≤ 1 := Bool.toNat_le _
  have hxlt := hx.lt
  have hylt := hy.lt
  rw [carryIn, Bool.true_and, carry_addDecimal hx hy]
  by_cases hreach : 100 ≤ decimal x + decimal y + carryIn withCarry flags
  · rw [decide_eq_true hreach, Bool.toNat_true]
    omega
  · rw [decide_eq_false hreach, Bool.toNat_false]
    omega

variable {pairs : List (Byte × Byte)}

theorem carry_chain_addDecimal (hpairs : ∀ p ∈ pairs, IsDecimal p.1 ∧ IsDecimal p.2)
    (withCarry : Bool) (h : withCarry = true ∨ pairs ≠ []) (flags : Flags) :
    (chain addDecimal withCarry pairs flags).2.carry =
      decide (100 ^ pairs.length ≤ decimalNumber (pairs.map Prod.fst) +
        decimalNumber (pairs.map Prod.snd) + carryIn withCarry flags) := by
  induction pairs generalizing withCarry flags with
  | nil =>
    obtain rfl := h.resolve_right (· rfl)
    cases hcarry : flags.carry <;> simp [chain, carryIn, hcarry]
  | cons p rest ih =>
    obtain ⟨x, y⟩ := p
    obtain ⟨⟨hx, hy⟩, hrest⟩ := List.forall_mem_cons.1 hpairs
    have hothers := ih hrest true (.inl rfl) (addDecimal x y withCarry flags).2
    rw [carryIn_addDecimal hx hy] at hothers
    rw [chain, hothers, decide_eq_decide]
    simp only [List.map_cons, List.length_cons, decimalNumber_cons, pow_succ]
    omega

theorem forall_getElem?_cons {α : Type} {P : Nat → α → Prop} (a : α) (rest : List α) :
    (∀ i b, (a :: rest)[i]? = some b → P i b) ↔
      P 0 a ∧ ∀ i b, rest[i]? = some b → P (i + 1) b := by
  constructor
  · intro h
    exact ⟨h 0 a rfl, fun i b hb => h (i + 1) b hb⟩
  · rintro ⟨hfirst, hrest⟩ (_ | i) b hb
    · obtain rfl : a = b := Option.some.inj hb
      exact hfirst
    · exact hrest i b hb

/-- The last digits of a sum, and the others with the carry of the last. -/
theorem sum_mod_pow_succ (a b left right first n : Nat) :
    let sum := (a + 100 * left + (b + 100 * right) + first) % 100 ^ (n + 1)
    sum % 100 = (a + b + first) % 100 ∧
      sum / 100 = (left + right + (a + b + first) / 100) % 100 ^ n := by
  have hquotient : (a + 100 * left + (b + 100 * right) + first) / 100 =
      left + right + (a + b + first) / 100 := by omega
  simp only [pow_succ', Nat.mod_mul, hquotient]
  omega

/-- A chain packs the decimal sum if and only if no byte hides a carry that comes into it. -/
theorem packs_chain_iff (hpairs : ∀ p ∈ pairs, IsDecimal p.1 ∧ IsDecimal p.2) (withCarry : Bool)
    (flags : Flags) :
    Packs (chain addDecimal withCarry pairs flags).1
        ((decimalNumber (pairs.map Prod.fst) + decimalNumber (pairs.map Prod.snd) +
          carryIn withCarry flags) % 100 ^ pairs.length) ↔
      ∀ i p, pairs[i]? = some p →
        ¬(CarriesInto i (carryIn withCarry flags) (decimalNumber (pairs.map Prod.fst))
          (decimalNumber (pairs.map Prod.snd)) ∧ Hides p.1 p.2) := by
  induction pairs generalizing withCarry flags with
  | nil => simp [chain, packs_nil, Nat.mod_one]
  | cons p rest ih =>
    obtain ⟨x, y⟩ := p
    obtain ⟨⟨hx, hy⟩, hrest⟩ := List.forall_mem_cons.1 hpairs
    have hc : carryIn withCarry flags ≤ 1 := Bool.toNat_le _
    have hfirst := decimal_addDecimal_iff hx hy withCarry flags
    have hothers := ih hrest true (addDecimal x y withCarry flags).2
    rw [carryIn_addDecimal hx hy] at hothers
    rw [forall_getElem?_cons, chain, packs_cons]
    simp only [List.map_cons, List.length_cons, decimalNumber_cons, carriesInto_zero hc,
      carriesInto_succ hx.lt hy.lt, ← hfirst, ← hothers, and_assoc]
    obtain ⟨hlast, hupper⟩ := sum_mod_pow_succ (decimal x) (decimal y)
      (decimalNumber (rest.map Prod.fst)) (decimalNumber (rest.map Prod.snd))
      (carryIn withCarry flags) rest.length
    rw [hlast, hupper]

/-- Packed decimal numbers of any length are added byte by byte, each sum adjusted at once. The final
carry always tells whether the sum reaches `100 ^ n`. The bytes are those of the decimal sum if and
only if no position after the first takes in a carry that completes the low digit to sixteen and does
not leave the byte. -/
theorem decimal_chain {n : Nat} (hn : 0 < n) {x y : List Byte} {left right : Nat}
    (hx : x.length = n) (hy : y.length = n) (hleft : Packs x left) (hright : Packs y right)
    (flags : Flags) :
    let sum := chain addDecimal false (x.zip y) flags
    sum.1.length = n ∧ sum.2.carry = decide (100 ^ n ≤ left + right) ∧
      (Packs sum.1 ((left + right) % 100 ^ n) ↔
        ¬∃ i a b, 0 < i ∧ x[i]? = some a ∧ y[i]? = some b ∧
          100 ^ i ≤ left % 100 ^ i + right % 100 ^ i ∧
          a.toNat % 16 + b.toNat % 16 = 15 ∧ a.toNat + b.toNat + 1 ≤ 0xFF) := by
  intro sum
  obtain ⟨hfst, hsnd, hlength, hne⟩ := zip_of_length hn hx hy
  have hpairs : ∀ p ∈ x.zip y, IsDecimal p.1 ∧ IsDecimal p.2 := by
    intro p hp
    obtain ⟨hpx, hpy⟩ := List.of_mem_zip hp
    exact ⟨hleft.digits _ hpx, hright.digits _ hpy⟩
  have hcarry := carry_chain_addDecimal hpairs false (.inr hne) flags
  have hpacks := packs_chain_iff hpairs false flags
  have hfirst : carryIn false flags = 0 := rfl
  simp only [hfst, hsnd, hlength, hleft.number_eq, hright.number_eq, hfirst, Nat.add_zero]
    at hcarry hpacks
  refine ⟨(length_chain _ _ _).trans hlength, hcarry, hpacks.trans ?_⟩
  constructor
  · rintro h ⟨i, a, b, -, ha, hb, hcomes, hhides⟩
    exact h i (a, b) (List.getElem?_zip_eq_some.2 ⟨ha, hb⟩) ⟨hcomes, hhides⟩
  · rintro h i p hp ⟨hcomes, hhides⟩
    obtain ⟨ha, hb⟩ := List.getElem?_zip_eq_some.1 hp
    have hpos : 0 < i := by
      refine Nat.pos_of_ne_zero fun hzero => ?_
      rw [hzero, carriesInto_zero (Nat.zero_le 1)] at hcomes
      cases hcomes
    exact h ⟨i, p.1, p.2, hpos, ha, hb, hcomes, hhides⟩

/-- `799 + 801`: the carry of the first byte completes `7 + 8` to sixteen, and the sum is written
as `1000`. -/
theorem decimal_chain_hidden :
    let x : List Byte := [0x99, 0x07]
    let y : List Byte := [0x01, 0x08]
    let sum := chain addDecimal false (x.zip y) {}
    (0 < 2 ∧ x.length = 2 ∧ y.length = 2 ∧ Packs x 799 ∧ Packs y 801) ∧
      sum.2.carry = false ∧ ¬Packs sum.1 1600 ∧ Packs sum.1 1000 := by
  intro x y sum
  have hx : Packs x 799 := by decide
  have hy : Packs y 801 := by decide
  obtain ⟨-, hcarry, hpacks⟩ := decimal_chain Nat.two_pos rfl rfl hx hy {}
  refine ⟨⟨Nat.two_pos, rfl, rfl, hx, hy⟩, hcarry, ?_, by decide⟩
  intro h
  exact hpacks.1 h ⟨1, 0x07, 0x08, Nat.one_pos, rfl, rfl, by decide, by decide, by decide⟩

end Banked8085.Alu
