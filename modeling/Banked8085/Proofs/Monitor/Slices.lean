import Banked8085.Monitor.Machine
import Banked8085.Proofs.Execution.Halting

/-! # Runs in slices

A run goes on until the processor halts or the step budget is spent. How many steps a slice may
take has no influence on where it ends: `run_eq` for a whole run and `runSlice_eq` for one slice
give the state after as many steps as the budget and the halting time both allow. `run_eq_some` says
what any run that ends has executed.
-/

namespace Banked8085.Monitor
set_option autoImplicit false

namespace Machine
variable {τ : Type} {machine : Machine τ}

def after (machine : Machine τ) (n : ℕ) : Machine τ :=
  { machine with
    cpu := Cpu.next^[n] machine.cpu
    totalSteps := machine.totalSteps + UInt64.ofNat n }

/-- How many steps the budget still allows. -/
def allowance (machine : Machine τ) : ℕ∞ :=
  match machine.settings.stepBudget with
  | none => ⊤
  | some most => ((most.toNat - machine.totalSteps.toNat : ℕ) : ℕ∞)

theorem allowance_of_none (h : machine.settings.stepBudget = none) : machine.allowance = ⊤ := by
  rw [allowance, h]

theorem allowance_of_some {most : UInt64} (h : machine.settings.stepBudget = some most) :
    machine.allowance = ((most.toNat - machine.totalSteps.toNat : ℕ) : ℕ∞) := by
  rw [allowance, h]

theorem after_zero (machine : Machine τ) : machine.after 0 = machine := by
  have htotal : machine.totalSteps + UInt64.ofNat 0 = machine.totalSteps := UInt64.add_zero _
  rw [after, htotal]
  rfl

theorem after_after (machine : Machine τ) (j k : ℕ) :
    (machine.after j).after k = machine.after (k + j) := by
  have htotal : machine.totalSteps + UInt64.ofNat j + UInt64.ofNat k =
      machine.totalSteps + UInt64.ofNat (k + j) := by
    rw [UInt64.ofNat_add, UInt64.add_assoc, UInt64.add_comm (UInt64.ofNat j)]
  simp only [after, htotal, Function.iterate_add_apply]

/-! ## The allowance -/

theorem toNat_countable (n : UInt64) : (countable n).toNat = min n.toNat 4294967295 := by
  unfold countable
  by_cases h : n ≤ 0xFFFFFFFF
  · have hle : n.toNat ≤ 4294967295 := UInt64.le_iff_toNat_le.1 h
    rw [if_pos h, UInt64.toNat_toUInt32]
    omega
  · have hlt : ¬n.toNat ≤ 4294967295 := fun hle => h (UInt64.le_iff_toNat_le.2 hle)
    rw [if_neg h]
    simp only [UInt32.reduceToNat]
    omega

theorem toNat_min (a b : UInt32) : (min a b).toNat = min a.toNat b.toNat := by
  show (if a ≤ b then a else b).toNat = _
  by_cases h : a ≤ b
  · have hle := UInt32.le_iff_toNat_le.1 h
    rw [if_pos h, Nat.min_eq_left hle]
  · have hle : ¬a.toNat ≤ b.toNat := fun hle => h (UInt32.le_iff_toNat_le.2 hle)
    rw [if_neg h]
    omega

theorem toNat_budgetLeft (most : UInt64) :
    (if machine.totalSteps < most then most - machine.totalSteps else 0).toNat =
      most.toNat - machine.totalSteps.toNat := by
  by_cases h : machine.totalSteps < most
  · have hlt := UInt64.lt_iff_toNat_lt.1 h
    rw [if_pos h, UInt64.toNat_sub_of_le _ _ (UInt64.le_of_lt h)]
  · have hle : ¬machine.totalSteps.toNat < most.toNat := fun hlt => h (UInt64.lt_iff_toNat_lt.2 hlt)
    rw [if_neg h]
    simp only [UInt64.reduceToNat]
    omega

theorem sliceLimit_eq (machine : Machine τ) :
    (machine.sliceLimit.toNat : ℕ∞) = min (machine.settings.sliceSteps.toNat : ℕ∞)
      machine.allowance := by
  have hslice := machine.settings.sliceSteps.toNat_lt
  unfold sliceLimit allowance budgetLeft
  cases machine.settings.stepBudget with
  | none => simp
  | some most =>
    have hleft : (min machine.settings.sliceSteps
        (countable (if machine.totalSteps < most then most - machine.totalSteps else 0))).toNat =
        min machine.settings.sliceSteps.toNat (most.toNat - machine.totalSteps.toNat) := by
      rw [toNat_min, toNat_countable, toNat_budgetLeft]
      omega
    simp only [Option.map_some, hleft]
    exact_mod_cast rfl

theorem toNat_totalSteps_after (machine : Machine τ) (k : ℕ) :
    (machine.after k).totalSteps.toNat = (machine.totalSteps.toNat + k) % 2 ^ 64 := by
  show (machine.totalSteps + UInt64.ofNat k).toNat = _
  rw [UInt64.toNat_add, UInt64.toNat_ofNat', Nat.add_mod_mod]

/-- The total does not wrap within a budget: it stays at most the budget, or nothing is added. -/
theorem allowance_after {k : ℕ} (h : (k : ℕ∞) ≤ machine.allowance) :
    machine.allowance = (machine.after k).allowance + k := by
  cases hbudget : machine.settings.stepBudget with
  | none =>
    have hafter : (machine.after k).settings.stepBudget = none := hbudget
    rw [allowance_of_none hbudget, allowance_of_none hafter, top_add]
  | some most =>
    have hafter : (machine.after k).settings.stepBudget = some most := hbudget
    rw [allowance_of_some hbudget] at h ⊢
    rw [allowance_of_some hafter, toNat_totalSteps_after]
    have hk : k ≤ most.toNat - machine.totalSteps.toNat := by exact_mod_cast h
    have hmost := most.toNat_lt
    have hbefore := machine.totalSteps.toNat_lt
    have hsplit : most.toNat - machine.totalSteps.toNat =
        most.toNat - (machine.totalSteps.toNat + k) % 2 ^ 64 + k := by
      omega
    exact_mod_cast hsplit

/-- What a run of `k` steps leaves of the allowance and of the halting time. -/
theorem min_after {k : ℕ} (h : (k : ℕ∞) ≤ min machine.allowance machine.cpu.haltingTime) :
    min machine.allowance machine.cpu.haltingTime =
      min (machine.after k).allowance (machine.after k).cpu.haltingTime + k := by
  rw [allowance_after (h.trans (min_le_left _ _)),
    Cpu.haltingTime_iterate (h.trans (min_le_right _ _)), min_add_add_right]
  rfl

/-! ## One slice -/

theorem toUInt64_of_toNat {executed : UInt32} {k : ℕ} (h : executed.toNat = k) :
    executed.toUInt64 = UInt64.ofNat k := by
  have hlt := executed.toNat_lt
  rw [← UInt64.toNat_inj, UInt32.toNat_toUInt64, UInt64.toNat_ofNat', h]
  omega

theorem runSlice_eq {k : ℕ} (hk : (k : ℕ∞) = min (machine.settings.sliceSteps.toNat : ℕ∞)
    (min machine.allowance machine.cpu.haltingTime)) :
    ∃ executed : UInt32, machine.runSlice = (executed, machine.after k) ∧ executed.toNat = k := by
  have hlimit : (k : ℕ∞) = min (machine.sliceLimit.toNat : ℕ∞) machine.cpu.haltingTime := by
    rw [hk, sliceLimit_eq, min_assoc]
  have hlt : k < 4294967296 := by
    have hslice := machine.settings.sliceSteps.toNat_lt
    have hle : (k : ℕ∞) ≤ (machine.settings.sliceSteps.toNat : ℕ∞) := by
      rw [hk]
      exact min_le_left _ _
    have hnat : k ≤ machine.settings.sliceSteps.toNat := by exact_mod_cast hle
    omega
  have hnat : (UInt32.ofNat k).toNat = k := by
    rw [UInt32.toNat_ofNat', Nat.mod_eq_of_lt hlt]
  refine ⟨UInt32.ofNat k, ?_, hnat⟩
  simp only [runSlice, Cpu.run_eq hlimit, toUInt64_of_toNat hnat]
  rfl

/-! ## A whole run -/

theorem runFrom_of_halted (done : UInt64) (h : machine.cpu.halted = true) :
    machine.runFrom done = some (⟨done, true⟩, machine) := by
  rw [runFrom, if_pos h]

theorem runFrom_of_running {done : UInt64} {executed : UInt32} {next : Machine τ}
    (h : machine.cpu.halted = false) (hslice : machine.runSlice = (executed, next)) :
    machine.runFrom done =
      if executed = 0 then some (⟨done, next.cpu.halted⟩, next)
      else next.runFrom (done + executed.toUInt64) := by
  have hnot : ¬machine.cpu.halted = true := by simp [h]
  rw [runFrom, if_neg hnot, hslice]

theorem rest_after {n k : ℕ} (hn : (n : ℕ∞) = min machine.allowance machine.cpu.haltingTime)
    (hle : k ≤ n) :
    ((n - k : ℕ) : ℕ∞) = min (machine.after k).allowance (machine.after k).cpu.haltingTime := by
  have hk : (k : ℕ∞) ≤ min machine.allowance machine.cpu.haltingTime := by
    rw [← hn]
    exact_mod_cast hle
  have hsplit := min_after hk
  rw [← hn] at hsplit
  cases hrest : min (machine.after k).allowance (machine.after k).cpu.haltingTime with
  | top =>
    rw [hrest, top_add] at hsplit
    exact absurd hsplit (ENat.natCast_ne_top n)
  | coe j =>
    rw [hrest] at hsplit
    have hnat : n = j + k := by exact_mod_cast hsplit
    rw [hnat, Nat.add_sub_cancel]

theorem runFrom_eq (hslice : machine.settings.sliceSteps ≠ 0) {n : ℕ}
    (hn : (n : ℕ∞) = min machine.allowance machine.cpu.haltingTime) (done : UInt64) :
    machine.runFrom done =
      some (⟨done + UInt64.ofNat n, (machine.after n).cpu.halted⟩, machine.after n) := by
  induction n using Nat.strongRecOn generalizing machine done with
  | ind n ih =>
    have hdone : done + UInt64.ofNat 0 = done := UInt64.add_zero _
    cases hhalted : machine.cpu.halted with
    | true =>
      rw [Cpu.haltingTime_of_halted hhalted] at hn
      have hzero : n = 0 := by simpa using hn
      rw [runFrom_of_halted done hhalted, hzero, after_zero, hhalted, hdone]
    | false =>
      have hpositive : machine.settings.sliceSteps.toNat ≠ 0 := by
        intro hzero
        exact hslice (UInt32.toNat_inj.1 hzero)
      have hk : ((min machine.settings.sliceSteps.toNat n : ℕ) : ℕ∞) =
          min (machine.settings.sliceSteps.toNat : ℕ∞)
            (min machine.allowance machine.cpu.haltingTime) := by
        rw [← hn]
        rfl
      obtain ⟨executed, hrun, hcount⟩ := runSlice_eq hk
      rw [runFrom_of_running hhalted hrun]
      by_cases hzero : executed = 0
      · have hn0 : n = 0 := by
          rw [hzero, UInt32.toNat_zero] at hcount
          omega
        rw [if_pos hzero, hn0, Nat.min_zero, hdone]
      · have hk0 : executed.toNat ≠ 0 := by
          intro h
          exact hzero (UInt32.toNat_inj.1 h)
        rw [← hcount]
        have hle : executed.toNat ≤ n := by omega
        have hnext : (machine.after executed.toNat).settings.sliceSteps ≠ 0 := hslice
        have hsum : done + executed.toUInt64 + UInt64.ofNat (n - executed.toNat) =
            done + UInt64.ofNat n := by
          rw [toUInt64_of_toNat rfl, UInt64.add_assoc, ← UInt64.ofNat_add,
            Nat.add_sub_cancel' hle]
        have hafter : (machine.after executed.toNat).after (n - executed.toNat) =
            machine.after n := by
          rw [after_after, Nat.sub_add_cancel hle]
        rw [if_neg hzero, ih (n - executed.toNat) (by omega) hnext (rest_after hn hle), hsum,
          hafter]

theorem run_eq (hslice : machine.settings.sliceSteps ≠ 0) {n : ℕ}
    (hn : (n : ℕ∞) = min machine.allowance machine.cpu.haltingTime) :
    machine.run = some (⟨UInt64.ofNat n, (machine.after n).cpu.halted⟩, machine.after n) := by
  rw [run, runFrom_eq hslice hn, UInt64.zero_add]

theorem run_of_sliceSteps_zero (h : machine.settings.sliceSteps = 0) :
    machine.run = some (⟨0, machine.cpu.halted⟩, machine) := by
  cases hhalted : machine.cpu.halted with
  | true => exact runFrom_of_halted 0 hhalted
  | false =>
    have hk : ((0 : ℕ) : ℕ∞) = min (machine.settings.sliceSteps.toNat : ℕ∞)
        (min machine.allowance machine.cpu.haltingTime) := by
      rw [h]
      simp
    obtain ⟨executed, hrun, hcount⟩ := runSlice_eq hk
    rw [after_zero] at hrun
    have hzero : executed = 0 := UInt32.toNat_inj.1 hcount
    rw [run, runFrom_of_running hhalted hrun, if_pos hzero, hhalted]

/-- Only a run with a finite number of steps ends. -/
theorem finite_of_runFrom {done : UInt64} {result : RunOutcome × Machine τ}
    (h : machine.runFrom done = some result) (hslice : machine.settings.sliceSteps ≠ 0) :
    ∃ n : ℕ, (n : ℕ∞) = min machine.allowance machine.cpu.haltingTime := by
  revert hslice
  refine runFrom.partial_correctness (fun _ machine _ => machine.settings.sliceSteps ≠ 0 →
    ∃ n : ℕ, (n : ℕ∞) = min machine.allowance machine.cpu.haltingTime) ?_ done machine result h
  intro rec ih done machine result h hslice
  cases hhalted : machine.cpu.halted with
  | true =>
    refine ⟨0, ?_⟩
    rw [Cpu.haltingTime_of_halted hhalted]
    simp
  | false =>
    obtain ⟨k, hk⟩ := exists_natCast_eq_min machine.settings.sliceSteps.toNat
      (min machine.allowance machine.cpu.haltingTime)
    obtain ⟨executed, hrun, hcount⟩ := runSlice_eq hk
    have hle : (k : ℕ∞) ≤ min machine.allowance machine.cpu.haltingTime := by
      rw [hk]
      exact min_le_right _ _
    simp only [hhalted, hrun, Bool.false_eq_true, if_false] at h
    by_cases hzero : executed = 0
    · have hk0 : k = 0 := by rw [← hcount, hzero, UInt32.toNat_zero]
      have hpositive : (machine.settings.sliceSteps.toNat : ℕ∞) ≠ 0 := by
        intro h0
        have hnat : machine.settings.sliceSteps.toNat = 0 := by exact_mod_cast h0
        exact hslice (UInt32.toNat_inj.1 hnat)
      refine ⟨0, ?_⟩
      rw [hk0] at hk
      rcases min_choice (machine.settings.sliceSteps.toNat : ℕ∞)
        (min machine.allowance machine.cpu.haltingTime) with hmin | hmin
      · rw [hmin] at hk
        exact absurd hk.symm hpositive
      · rw [hk, hmin]
    · rw [if_neg hzero] at h
      obtain ⟨j, hj⟩ := ih _ _ _ h hslice
      refine ⟨j + k, ?_⟩
      rw [min_after hle, ← hj, Nat.cast_add]

/-- The number of instructions that a run executes. -/
noncomputable def runLength (machine : Machine τ) : ℕ∞ :=
  if machine.settings.sliceSteps = 0 then 0 else min machine.allowance machine.cpu.haltingTime

theorem run_eq_some {outcome : RunOutcome} {next : Machine τ}
    (h : machine.run = some (outcome, next)) :
    ∃ n : ℕ, machine.runLength = n ∧ outcome = ⟨UInt64.ofNat n, next.cpu.halted⟩ ∧
      next = machine.after n := by
  by_cases hslice : machine.settings.sliceSteps = 0
  · rw [run_of_sliceSteps_zero hslice] at h
    cases h
    exact ⟨0, if_pos hslice, rfl, (after_zero _).symm⟩
  · obtain ⟨n, hn⟩ := finite_of_runFrom h hslice
    rw [run_eq hslice hn] at h
    cases h
    exact ⟨n, (if_neg hslice).trans hn.symm, rfl, rfl⟩

end Machine
end Banked8085.Monitor
