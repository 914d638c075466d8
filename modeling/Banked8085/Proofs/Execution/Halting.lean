import Mathlib.Data.ENat.Lattice
import Mathlib.Data.Nat.Find
import Banked8085.Cpu.Execute

/-! # The time until a processor halts

`Cpu.haltingTime` counts the steps before the first state that is halted. A run with a limit
executes as many steps as the limit and the halting time both allow (`run_eq`).
-/

namespace Banked8085
set_option autoImplicit false

theorem exists_natCast_eq_min (n : ℕ) (t : ℕ∞) : ∃ k : ℕ, (k : ℕ∞) = min (n : ℕ∞) t := by
  have hlt : min (n : ℕ∞) t < ⊤ := lt_of_le_of_lt (min_le_left _ _) (ENat.natCast_lt_top n)
  exact ENat.ne_top_iff_exists.1 hlt.ne

namespace Cpu
variable {σ : Type} {cpu : Cpu σ}

open Classical in
/-- The number of steps until the processor halts, or `⊤` if it never does. -/
noncomputable def haltingTime (cpu : Cpu σ) : ℕ∞ :=
  if h : ∃ n : ℕ, (next^[n] cpu).halted = true then (Nat.find h : ℕ) else ⊤

theorem haltingTime_of_halted (h : cpu.halted = true) : cpu.haltingTime = 0 := by
  classical
  have hexists : ∃ n : ℕ, (next^[n] cpu).halted = true := ⟨0, h⟩
  have hfind : Nat.find hexists = 0 := (Nat.find_eq_zero hexists).2 h
  rw [haltingTime, dif_pos hexists, hfind]
  rfl

theorem haltingTime_of_running (h : cpu.halted = false) :
    cpu.haltingTime = cpu.next.haltingTime + 1 := by
  classical
  have hzero : ¬(next^[0] cpu).halted = true := by
    intro hhalted
    rw [Function.iterate_zero_apply, h] at hhalted
    cases hhalted
  by_cases hstep : ∃ n : ℕ, (next^[n] cpu.next).halted = true
  · obtain ⟨n, hn⟩ := hstep
    have hexists : ∃ n : ℕ, (next^[n] cpu).halted = true := ⟨n + 1, hn⟩
    have hfind : Nat.find hexists = Nat.find ⟨n, hn⟩ + 1 :=
      Nat.find_comp_succ hexists ⟨n, hn⟩ hzero
    rw [haltingTime, haltingTime, dif_pos hexists, dif_pos ⟨n, hn⟩, hfind]
    rfl
  · have hnever : ¬∃ n : ℕ, (next^[n] cpu).halted = true := by
      intro hexists
      obtain ⟨n, hn⟩ := hexists
      cases n with
      | zero => exact hzero hn
      | succ n => exact hstep ⟨n, hn⟩
    rw [haltingTime, haltingTime, dif_neg hnever, dif_neg hstep]
    rfl

theorem haltingTime_iterate {k : ℕ} (h : (k : ℕ∞) ≤ cpu.haltingTime) :
    cpu.haltingTime = (next^[k] cpu).haltingTime + k := by
  induction k generalizing cpu with
  | zero => simp
  | succ k ih =>
    have hrunning : cpu.halted = false := by
      cases hhalted : cpu.halted with
      | false => rfl
      | true =>
        rw [haltingTime_of_halted hhalted] at h
        simp at h
    have htime := haltingTime_of_running hrunning
    rw [htime, Nat.cast_succ] at h
    have hle : (k : ℕ∞) ≤ cpu.next.haltingTime := by
      simpa using h
    rw [htime, ih hle, Function.iterate_succ_apply, Nat.cast_succ, add_assoc]

theorem runFrom_eq {n k : ℕ} (done : ℕ) (hk : (k : ℕ∞) = min (n : ℕ∞) cpu.haltingTime) :
    cpu.runFrom done n = (done + k, next^[k] cpu) := by
  induction n generalizing done k cpu with
  | zero =>
    have hzero : k = 0 := by simpa using hk
    rw [hzero]
    rfl
  | succ n ih =>
    cases hhalted : cpu.halted with
    | true =>
      rw [haltingTime_of_halted hhalted] at hk
      have hzero : k = 0 := by simpa using hk
      rw [hzero, runFrom, step_of_halted hhalted]
      rfl
    | false =>
      obtain ⟨j, hj⟩ := exists_natCast_eq_min n cpu.next.haltingTime
      rw [haltingTime_of_running hhalted, Nat.cast_succ, min_add_add_right, ← hj] at hk
      have hsucc : k = j + 1 := by exact_mod_cast hk
      rw [runFrom, step_of_running hhalted, ← next_of_running hhalted]
      show cpu.next.runFrom (done + 1) n = _
      rw [ih (done + 1) hj, hsucc, Function.iterate_succ_apply, Nat.add_assoc, Nat.add_comm 1]

/-- A run executes as many steps as its limit and the halting time both allow. -/
theorem run_eq {n k : ℕ} (hk : (k : ℕ∞) = min (n : ℕ∞) cpu.haltingTime) :
    cpu.run n = (k, next^[k] cpu) := by
  rw [run, runFrom_eq 0 hk, Nat.zero_add]

end Cpu
end Banked8085
