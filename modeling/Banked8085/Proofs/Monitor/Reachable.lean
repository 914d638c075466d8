import Banked8085.Proofs.Results
import Banked8085.Proofs.Execution.Fetch
import Banked8085.Proofs.Execution.Images
import Banked8085.Proofs.Monitor.Slices

/-! # Reachable machines

`Machine.Reachable` holds of a new machine and of whatever its operations make of it, with
arbitrary changes of the processor in between. A reachable machine has executed no more
instructions than its budget allows (`withinBudget_of_reachable`).
-/

namespace Banked8085.Monitor
set_option autoImplicit false

namespace Machine
variable {τ : Type}

/-- The states that the operations of a machine lead to. -/
inductive Reachable : Machine τ → Prop
  | new {files : FileReader} {settings : Settings} {extra : τ} {machine : Machine τ} :
    Machine.new files settings extra = .ok machine → Reachable machine
  | loadBios {machine next : Machine τ} {files : FileReader} {path : String}
      {result : Except ImageError Nat} :
    Reachable machine → machine.loadBios files path = (result, next) → Reachable next
  | installBios {machine : Machine τ} (image : List Byte) :
    Reachable machine → Reachable (machine.installBios image).2
  | loadProgram {machine next : Machine τ} {files : FileReader} {path : String} {address : Word}
      {result : Except ImageError Nat} :
    Reachable machine → machine.loadProgram files path address = (result, next) →
    Reachable next
  | push {machine : Machine τ} (bytes : List Byte) : Reachable machine →
    Reachable (machine.push bytes)
  | take {machine : Machine τ} : Reachable machine → Reachable machine.take.2
  | reset {machine : Machine τ} : Reachable machine → Reachable machine.reset
  | change {machine : Machine τ} (cpu : Cpu (Peripherals τ)) : Reachable machine →
    Reachable { machine with cpu }
  | runSlice {machine : Machine τ} : Reachable machine → Reachable machine.runSlice.2
  | run {machine next : Machine τ} {outcome : RunOutcome} : Reachable machine →
    machine.run = some (outcome, next) → Reachable next

/-- No more instructions were executed than the budget allows. -/
def WithinBudget (machine : Machine τ) : Prop :=
  ∀ most, machine.settings.stepBudget = some most → machine.totalSteps ≤ most

variable {machine next : Machine τ}

theorem WithinBudget.congr (h : machine.WithinBudget) (hsettings : next.settings = machine.settings)
    (htotal : next.totalSteps = machine.totalSteps) : next.WithinBudget := by
  intro most hmost
  rw [htotal]
  exact h most (hsettings ▸ hmost)

theorem withinBudget_of_zero (h : machine.totalSteps = 0) : machine.WithinBudget := by
  intro most _
  rw [h]
  exact UInt64.zero_le

theorem WithinBudget.after (h : machine.WithinBudget) {n : ℕ}
    (hn : (n : ℕ∞) ≤ machine.allowance) : (machine.after n).WithinBudget := by
  intro most hmost
  have hbudget : machine.settings.stepBudget = some most := hmost
  have hbefore := UInt64.le_iff_toNat_le.1 (h most hbudget)
  rw [allowance_of_some hbudget] at hn
  have hle : n ≤ most.toNat - machine.totalSteps.toNat := by exact_mod_cast hn
  rw [UInt64.le_iff_toNat_le, toNat_totalSteps_after]
  omega

/-! ## Images -/

section Images
variable {files : FileReader} {path : String} {address : Word} {cause : ImageError}
  {image : List Byte}

theorem loadBios_of_error (h : readImage files .bios path = .error cause) :
    machine.loadBios files path = (.error cause, machine) := by
  rw [loadBios, h]

theorem loadBios_of_ok (h : readImage files .bios path = .ok image) :
    machine.loadBios files path =
      (.ok (min image.length 65536), (machine.installBios image).2) := by
  rw [loadBios, h]
  rfl

theorem loadProgram_of_error (h : readImage files .program path = .error cause) :
    machine.loadProgram files path address = (.error cause, machine) := by
  rw [loadProgram, Cpu.loadFile_of_error h]

theorem loadProgram_of_ok (h : readImage files .program path = .ok image) :
    machine.loadProgram files path address =
      (.ok (min image.length (65536 - address.toNat)), { machine with
        cpu :=
          if machine.bios.isNone then (machine.cpu.load image address).2.jump address
          else (machine.cpu.load image address).2 }) := by
  rw [loadProgram, Cpu.loadFile_of_ok h]

end Images

/-- What an attempt to load an image keeps, whether it succeeds or not. -/
structure Kept (machine next : Machine τ) : Prop where
  settings : next.settings = machine.settings
  totalSteps : next.totalSteps = machine.totalSteps
  ports : next.cpu.ports = machine.cpu.ports
  halted : next.cpu.halted = machine.cpu.halted

theorem kept_of_loadBios {files : FileReader} {path : String} {result : Except ImageError Nat}
    (h : machine.loadBios files path = (result, next)) : Kept machine next := by
  cases hread : readImage files .bios path with
  | error cause =>
    rw [loadBios_of_error hread] at h
    cases h
    exact ⟨rfl, rfl, rfl, rfl⟩
  | ok image =>
    rw [loadBios_of_ok hread] at h
    cases h
    exact ⟨rfl, rfl, rfl, rfl⟩

theorem kept_of_loadProgram {files : FileReader} {path : String} {address : Word}
    {result : Except ImageError Nat}
    (h : machine.loadProgram files path address = (result, next)) : Kept machine next := by
  cases hread : readImage files .program path with
  | error cause =>
    rw [loadProgram_of_error hread] at h
    cases h
    exact ⟨rfl, rfl, rfl, rfl⟩
  | ok image =>
    rw [loadProgram_of_ok hread] at h
    cases h
    cases machine.bios with
    | none => exact ⟨rfl, rfl, rfl, rfl⟩
    | some bios => exact ⟨rfl, rfl, rfl, rfl⟩

theorem loadBiosSetting_eq_ok {files : FileReader}
    (h : machine.loadBiosSetting files = .ok next) :
    (machine.settings.bios = none ∧ next = machine) ∨
      ∃ path count, machine.settings.bios = some path ∧
        machine.loadBios files path = (.ok count, next) := by
  unfold loadBiosSetting at h
  split at h
  case h_1 hnone => exact .inl ⟨hnone, (Except.ok.inj h).symm⟩
  case h_2 path hpath =>
    obtain ⟨count, hcount, h⟩ := bind_eq_ok.1 h
    exact .inr ⟨path, count, hpath, Prod.ext hcount (Except.ok.inj h)⟩

theorem loadProgramSetting_eq_ok {files : FileReader}
    (h : machine.loadProgramSetting files = .ok next) :
    next = machine ∨ ∃ path count,
      machine.loadProgram files path machine.settings.programAddress = (.ok count, next) := by
  unfold loadProgramSetting at h
  split at h
  case h_1 => exact .inl (Except.ok.inj h).symm
  case h_2 path hpath =>
    obtain ⟨count, hcount, h⟩ := bind_eq_ok.1 h
    exact .inr ⟨path, count, Prod.ext hcount (Except.ok.inj h)⟩

theorem totalSteps_new {files : FileReader} {settings : Settings} {extra : τ}
    (h : Machine.new files settings extra = .ok machine) : machine.totalSteps = 0 := by
  obtain ⟨first, hfirst, h⟩ := bind_eq_ok.1 h
  have hzero : first.totalSteps = 0 := by
    rcases loadBiosSetting_eq_ok hfirst with ⟨-, rfl⟩ | ⟨path, count, -, hload⟩
    · rfl
    · exact (kept_of_loadBios hload).totalSteps
  rcases loadProgramSetting_eq_ok h with rfl | ⟨path, count, hload⟩
  · exact hzero
  · exact (kept_of_loadProgram hload).totalSteps.trans hzero

theorem totalSteps_reset (machine : Machine τ) : machine.reset.totalSteps = 0 := by
  unfold reset
  cases machine.bios with
  | none => rfl
  | some image => rfl

/-! ## The budget -/

theorem exists_runSlice_eq (machine : Machine τ) :
    ∃ executed, machine.runSlice = (executed, machine.after executed.toNat) ∧
      (executed.toNat : ℕ∞) = min (machine.settings.sliceSteps.toNat : ℕ∞)
        (min machine.allowance machine.cpu.haltingTime) := by
  obtain ⟨k, hk⟩ := exists_natCast_eq_min machine.settings.sliceSteps.toNat
    (min machine.allowance machine.cpu.haltingTime)
  obtain ⟨executed, hrun, rfl⟩ := runSlice_eq hk
  exact ⟨executed, hrun, hk⟩

theorem withinBudget_of_reachable (h : machine.Reachable) : machine.WithinBudget := by
  induction h with
  | new hnew => exact withinBudget_of_zero (totalSteps_new hnew)
  | loadBios _ hload ih =>
    have hkept := kept_of_loadBios hload
    exact ih.congr hkept.settings hkept.totalSteps
  | installBios image _ ih => exact ih.congr rfl rfl
  | loadProgram _ hload ih =>
    have hkept := kept_of_loadProgram hload
    exact ih.congr hkept.settings hkept.totalSteps
  | push bytes _ ih => exact ih.congr rfl rfl
  | take _ ih => exact ih.congr rfl rfl
  | reset _ ih => exact withinBudget_of_zero (totalSteps_reset _)
  | change cpu _ ih => exact ih.congr rfl rfl
  | @runSlice machine _ ih =>
    obtain ⟨executed, hrun, hcount⟩ := machine.exists_runSlice_eq
    have hle : (executed.toNat : ℕ∞) ≤ machine.allowance := by
      rw [hcount]
      exact (min_le_right _ _).trans (min_le_left _ _)
    rw [hrun]
    exact ih.after hle
  | @run machine next outcome _ hrun ih =>
    by_cases hslice : machine.settings.sliceSteps = 0
    · rw [run_of_sliceSteps_zero hslice] at hrun
      cases hrun
      exact ih
    · obtain ⟨n, hn⟩ := finite_of_runFrom hrun hslice
      have hle : (n : ℕ∞) ≤ machine.allowance := by
        rw [hn]
        exact min_le_left _ _
      rw [run_eq hslice hn] at hrun
      cases hrun
      exact ih.after hle

theorem toNat_after {n : ℕ} (h : machine.WithinBudget) (hn : (n : ℕ∞) ≤ machine.allowance)
    (hrange : machine.settings.stepBudget = none → machine.totalSteps.toNat + n < 2 ^ 64) :
    (UInt64.ofNat n).toNat = n ∧
      (machine.after n).totalSteps.toNat = machine.totalSteps.toNat + n := by
  have hlt : machine.totalSteps.toNat + n < 2 ^ 64 := by
    cases hbudget : machine.settings.stepBudget with
    | none => exact hrange hbudget
    | some most =>
      have hbefore := UInt64.le_iff_toNat_le.1 (h most hbudget)
      have hmost := most.toNat_lt
      rw [allowance_of_some hbudget] at hn
      have hle : n ≤ most.toNat - machine.totalSteps.toNat := by exact_mod_cast hn
      omega
  rw [UInt64.toNat_ofNat', toNat_totalSteps_after]
  omega

/-- Slices have no influence: a run takes the processor as far as the budget and the halting time
allow and counts the steps, in the way in which every single slice does. The counters are exact
unless a machine without a budget executes `2 ^ 64` instructions. -/
theorem run_of_reachable (h : machine.Reachable) :
    machine.WithinBudget ∧
      (machine.settings.sliceSteps = 0 →
        machine.run = some (⟨0, machine.cpu.halted⟩, machine)) ∧
      (machine.settings.sliceSteps ≠ 0 → ∀ n : ℕ,
        (n : ℕ∞) = min machine.allowance machine.cpu.haltingTime →
        machine.run = some (⟨UInt64.ofNat n, (machine.after n).cpu.halted⟩, machine.after n) ∧
          ((machine.settings.stepBudget = none → machine.totalSteps.toNat + n < 2 ^ 64) →
            (UInt64.ofNat n).toNat = n ∧
              (machine.after n).totalSteps.toNat = machine.totalSteps.toNat + n)) ∧
      ∃ executed, machine.runSlice = (executed, machine.after executed.toNat) ∧
        (executed.toNat : ℕ∞) = min (machine.settings.sliceSteps.toNat : ℕ∞)
          (min machine.allowance machine.cpu.haltingTime) := by
  have hbudget := withinBudget_of_reachable h
  refine ⟨hbudget, run_of_sliceSteps_zero, ?_, machine.exists_runSlice_eq⟩
  intro hslice n hn
  have hle : (n : ℕ∞) ≤ machine.allowance := by
    rw [hn]
    exact min_le_left _ _
  exact ⟨run_eq hslice hn, toNat_after hbudget hle⟩

/-- With slices of five steps and a budget of three, an image that halts at once takes one step. -/
theorem run_of_reachable_halt :
    ∃ machine : Machine Unit, machine.Reachable ∧ machine.settings.sliceSteps = 5 ∧
      machine.settings.stepBudget = some 3 ∧
      machine.run = some (⟨1, true⟩, machine.after 1) := by
  let settings : Settings := { sliceSteps := 5, stepBudget := some 3 }
  have hnew : Machine.new (fun _ => .ok []) settings () = .ok (fresh settings ()) := rfl
  have hreachable := (Reachable.new hnew).installBios [0x76]
  generalize hmachine : ((fresh settings ()).installBios [0x76]).2 = machine at hreachable
  have hslice : machine.settings.sliceSteps = 5 := by
    rw [← hmachine]
    rfl
  have hbudget : machine.settings.stepBudget = some 3 := by
    rw [← hmachine]
    rfl
  have htotal : machine.totalSteps = 0 := by
    rw [← hmachine]
    rfl
  have hrunning : machine.cpu.halted = false := by
    rw [← hmachine]
    rfl
  have hholds : machine.cpu.memory.Holds machine.cpu.registers.pc Instruction.hlt.encode := by
    rw [← hmachine]
    exact Memory.holds_load (by decide)
  have hhalted : machine.cpu.next.halted = true := by
    rw [Cpu.next_of_holds hrunning hholds]
    rfl
  have htime : machine.cpu.haltingTime = 1 := by
    rw [Cpu.haltingTime_of_running hrunning, Cpu.haltingTime_of_halted hhalted, zero_add]
  have hn : ((1 : ℕ) : ℕ∞) = min machine.allowance machine.cpu.haltingTime := by
    rw [allowance_of_some hbudget, htotal, htime]
    rfl
  obtain ⟨-, -, hrun, -⟩ := run_of_reachable hreachable
  obtain ⟨hrun, -⟩ := hrun (by rw [hslice]; decide) 1 hn
  have hlast : (machine.after 1).cpu.halted = true := hhalted
  rw [hlast] at hrun
  exact ⟨machine, hreachable, hslice, hbudget, hrun⟩

end Machine
end Banked8085.Monitor
