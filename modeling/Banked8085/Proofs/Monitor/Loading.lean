import Banked8085.Proofs.Execution.Images
import Banked8085.Proofs.Monitor.Operations

/-! # Loading images

Loading a file into a machine either fails, because the file cannot be read or is empty, and then
nothing has changed (`loadBios_eq_error`, `loadProgram_eq_error`), or it puts the whole file into one
bank (`loading_is_all_or_nothing`). A machine remembers an image just if one was ever installed
(`bios_eq_none_iff`).
-/

namespace Banked8085.Monitor.Machine
set_option autoImplicit false

variable {τ : Type} {machine next : Machine τ} {files : FileReader} {path : String}
  {address : Word} {cause : ImageError}

/-! ## Results of loading -/

theorem loadBios_eq_error :
    machine.loadBios files path = (.error cause, next) ↔
      readImage files .bios path = .error cause ∧ next = machine := by
  cases hread : readImage files .bios path with
  | error reason => simp [loadBios_of_error hread, eq_comm]
  | ok image => simp [loadBios_of_ok hread]

theorem loadProgram_eq_error :
    machine.loadProgram files path address = (.error cause, next) ↔
      readImage files .program path = .error cause ∧ next = machine := by
  cases hread : readImage files .program path with
  | error reason => simp [loadProgram_of_error hread, eq_comm]
  | ok image => simp [loadProgram_of_ok hread]

/-! ## Effects of loading -/

theorem placed_installBios (machine : Machine τ) (image : List Byte) :
    machine.cpu.Placed (machine.installBios image).2.cpu image 0 where
  memory := by
    have h := (machine.cpu.memory.select 0).overwritten_load image 0
    rw [← Memory.active_load _ image 0] at h
    refine ⟨h.written, fun b a houtside => ?_⟩
    rw [← machine.cpu.memory.peek_select 0 b a]
    exact h.kept b a houtside
  others := rfl

theorem active_installBios (machine : Machine τ) (image : List Byte) :
    (machine.installBios image).2.cpu.memory.active.val = 0 := by
  show ((machine.cpu.memory.select 0).load image 0).2.active.val = 0
  rw [Memory.active_load]
  rfl

/-! ## Installed images -/

/-- Operations lead from one machine to another, between which the processor may be changed in any
way, its port handlers included. -/
inductive Leads (start : Machine τ) : List (Operation τ) → Machine τ → Prop
  | start : Leads start [] start
  | perform {operations : List (Operation τ)} {machine next : Machine τ}
      {operation : Operation τ} {answer : Answer} :
    Leads start operations machine → machine.perform operation = some (answer, next) →
    Leads start (operations ++ [operation]) next
  | change {operations : List (Operation τ)} {machine : Machine τ} (cpu : Cpu (Peripherals τ)) :
    Leads start operations machine → Leads start operations { machine with cpu }

theorem bios_reset (machine : Machine τ) : machine.reset.bios = machine.bios := by
  obtain ⟨cpu, settings, bios, totalSteps⟩ := machine
  cases bios with
  | none => rfl
  | some image => rfl

theorem bios_perform {operation : Operation τ} {answer : Answer}
    (h : machine.perform operation = some (answer, next)) :
    next.bios = operation.image?.or machine.bios := by
  cases operation with
  | push _ | take | step | installBios _ | change _ =>
    cases h
    rfl
  | runSlice =>
    obtain ⟨executed, hrun, -⟩ := machine.exists_runSlice_eq
    rw [perform, hrun] at h
    cases h
    rfl
  | run =>
    obtain ⟨⟨outcome, last⟩, hrun, h⟩ := Option.map_eq_some_iff.1 h
    cases h
    obtain ⟨n, -, -, rfl⟩ := run_eq_some hrun
    rfl
  | reset =>
    cases h
    exact machine.bios_reset
  | loadBios files path =>
    cases h
    exact bios_of_loadBios rfl
  | loadProgram files path address =>
    cases h
    exact bios_of_loadProgram rfl

theorem bios_of_leads {start : Machine τ} {operations : List (Operation τ)}
    (h : start.Leads operations machine) : machine.bios = lastImage start.bios operations := by
  induction h with
  | start => rfl
  | perform _ hperform ih =>
    rw [bios_perform hperform, ih, lastImage, lastImage, List.foldl_append]
    rfl
  | change cpu _ ih => exact ih

theorem lastImage_eq_none_iff {image : Option (List Byte)} {operations : List (Operation τ)} :
    lastImage image operations = none ↔
      image = none ∧ ∀ operation ∈ operations, operation.image? = none := by
  induction operations generalizing image with
  | nil => simp [lastImage]
  | cons operation rest ih =>
    have hstep : lastImage image (operation :: rest) =
        lastImage (operation.image?.or image) rest := rfl
    rw [hstep, ih, Option.or_eq_none_iff, List.forall_mem_cons]
    tauto

/-- A machine remembers no image just if none was ever installed. -/
theorem bios_eq_none_iff {initial : FileReader} {settings : Settings} {extra : τ}
    {start : Machine τ} {operations : List (Operation τ)}
    (hnew : Machine.new initial settings extra = .ok start)
    (hleads : start.Leads operations machine) :
    machine.bios = none ↔ startImage initial settings = none ∧
      ∀ operation ∈ operations, operation.image? = none := by
  rw [bios_of_leads hleads, (wired_of_new hnew).bios, lastImage_eq_none_iff]

/-! ## All or nothing -/

/-- Loading a file fails just if it cannot be read or is empty, and a failure changes nothing. If it
succeeds, the file stands in one bank from the given address on, cut off at the end of the bank, and
nothing else is different but the program counter, the active bank and the remembered image: an image
goes to the beginning of bank zero and is remembered, and execution continues there; a program goes to
the active bank, and execution continues there only if no image was ever installed. -/
theorem loading_is_all_or_nothing (machine : Machine τ) (files : FileReader) (path : String)
    (address : Word) :
    (∀ cause next,
      (machine.loadBios files path = (.error cause, next) ↔
        cause.Explains files .bios path ∧ next = machine) ∧
      (machine.loadProgram files path address = (.error cause, next) ↔
        cause.Explains files .program path ∧ next = machine)) ∧
    (∀ cause cpu, machine.cpu.loadFile files path address = (.error cause, cpu) ↔
      cause.Explains files .program path ∧ cpu = machine.cpu) ∧
    (∀ image, files path = .ok image → image ≠ [] →
      (∃ next, machine.loadBios files path = (.ok (min image.length 65536), next) ∧
        machine.cpu.Placed next.cpu image 0 ∧ next.cpu.memory.active.val = 0 ∧
        next.cpu.registers.pc = 0 ∧ next.bios = some image ∧
        next.settings = machine.settings ∧ next.totalSteps = machine.totalSteps) ∧
      (∃ next, machine.loadProgram files path address =
          (.ok (min image.length (65536 - address.toNat)), next) ∧
        machine.cpu.Placed next.cpu image address ∧
        next.cpu.memory.active = machine.cpu.memory.active ∧
        next.cpu.registers.pc =
          (if machine.bios = none then address else machine.cpu.registers.pc) ∧
        next.bios = machine.bios ∧ next.settings = machine.settings ∧
        next.totalSteps = machine.totalSteps) ∧
      ∃ cpu, machine.cpu.loadFile files path address =
          (.ok (min image.length (65536 - address.toNat)), cpu) ∧
        machine.cpu.Placed cpu image address ∧
        cpu.memory.active = machine.cpu.memory.active ∧
        cpu.registers.pc = machine.cpu.registers.pc) ∧
    ∀ initial settings extra start operations,
      Machine.new initial settings extra = .ok start → start.Leads operations machine →
      (machine.bios = none ↔ startImage initial settings = none ∧
        ∀ operation ∈ operations, operation.image? = none) := by
  refine ⟨fun cause next => ⟨?_, ?_⟩, fun cause cpu => ?_, fun image hfile hne => ?_, ?_⟩
  · rw [loadBios_eq_error, readImage_eq_error]
  · rw [loadProgram_eq_error, readImage_eq_error]
  · rw [Cpu.loadFile_eq_error, readImage_eq_error]
  · have hbios : readImage files .bios path = .ok image := readImage_eq_ok.2 ⟨hfile, hne⟩
    have hprogram : readImage files .program path = .ok image := readImage_eq_ok.2 ⟨hfile, hne⟩
    have hplaced := machine.cpu.placed_load image address
    have hactive := machine.cpu.memory.active_load image address
    refine ⟨⟨_, loadBios_of_ok hbios, machine.placed_installBios image,
      machine.active_installBios image, rfl, rfl, rfl, rfl⟩,
      ⟨_, loadProgram_of_ok hprogram, ?_⟩,
      ⟨_, Cpu.loadFile_of_ok hprogram, hplaced, hactive, rfl⟩⟩
    cases machine.bios with
    | none => exact ⟨hplaced.jump address, hactive, rfl, rfl, rfl, rfl⟩
    | some bios => exact ⟨hplaced, hactive, rfl, rfl, rfl, rfl⟩
  · intro initial settings extra start operations hnew hleads
    exact bios_eq_none_iff hnew hleads

/-- Two bytes that are loaded at the last address of bank three: one fits, bank zero keeps the image
that was installed there, and execution does not continue at the program. An empty file is refused
instead, and the machine stays as it is. -/
theorem loading_is_all_or_nothing_overhang :
    let start : Machine Unit := ((fresh {} ()).installBios [0x76]).2
    let machine : Machine Unit :=
      { start with cpu := { start.cpu with memory := start.cpu.memory.select 3 } }
    (∃ next, machine.loadProgram (fun _ => .ok [0xAA, 0xBB]) "p.bin" 0xFFFF = (.ok 1, next) ∧
      next.cpu.memory.readBank 3 0xFFFF = 0xAA ∧ next.cpu.memory.readBank 0 0x0000 = 0x76 ∧
      next.cpu.registers.pc = 0x0000) ∧
    machine.loadProgram (fun _ => .ok []) "e.bin" 0xFFFF =
      (.error (.empty .program "e.bin"), machine) := by
  intro start machine
  have hnew : Machine.new (fun _ => .ok []) {} () = .ok (fresh {} () : Machine Unit) := rfl
  have hleads : (fresh {} () : Machine Unit).Leads [.installBios [0x76]] machine :=
    .change _ (.perform .start rfl)
  obtain ⟨-, -, hloaded, hbios⟩ :=
    loading_is_all_or_nothing machine (fun _ => .ok [0xAA, 0xBB]) "p.bin" 0xFFFF
  obtain ⟨hrefused, -⟩ := loading_is_all_or_nothing machine (fun _ => .ok []) "e.bin" 0xFFFF
  obtain ⟨-, ⟨next, hload, hplaced, hactive, hpc, -⟩, -⟩ := hloaded _ rfl (by decide)
  have hinstalled : machine.bios ≠ none := by
    rw [Ne, hbios _ _ _ _ _ hnew hleads]
    simp [Operation.image?]
  rw [if_neg hinstalled] at hpc
  have hfirst : machine.cpu.memory.peek ⟨0, by decide⟩ 0x0000 = 0x76 := by
    show ((Memory.blank.select 0).load [0x76] 0).2.peek _ _ = _
    rw [Memory.peek_load]
    rfl
  have hbank : next.cpu.memory.active = ⟨3, by decide⟩ := hactive
  refine ⟨⟨next, hload, ?_, ?_, hpc⟩, (hrefused _ _).2.2 ⟨.inr ⟨rfl, rfl⟩, rfl⟩⟩
  · have hwritten := hplaced.memory.written 0 (by decide) (by decide)
    rw [hbank] at hwritten
    exact hwritten
  · have hkept := hplaced.memory.kept ⟨0, by decide⟩ 0x0000 (by rw [hbank]; decide)
    exact hkept.trans hfirst

end Banked8085.Monitor.Machine
