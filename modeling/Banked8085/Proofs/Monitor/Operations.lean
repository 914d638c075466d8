import Banked8085.Proofs.Execution.PortUse
import Banked8085.Proofs.Monitor.Reachable

/-! # Operations of a machine

`Operation` collects what a program around a machine can do to it, and `Machine.perform` does it.
The processor may be changed at will as long as its port handlers stay, which may be called
(`Ports.Used`). Whatever is done, the settings stay and the console remains attached to the ports:
`Machine.Wired` holds of every machine that is new and is kept by all operations
(`wired_of_new`, `Wired.perform`, `Wired.performAll`).
-/

namespace Banked8085
set_option autoImplicit false

namespace Monitor
variable {τ : Type}

/-! ## The attached console -/

/-- The console handlers are at the ports, with the echo that the settings ask for. -/
def Attached (settings : Settings) (extra : τ) (ports : Ports (Peripherals τ)) : Prop :=
  ∃ console : Console, console.echo = settings.echo ∧ ports = Machine.consolePorts console extra

variable {settings : Settings} {extra : τ} {ports next : Ports (Peripherals τ)}

theorem Attached.read (h : Attached settings extra ports) (port : Byte) :
    Attached settings extra (ports.read port).2 := by
  obtain ⟨console, hecho, rfl⟩ := h
  refine ⟨(console.read port).2, ?_, rfl⟩
  rw [← hecho]
  unfold Console.read
  split
  · split <;> rfl
  · rfl

theorem Attached.write (h : Attached settings extra ports) (port value : Byte) :
    Attached settings extra (ports.write port value) := by
  obtain ⟨console, hecho, rfl⟩ := h
  refine ⟨console.write port value, ?_, rfl⟩
  rw [← hecho]
  unfold Console.write
  split <;> rfl

theorem Attached.used (h : Attached settings extra ports) (hused : ports.Used next) :
    Attached settings extra next := by
  induction hused with
  | refl => exact h
  | read port _ ih => exact ih.read port
  | write port value _ ih => exact ih.write port value

theorem Attached.iterate {cpu : Cpu (Peripherals τ)} (h : Attached settings extra cpu.ports)
    (n : ℕ) : Attached settings extra (Cpu.next^[n] cpu).ports := by
  induction n with
  | zero => exact h
  | succ n ih =>
    rw [Function.iterate_succ_apply']
    exact ih.used (Cpu.used_step _)

/-! ## Operations -/

/-- A change of the processor that leaves the handlers at its ports. -/
structure Change (τ : Type) where
  apply : Cpu (Peripherals τ) → Cpu (Peripherals τ)
  used : ∀ cpu : Cpu (Peripherals τ), cpu.ports.Used (apply cpu).ports

/-- What can be done to a machine from outside. -/
inductive Operation (τ : Type)
  | push (bytes : List Byte)
  | take
  | step
  | runSlice
  | run
  | reset
  | loadBios (files : FileReader) (path : String)
  | installBios (image : List Byte)
  | loadProgram (files : FileReader) (path : String) (address : Word)
  | change (change : Change τ)

/-- What an operation tells its caller. -/
inductive Answer
  | done
  | taken (bytes : List Byte)
  | stepped (executed : Bool)
  | sliced (executed : UInt32)
  | finished (outcome : RunOutcome)
  | loaded (result : Except ImageError Nat)

/-- The image that an operation makes the one to install at a reset. -/
def Operation.image? : Operation τ → Option (List Byte)
  | .loadBios files path => (readImage files .bios path).toOption
  | .installBios image => some image
  | _ => none

namespace Machine

/-- Do an operation. There is no result if it is a run that never ends. -/
def perform (machine : Machine τ) : Operation τ → Option (Answer × Machine τ)
  | .push bytes => some (.done, machine.push bytes)
  | .take => some (.taken machine.take.1, machine.take.2)
  | .step =>
    let (executed, cpu) := machine.cpu.step
    some (.stepped executed, { machine with cpu })
  | .runSlice => some (.sliced machine.runSlice.1, machine.runSlice.2)
  | .run => machine.run.map fun (outcome, next) => (.finished outcome, next)
  | .reset => some (.done, machine.reset)
  | .loadBios files path =>
    let (result, next) := machine.loadBios files path
    some (.loaded result, next)
  | .installBios image =>
    let (count, next) := machine.installBios image
    some (.loaded (.ok count), next)
  | .loadProgram files path address =>
    let (result, next) := machine.loadProgram files path address
    some (.loaded result, next)
  | .change change => some (.done, { machine with cpu := change.apply machine.cpu })

/-- Do operations one after the other and collect the answers. -/
def performAll (machine : Machine τ) : List (Operation τ) → Option (List Answer × Machine τ)
  | [] => some ([], machine)
  | operation :: rest => do
    let (answer, next) ← machine.perform operation
    let (answers, last) ← next.performAll rest
    pure (answer :: answers, last)

/-! ## What all operations keep -/

/-- A machine with its settings and its console in place, and with the image that a reset installs
if there is one. -/
structure Wired (settings : Settings) (extra : τ) (image : Option (List Byte))
    (machine : Machine τ) : Prop where
  configured : machine.settings = settings
  attached : Attached settings extra machine.cpu.ports
  bios : machine.bios = image

def restore (machine : Machine τ) : Option (List Byte) → Machine τ
  | none => machine
  | some image => (machine.installBios image).2

variable {machine next : Machine τ} {image : Option (List Byte)}

theorem wired_fresh (settings : Settings) (extra : τ) :
    Wired settings extra none (fresh settings extra) where
  configured := rfl
  attached := ⟨{ echo := settings.echo }, rfl, rfl⟩
  bios := rfl

theorem Wired.installBios (h : Wired settings extra image machine) (bytes : List Byte) :
    Wired settings extra (some bytes) (machine.installBios bytes).2 where
  configured := h.configured
  attached := h.attached
  bios := rfl

theorem Wired.after (h : Wired settings extra image machine) (n : ℕ) :
    Wired settings extra image (machine.after n) where
  configured := h.configured
  attached := h.attached.iterate n
  bios := h.bios

theorem Wired.change (h : Wired settings extra image machine) {cpu : Cpu (Peripherals τ)}
    (hused : machine.cpu.ports.Used cpu.ports) :
    Wired settings extra image { machine with cpu } where
  configured := h.configured
  attached := h.attached.used hused
  bios := h.bios

theorem withConsole_eq {console : Console} (hports : machine.cpu.ports = consolePorts console extra)
    {α : Type} (change : Console → α × Console) :
    machine.withConsole change =
      ((change console).1,
        { machine with
          cpu := { machine.cpu with ports := consolePorts (change console).2 extra } }) := by
  obtain ⟨⟨registers, flags, memory, ports, halted, interruptsEnabled⟩, settings', bios, total⟩ :=
    machine
  obtain rfl : ports = consolePorts console extra := hports
  rfl

theorem Wired.withConsole (h : Wired settings extra image machine) {α : Type}
    (change : Console → α × Console)
    (hecho : ∀ console, (change console).2.echo = console.echo) :
    Wired settings extra image (machine.withConsole change).2 := by
  obtain ⟨console, hconsole, hports⟩ := h.attached
  rw [withConsole_eq hports]
  exact ⟨h.configured, ⟨_, (hecho console).trans hconsole, rfl⟩, h.bios⟩

/-- A file that is no image leaves the image of before in place. -/
theorem bios_of_loadBios {files : FileReader} {path : String} {result : Except ImageError Nat}
    (h : machine.loadBios files path = (result, next)) :
    next.bios = (readImage files .bios path).toOption.or machine.bios := by
  cases hread : readImage files .bios path with
  | error cause =>
    rw [loadBios_of_error hread] at h
    cases h
    rfl
  | ok bytes =>
    rw [loadBios_of_ok hread] at h
    cases h
    rfl

theorem bios_of_loadProgram {files : FileReader} {path : String} {address : Word}
    {result : Except ImageError Nat}
    (h : machine.loadProgram files path address = (result, next)) : next.bios = machine.bios := by
  cases hread : readImage files .program path with
  | error cause =>
    rw [loadProgram_of_error hread] at h
    cases h
    rfl
  | ok bytes =>
    rw [loadProgram_of_ok hread] at h
    cases h
    rfl

theorem Wired.of_kept (h : Wired settings extra image machine) (hkept : Kept machine next) :
    Wired settings extra next.bios next where
  configured := hkept.settings.trans h.configured
  attached := hkept.ports ▸ h.attached
  bios := rfl

theorem Wired.loadBios (h : Wired settings extra image machine) {files : FileReader}
    {path : String} {result : Except ImageError Nat}
    (hload : machine.loadBios files path = (result, next)) :
    Wired settings extra ((readImage files .bios path).toOption.or image) next := by
  rw [← h.bios, ← bios_of_loadBios hload]
  exact h.of_kept (kept_of_loadBios hload)

theorem Wired.loadProgram (h : Wired settings extra image machine) {files : FileReader}
    {path : String} {address : Word} {result : Except ImageError Nat}
    (hload : machine.loadProgram files path address = (result, next)) :
    Wired settings extra image next := by
  rw [← h.bios, ← bios_of_loadProgram hload]
  exact h.of_kept (kept_of_loadProgram hload)

/-! ## Reset -/

/-- A reset leads to the state after power-on, with the remembered image installed again. -/
theorem Wired.reset_eq (h : Wired settings extra image machine) :
    machine.reset = (fresh settings extra).restore image := by
  obtain ⟨rfl, ⟨console, hecho, hports⟩, rfl⟩ := h
  have hclear : console.clear = { echo := machine.settings.echo } := by
    rw [← hecho]
    rfl
  have hreset : { machine with cpu := machine.cpu.reset, totalSteps := 0 }.cpu.ports =
      consolePorts console extra := hports
  rw [Machine.reset]
  simp only [withConsole_eq hreset, hclear]
  cases machine.bios with
  | none => rfl
  | some bytes => rfl

theorem wired_restore (settings : Settings) (extra : τ) (image : Option (List Byte)) :
    Wired settings extra image ((fresh settings extra).restore image) := by
  cases image with
  | none => exact wired_fresh settings extra
  | some bytes => exact (wired_fresh settings extra).installBios bytes

/-! ## Runs of operations -/

theorem Wired.perform (h : Wired settings extra image machine) {operation : Operation τ}
    {answer : Answer} (hperform : machine.perform operation = some (answer, next)) :
    Wired settings extra (operation.image?.or image) next := by
  cases operation with
  | push bytes =>
    cases hperform
    exact h.withConsole _ fun _ => rfl
  | take =>
    cases hperform
    exact h.withConsole _ fun _ => rfl
  | step =>
    cases hperform
    exact h.change (Cpu.used_step _)
  | runSlice =>
    obtain ⟨executed, hrun, -⟩ := machine.exists_runSlice_eq
    rw [Machine.perform, hrun] at hperform
    cases hperform
    exact h.after _
  | run =>
    obtain ⟨⟨outcome, last⟩, hrun, hperform⟩ := Option.map_eq_some_iff.1 hperform
    cases hperform
    obtain ⟨n, -, -, rfl⟩ := run_eq_some hrun
    exact h.after n
  | reset =>
    cases hperform
    rw [h.reset_eq]
    exact wired_restore settings extra image
  | loadBios files path =>
    cases hperform
    exact h.loadBios rfl
  | installBios bytes =>
    cases hperform
    exact h.installBios bytes
  | loadProgram files path address =>
    cases hperform
    exact h.loadProgram rfl
  | change change =>
    cases hperform
    exact h.change (change.used _)

/-- The image that a new machine has installed. -/
def startImage (files : FileReader) (settings : Settings) : Option (List Byte) :=
  settings.bios.bind fun path => (readImage files .bios path).toOption

/-- The image that was installed last, after operations that began with `image`. -/
def lastImage (image : Option (List Byte)) (operations : List (Operation τ)) :
    Option (List Byte) :=
  operations.foldl (fun last operation => operation.image?.or last) image

theorem Wired.performAll (h : Wired settings extra image machine)
    {operations : List (Operation τ)} {answers : List Answer}
    (hperform : machine.performAll operations = some (answers, next)) :
    Wired settings extra (lastImage image operations) next := by
  induction operations generalizing machine image answers with
  | nil =>
    cases hperform
    exact h
  | cons operation rest ih =>
    obtain ⟨⟨answer, middle⟩, hfirst, hperform⟩ := Option.bind_eq_some_iff.1 hperform
    obtain ⟨⟨more, last⟩, hrest, hperform⟩ := Option.bind_eq_some_iff.1 hperform
    cases hperform
    exact ih (h.perform hfirst) hrest

theorem loadBiosSetting_fresh {files : FileReader}
    (h : (fresh settings extra).loadBiosSetting files = .ok machine) :
    machine = (fresh settings extra).restore (startImage files settings) := by
  rcases loadBiosSetting_eq_ok h with ⟨hnone, rfl⟩ | ⟨path, count, hsome, hload⟩
  · have hbios : settings.bios = none := hnone
    rw [startImage, hbios]
    rfl
  · have hbios : settings.bios = some path := hsome
    rw [startImage, hbios, Option.bind_some]
    cases hread : readImage files .bios path with
    | error cause =>
      rw [loadBios_of_error hread] at hload
      cases hload
    | ok bytes =>
      rw [loadBios_of_ok hread] at hload
      cases hload
      rfl

/-- A new machine has installed its image and then perhaps loaded a program. -/
theorem new_eq_ok {files : FileReader} (h : Machine.new files settings extra = .ok machine) :
    let first := (fresh settings extra).restore (startImage files settings)
    machine = first ∨
      ∃ path count, first.loadProgram files path settings.programAddress = (.ok count, machine) := by
  intro first
  obtain ⟨middle, hmiddle, h⟩ := bind_eq_ok.1 h
  have hfirst : middle = first := loadBiosSetting_fresh hmiddle
  have hsettings : first.settings = settings := (wired_restore settings extra _).configured
  rw [hfirst] at h
  rw [← hsettings]
  exact loadProgramSetting_eq_ok h

theorem wired_of_new {files : FileReader} (h : Machine.new files settings extra = .ok machine) :
    Wired settings extra (startImage files settings) machine := by
  have hfirst := wired_restore settings extra (startImage files settings)
  rcases new_eq_ok h with rfl | ⟨path, count, hload⟩
  · exact hfirst
  · exact hfirst.loadProgram hload

theorem ports_of_new {files : FileReader} (h : Machine.new files settings extra = .ok machine) :
    machine.cpu.ports = consolePorts { echo := settings.echo } extra := by
  have hfirst : ((fresh settings extra).restore (startImage files settings)).cpu.ports =
      consolePorts { echo := settings.echo } extra := by
    cases startImage files settings <;> rfl
  rcases new_eq_ok h with rfl | ⟨path, count, hload⟩
  · exact hfirst
  · exact (kept_of_loadProgram hload).ports.trans hfirst

end Machine
end Monitor
end Banked8085
