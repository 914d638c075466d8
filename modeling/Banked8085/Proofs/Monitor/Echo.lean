import Banked8085.Proofs.Monitor.Conservation

/-! # The echo

`Cpu.echoing` and `Machine.echoing` switch the echo of a console on and give it some output. A
processor that is changed in this way takes the same steps, and each step also prints the byte that
it hands to the program (`step_echoing`, `iterate_echoing`). So the program cannot tell whether there
is an echo (`echo_is_unobservable`).
-/

namespace Banked8085
set_option autoImplicit false

/-! ## The console -/

/-- The console with an echo and with this output. -/
def Console.echoing (console : Console) (output : List Byte) : Console :=
  { console with output := output.toArray, echo := true }

/-- What an instruction makes of the console at its ports. -/
def Instruction.consoleAfter (a : Byte) (console : Console) : Instruction → Console
  | .input port => (console.read port).2
  | .output port => console.write port a
  | _ => console

/-- What a console with an echo prints at an instruction. -/
def Instruction.shown (a : Byte) (console : Console) : Instruction → List Byte
  | .input port => if port = Console.inputPort then console.input.take 1 else []
  | .output port => if port = Console.outputPort then [a] else []
  | _ => []

theorem Console.read_echoing (console : Console) (output : List Byte) (port : Byte) :
    (console.echoing output).read port =
      ((console.read port).1,
        (console.read port).2.echoing
          (output ++ (if port = inputPort then console.input.take 1 else []))) := by
  unfold read
  split
  case isTrue hport =>
    obtain ⟨input, printed, echo⟩ := console
    cases input with
    | nil => simp [echoing]
    | cons b rest => simp [echoing]
  case isFalse hport => simp

theorem Console.write_echoing (console : Console) (output : List Byte) (port value : Byte) :
    (console.echoing output).write port value =
      (console.write port value).echoing
        (output ++ (if port = outputPort then [value] else [])) := by
  unfold write
  split
  case isTrue hport => simp [echoing]
  case isFalse hport => simp

theorem Instruction.consoleAfter_echoing (a : Byte) (console : Console) (output : List Byte)
    (i : Instruction) :
    i.consoleAfter a (console.echoing output) =
      (i.consoleAfter a console).echoing (output ++ i.shown a console) := by
  cases i with
  | input port => rw [consoleAfter, Console.read_echoing]; rfl
  | output port => exact console.write_echoing output port a
  | _ => simp [consoleAfter, shown]

/-- The processor with an echo at its console and with this output there. -/
def Cpu.echoing {τ : Type} (cpu : Cpu (Monitor.Peripherals τ)) (output : List Byte) :
    Cpu (Monitor.Peripherals τ) :=
  cpu.rewire (Monitor.Machine.consolePorts (cpu.console.echoing output) cpu.ports.device.extra)

namespace Monitor
variable {τ : Type} {settings : Settings} {extra : τ} {cpu : Cpu (Peripherals τ)}

/-! ## Steps -/

theorem portsAfter_consolePorts {console : Console}
    (h : cpu.ports = Machine.consolePorts console extra) (i : Instruction) :
    i.portsAfter cpu = Machine.consolePorts (i.consoleAfter cpu.registers.a console) extra := by
  cases i with
  | input port =>
    rw [Instruction.portsAfter, h]
    rfl
  | output port =>
    rw [Instruction.portsAfter, Instruction.consoleAfter, h]
    split
    case isTrue hselect =>
      rw [write_of_ne (hselect ▸ by decide)]
    case isFalse => rfl
  | _ => exact h

theorem printed_false_of_ne (h : cpu.instruction ≠ .output Console.outputPort) :
    printed false cpu = [] := by
  rw [printed, if_neg h]
  rfl

theorem shown_eq (h : Attached settings extra cpu.ports) (hrunning : cpu.halted = false) :
    cpu.instruction.shown cpu.registers.a cpu.console = printed false cpu ++ handed cpu := by
  cases hi : cpu.instruction with
  | input port =>
    have houtput : cpu.instruction ≠ .output Console.outputPort := by simp [hi]
    rw [printed_false_of_ne houtput, List.nil_append, Instruction.shown]
    split
    case isTrue hport =>
      subst hport
      cases hinput : cpu.console.input with
      | nil => exact (if_neg fun hboth => hboth.2 hinput).symm
      | cons b rest =>
        obtain ⟨ha, -⟩ := console_of_input h hrunning hi
        rw [read_of_cons hinput] at ha
        rw [handed, if_pos ⟨hi, by simp [hinput]⟩, ha]
        rfl
    case isFalse hport =>
      have hinput : cpu.instruction ≠ .input Console.inputPort := by
        rw [hi]
        exact fun heq => hport (Instruction.input.inj heq)
      rw [handed_of_ne hinput]
  | output port =>
    have hinput : cpu.instruction ≠ .input Console.inputPort := by simp [hi]
    rw [handed_of_ne hinput, List.append_nil, printed, hi, Instruction.shown]
    simp
  | _ =>
    have hinput : cpu.instruction ≠ .input Console.inputPort := by simp [hi]
    have houtput : cpu.instruction ≠ .output Console.outputPort := by simp [hi]
    rw [handed_of_ne hinput, printed_false_of_ne houtput]
    rfl

/-- With an echo, a step also prints the byte that it hands out, and does nothing else besides. -/
theorem step_echoing (h : Attached settings extra cpu.ports) (hrunning : cpu.halted = false)
    (output : List Byte) :
    (cpu.echoing output).next =
      cpu.next.echoing (output ++ (printed false cpu ++ handed cpu)) := by
  have hports : cpu.ports = Machine.consolePorts cpu.console extra := h.ports_eq
  have hextra : cpu.ports.device.extra = extra := by rw [hports]; rfl
  have hread : ∀ port, cpu.instruction = .input port →
      ((Machine.consolePorts (cpu.console.echoing output) extra).read port).1 =
        (cpu.ports.read port).1 := by
    intro port _
    have hsame := congrArg Prod.fst (cpu.console.read_echoing output port)
    rw [hports]
    exact hsame
  have hafter : cpu.next.ports =
      Machine.consolePorts (cpu.instruction.consoleAfter cpu.registers.a cpu.console) extra := by
    rw [Cpu.ports_step hrunning, portsAfter_consolePorts hports]
  have hconsole : cpu.next.console =
      cpu.instruction.consoleAfter cpu.registers.a cpu.console := by
    rw [Cpu.console, hafter]
    rfl
  have hextra' : cpu.next.ports.device.extra = extra := by rw [hafter]; rfl
  rw [Cpu.echoing, Cpu.echoing, hextra, hextra', hconsole, Cpu.step_rewire cpu _ hrunning hread,
    portsAfter_consolePorts rfl, ← shown_eq h hrunning, ← Instruction.consoleAfter_echoing]
  rfl

theorem iterate_echoing (h : Attached settings extra cpu.ports) (output : List Byte) (n : ℕ) :
    Cpu.next^[n] (cpu.echoing output) =
      (Cpu.next^[n] cpu).echoing
        (output ++ (cpu.trail n).flatMap fun state => printed false state ++ handed state) := by
  induction n generalizing cpu output with
  | zero => simp [Cpu.trail]
  | succ n ih =>
    cases hhalted : cpu.halted with
    | true =>
      have hechoing : (cpu.echoing output).halted = true := hhalted
      rw [Cpu.trail, if_pos hhalted, Function.iterate_fixed (Cpu.next_of_halted hhalted),
        Function.iterate_fixed (Cpu.next_of_halted hechoing)]
      simp
    | false =>
      rw [Cpu.trail, if_neg (by simp [hhalted]), Function.iterate_succ_apply,
        Function.iterate_succ_apply, step_echoing h hhalted, ih (h.used cpu.used_step),
        List.flatMap_cons]
      simp

/-! ## The machine -/

namespace Machine

/-- The machine with an echo at its console and with this output there. -/
def echoing (machine : Machine τ) (output : List Byte) : Machine τ :=
  { machine with
    cpu := machine.cpu.echoing output
    settings := { machine.settings with echo := true } }

/-- A machine before a run: new, perhaps with another image, and with bytes typed into it. -/
def prepare (files : FileReader) (settings : Settings) (extra : τ) (image : Option (List Byte))
    (inputs : List (List Byte)) : Except ImageError (Machine τ) := do
  let machine ← Machine.new files settings extra
  pure (inputs.foldl push (machine.restore image))

variable (machine : Machine τ) (output : List Byte)

theorem loadBios_echoing (files : FileReader) (path : String) :
    (machine.echoing output).loadBios files path =
      ((machine.loadBios files path).1, (machine.loadBios files path).2.echoing output) := by
  rw [loadBios, loadBios]
  cases readImage files .bios path <;> rfl

theorem loadProgram_echoing (files : FileReader) (path : String) (address : Word) :
    (machine.echoing output).loadProgram files path address =
      ((machine.loadProgram files path address).1,
        (machine.loadProgram files path address).2.echoing output) := by
  obtain ⟨cpu, settings, bios, total⟩ := machine
  rw [loadProgram, loadProgram, Cpu.loadFile, Cpu.loadFile]
  cases readImage files .program path with
  | error cause => rfl
  | ok bytes => cases bios <;> rfl

theorem push_echoing (bytes : List Byte) :
    (machine.echoing output).push bytes = (machine.push bytes).echoing output := rfl

theorem pushAll_echoing (inputs : List (List Byte)) :
    inputs.foldl push (machine.echoing output) = (inputs.foldl push machine).echoing output := by
  induction inputs generalizing machine with
  | nil => rfl
  | cons bytes inputs ih => rw [List.foldl_cons, List.foldl_cons, push_echoing, ih]

theorem restore_echoing (image : Option (List Byte)) :
    (machine.echoing output).restore image = (machine.restore image).echoing output := by
  cases image <;> rfl

theorem loadBiosSetting_echoing (files : FileReader) :
    (machine.echoing output).loadBiosSetting files =
      (machine.loadBiosSetting files).map (·.echoing output) := by
  have hsetting : (machine.echoing output).settings.bios = machine.settings.bios := rfl
  rw [loadBiosSetting, loadBiosSetting, hsetting]
  cases machine.settings.bios with
  | none => rfl
  | some path =>
    simp only [loadBios_echoing]
    cases (machine.loadBios files path).1 <;> rfl

theorem loadProgramSetting_echoing (files : FileReader) :
    (machine.echoing output).loadProgramSetting files =
      (machine.loadProgramSetting files).map (·.echoing output) := by
  have hsetting : (machine.echoing output).settings.program = machine.settings.program := rfl
  have haddress : (machine.echoing output).settings.programAddress =
      machine.settings.programAddress := rfl
  rw [loadProgramSetting, loadProgramSetting, hsetting, haddress]
  cases machine.settings.program with
  | none => rfl
  | some path =>
    simp only [loadProgram_echoing]
    cases (machine.loadProgram files path machine.settings.programAddress).1 <;> rfl

/-- Setting up a machine with an echo succeeds or fails as it does without one. -/
theorem prepare_echoing (files : FileReader) (settings : Settings) (extra : τ)
    (image : Option (List Byte)) (inputs : List (List Byte)) :
    prepare files { settings with echo := true } extra image inputs =
      (prepare files { settings with echo := false } extra image inputs).map (·.echoing []) := by
  have hfresh : fresh { settings with echo := true } extra =
      (fresh { settings with echo := false } extra).echoing [] := rfl
  unfold prepare Machine.new
  rw [hfresh, loadBiosSetting_echoing]
  cases (fresh { settings with echo := false } extra).loadBiosSetting files with
  | error cause => rfl
  | ok first =>
    show ((first.echoing []).loadProgramSetting files >>= _) =
      (first.loadProgramSetting files >>= _).map _
    rw [loadProgramSetting_echoing]
    cases first.loadProgramSetting files with
    | error cause => rfl
    | ok second =>
      have hrestore := second.restore_echoing [] image
      have hpush := (second.restore image).pushAll_echoing [] inputs
      rw [← hrestore] at hpush
      exact congrArg Except.ok hpush

theorem ports_of_pushAll {machine : Machine τ} {input : List Byte} {echo : Bool}
    (h : machine.cpu.ports = consolePorts { input, echo } extra) (inputs : List (List Byte)) :
    ∃ input, (inputs.foldl push machine).cpu.ports = consolePorts { input, echo } extra := by
  induction inputs generalizing machine input with
  | nil => exact ⟨input, h⟩
  | cons bytes inputs ih =>
    have hnext : (machine.push bytes).cpu.ports =
        consolePorts { input := input ++ Console.keystrokes bytes, echo } extra := by
      rw [push, withConsole_eq h]
      rfl
    exact ih hnext

/-- Before a run only the queue of the console holds something. -/
theorem ports_of_prepare {files : FileReader} {image : Option (List Byte)}
    {inputs : List (List Byte)} {machine : Machine τ}
    (h : prepare files settings extra image inputs = .ok machine) :
    ∃ input, machine.cpu.ports = consolePorts { input, echo := settings.echo } extra := by
  obtain ⟨first, hnew, h⟩ := bind_eq_ok.1 h
  cases h
  have hrestore : (first.restore image).cpu.ports = first.cpu.ports := by
    cases image <;> rfl
  exact ports_of_pushAll (hrestore.trans (ports_of_new hnew)) inputs

end Machine

/-- A program cannot tell whether there is an echo. Setting up a machine succeeds or fails alike with
and without one, and then both go through the same states with the same bytes waiting, whatever was
typed before. The output without an echo is what the program prints. With an echo it is the same,
and wherever the program gets a byte that was waiting, this byte stands there as well. -/
theorem echo_is_unobservable (files : FileReader) (settings : Settings) (extra : τ)
    (image : Option (List Byte)) (inputs : List (List Byte)) :
    let start (echo : Bool) := Machine.prepare files { settings with echo } extra image inputs
    (∀ cause, start true = .error cause ↔ start false = .error cause) ∧
      ∀ silent echoing, start false = .ok silent → start true = .ok echoing → ∀ n,
        let quiet := Cpu.next^[n] silent.cpu
        let loud := Cpu.next^[n] echoing.cpu
        loud = { quiet with ports := loud.ports } ∧
          loud.console.input = quiet.console.input ∧
          quiet.console.output.toList = (silent.cpu.trail n).flatMap (printed false) ∧
          loud.console.output.toList =
            (silent.cpu.trail n).flatMap fun state => printed false state ++ handed state := by
  intro start
  have hstart : start true = (start false).map (·.echoing []) :=
    Machine.prepare_echoing files settings extra image inputs
  constructor
  · intro cause
    rw [hstart]
    cases start false <;> simp [Except.map]
  · intro silent echoing hsilent hechoing n quiet loud
    rw [hstart, hsilent] at hechoing
    cases hechoing
    obtain ⟨input, hports⟩ := Machine.ports_of_prepare hsilent
    have hattached : Attached { settings with echo := false } extra silent.cpu.ports :=
      ⟨_, rfl, hports⟩
    have hempty : silent.cpu.console.output.toList = [] := by
      rw [Cpu.console, hports]
      rfl
    have hloud : loud = quiet.echoing ([] ++ _) := iterate_echoing hattached [] n
    have hquiet := output_iterate hattached n
    rw [hempty, List.nil_append] at hquiet
    rw [hloud, List.nil_append]
    exact ⟨rfl, rfl, hquiet, List.toList_toArray⟩

/-- A program that prints the byte it reads prints it twice with an echo. -/
theorem echo_is_unobservable_twice :
    let start (echo : Bool) := Machine.prepare (fun _ => .error .notFound) { echo } ()
      (some [0xDB, 0x00, 0xD3, 0x01]) [[0x6F, 0x6B]]
    ∃ silent echoing, start false = .ok silent ∧ start true = .ok echoing ∧
      (Cpu.next^[2] silent.cpu).console.output.toList = [0x6F] ∧
      (Cpu.next^[2] echoing.cpu).console.output.toList = [0x6F, 0x6F] := by
  intro start
  let silent := ((Machine.fresh {} ()).installBios [0xDB, 0x00, 0xD3, 0x01]).2.push [0x6F, 0x6B]
  obtain ⟨echoing, hechoing⟩ : ∃ echoing, start true = .ok echoing := ⟨_, rfl⟩
  obtain ⟨-, -, hquiet, hloud⟩ := (echo_is_unobservable (fun _ => .error .notFound) {} ()
    (some [0xDB, 0x00, 0xD3, 0x01]) [[0x6F, 0x6B]]).2 silent echoing rfl hechoing 2
  have hholds : silent.cpu.memory.Holds silent.cpu.registers.pc
      ((Instruction.input 0x00).encode ++ (Instruction.output 0x01).encode) :=
    Memory.holds_load (by decide)
  have hfirst : silent.cpu.instruction = .input Console.inputPort :=
    Cpu.instruction_of_holds hholds.left
  have hstep : silent.cpu.next = (silent.cpu.jump 0x0002).execute (.input 0x00) :=
    Cpu.next_of_holds rfl hholds.left
  have ha : silent.cpu.next.registers.a = 0x6F := by rw [hstep]; rfl
  have hsecond : silent.cpu.next.instruction = .output Console.outputPort := by
    rw [hstep]
    exact Cpu.instruction_of_holds hholds.tail.tail
  have hread : printed false silent.cpu = [] ∧ handed silent.cpu = [0x6F] := by
    refine ⟨printed_false_of_ne (by simp [hfirst]), ?_⟩
    rw [handed, if_pos ⟨hfirst, by decide⟩, ha]
  have hwrite : printed false silent.cpu.next = [0x6F] ∧ handed silent.cpu.next = [] := by
    refine ⟨?_, handed_of_ne (by simp [hsecond])⟩
    rw [printed, if_pos hsecond, ha]
  have htrail : silent.cpu.trail 2 = [silent.cpu, silent.cpu.next] := by
    rw [Cpu.trail, Cpu.trail, Cpu.trail, if_neg (by decide), hstep, if_neg (by decide)]
  rw [htrail, List.flatMap_cons, List.flatMap_singleton, hread.1, hwrite.1] at hquiet
  rw [htrail, List.flatMap_cons, List.flatMap_singleton, hread.1, hread.2, hwrite.1,
    hwrite.2] at hloud
  exact ⟨silent, echoing, rfl, hechoing, hquiet, hloud⟩

end Monitor
end Banked8085
