import Banked8085.Proofs.Monitor.Keystrokes
import Banked8085.Proofs.Monitor.Operations

/-! # The console loses no byte

`Cpu.trail` lists the states in which a run executes an instruction. In each of them the program may
get a byte from the console (`handed`) and something may be printed (`printed`). A `Session` performs
operations and keeps what was typed, taken and executed. The translation of what was typed
(`Console.translated`) is what the program got, followed by what still waits; what was taken, followed
by what waits to be taken, is what was printed (`console_conserves_bytes`).
-/

namespace Banked8085
set_option autoImplicit false

/-- The states from which the first `n` steps execute an instruction. -/
def Cpu.trail {σ : Type} (cpu : Cpu σ) : ℕ → List (Cpu σ)
  | 0 => []
  | n + 1 => if cpu.halted then [] else cpu :: cpu.next.trail n

/-- The console behind the ports. -/
def Cpu.console {τ : Type} (cpu : Cpu (Monitor.Peripherals τ)) : Console :=
  cpu.ports.device.console

namespace Monitor
variable {τ : Type}

/-! ## Single steps -/

/-- The byte that the next instruction gets from the console. -/
def handed (cpu : Cpu (Peripherals τ)) : List Byte :=
  if cpu.instruction = .input Console.inputPort ∧ cpu.console.input ≠ [] then
    [cpu.next.registers.a]
  else []

/-- The byte that the next instruction prints. -/
def printed (echo : Bool) (cpu : Cpu (Peripherals τ)) : List Byte :=
  if cpu.instruction = .output Console.outputPort then [cpu.registers.a]
  else if echo then handed cpu
  else []

variable {settings : Settings} {extra : τ} {cpu : Cpu (Peripherals τ)}

theorem read_of_nil {console : Console} (h : console.input = []) :
    console.read Console.inputPort = (0, console) := by
  rw [Console.read, if_pos rfl, h]

theorem read_of_cons {console : Console} {b : Byte} {rest : List Byte}
    (h : console.input = b :: rest) :
    console.read Console.inputPort =
      (b, { console with
        input := rest
        output := if console.echo then console.output.push b else console.output }) := by
  rw [Console.read, if_pos rfl, h]

theorem read_of_ne {console : Console} {port : Byte} (h : port ≠ Console.inputPort) :
    console.read port = (Ports.unconnected, console) := by
  rw [Console.read, if_neg h]

theorem write_of_ne {console : Console} {port value : Byte} (h : port ≠ Console.outputPort) :
    console.write port value = console := by
  rw [Console.write, if_neg h]

theorem Attached.echo_eq (h : Attached settings extra cpu.ports) :
    cpu.console.echo = settings.echo := by
  obtain ⟨console, hecho, hports⟩ := h
  rw [Cpu.console, hports]
  exact hecho

theorem Attached.ports_eq (h : Attached settings extra cpu.ports) :
    cpu.ports = Machine.consolePorts cpu.console extra := by
  obtain ⟨console, -, hports⟩ := h
  rw [Cpu.console, hports]
  rfl

theorem console_of_input (h : Attached settings extra cpu.ports) (hrunning : cpu.halted = false)
    {port : Byte} (hi : cpu.instruction = .input port) :
    cpu.next.registers.a = (cpu.console.read port).1 ∧
      cpu.next.console = (cpu.console.read port).2 := by
  constructor
  · rw [Cpu.a_step_of_input hrunning hi, h.ports_eq]
    rfl
  · rw [Cpu.console, Cpu.ports_step hrunning, hi, Instruction.portsAfter, h.ports_eq]
    rfl

theorem console_of_output (h : Attached settings extra cpu.ports) (hrunning : cpu.halted = false)
    {port : Byte} (hi : cpu.instruction = .output port) :
    cpu.next.console = cpu.console.write port cpu.registers.a := by
  rw [Cpu.console, Cpu.ports_step hrunning, hi, Instruction.portsAfter]
  split
  case isTrue hselect =>
    rw [write_of_ne (hselect ▸ by decide)]
    rfl
  case isFalse =>
    rw [h.ports_eq]
    rfl

theorem console_of_other (hrunning : cpu.halted = false)
    (hi : ∀ port, cpu.instruction ≠ .input port ∧ cpu.instruction ≠ .output port) :
    cpu.next.console = cpu.console := by
  simp only [Cpu.console]
  rw [Cpu.ports_step hrunning]
  cases hinstruction : cpu.instruction with
  | input port => exact absurd hinstruction (hi port).1
  | output port => exact absurd hinstruction (hi port).2
  | _ => rfl

/-- What a step of a running processor does to the console at its ports. -/
theorem console_step (h : Attached settings extra cpu.ports) (hrunning : cpu.halted = false) :
    (∃ port, cpu.instruction = .input port ∧
      cpu.next.registers.a = (cpu.console.read port).1 ∧
      cpu.next.console = (cpu.console.read port).2) ∨
    (∃ port, cpu.instruction = .output port ∧
      cpu.next.console = cpu.console.write port cpu.registers.a) ∨
    (∀ port, cpu.instruction ≠ .input port ∧ cpu.instruction ≠ .output port) ∧
      cpu.next.console = cpu.console := by
  by_cases hinput : ∃ port, cpu.instruction = .input port
  · obtain ⟨port, hi⟩ := hinput
    exact .inl ⟨port, hi, console_of_input h hrunning hi⟩
  by_cases houtput : ∃ port, cpu.instruction = .output port
  · obtain ⟨port, hi⟩ := houtput
    exact .inr (.inl ⟨port, hi, console_of_output h hrunning hi⟩)
  have hother : ∀ port, cpu.instruction ≠ .input port ∧ cpu.instruction ≠ .output port :=
    fun port => ⟨fun hi => hinput ⟨port, hi⟩, fun hi => houtput ⟨port, hi⟩⟩
  exact .inr (.inr ⟨hother, console_of_other hrunning hother⟩)

theorem handed_of_ne (h : cpu.instruction ≠ .input Console.inputPort) : handed cpu = [] :=
  if_neg fun hboth => h hboth.1

theorem printed_of_ne (echo : Bool) (hinput : cpu.instruction ≠ .input Console.inputPort)
    (houtput : cpu.instruction ≠ .output Console.outputPort) : printed echo cpu = [] := by
  rw [printed, if_neg houtput, handed_of_ne hinput, ite_self]

/-- A step hands out the first byte that waits, or prints a byte, or does neither. -/
theorem byte_step (h : Attached settings extra cpu.ports) (hrunning : cpu.halted = false) :
    (∃ b rest, cpu.console.input = b :: rest ∧ handed cpu = [b] ∧
      printed settings.echo cpu = (if settings.echo then [b] else []) ∧
      cpu.next.console = { cpu.console with
        input := rest
        output := if cpu.console.echo then cpu.console.output.push b
          else cpu.console.output }) ∨
    (handed cpu = [] ∧ printed settings.echo cpu = [cpu.registers.a] ∧
      cpu.next.console = { cpu.console with output := cpu.console.output.push cpu.registers.a }) ∨
    handed cpu = [] ∧ printed settings.echo cpu = [] ∧ cpu.next.console = cpu.console := by
  rcases console_step h hrunning with ⟨port, hi, ha, hnext⟩ | ⟨port, hi, hnext⟩ | ⟨hi, hnext⟩
  · have houtput : cpu.instruction ≠ .output Console.outputPort := by
      rw [hi]
      exact nofun
    by_cases hport : port = Console.inputPort
    · subst hport
      cases hinput : cpu.console.input with
      | nil =>
        have hhanded : handed cpu = [] := if_neg fun hboth => hboth.2 hinput
        refine .inr (.inr ⟨hhanded, ?_, ?_⟩)
        · rw [printed, if_neg houtput, hhanded, ite_self]
        · rw [hnext, read_of_nil hinput]
      | cons b rest =>
        rw [read_of_cons hinput] at ha hnext
        have hhanded : handed cpu = [b] := by
          rw [handed, if_pos ⟨hi, by simp [hinput]⟩, ha]
        refine .inl ⟨b, rest, rfl, hhanded, ?_, hnext⟩
        rw [printed, if_neg houtput, hhanded]
    · have hinput : cpu.instruction ≠ .input Console.inputPort := by
        rw [hi]
        exact fun heq => hport (Instruction.input.inj heq)
      refine .inr (.inr ⟨handed_of_ne hinput, printed_of_ne _ hinput houtput, ?_⟩)
      rw [hnext, read_of_ne hport]
  · have hinput : cpu.instruction ≠ .input Console.inputPort := by
      rw [hi]
      exact nofun
    by_cases hport : port = Console.outputPort
    · subst hport
      refine .inr (.inl ⟨handed_of_ne hinput, if_pos hi, ?_⟩)
      rw [hnext, Console.write, if_pos rfl]
    · have houtput : cpu.instruction ≠ .output Console.outputPort := by
        rw [hi]
        exact fun heq => hport (Instruction.output.inj heq)
      refine .inr (.inr ⟨handed_of_ne hinput, printed_of_ne _ hinput houtput, ?_⟩)
      rw [hnext, write_of_ne hport]
  · exact .inr (.inr ⟨handed_of_ne (hi _).1, printed_of_ne _ (hi _).1 (hi _).2, hnext⟩)

theorem input_step (h : Attached settings extra cpu.ports) (hrunning : cpu.halted = false) :
    cpu.console.input = handed cpu ++ cpu.next.console.input := by
  rcases byte_step h hrunning with
    ⟨b, rest, hinput, hhanded, -, hnext⟩ | ⟨hhanded, -, hnext⟩ | ⟨hhanded, -, hnext⟩
  · rw [hinput, hhanded, hnext]
    rfl
  · rw [hhanded, hnext]
    rfl
  · rw [hhanded, hnext]
    rfl

theorem output_step (h : Attached settings extra cpu.ports) (hrunning : cpu.halted = false) :
    cpu.next.console.output.toList =
      cpu.console.output.toList ++ printed settings.echo cpu := by
  rcases byte_step h hrunning with
    ⟨b, rest, -, -, hprinted, hnext⟩ | ⟨-, hprinted, hnext⟩ | ⟨-, hprinted, hnext⟩
  · rw [hprinted, hnext, h.echo_eq]
    cases settings.echo <;> simp
  · rw [hprinted, hnext, Array.toList_push]
  · rw [hprinted, hnext, List.append_nil]

/-! ## Runs -/

theorem input_iterate (h : Attached settings extra cpu.ports) (n : ℕ) :
    cpu.console.input = (cpu.trail n).flatMap handed ++ (Cpu.next^[n] cpu).console.input := by
  induction n generalizing cpu with
  | zero => rfl
  | succ n ih =>
    cases hhalted : cpu.halted with
    | true =>
      rw [Cpu.trail, if_pos hhalted, Function.iterate_fixed (Cpu.next_of_halted hhalted)]
      rfl
    | false =>
      have hrest := ih (h.used cpu.used_step)
      rw [Cpu.trail, if_neg (by simp [hhalted]), Function.iterate_succ_apply, List.flatMap_cons,
        List.append_assoc, ← hrest]
      exact input_step h hhalted

theorem running_of_mem_trail (h : Attached settings extra cpu.ports) {n : ℕ}
    {state : Cpu (Peripherals τ)} (hmem : state ∈ cpu.trail n) :
    Attached settings extra state.ports ∧ state.halted = false := by
  induction n generalizing cpu with
  | zero => exact absurd hmem List.not_mem_nil
  | succ n ih =>
    cases hhalted : cpu.halted with
    | true =>
      rw [Cpu.trail, if_pos hhalted] at hmem
      exact absurd hmem List.not_mem_nil
    | false =>
      rw [Cpu.trail, if_neg (by simp [hhalted])] at hmem
      rcases List.mem_cons.1 hmem with rfl | hrest
      · exact ⟨h, hhalted⟩
      · exact ih (h.used cpu.used_step) hrest

theorem output_iterate (h : Attached settings extra cpu.ports) (n : ℕ) :
    (Cpu.next^[n] cpu).console.output.toList =
      cpu.console.output.toList ++ (cpu.trail n).flatMap (printed settings.echo) := by
  induction n generalizing cpu with
  | zero => simp [Cpu.trail]
  | succ n ih =>
    cases hhalted : cpu.halted with
    | true =>
      rw [Cpu.trail, if_pos hhalted, Function.iterate_fixed (Cpu.next_of_halted hhalted)]
      simp
    | false =>
      rw [Cpu.trail, if_neg (by simp [hhalted]), Function.iterate_succ_apply,
        ih (h.used cpu.used_step), output_step h hhalted, List.flatMap_cons, List.append_assoc]

/-! ## Sessions -/

/-- A reset drops what waits in the console, and a change of the processor may call the handlers in
the place of the program. -/
def Operation.bypasses : Operation τ → Bool
  | .reset | .change _ => true
  | _ => false

def Operation.typed : Operation τ → List (List Byte)
  | .push bytes => [bytes]
  | _ => []

def Answer.takenBytes : Answer → List (List Byte)
  | .taken bytes => [bytes]
  | _ => []

/-- The states in which an operation makes the processor execute an instruction. -/
noncomputable def Operation.trail (machine : Machine τ) : Operation τ → List (Cpu (Peripherals τ))
  | .step => machine.cpu.trail 1
  | .runSlice => machine.cpu.trail machine.runSlice.1.toNat
  | .run => machine.cpu.trail machine.runLength.toNat
  | _ => []

/-- A machine with all that was typed into it, taken from it and executed by it. -/
structure Session (τ : Type) where
  machine : Machine τ
  typed : List (List Byte) := []
  taken : List (List Byte) := []
  executed : List (Cpu (Peripherals τ)) := []

namespace Session

noncomputable def perform (session : Session τ) (operation : Operation τ) :
    Option (Session τ) := do
  let (answer, machine) ← session.machine.perform operation
  pure {
    machine
    typed := session.typed ++ operation.typed
    taken := session.taken ++ answer.takenBytes
    executed := session.executed ++ operation.trail session.machine }

/-- Do operations one after the other, as long as no run goes on for ever. -/
noncomputable def performAll (session : Session τ) (operations : List (Operation τ)) :
    Option (Session τ) :=
  operations.foldlM perform session

/-- All bytes since the console was as in `start` are accounted for. -/
structure Conserves (settings : Settings) (extra : τ) (start : Console) (session : Session τ) :
    Prop where
  attached : Attached settings extra session.machine.cpu.ports
  input : start.input ++ (session.typed.map Console.translated).flatten =
    session.executed.flatMap handed ++ session.machine.cpu.console.input
  output : session.taken.flatten ++ session.machine.cpu.console.output.toList =
    start.output.toList ++ session.executed.flatMap (printed settings.echo)
  executed : ∀ cpu ∈ session.executed, Attached settings extra cpu.ports ∧ cpu.halted = false

namespace Conserves
variable {start : Console} {session next : Session τ} {machine : Machine τ}

/-- Executing instructions moves bytes from the queue to the program and prints bytes. -/
theorem run (h : Conserves settings extra start session) {n : ℕ}
    (hcpu : machine.cpu = Cpu.next^[n] session.machine.cpu) :
    Conserves settings extra start
      { session with machine, executed := session.executed ++ session.machine.cpu.trail n } where
  attached := by
    rw [hcpu]
    exact h.attached.iterate n
  input := by
    rw [h.input, input_iterate h.attached n, List.flatMap_append, List.append_assoc, hcpu]
  output := by
    rw [hcpu, output_iterate h.attached n, ← List.append_assoc, h.output, List.flatMap_append,
      List.append_assoc]
  executed cpu hmem := by
    rcases List.mem_append.1 hmem with hbefore | hnew
    · exact h.executed cpu hbefore
    · exact running_of_mem_trail h.attached hnew

/-- Nothing happens to the console. -/
theorem keep (h : Conserves settings extra start session)
    (hports : machine.cpu.ports = session.machine.cpu.ports) :
    Conserves settings extra start { session with machine } where
  attached := by
    rw [hports]
    exact h.attached
  input := by
    rw [h.input, Cpu.console, Cpu.console, hports]
  output := by
    rw [← h.output, Cpu.console, Cpu.console, hports]
  executed := h.executed

theorem push (h : Conserves settings extra start session) (bytes : List Byte) :
    Conserves settings extra start
      { session with
        machine := session.machine.push bytes
        typed := session.typed ++ [bytes] } := by
  rw [Machine.push, Machine.withConsole_eq h.attached.ports_eq]
  refine ⟨⟨session.machine.cpu.console.push bytes, h.attached.echo_eq, rfl⟩, ?_, h.output,
    h.executed⟩
  show _ = _ ++ (session.machine.cpu.console.input ++ Console.keystrokes bytes)
  rw [List.map_append, List.flatten_append, ← List.append_assoc, h.input, List.append_assoc,
    Console.keystrokes_eq_translated]
  simp

theorem take (h : Conserves settings extra start session) :
    Conserves settings extra start
      { session with
        machine := session.machine.take.2
        taken := session.taken ++ [session.machine.take.1] } := by
  rw [Machine.take, Machine.withConsole_eq h.attached.ports_eq]
  refine ⟨⟨session.machine.cpu.console.take.2, h.attached.echo_eq, rfl⟩, h.input, ?_, h.executed⟩
  rw [← h.output, List.flatten_append]
  show _ ++ [session.machine.cpu.console.output.toList].flatten ++ [] = _
  simp

theorem perform (h : Conserves settings extra start session) {operation : Operation τ}
    (hoperation : operation.bypasses = false) (hperform : session.perform operation = some next) :
    Conserves settings extra start next := by
  obtain ⟨⟨answer, machine⟩, hmachine, hnext⟩ := Option.bind_eq_some_iff.1 hperform
  have hnext := Option.some.inj hnext
  subst hnext
  cases operation with
  | push bytes =>
    cases hmachine
    simp only [Operation.typed, Answer.takenBytes, Operation.trail, List.append_nil]
    exact h.push bytes
  | take =>
    cases hmachine
    simp only [Operation.typed, Answer.takenBytes, Operation.trail, List.append_nil]
    exact h.take
  | step =>
    cases hmachine
    simp only [Operation.typed, Answer.takenBytes, Operation.trail, List.append_nil]
    exact h.run rfl
  | runSlice =>
    obtain ⟨executed, hrun, -⟩ := session.machine.exists_runSlice_eq
    rw [Machine.perform, hrun] at hmachine
    cases hmachine
    simp only [Operation.typed, Answer.takenBytes, Operation.trail, List.append_nil, hrun]
    exact h.run rfl
  | run =>
    obtain ⟨⟨outcome, last⟩, hrun, hmachine⟩ := Option.map_eq_some_iff.1 hmachine
    cases hmachine
    obtain ⟨n, hlength, -, rfl⟩ := Machine.run_eq_some hrun
    simp only [Operation.typed, Answer.takenBytes, Operation.trail, List.append_nil, hlength]
    exact h.run rfl
  | loadBios files path =>
    cases hmachine
    simp only [Operation.typed, Answer.takenBytes, Operation.trail, List.append_nil]
    exact h.keep (Machine.kept_of_loadBios rfl).ports
  | installBios image =>
    cases hmachine
    simp only [Operation.typed, Answer.takenBytes, Operation.trail, List.append_nil]
    exact h.keep rfl
  | loadProgram files path address =>
    cases hmachine
    simp only [Operation.typed, Answer.takenBytes, Operation.trail, List.append_nil]
    exact h.keep (Machine.kept_of_loadProgram rfl).ports
  | reset => cases hoperation
  | change change => cases hoperation

theorem performAll (h : Conserves settings extra start session) {operations : List (Operation τ)}
    (hoperations : ∀ operation ∈ operations, operation.bypasses = false)
    (hperform : session.performAll operations = some next) :
    Conserves settings extra start next := by
  induction operations generalizing session with
  | nil =>
    cases hperform
    exact h
  | cons operation rest ih =>
    obtain ⟨middle, hfirst, hrest⟩ := Option.bind_eq_some_iff.1 hperform
    have hmiddle := h.perform (hoperations operation List.mem_cons_self) hfirst
    exact ih hmiddle (fun o ho => hoperations o (List.mem_cons_of_mem _ ho)) hrest

end Conserves
end Session

/-! ## Conservation -/

/-- The console of a new machine loses, adds and reorders no byte. All bytes that were typed, in
their translation, went to the program or still wait, in order. All bytes that were taken or wait to
be taken were printed by the program or, with an echo, handed to it, in order. Ports that are not
the console's have no part in this. -/
theorem console_conserves_bytes {files : FileReader} {machine : Machine τ}
    (hnew : Machine.new files settings extra = .ok machine) {operations : List (Operation τ)}
    (hoperations : ∀ operation ∈ operations, operation.bypasses = false) {session : Session τ}
    (hperform : Session.performAll { machine } operations = some session) :
    machine.cpu.console.input ++ (session.typed.map Console.translated).flatten =
        session.executed.flatMap handed ++ session.machine.cpu.console.input ∧
      session.taken.flatten ++ session.machine.cpu.console.output.toList =
        session.executed.flatMap (printed settings.echo) ∧
      ∀ cpu ∈ session.executed,
        (cpu.instruction = .input Console.inputPort → cpu.console.input = [] →
          cpu.next.registers.a = 0 ∧ cpu.next.console = cpu.console) ∧
        (∀ port ≠ Console.inputPort, cpu.instruction = .input port →
          cpu.next.registers.a = 0xFF ∧ cpu.next.console = cpu.console) ∧
        ∀ port ≠ Console.outputPort, cpu.instruction = .output port →
          cpu.next.console = cpu.console := by
  have hports := Machine.ports_of_new hnew
  have hstart : Session.Conserves settings extra machine.cpu.console { machine } := by
    refine ⟨⟨_, rfl, hports⟩, ?_, ?_, ?_⟩
    · simp
    · simp
    · intro cpu hmem
      exact absurd hmem List.not_mem_nil
  have hend := hstart.performAll hoperations hperform
  refine ⟨hend.input, ?_, ?_⟩
  · have hempty : machine.cpu.console.output = #[] := by
      rw [Cpu.console, hports]
      rfl
    rw [hend.output, hempty, List.nil_append]
  · intro cpu hmem
    obtain ⟨hattached, hrunning⟩ := hend.executed cpu hmem
    refine ⟨?_, ?_, ?_⟩
    · intro hi hempty
      have hstep := console_of_input hattached hrunning hi
      rw [read_of_nil hempty] at hstep
      exact hstep
    · intro port hport hi
      have hstep := console_of_input hattached hrunning hi
      rw [read_of_ne hport] at hstep
      exact hstep
    · intro port hport hi
      rw [console_of_output hattached hrunning hi, write_of_ne hport]

/-- With an echo, `IN 0` prints a typed byte before `OUT 1` prints it again. The line end and the
delete that are typed after it wait as a carriage return and a backspace. -/
theorem console_conserves_bytes_echo :
    let operations : List (Operation Unit) :=
      [.installBios [0xDB, 0x00, 0xD3, 0x01], .push [0x6F, 0x0D, 0x0A], .push [0x7F], .step, .take,
        .step]
    ∃ session : Session Unit,
      Session.performAll { machine := Machine.fresh { echo := true } () } operations =
          some session ∧
        [0x6F, 0x0D, 0x08] =
          session.executed.flatMap handed ++ session.machine.cpu.console.input ∧
        session.taken.flatten ++ session.machine.cpu.console.output.toList =
          session.executed.flatMap (printed true) := by
  intro operations
  have hnew : Machine.new (fun _ => .ok []) { echo := true } () =
      .ok (Machine.fresh { echo := true } ()) := rfl
  obtain ⟨session, hperform⟩ : ∃ session,
      Session.performAll { machine := Machine.fresh { echo := true } () } operations =
        some session := ⟨_, rfl⟩
  have hoperations : ∀ operation ∈ operations, operation.bypasses = false := by
    decide
  obtain ⟨hinput, houtput, -⟩ := console_conserves_bytes hnew hoperations hperform
  have htyped : session.typed = [[0x6F, 0x0D, 0x0A], [0x7F]] := by
    cases hperform
    rfl
  have hkeys : ([[0x6F, 0x0D, 0x0A], [0x7F]].map Console.translated).flatten =
      [0x6F, 0x0D, 0x08] := by
    decide
  rw [htyped, hkeys] at hinput
  exact ⟨session, hperform, hinput, houtput⟩

end Monitor
end Banked8085
