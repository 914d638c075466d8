import Banked8085.Proofs.Monitor.Operations

/-! # Reset

A reset leads to the machine after power-on with the last image installed, whatever was done before
(`reset_forgets_all_but_image`).
-/

namespace Banked8085.Monitor.Machine
set_option autoImplicit false

variable {τ : Type} {settings : Settings} {extra : τ} {start machine : Machine τ}

/-- A reset forgets everything but the image that was installed last: it gives the machine that has
loaded no files and then got this image, with the console at the ports. Operations that follow
cannot tell the two apart, and another reset changes nothing. -/
theorem reset_forgets_all_but_image {files : FileReader}
    (hnew : Machine.new files settings extra = .ok start) {operations : List (Operation τ)}
    {answers : List Answer} (hperform : start.performAll operations = some (answers, machine)) :
    let image := lastImage (startImage files settings) operations
    machine.reset = (fresh settings extra).restore image ∧
      machine.reset.cpu.ports = consolePorts { echo := settings.echo } extra ∧
      machine.reset.bios = image ∧ machine.reset.totalSteps = 0 ∧
      machine.reset.reset = machine.reset ∧
      ∀ later, machine.reset.performAll later =
        ((fresh settings extra).restore image).performAll later := by
  intro image
  have hreset : machine.reset = (fresh settings extra).restore image :=
    ((wired_of_new hnew).performAll hperform).reset_eq
  have hwired : Wired settings extra image machine.reset := by
    rw [hreset]
    exact wired_restore settings extra image
  refine ⟨hreset, ?_, hwired.bios, totalSteps_reset machine, ?_, ?_⟩
  · rw [hreset]
    cases image <;> rfl
  · rw [hwired.reset_eq, hreset]
  · intro later
    rw [hreset]

/-- Bytes were typed and printed, another bank was chosen, and loading a second image has failed. -/
theorem reset_forgets_all_but_image_switched :
    let operations : List (Operation Unit) :=
      [.installBios [0x3E, 0x03, 0xD3, 0x01, 0xD3, 0xFE], .push [0x41], .step, .step, .step,
        .loadBios (fun _ => .error .notFound) "b.bin"]
    ∃ answers machine, (fresh {} ()).performAll operations = some (answers, machine) ∧
      machine.reset = ((fresh {} ()).installBios [0x3E, 0x03, 0xD3, 0x01, 0xD3, 0xFE]).2 := by
  intro operations
  have hnew : Machine.new (fun _ => .ok []) {} () = .ok (fresh {} ()) := rfl
  obtain ⟨result, hperform⟩ : ∃ result, (fresh {} ()).performAll operations = some result :=
    ⟨_, rfl⟩
  exact ⟨result.1, result.2, hperform, (reset_forgets_all_but_image hnew hperform).1⟩

end Banked8085.Monitor.Machine
