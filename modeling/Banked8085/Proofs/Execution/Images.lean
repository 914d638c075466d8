import Banked8085.Cpu.Basic
import Banked8085.Proofs.Results

/-! # Images in memory

`Memory.Overwritten` says that a block of bytes was put into a bank and that no other cell of any
bank has changed, `Cpu.Placed` that besides only the program counter and the active bank may have.
`readImage_eq_ok` and `readImage_eq_error` say when a file is an image; `loadFile_of_ok` and
`loadFile_of_error` say what an attempt to load one returns and what the processor is afterwards.
-/

namespace Banked8085
set_option autoImplicit false

/-! ## Blocks of bytes -/

/-- The bytes that fit between `start` and the end of the bank stand there, in the bank that is
named, and every other cell is as before. -/
structure Memory.Overwritten (before after : Memory) (bank : Bank) (start : Word)
    (data : List Byte) : Prop where
  written : ∀ k (h : k < data.length), start.toNat + k < 65536 →
    after.peek bank (start + UInt16.ofNat k) = data[k]
  kept : ∀ b a,
    ¬(b = bank ∧ start.toNat ≤ a.toNat ∧ a.toNat < start.toNat + data.length) →
      after.peek b a = before.peek b a

theorem Memory.overwritten_load (m : Memory) (data : List Byte) (start : Word) :
    m.Overwritten (m.load data start).2 m.active start data where
  written k h hfits := by
    have haddress : (start + UInt16.ofNat k).toNat = start.toNat + k := by
      rw [UInt16.toNat_add, UInt16.toNat_ofNat']
      omega
    rw [peek_load, haddress, if_pos ⟨rfl, Nat.le_add_right _ _⟩, Nat.add_sub_cancel_left,
      List.getElem?_eq_getElem h, Option.getD_some]
  kept b a houtside := by
    rw [peek_load]
    by_cases hreach : m.active = b ∧ start.toNat ≤ a.toNat
    · have hlength : data.length ≤ a.toNat - start.toNat := by
        have hend : ¬a.toNat < start.toNat + data.length :=
          fun hlt => houtside ⟨hreach.1.symm, hreach.2, hlt⟩
        omega
      rw [if_pos hreach, List.getElem?_eq_none hlength, Option.getD_none]
    · rw [if_neg hreach]

/-! ## Image files -/

section Files
variable {files : FileReader} {kind : ImageKind} {path : String}

/-- A file is an image if it can be read and is not empty. -/
theorem readImage_eq_ok {image : List Byte} :
    readImage files kind path = .ok image ↔ files path = .ok image ∧ image ≠ [] := by
  unfold readImage
  split
  case h_1 cause hread => simp [hread]
  case h_2 hread =>
    rw [hread]
    constructor
    · intro h
      cases h
    · rintro ⟨h, hne⟩
      exact absurd (Except.ok.inj h).symm hne
  case h_3 content hne hread =>
    rw [hread]
    constructor
    · intro h
      cases h
      exact ⟨rfl, hne⟩
    · rintro ⟨h, -⟩
      exact congrArg Except.ok (Except.ok.inj h)

/-- Why the file at a path is no image: it cannot be read, or it is empty. -/
def ImageError.Explains (files : FileReader) (kind : ImageKind) (path : String)
    (cause : ImageError) : Prop :=
  (∃ reason, files path = .error reason ∧ cause = .unreadable kind path reason) ∨
    (files path = .ok [] ∧ cause = .empty kind path)

theorem readImage_eq_error {cause : ImageError} :
    readImage files kind path = .error cause ↔ cause.Explains files kind path := by
  unfold readImage ImageError.Explains
  split
  case h_1 reason hread => simp [hread, eq_comm]
  case h_2 hread => simp [hread, eq_comm]
  case h_3 content hne hread =>
    have hcontent : content ≠ [] := hne
    simp [hread, hcontent]

end Files

/-! ## The processor -/

namespace Cpu
variable {σ : Type} {cpu : Cpu σ}

/-- An image was put into the bank that is active now. Besides memory, only the program counter may
have changed. -/
structure Placed (before after : Cpu σ) (image : List Byte) (start : Word) : Prop where
  memory : before.memory.Overwritten after.memory after.memory.active start image
  others : after =
    { before with
      memory := after.memory
      registers := { before.registers with pc := after.registers.pc } }

theorem placed_load (cpu : Cpu σ) (image : List Byte) (start : Word) :
    cpu.Placed (cpu.load image start).2 image start where
  memory := by
    have h := cpu.memory.overwritten_load image start
    rw [← Memory.active_load cpu.memory image start] at h
    exact h
  others := rfl

theorem Placed.jump {next : Cpu σ} {image : List Byte} {start : Word}
    (h : cpu.Placed next image start) (target : Word) :
    cpu.Placed (next.jump target) image start where
  memory := h.memory
  others := by
    rw [h.others]
    rfl

section Loading
variable {files : FileReader} {path : String} {start : Word}

theorem loadFile_of_error {cause : ImageError} (h : readImage files .program path = .error cause) :
    cpu.loadFile files path start = (.error cause, cpu) := by
  rw [loadFile, h]

theorem loadFile_of_ok {image : List Byte} (h : readImage files .program path = .ok image) :
    cpu.loadFile files path start =
      (.ok (min image.length (65536 - start.toNat)), (cpu.load image start).2) := by
  rw [loadFile, h]
  rfl

theorem loadFile_eq_error {cause : ImageError} {next : Cpu σ} :
    cpu.loadFile files path start = (.error cause, next) ↔
      readImage files .program path = .error cause ∧ next = cpu := by
  cases hread : readImage files .program path with
  | error reason => simp [loadFile_of_error hread, eq_comm]
  | ok image => simp [loadFile_of_ok hread]

end Loading

end Cpu
end Banked8085
