import Mathlib.Data.List.DropRight
import Mathlib.Data.List.Induction
import Banked8085.Proofs.Execution.Stores

/-! # The last write wins

`Memory.Command` collects all that changes a memory. `currentBank` and `lastWritten?` read off a list
of commands alone which bank was selected last and what was written last to a cell. One more command
changes the memory just as it changes these (`active_perform`, `readBank_perform`), so after any
commands the memory holds what was written last (`readBank_eq_lastWritten`).
-/

namespace Banked8085.Memory
set_option autoImplicit false

/-! ## Commands -/

/-- What can be done to a memory. -/
inductive Command
  | write (address : Word) (value : Byte)
  | writeBank (number : Nat) (address : Word) (value : Byte)
  | load (data : List Byte) (start : Word)
  | select (number : Nat)
  | clear
deriving DecidableEq

def perform (m : Memory) : Command → Memory
  | .write address value => m.write address value
  | .writeBank number address value => m.writeBank number address value
  | .load data start => (m.load data start).2
  | .select number => m.select number
  | .clear => blank

/-- The memory after power-on and these commands. -/
def performAll (commands : List Command) : Memory := commands.foldl perform blank

/-! ## What the commands say -/

namespace Command

/-- The bank that a command selects. -/
def selected? : Command → Option Nat
  | .select number => if number < 8 then some number else none
  | _ => none

/-- The value that a command writes to a cell of bank `number`, given the current bank. -/
def written? (current number : Nat) (address : Word) : Command → Option Byte
  | .write a value => if number = current ∧ address = a then some value else none
  | .writeBank n a value => if number = n ∧ address = a then some value else none
  | .load data start =>
    if number = current ∧ start.toNat ≤ address.toNat then data[address.toNat - start.toNat]?
    else none
  | .select _ | .clear => none

end Command

/-- The commands after the last wipe. -/
def sinceClear (commands : List Command) : List Command := commands.rtakeWhile (· ≠ .clear)

/-- The bank selected last, or else the bank `first`. -/
def lastSelected (first : Nat) (commands : List Command) : Nat :=
  (commands.filterMap Command.selected?).getLast?.getD first

/-- The bank selected last since the last wipe, which selects bank zero. -/
def currentBank (commands : List Command) : Nat := lastSelected 0 (sinceClear commands)

/-- Each command with the bank that is current when it is given. -/
def located (current : Nat) : List Command → List (Nat × Command)
  | [] => []
  | c :: rest => (current, c) :: located (c.selected?.getD current) rest

/-- What was written last to a cell since the last wipe. -/
def lastWritten? (commands : List Command) (number : Nat) (address : Word) : Option Byte :=
  ((located 0 (sinceClear commands)).filterMap fun p => p.2.written? p.1 number address).getLast?

/-! ## One more command -/

theorem sinceClear_concat_clear (commands : List Command) :
    sinceClear (commands ++ [.clear]) = [] :=
  List.rtakeWhile_concat_neg _ _ _ (by simp)

theorem sinceClear_concat {c : Command} (h : c ≠ .clear) (commands : List Command) :
    sinceClear (commands ++ [c]) = sinceClear commands ++ [c] :=
  List.rtakeWhile_concat_pos _ _ _ (by simpa using h)

theorem lastSelected_cons (first : Nat) (c : Command) (commands : List Command) :
    lastSelected first (c :: commands) = lastSelected (c.selected?.getD first) commands := by
  unfold lastSelected
  cases hc : c.selected? with
  | none => rw [List.filterMap_cons_none hc, Option.getD_none]
  | some number => rw [List.filterMap_cons_some hc, List.getLast?_cons, Option.getD_some,
      Option.getD_some]

theorem lastSelected_concat (first : Nat) (c : Command) (commands : List Command) :
    lastSelected first (commands ++ [c]) = c.selected?.getD (lastSelected first commands) := by
  induction commands generalizing first with
  | nil => exact lastSelected_cons first c []
  | cons d commands ih => rw [List.cons_append, lastSelected_cons, lastSelected_cons, ih]

theorem located_concat (first : Nat) (c : Command) (commands : List Command) :
    located first (commands ++ [c]) =
      located first commands ++ [(lastSelected first commands, c)] := by
  induction commands generalizing first with
  | nil => rfl
  | cons d commands ih => rw [List.cons_append, located, located, ih, lastSelected_cons,
      List.cons_append]

theorem currentBank_concat {c : Command} (h : c ≠ .clear) (commands : List Command) :
    currentBank (commands ++ [c]) = c.selected?.getD (currentBank commands) := by
  rw [currentBank, sinceClear_concat h, lastSelected_concat]
  rfl

theorem lastWritten?_concat {c : Command} (h : c ≠ .clear) (commands : List Command)
    (number : Nat) (address : Word) :
    lastWritten? (commands ++ [c]) number address =
      (c.written? (currentBank commands) number address).or
        (lastWritten? commands number address) := by
  rw [lastWritten?, sinceClear_concat h, located_concat, List.filterMap_append,
    List.getLast?_append]
  congr 1
  show ([(currentBank commands, c)].filterMap _).getLast? = _
  cases hc : c.written? (currentBank commands) number address with
  | none => simp only [List.filterMap_cons, hc, List.filterMap_nil, List.getLast?_nil]
  | some value => simp only [List.filterMap_cons, hc, List.filterMap_nil, List.getLast?_singleton]

/-! ## One more step of the memory -/

variable (m : Memory)

theorem readBank_of_lt {number : Nat} (h : number < 8) (address : Word) :
    m.readBank number address = m.peek ⟨number, h⟩ address := dif_pos h

theorem active_perform {c : Command} (h : c ≠ .clear) :
    (m.perform c).active.val = c.selected?.getD m.active.val := by
  cases c with
  | clear => exact absurd rfl h
  | write address value => rfl
  | writeBank number address value => rw [perform, active_writeBank]; rfl
  | load data start => rw [perform, active_load]; rfl
  | select number =>
    rw [perform, select, Command.selected?]
    split <;> rfl

theorem readBank_perform {c : Command} (h : c ≠ .clear) {number : Nat} (hnumber : number < 8)
    (address : Word) :
    (m.perform c).readBank number address =
      (c.written? m.active.val number address).getD (m.readBank number address) := by
  have hactive : m.active = ⟨number, hnumber⟩ ↔ number = m.active.val := by
    rw [Fin.ext_iff, eq_comm]
  rw [readBank_of_lt _ hnumber, readBank_of_lt _ hnumber]
  cases c with
  | clear => exact absurd rfl h
  | select n =>
    rw [perform, peek_select]
    rfl
  | write a value =>
    simp only [perform, peek_write, Command.written?, hactive, @eq_comm _ a]
    split <;> rfl
  | load data start =>
    simp only [perform, peek_load, Command.written?, hactive]
    split <;> rfl
  | writeBank n a value =>
    rw [perform, writeBank]
    split
    case isTrue hn =>
      simp only [peek_poke, Command.written?, Fin.mk.injEq, @eq_comm _ n, @eq_comm _ a]
      split <;> rfl
    case isFalse hn =>
      have hne : ¬(number = n ∧ address = a) := fun hcell => hn (hcell.1 ▸ hnumber)
      rw [Command.written?, if_neg hne, Option.getD_none]

/-! ## Whole histories -/

theorem performAll_concat (commands : List Command) (c : Command) :
    performAll (commands ++ [c]) = (performAll commands).perform c := List.foldl_concat ..

theorem active_eq_currentBank (commands : List Command) :
    (performAll commands).active.val = currentBank commands := by
  induction commands using List.reverseRecOn with
  | nil => rfl
  | append_singleton commands c ih =>
    rw [performAll_concat]
    by_cases hclear : c = .clear
    · subst hclear
      rw [currentBank, sinceClear_concat_clear]
      rfl
    · rw [active_perform _ hclear, currentBank_concat hclear, ih]

theorem readBank_eq_lastWritten (commands : List Command) {number : Nat} (hnumber : number < 8)
    (address : Word) :
    (performAll commands).readBank number address =
      (lastWritten? commands number address).getD 0 := by
  induction commands using List.reverseRecOn with
  | nil => rw [readBank_of_lt _ hnumber]; exact peek_blank _ _
  | append_singleton commands c ih =>
    rw [performAll_concat]
    by_cases hclear : c = .clear
    · subst hclear
      rw [lastWritten?, sinceClear_concat_clear, readBank_of_lt _ hnumber]
      exact peek_blank _ _
    · rw [readBank_perform _ hclear hnumber, lastWritten?_concat hclear, active_eq_currentBank, ih]
      cases c.written? (currentBank commands) number address <;> rfl

/-! ## Blocks -/

theorem readBank_load_of_fits {data : List Byte} {start : Word} {i : Nat} (hi : i < data.length)
    (hfits : start.toNat + i < 65536) :
    (m.load data start).2.readBank m.active.val (UInt16.ofNat (start.toNat + i)) = data[i] := by
  have hnat : (UInt16.ofNat (start.toNat + i)).toNat = start.toNat + i := by
    rw [UInt16.toNat_ofNat']
    omega
  have hwritten : (Command.load data start).written? m.active.val m.active.val
      (UInt16.ofNat (start.toNat + i)) = some data[i] := by
    rw [Command.written?, hnat, if_pos ⟨rfl, Nat.le_add_right _ _⟩, Nat.add_sub_cancel_left,
      List.getElem?_eq_getElem hi]
  have hload := m.readBank_perform (c := .load data start) nofun m.active.isLt
    (UInt16.ofNat (start.toNat + i))
  rw [hwritten, Option.getD_some] at hload
  exact hload

/-- A block changes only cells that it reaches without going past the end of the bank. -/
theorem reached_of_readBank_load {data : List Byte} {start : Word} {number : Nat} {address : Word}
    (h : (m.load data start).2.readBank number address ≠ m.readBank number address) :
    number = m.active.val ∧ start.toNat ≤ address.toNat ∧
      address.toNat < start.toNat + (m.load data start).1 := by
  by_cases hnumber : number < 8
  · have hload := m.readBank_perform (c := .load data start) nofun hnumber address
    rw [perform] at hload
    rw [hload, Command.written?] at h
    split at h
    case isTrue hreached =>
      obtain ⟨hbank, hstart⟩ := hreached
      refine ⟨hbank, hstart, ?_⟩
      by_cases hlength : address.toNat - start.toNat < data.length
      · have haddress := address.toNat_lt
        have hcount : (m.load data start).1 = min data.length (65536 - start.toNat) := rfl
        omega
      · rw [List.getElem?_eq_none (Nat.le_of_not_lt hlength)] at h
        exact absurd rfl h
    case isFalse => exact absurd rfl h
  · have habsent : ∀ other : Memory, other.readBank number address = 0 := fun _ => dif_neg hnumber
    rw [habsent, habsent] at h
    exact absurd rfl h

/-- After any commands, a cell holds what was written to it last since the last wipe, and zero if
nothing was. Reading without a bank number reads the bank selected last. A block is written from its
start on up to the end of the bank, and its count says how far. A number that no bank has reads zero
and changes nothing. -/
theorem memory_holds_last_write (commands : List Command) :
    let m := performAll commands
    m.active.val = currentBank commands ∧
      (∀ number < 8, ∀ address,
        m.readBank number address = (lastWritten? commands number address).getD 0) ∧
      (∀ address, m.read address = m.readBank (currentBank commands) address) ∧
      (∀ data start,
        let count := (m.load data start).1
        let loaded := m.perform (.load data start)
        count = min data.length (65536 - start.toNat) ∧
          (∀ i < count, some (loaded.readBank (currentBank commands)
            (UInt16.ofNat (start.toNat + i))) = data[i]?) ∧
          ∀ number address, loaded.readBank number address ≠ m.readBank number address →
            number = currentBank commands ∧ start.toNat ≤ address.toNat ∧
              address.toNat < start.toNat + count) ∧
      ∀ number, 8 ≤ number → ∀ address value,
        m.readBank number address = 0 ∧ m.perform (.writeBank number address value) = m ∧
          m.perform (.select number) = m := by
  intro m
  have hactive : m.active.val = currentBank commands := active_eq_currentBank commands
  refine ⟨hactive, ?_, ?_, ?_, m.hasBanks.absent⟩
  · intro number hnumber address
    exact readBank_eq_lastWritten commands hnumber address
  · intro address
    rw [← hactive, readBank_of_lt m m.active.isLt]
    rfl
  · intro data start count loaded
    rw [← hactive]
    refine ⟨rfl, ?_, ?_⟩
    · intro i hi
      have hcount : i < min data.length (65536 - start.toNat) := hi
      have hlength : i < data.length := by omega
      have hfits : start.toNat + i < 65536 := by omega
      rw [List.getElem?_eq_getElem hlength]
      exact congrArg some (m.readBank_load_of_fits hlength hfits)
    · intro number address hne
      exact m.reached_of_readBank_load hne

/-- Four bytes at the end of bank three, of which two fit, and a wipe before them. -/
theorem memory_holds_last_write_top :
    let commands : List Command :=
      [.writeBank 5 0x0001 0x77, .clear, .select 3, .select 9, .writeBank 3 0xFFFF 0x11,
        .load [1, 2, 3, 4] 0xFFFE]
    let m := performAll commands
    m.readBank 3 0xFFFF = 2 ∧ m.readBank 5 0x0001 = 0 ∧ m.read 0x0000 = 0 ∧
      m.readBank 9 0xFFFF = 0 := by
  intro commands m
  obtain ⟨-, hbanks, hread, -, habsent⟩ := memory_holds_last_write commands
  have htop := hbanks 3 (by decide) 0xFFFF
  have hwiped := hbanks 5 (by decide) 0x0001
  have hbottom := hread 0x0000
  rw [hbanks _ (by decide)] at hbottom
  exact ⟨htop, hwiped, hbottom, (habsent 9 (by decide) 0xFFFF 0).1⟩

end Banked8085.Memory
