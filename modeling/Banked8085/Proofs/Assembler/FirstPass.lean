import Banked8085.Assembler.Assembly
import Banked8085.Proofs.Assembler.Size
import Banked8085.Proofs.Assembler.Symbols

/-! # The first pass

What one line does to the layout (`next_eq_ok`, with `seek_cases`, `of_mark` and `skip_cases` for its
three parts), and what a whole pass therefore keeps: names keep their values (`extends_of_pass`), and
the counter does not leave the address space (`counter_le_of_pass`).
-/

namespace Banked8085.Assembler
set_option autoImplicit false

theorem blame_eq_ok {α : Type} {line : Line} {result : Except Fault α} {a : α} :
    line.blame result = .ok a ↔ result = .ok a := by
  cases result with
  | error fault => simp [Line.blame]
  | ok b => simp [Line.blame]

theorem evaluate_eq_ok {symbols : SymbolTable} {value : Value} {n : Nat} :
    symbols.evaluate value = .ok n ↔ symbols.resolve value = .ok n := by
  unfold SymbolTable.evaluate
  cases symbols.resolve value with
  | error cause => simp
  | ok m => simp

theorem address_eq_ok {symbols : SymbolTable} {value : Value} {counter : UInt32} :
    symbols.address value = .ok counter ↔
      symbols.resolve value = .ok counter.toNat ∧ counter.toNat < 65536 := by
  unfold SymbolTable.address
  rw [bind_eq_ok]
  constructor
  · intro h
    obtain ⟨n, hn, h⟩ := h
    by_cases hlt : n < 65536
    · rw [if_pos hlt, pure_eq_ok] at h
      have hcounter : counter.toNat = n := by
        rw [← h, UInt32.toNat_ofNat']
        omega
      rw [hcounter]
      exact ⟨evaluate_eq_ok.1 hn, hlt⟩
    · rw [if_neg hlt] at h
      cases h
  · intro h
    obtain ⟨hn, hlt⟩ := h
    refine ⟨counter.toNat, evaluate_eq_ok.2 hn, ?_⟩
    rw [if_pos hlt, UInt32.ofNat_toNat]
    rfl

namespace Layout
variable {layout later : Layout}

/-! ## The parts of a step -/

theorem next_eq_ok {line : Line} :
    layout.next line = .ok later ↔
      ∃ sought marked, layout.seek line.statement = .ok sought ∧
        sought.mark line.label = .ok marked ∧ marked.skip line.statement = .ok later := by
  unfold next
  rw [blame_eq_ok, bind_eq_ok]
  constructor
  · intro h
    obtain ⟨sought, hseek, h⟩ := h
    obtain ⟨marked, hmark, hskip⟩ := bind_eq_ok.1 h
    exact ⟨sought, marked, hseek, hmark, hskip⟩
  · intro h
    obtain ⟨sought, marked, hseek, hmark, hskip⟩ := h
    exact ⟨sought, hseek, bind_eq_ok.2 ⟨marked, hmark, hskip⟩⟩

theorem define_eq_ok {name : List Char} {value : Nat} :
    layout.define name value = .ok later ↔
      ∃ symbols, layout.symbols.define name value = .ok symbols ∧
        later = { layout with symbols } := by
  unfold define
  cases layout.symbols.define name value with
  | error cause => simp
  | ok symbols => simp [eq_comm]

theorem seek_origin {value : Value} :
    layout.seek (some (.origin value)) = .ok later ↔
      ∃ counter, layout.symbols.address value = .ok counter ∧
        later = { layout with counter } := by
  simp only [seek, bind_eq_ok, pure_eq_ok, @eq_comm _ later]

theorem seek_other {statement : Option Statement} (h : ∀ value, statement ≠ some (.origin value)) :
    layout.seek statement = .ok layout := by
  cases statement with
  | none => rfl
  | some s =>
    cases s with
    | origin value => exact absurd rfl (h value)
    | _ => rfl

theorem seek_cases {statement : Option Statement} (h : layout.seek statement = .ok later) :
    (∃ value counter, statement = some (.origin value) ∧
      layout.symbols.address value = .ok counter ∧ later = { layout with counter }) ∨
      (∀ value, statement ≠ some (.origin value)) ∧ later = layout := by
  by_cases ho : ∃ value, statement = some (.origin value)
  · obtain ⟨value, rfl⟩ := ho
    obtain ⟨counter, haddress, rfl⟩ := seek_origin.1 h
    exact .inl ⟨value, counter, rfl, haddress, rfl⟩
  · have hother : ∀ value, statement ≠ some (.origin value) := fun value hv => ho ⟨value, hv⟩
    rw [seek_other hother] at h
    exact .inr ⟨hother, (Except.ok.inj h).symm⟩

theorem symbols_of_seek {statement : Option Statement} (h : layout.seek statement = .ok later) :
    later.symbols = layout.symbols := by
  rcases seek_cases h with ⟨value, counter, -, -, rfl⟩ | ⟨-, rfl⟩
  · rfl
  · rfl

theorem mark_some {label : List Char} (h : layout.mark (some label) = .ok later) :
    later.counter = layout.counter ∧ later.symbols.Extends layout.symbols ∧
      later.symbols.entries[label]? = some layout.counter.toNat := by
  obtain ⟨symbols, hdefine, rfl⟩ := define_eq_ok.1 h
  exact ⟨rfl, SymbolTable.extends_of_define hdefine, SymbolTable.getElem?_of_define hdefine⟩

theorem of_mark {label : Option (List Char)} (h : layout.mark label = .ok later) :
    later.counter = layout.counter ∧ later.symbols.Extends layout.symbols := by
  cases label with
  | none =>
    cases h
    exact ⟨rfl, .refl _⟩
  | some label =>
    obtain ⟨hcounter, hextends, -⟩ := mark_some h
    exact ⟨hcounter, hextends⟩

theorem skip_other {statement : Statement}
    (hc : ∀ name value, statement ≠ .constant name value) :
    layout.skip (some statement) = (do
      let size ← statement.size
      if 65536 < layout.counter + size then throw .overrun
      pure { layout with counter := layout.counter + size }) := by
  cases statement with
  | constant name value => exact absurd rfl (hc name value)
  | _ => rfl

theorem skip_cases {statement : Statement} (h : layout.skip (some statement) = .ok later) :
    (∃ name value n symbols, statement = .constant name value ∧
      layout.symbols.define name n = .ok symbols ∧ later = { layout with symbols }) ∨
      ∃ size, statement.size = .ok size ∧ layout.counter + size ≤ 65536 ∧
        later = { layout with counter := layout.counter + size } := by
  by_cases hc : ∃ name value, statement = .constant name value
  · obtain ⟨name, value, rfl⟩ := hc
    obtain ⟨n, -, hdefine⟩ := bind_eq_ok.1 h
    obtain ⟨symbols, hsymbols, rfl⟩ := define_eq_ok.1 hdefine
    exact .inl ⟨name, value, n, symbols, rfl, hsymbols, rfl⟩
  · rw [skip_other fun name value hv => hc ⟨name, value, hv⟩] at h
    obtain ⟨size, hsize, h⟩ := bind_eq_ok.1 h
    by_cases hlt : 65536 < layout.counter + size
    · rw [if_pos hlt] at h
      cases h
    · rw [if_neg hlt] at h
      cases h
      exact .inr ⟨size, hsize, UInt32.not_lt.1 hlt, rfl⟩

/-- Behind a statement the counter has moved past its bytes; a constant has none. -/
theorem skip_some {statement : Statement} (h : layout.skip (some statement) = .ok later) :
    (∃ size, statement.size = .ok size ∧ later.counter = layout.counter + size) ∧
      later.symbols.Extends layout.symbols := by
  rcases skip_cases h with ⟨name, value, n, symbols, rfl, hdefine, rfl⟩ | ⟨size, hsize, -, rfl⟩
  · exact ⟨⟨0, rfl, (UInt32.add_zero _).symm⟩, SymbolTable.extends_of_define hdefine⟩
  · exact ⟨⟨size, hsize, rfl⟩, .refl _⟩

theorem extends_of_skip {statement : Option Statement} (h : layout.skip statement = .ok later) :
    later.symbols.Extends layout.symbols := by
  cases statement with
  | none =>
    cases h
    exact .refl _
  | some s => exact (skip_some h).2

/-! ## A step and a pass -/

theorem extends_of_next {line : Line} (h : layout.next line = .ok later) :
    later.symbols.Extends layout.symbols := by
  obtain ⟨sought, marked, hseek, hmark, hskip⟩ := next_eq_ok.1 h
  have hsought := symbols_of_seek hseek
  have hmarked := (of_mark hmark).2
  rw [hsought] at hmarked
  exact (extends_of_skip hskip).trans hmarked

/-- A label is bound to the counter at its line. -/
theorem label_of_next {line : Line} {sought : Layout} {label : List Char}
    (h : layout.next line = .ok later) (hseek : layout.seek line.statement = .ok sought)
    (hlabel : line.label = some label) :
    later.symbols.entries[label]? = some sought.counter.toNat := by
  obtain ⟨sought', marked, hseek', hmark, hskip⟩ := next_eq_ok.1 h
  obtain rfl : sought' = sought := Except.ok.inj (hseek'.symm.trans hseek)
  rw [hlabel] at hmark
  obtain ⟨-, -, hentry⟩ := mark_some hmark
  exact extends_of_skip hskip label _ hentry

theorem extends_of_pass {lines : List Line} (h : lines.foldlM next layout = .ok later) :
    later.symbols.Extends layout.symbols :=
  foldlM_induction (motive := fun l => l.symbols.Extends layout.symbols)
    (fun _ _ _ hstep hkept => (extends_of_next hstep).trans hkept) h (.refl _)

/-- From its label on, a line moves the counter by its extent. -/
theorem counter_of_next {line : Line} {sought : Layout} (h : layout.next line = .ok later)
    (hseek : layout.seek line.statement = .ok sought) :
    later.counter = sought.counter + UInt32.ofNat line.extent := by
  obtain ⟨sought', marked, hseek', hmark, hskip⟩ := next_eq_ok.1 h
  obtain rfl : sought' = sought := Except.ok.inj (hseek'.symm.trans hseek)
  rw [← (of_mark hmark).1]
  cases hs : line.statement with
  | none =>
    rw [hs] at hskip
    cases hskip
    rw [Line.extent, hs]
    exact (UInt32.add_zero _).symm
  | some statement =>
    rw [hs] at hskip
    obtain ⟨⟨size, hsize, hcounter⟩, -⟩ := skip_some hskip
    rw [hcounter, size_eq_ofNat hsize, Line.extent_some hs]

/-! ## The bound of the counter -/

theorem counter_le_of_seek {statement : Option Statement} (hle : layout.counter.toNat ≤ 65536)
    (h : layout.seek statement = .ok later) : later.counter.toNat ≤ 65536 := by
  rcases seek_cases h with ⟨value, counter, -, haddress, rfl⟩ | ⟨-, rfl⟩
  · exact Nat.le_of_lt (address_eq_ok.1 haddress).2
  · exact hle

theorem counter_le_of_skip {statement : Option Statement} (hle : layout.counter.toNat ≤ 65536)
    (h : layout.skip statement = .ok later) : later.counter.toNat ≤ 65536 := by
  cases statement with
  | none =>
    cases h
    exact hle
  | some s =>
    rcases skip_cases h with ⟨name, value, n, symbols, -, -, rfl⟩ | ⟨size, -, hbound, rfl⟩
    · exact hle
    · exact UInt32.le_iff_toNat_le.1 hbound

theorem counter_le_of_next {line : Line} (hle : layout.counter.toNat ≤ 65536)
    (h : layout.next line = .ok later) : later.counter.toNat ≤ 65536 := by
  obtain ⟨sought, marked, hseek, hmark, hskip⟩ := next_eq_ok.1 h
  have hsought := counter_le_of_seek hle hseek
  rw [← (of_mark hmark).1] at hsought
  exact counter_le_of_skip hsought hskip

theorem counter_le_of_pass {lines : List Line} (h : lines.foldlM next {} = .ok later) :
    later.counter.toNat ≤ 65536 :=
  foldlM_induction (motive := fun l => l.counter.toNat ≤ 65536)
    (fun _ _ _ hstep hle => counter_le_of_next hle hstep) h (Nat.zero_le _)

end Layout
end Banked8085.Assembler
