import Banked8085.Assembler.Symbols
import Banked8085.Proofs.Text.Utf8

/-! # Symbol tables

Names are only ever added. `Extends late early` says that `late` knows all that `early` knows;
a value can then change its meaning in one way only, by being `Shadowed`. The list of a table has
each name once, in the order of the bytes (`lists_toList`).
-/

namespace Banked8085.Assembler.SymbolTable
set_option autoImplicit false

/-- Every name of `early` has the same value in `late`. -/
def Extends (late early : SymbolTable) : Prop :=
  ∀ (name : List Char) (n : Nat), early.entries[name]? = some n → late.entries[name]? = some n

theorem Extends.refl (table : SymbolTable) : table.Extends table := fun _ _ h => h

theorem Extends.trans {a b c : SymbolTable} (hab : a.Extends b) (hbc : b.Extends c) :
    a.Extends c :=
  fun name n h => hab name n (hbc name n h)

theorem define_eq_ok {table later : SymbolTable} {name : List Char} {value : Nat} :
    table.define name value = .ok later ↔
      name ∉ table.entries ∧ later = ⟨table.entries.insert name value⟩ := by
  unfold define
  by_cases h : name ∈ table.entries
  · simp [h]
  · simp [h, eq_comm]

theorem getElem?_of_define {table later : SymbolTable} {name : List Char} {value : Nat}
    (h : table.define name value = .ok later) : later.entries[name]? = some value := by
  obtain ⟨-, rfl⟩ := define_eq_ok.1 h
  exact Std.TreeMap.getElem?_insert_self

theorem extends_of_define {table later : SymbolTable} {name : List Char} {value : Nat}
    (h : table.define name value = .ok later) : later.Extends table := by
  obtain ⟨hnew, rfl⟩ := define_eq_ok.1 h
  intro other n hother
  have hne : compare name other ≠ .eq := by
    intro he
    rw [Std.LawfulEqCmp.eq_of_compare he, Std.TreeMap.mem_iff_isSome_getElem?, hother] at hnew
    exact hnew rfl
  rw [Std.TreeMap.getElem?_insert, if_neg hne]
  exact hother

/-! ## Shadowed values -/

/-- A name that `early` does not know and therefore reads as a hexadecimal number, while `late`
gives it another value. -/
def Shadowed (early late : SymbolTable) (value : Value) : Prop :=
  ∃ name m n, value = .symbol name ∧ early.entries[name]? = none ∧ hexName? name = some m ∧
    late.entries[name]? = some n ∧ m ≠ n

theorem resolve_symbol_of_some {table : SymbolTable} {name : List Char} {n : Nat}
    (h : table.entries[name]? = some n) : table.resolve (.symbol name) = .ok n := by
  simp only [resolve, h]

theorem resolve_symbol_of_none {table : SymbolTable} {name : List Char} {m : Nat}
    (h : table.entries[name]? = none) :
    table.resolve (.symbol name) = .ok m ↔ hexName? name = some m := by
  simp only [resolve, h]
  cases hexName? name with
  | none => simp
  | some n => simp

/-- In a grown table a value means the same as before, unless it is shadowed. -/
theorem resolve_eq_iff {early late : SymbolTable} (hext : late.Extends early) {value : Value}
    {m n : Nat} (hm : early.resolve value = .ok m) (hn : late.resolve value = .ok n) :
    m = n ↔ ¬ Shadowed early late value := by
  cases value with
  | number k =>
    have hmk : k = m := Except.ok.inj hm
    have hnk : k = n := Except.ok.inj hn
    have hnot : ¬ Shadowed early late (.number k) := by
      intro h
      obtain ⟨name, -, -, h, -⟩ := h
      cases h
    exact iff_of_true (hmk.symm.trans hnk) hnot
  | symbol name =>
    cases hearly : early.entries[name]? with
    | some k =>
      have hmk := hm
      rw [resolve_symbol_of_some hearly] at hmk
      have hnk := hn
      rw [resolve_symbol_of_some (hext name k hearly)] at hnk
      have hnot : ¬ Shadowed early late (.symbol name) := by
        intro h
        obtain ⟨other, -, -, h, hnone, -⟩ := h
        cases h
        rw [hearly] at hnone
        cases hnone
      exact iff_of_true ((Except.ok.inj hmk).symm.trans (Except.ok.inj hnk)) hnot
    | none =>
      have hhex := (resolve_symbol_of_none hearly).1 hm
      cases hlate : late.entries[name]? with
      | none =>
        have hhex' := (resolve_symbol_of_none hlate).1 hn
        have hmn : m = n := Option.some.inj (hhex.symm.trans hhex')
        have hnot : ¬ Shadowed early late (.symbol name) := by
          intro h
          obtain ⟨other, m', n', h, -, -, hsome, -⟩ := h
          cases h
          rw [hlate] at hsome
          cases hsome
        exact iff_of_true hmn hnot
      | some k =>
        rw [resolve_symbol_of_some hlate] at hn
        obtain rfl : k = n := Except.ok.inj hn
        constructor
        · rintro rfl ⟨other, m', n', h, -, hhex', hsome, hne⟩
          cases h
          rw [hhex] at hhex'
          rw [hlate] at hsome
          exact hne ((Option.some.inj hhex').symm.trans (Option.some.inj hsome))
        · intro hnot
          exact Decidable.byContradiction fun hne =>
            hnot ⟨name, m, k, rfl, hearly, hhex, hlate, hne⟩

/-! ## Listings -/

/-- All names with their values, each name once and in ascending order of its bytes. -/
structure Lists (table : SymbolTable) (entries : List (List Char × Nat)) : Prop where
  ordered : entries.Pairwise fun a b => Utf8.encode a.1 < Utf8.encode b.1
  complete : ∀ name value, (name, value) ∈ entries ↔ table.entries[name]? = some value

theorem lists_toList (table : SymbolTable) : table.Lists table.toList where
  ordered := Std.TreeMap.ordered_keys_toList.imp fun h => Utf8.encode_lt_of_compare h
  complete _ _ := Std.TreeMap.mem_toList_iff_getElem?_eq_some

end Banked8085.Assembler.SymbolTable
