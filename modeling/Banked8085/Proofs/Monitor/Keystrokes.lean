import Banked8085.Monitor.Console

/-! # Typed bytes

`Console.translated` says in three replacements, one after the other, what the program gets to
read for typed bytes; the queue gets just this (`keystrokes_eq_translated`). Bytes that are typed in
two pieces are queued as if they came in one (`keystrokes_append`), unless a carriage return is torn
from its line feed (`TearsPair`), which makes two keystrokes of the pair
(`keystrokes_of_tearsPair`).
-/

namespace Banked8085.Console
set_option autoImplicit false

/-! ## Replacements -/

/-- Every pair of a carriage return and a line feed is replaced by one line feed. -/
def joinPairs : List Byte → List Byte
  | 0x0D :: 0x0A :: rest => 0x0A :: joinPairs rest
  | b :: rest => b :: joinPairs rest
  | [] => []

def replace (old new : Byte) (bytes : List Byte) : List Byte :=
  bytes.map fun b => if b = old then new else b

/-- Pairs become line feeds, then line feeds carriage returns, then deletes backspaces. -/
def translated (bytes : List Byte) : List Byte :=
  replace 0x7F 0x08 (replace 0x0A 0x0D (joinPairs bytes))

variable {bytes : List Byte} {old new other : Byte}

theorem not_mem_replace (h : other ∉ bytes) (hne : other ≠ new) :
    other ∉ replace old new bytes := by
  intro hmem
  obtain ⟨b, hb, heq⟩ := List.mem_map.1 hmem
  split at heq
  · exact hne heq.symm
  · exact h (heq ▸ hb)

theorem old_not_mem_replace (hne : old ≠ new) : old ∉ replace old new bytes := by
  intro hmem
  obtain ⟨b, -, heq⟩ := List.mem_map.1 hmem
  split at heq
  case isTrue => exact hne heq.symm
  case isFalse hb => exact hb heq

theorem replace_of_not_mem (h : old ∉ bytes) : replace old new bytes = bytes := by
  have hsame : ∀ b ∈ bytes, (if b = old then new else b) = id b := by
    intro b hb
    exact if_neg fun (heq : b = old) => h (heq ▸ hb)
  rw [replace, List.map_congr_left hsame, List.map_id]

theorem joinPairs_of_not_mem (h : 0x0A ∉ bytes) : joinPairs bytes = bytes := by
  fun_induction joinPairs bytes with
  | case1 rest ih => exact absurd (List.mem_cons_of_mem _ List.mem_cons_self) h
  | case2 b rest hpair ih => rw [ih fun hmem => h (List.mem_cons_of_mem b hmem)]
  | case3 => rfl

theorem lineFeed_not_mem_translated (bytes : List Byte) : 0x0A ∉ translated bytes :=
  not_mem_replace (old_not_mem_replace (by decide)) (by decide)

theorem delete_not_mem_translated (bytes : List Byte) : 0x7F ∉ translated bytes :=
  old_not_mem_replace (by decide)

theorem translated_translated (bytes : List Byte) :
    translated (translated bytes) = translated bytes := by
  have hfeed := lineFeed_not_mem_translated bytes
  rw [translated, joinPairs_of_not_mem hfeed, replace_of_not_mem hfeed,
    replace_of_not_mem (delete_not_mem_translated bytes)]

/-! ## Keystrokes -/

theorem keystrokes_cons_of_not {b : Byte} {rest : List Byte}
    (h : ¬ (b = 0x0D ∧ rest.head? = some 0x0A)) :
    keystrokes (b :: rest) = key b :: keystrokes rest := if_neg h

theorem keystrokes_pair (rest : List Byte) :
    keystrokes (0x0D :: 0x0A :: rest) = keystrokes (0x0A :: rest) := if_pos ⟨rfl, rfl⟩

theorem keystrokes_lineFeed (rest : List Byte) :
    keystrokes (0x0A :: rest) = 0x0D :: keystrokes rest := keystrokes_cons_of_not (by simp)

/-- The replacements of single bytes come to one, since none makes what a later one replaces. -/
theorem key_eq (b : Byte) :
    key b =
      if (if b = 0x0A then 0x0D else b) = 0x7F then 0x08 else if b = 0x0A then 0x0D else b := by
  unfold key
  by_cases hfeed : b = 0x0A
  · subst hfeed
    rfl
  · simp only [if_neg hfeed]

theorem translated_eq_map (bytes : List Byte) : translated bytes = (joinPairs bytes).map key := by
  rw [translated, replace, replace, List.map_map]
  exact List.map_congr_left fun b _ => (key_eq b).symm

theorem keystrokes_eq_translated (bytes : List Byte) : keystrokes bytes = translated bytes := by
  rw [translated_eq_map]
  fun_induction joinPairs bytes with
  | case1 rest ih =>
    rw [keystrokes_pair, keystrokes_lineFeed, ih]
    rfl
  | case2 b rest hpair ih =>
    have hnot : ¬ (b = 0x0D ∧ rest.head? = some 0x0A) := by
      rintro ⟨hb, hrest⟩
      obtain ⟨after, hafter⟩ := List.head?_eq_some_iff.1 hrest
      exact hpair after hb hafter
    rw [keystrokes_cons_of_not hnot, ih, List.map_cons]
  | case3 => rfl

/-! ## Pieces -/

/-- A carriage return at the end of one piece has its line feed at the beginning of the next. -/
def TearsPair (a b : List Byte) : Prop := a.getLast? = some 0x0D ∧ b.head? = some 0x0A

instance (a b : List Byte) : Decidable (TearsPair a b) := inferInstanceAs (Decidable (_ ∧ _))

variable {a b : List Byte}

theorem keystrokes_singleton (c : Byte) : keystrokes [c] = [key c] :=
  keystrokes_cons_of_not (by simp)

theorem keystrokes_append (h : ¬ TearsPair a b) :
    keystrokes (a ++ b) = keystrokes a ++ keystrokes b := by
  induction a with
  | nil => rfl
  | cons c a ih =>
    cases a with
    | nil =>
      have hnot : ¬ (c = 0x0D ∧ b.head? = some 0x0A) := fun hpair =>
        h ⟨congrArg some hpair.1, hpair.2⟩
      rw [List.singleton_append, keystrokes_cons_of_not hnot, keystrokes_singleton]
      rfl
    | cons d a =>
      have hrest : ¬ TearsPair (d :: a) b := fun htear =>
        h ⟨List.getLast?_cons_cons.trans htear.1, htear.2⟩
      have hhead : (d :: a ++ b).head? = (d :: a).head? := rfl
      rw [List.cons_append, keystrokes, keystrokes, hhead, ih hrest]
      split
      · rfl
      · rfl

/-- The two halves of a pair are a carriage return each, where the pair is only one. -/
theorem keystrokes_of_tearsPair (h : TearsPair a b) :
    ∃ after, keystrokes b = 0x0D :: after ∧ keystrokes (a ++ b) = keystrokes a ++ after := by
  obtain ⟨start, rfl⟩ := List.getLast?_eq_some_iff.1 h.1
  obtain ⟨rest, rfl⟩ := List.head?_eq_some_iff.1 h.2
  have hfeed := keystrokes_lineFeed rest
  have hreturn : ∀ after : List Byte, ¬ TearsPair start (0x0D :: after) := fun after htear =>
    absurd (Option.some.inj htear.2) (by decide)
  have hfirst : keystrokes (start ++ [0x0D]) = keystrokes start ++ [0x0D] :=
    keystrokes_append (hreturn [])
  refine ⟨keystrokes rest, hfeed, ?_⟩
  calc keystrokes (start ++ [0x0D] ++ 0x0A :: rest)
      = keystrokes (start ++ 0x0D :: 0x0A :: rest) := by rw [List.append_assoc]; rfl
    _ = keystrokes start ++ keystrokes (0x0D :: 0x0A :: rest) := keystrokes_append (hreturn _)
    _ = keystrokes start ++ 0x0D :: keystrokes rest := by rw [keystrokes_pair, hfeed]
    _ = keystrokes (start ++ [0x0D]) ++ keystrokes rest := by rw [hfirst, List.append_assoc]; rfl

/-- The queue gets the translation of what is typed, and the rest of the console is as before. No
line feed and no delete is in it, and it would be translated to itself. Typing in two pieces comes
to the same as typing all at once unless the pieces tear a pair; the queue then gets one carriage
return more, behind what the first piece has queued. -/
theorem typing_is_translated (console : Console) :
    (∀ bytes,
      console.push bytes = { console with input := console.input ++ translated bytes } ∧
        0x0A ∉ translated bytes ∧ 0x7F ∉ translated bytes ∧
        translated (translated bytes) = translated bytes) ∧
    (∀ a b, (console.push a).push b = console.push (a ++ b) ↔ ¬ TearsPair a b) ∧
    ∀ a b, TearsPair a b → ∃ after,
      (console.push (a ++ b)).input = (console.push a).input ++ after ∧
        ((console.push a).push b).input = (console.push a).input ++ 0x0D :: after := by
  have htear : ∀ a b, TearsPair a b → ∃ after,
      (console.push (a ++ b)).input = (console.push a).input ++ after ∧
        ((console.push a).push b).input = (console.push a).input ++ 0x0D :: after := by
    intro a b h
    obtain ⟨after, hpiece, hwhole⟩ := keystrokes_of_tearsPair h
    refine ⟨after, ?_, ?_⟩
    · show console.input ++ keystrokes (a ++ b) = console.input ++ keystrokes a ++ after
      rw [hwhole, List.append_assoc]
    · show console.input ++ keystrokes a ++ keystrokes b = _
      rw [hpiece]
      rfl
  refine ⟨fun bytes => ⟨?_, lineFeed_not_mem_translated bytes, delete_not_mem_translated bytes,
    translated_translated bytes⟩, fun a b => ⟨fun heq h => ?_, fun h => ?_⟩, htear⟩
  · rw [push, keystrokes_eq_translated]
  · obtain ⟨after, hwhole, hpieces⟩ := htear a b h
    have hlength := congrArg List.length (hpieces.symm.trans ((congrArg input heq).trans hwhole))
    simp at hlength
  · rw [push, push, push, keystrokes_append h, List.append_assoc]

/-- A pair torn apart, with a delete behind it, on a console that has printed something. -/
theorem typing_is_translated_torn :
    let console : Console := { input := [0x41], output := #[0x3E], echo := true }
    (console.push [0x62, 0x0D, 0x0A, 0x7F]).input = [0x41, 0x62, 0x0D, 0x08] ∧
      ((console.push [0x62, 0x0D]).push [0x0A, 0x7F]).input = [0x41, 0x62, 0x0D, 0x0D, 0x08] ∧
      (console.push [0x62]).push [0x0D, 0x0A, 0x7F] = console.push [0x62, 0x0D, 0x0A, 0x7F] := by
  intro console
  obtain ⟨htranslated, hpieces, htear⟩ := typing_is_translated console
  obtain ⟨after, hwhole, htorn⟩ := htear [0x62, 0x0D] [0x0A, 0x7F] (by decide)
  have hinput : (console.push [0x62, 0x0D, 0x0A, 0x7F]).input = [0x41, 0x62, 0x0D, 0x08] :=
    congrArg input (htranslated _).1
  have hafter : [0x41, 0x62, 0x0D] ++ [0x08] = [0x41, 0x62, 0x0D] ++ after :=
    hinput.symm.trans hwhole
  obtain rfl := List.append_cancel_left hafter
  exact ⟨hinput, htorn, (hpieces _ _).2 (by decide)⟩

end Banked8085.Console
