import Mathlib.Data.List.DropRight
import Mathlib.Data.List.TakeWhile
import Banked8085.Text.Basic

/-! # Blanks around a text

`trim` takes nothing away but blanks at the two ends (`exists_pad_trim`), and blanks that are added
there do not show in the result (`trim_pad`).
-/

namespace Banked8085
set_option autoImplicit false

variable {left right text : List Char} {c : Char}

/-- All characters are blanks. -/
def Blanks (text : List Char) : Prop := ∀ c ∈ text, isBlank c = true

instance (text : List Char) : Decidable (Blanks text) :=
  List.decidableBAll (fun c => isBlank c = true) text

theorem blanks_nil : Blanks [] := fun _ h => absurd h List.not_mem_nil

theorem Blanks.append (hl : Blanks left) (hr : Blanks right) : Blanks (left ++ right) :=
  List.forall_mem_append.2 ⟨hl, hr⟩

theorem blanks_or_exists (text : List Char) :
    Blanks text ∨
      ∃ left c rest, Blanks left ∧ isBlank c = false ∧ text = left ++ c :: rest := by
  cases hrest : text.dropWhile isBlank with
  | nil => exact .inl (List.dropWhile_eq_nil_iff.1 hrest)
  | cons c rest =>
    refine .inr ⟨text.takeWhile isBlank, c, rest, fun _ h => List.mem_takeWhile_imp h, ?_, ?_⟩
    · have hhead := List.head?_dropWhile_not isBlank text
      rw [hrest] at hhead
      simpa using hhead
    · rw [← hrest, List.takeWhile_append_dropWhile]

/-! ## The end of a text -/

theorem trimEnd_concat (text : List Char) (c : Char) :
    trimEnd (text ++ [c]) = if isBlank c then trimEnd text else text ++ [c] :=
  List.rdropWhile_concat isBlank text c

theorem trimEnd_append_cons (hc : isBlank c = false) (text rest : List Char) :
    trimEnd (text ++ c :: rest) = text ++ c :: trimEnd rest := by
  induction rest using List.reverseRecOn with
  | nil =>
    rw [trimEnd_concat, if_neg (Bool.eq_false_iff.1 hc)]
    rfl
  | append_singleton rest d ih =>
    have hlast : text ++ c :: (rest ++ [d]) = (text ++ c :: rest) ++ [d] := by simp
    rw [hlast, trimEnd_concat, trimEnd_concat]
    split
    · exact ih
    · exact hlast.symm

theorem trimEnd_append_blanks (hr : Blanks right) (text : List Char) :
    trimEnd (text ++ right) = trimEnd text := by
  rw [trimEnd, List.reverse_append, trimStart,
    List.dropWhile_append_of_pos fun d hd => hr d (List.mem_reverse.1 hd)]
  rfl

/-! ## Both ends -/

theorem trimStart_append_cons (hl : Blanks left) (hc : isBlank c = false) (rest : List Char) :
    trimStart (left ++ c :: rest) = c :: rest := by
  rw [trimStart, List.dropWhile_append_of_pos hl,
    List.dropWhile_cons_of_neg (Bool.eq_false_iff.1 hc)]

theorem trim_append_cons (hl : Blanks left) (hc : isBlank c = false) (rest : List Char) :
    trim (left ++ c :: rest) = c :: trimEnd rest := by
  rw [trim, trimStart_append_cons hl hc]
  exact trimEnd_append_cons hc [] rest

theorem trim_of_blanks (h : Blanks text) : trim text = [] := by
  rw [trim, trimStart, List.dropWhile_eq_nil_iff.2 h]
  rfl

theorem trim_pad (hl : Blanks left) (hr : Blanks right) (text : List Char) :
    trim (left ++ text ++ right) = trim text := by
  rcases blanks_or_exists text with hblank | ⟨start, c, rest, hstart, hc, rfl⟩
  · rw [trim_of_blanks hblank, trim_of_blanks ((hl.append hblank).append hr)]
  · have hpadded : left ++ (start ++ c :: rest) ++ right =
        (left ++ start) ++ c :: (rest ++ right) := by simp
    rw [hpadded, trim_append_cons (hl.append hstart) hc, trim_append_cons hstart hc,
      trimEnd_append_blanks hr]

theorem exists_pad_trim (text : List Char) :
    ∃ left right, Blanks left ∧ Blanks right ∧ text = left ++ trim text ++ right := by
  refine ⟨text.takeWhile isBlank, (trimStart text).rtakeWhile isBlank,
    fun _ h => List.mem_takeWhile_imp h, fun _ h => List.mem_rtakeWhile_imp h, ?_⟩
  have hend : trim text ++ (trimStart text).rtakeWhile isBlank = trimStart text :=
    List.rdropWhile_append_rtakeWhile
  rw [List.append_assoc, hend, trimStart, List.takeWhile_append_dropWhile]

theorem trim_eq_nil_iff : trim text = [] ↔ Blanks text := by
  refine ⟨fun h => ?_, trim_of_blanks⟩
  obtain ⟨left, right, hl, hr, heq⟩ := exists_pad_trim text
  rw [h, List.append_nil] at heq
  exact heq ▸ hl.append hr

theorem trim_trim (text : List Char) : trim (trim text) = trim text := by
  obtain ⟨left, right, hl, hr, heq⟩ := exists_pad_trim text
  rw [← trim_pad hl hr (trim text), ← heq]

theorem trim_of_ends {first last : Char} {middle : List Char} (hfirst : isBlank first = false)
    (hlast : isBlank last = false) :
    trim (first :: (middle ++ [last])) = first :: (middle ++ [last]) := by
  calc trim (first :: (middle ++ [last])) = first :: trimEnd (middle ++ [last]) :=
        trim_append_cons blanks_nil hfirst _
    _ = first :: (middle ++ [last]) :=
        congrArg (List.cons first) (trimEnd_append_cons hlast middle [])

theorem trim_of_solid (h : ∀ c ∈ text, isBlank c = false) : trim text = text := by
  have hstart : trimStart text = text := List.dropWhile_eq_self_iff.2 fun hpos =>
    Bool.eq_false_iff.1 (h _ (List.getElem_mem hpos))
  rw [trim, hstart]
  exact List.rdropWhile_eq_self_iff.2 fun hne => Bool.eq_false_iff.1 (h _ (List.getLast_mem hne))

end Banked8085
