import Mathlib.Data.List.Forall2
import Banked8085.Assembler.Line
import Banked8085.Proofs.Results
import Banked8085.Proofs.Text.Quotation

/-! # Operand fields

An operand field is split into the items that it was joined from, whatever blanks stand around the
commas, and has one item more than commas outside quotations (`joined_operands_are_split`). The
quotations of an `Item` are closed, so the reader is outside quotations again at every comma between
items.
-/

namespace Banked8085.Assembler
set_option autoImplicit false

/-! ## Splitting -/

section Split
variable {text : List Char}

theorem splitOperands_trim (text : List Char) : splitOperands (trim text) = splitOperands text := by
  rw [splitOperands, trim_trim]
  rfl

theorem splitOperands_eq_map (h : trim text ≠ []) :
    splitOperands text = (Quoted.split ',' text).map trim := by
  unfold splitOperands
  split
  · contradiction
  · exact Quoted.map_trim_split_trim (by decide) text

end Split

/-! ## Joining -/

/-- A text that stands between commas as one item. -/
structure Item (item : List Char) : Prop where
  trim_eq : trim item = item
  scan_eq : Quoted.scan none item = none
  comma_not_mem : ',' ∉ Quoted.outside none item

/-- The field is the item with blanks around it. -/
def Spaced (field item : List Char) : Prop :=
  ∃ left right, Blanks left ∧ Blanks right ∧ field = left ++ item ++ right

namespace Spaced
variable {field item : List Char}

theorem trim_field (h : Spaced field item) (hitem : Item item) : trim field = item := by
  obtain ⟨left, right, hl, hr, rfl⟩ := h
  rw [trim_pad hl hr, hitem.trim_eq]

theorem scan_field (h : Spaced field item) (hitem : Item item) :
    Quoted.scan none field = none := by
  obtain ⟨left, right, hl, hr, rfl⟩ := h
  exact Quoted.scan_pad hl hr hitem.scan_eq

theorem comma_not_mem (h : Spaced field item) (hitem : Item item) :
    ',' ∉ Quoted.outside none field := by
  obtain ⟨left, right, hl, hr, rfl⟩ := h
  have hblank : ∀ blanks : List Char, Blanks blanks → ',' ∉ blanks := fun _ =>
    Quoted.not_mem_of_blanks (by decide)
  rw [Quoted.outside_pad hl hr hitem.scan_eq]
  simp only [List.mem_append, not_or]
  exact ⟨⟨hblank left hl, hitem.comma_not_mem⟩, hblank right hr⟩

end Spaced

section Join
variable {fields items : List (List Char)}

theorem map_trim_fields (hitems : ∀ item ∈ items, Item item)
    (h : List.Forall₂ Spaced fields items) : fields.map trim = items := by
  induction h with
  | nil => rfl
  | cons hspaced _ ih =>
    rw [List.forall_mem_cons] at hitems
    rw [List.map_cons, hspaced.trim_field hitems.1, ih hitems.2]

theorem split_fields (hne : items ≠ []) (hitems : ∀ item ∈ items, Item item)
    (h : List.Forall₂ Spaced fields items) :
    Quoted.split ',' ([','].intercalate fields) = fields := by
  have hfield : ∀ field ∈ fields, ∃ item, Item item ∧ Spaced field item := by
    intro field hmem
    obtain ⟨before, after, rfl⟩ := List.append_of_mem hmem
    obtain ⟨first, item, rest, rfl, -, hspaced⟩ := exists_of_forall₂_append_cons h
    exact ⟨item, hitems item (by simp), hspaced⟩
  refine Quoted.split_intercalate ?_ (fun field hmem => ?_) fun field hmem => ?_
  · rintro rfl
    exact hne (List.forall₂_nil_left_iff.1 h)
  · obtain ⟨item, hitem, hspaced⟩ := hfield field hmem
    exact hspaced.scan_field hitem
  · obtain ⟨item, hitem, hspaced⟩ := hfield field hmem
    exact hspaced.comma_not_mem hitem

/-- Only a single empty item leaves nothing but blanks. -/
theorem not_blanks_of_items (hne : items ≠ []) (hempty : items ≠ [[]])
    (hitems : ∀ item ∈ items, Item item) (h : List.Forall₂ Spaced fields items) :
    ¬ Blanks ([','].intercalate fields) := by
  intro hblank
  have hcomma : ',' ∉ Quoted.outside none ([','].intercalate fields) := fun hmem =>
    Quoted.not_mem_of_blanks (by decide) hblank (Quoted.outside_subset hmem)
  have hfields : [[','].intercalate fields] = fields :=
    (Quoted.split_eq_singleton hcomma).symm.trans (split_fields hne hitems h)
  have hitem : items = [trim ([','].intercalate fields)] :=
    (map_trim_fields hitems h).symm.trans (congrArg (List.map trim) hfields.symm)
  rw [trim_of_blanks hblank] at hitem
  exact hempty hitem

end Join

/-- Items that are joined by commas with any blanks around each are split again, and every text that
is not blank has one item more than commas outside quotations. -/
theorem joined_operands_are_split :
    (∀ items : List (List Char), items ≠ [] → items ≠ [[]] → (∀ item ∈ items, Item item) →
      ∀ fields, List.Forall₂ Spaced fields items →
        splitOperands ([','].intercalate fields) = items) ∧
    ∀ text, ¬ Blanks text →
      (splitOperands text).length = (Quoted.outside none text).count ',' + 1 := by
  constructor
  · intro items hne hempty hitems fields h
    have htrim : trim ([','].intercalate fields) ≠ [] := fun hnil =>
      not_blanks_of_items hne hempty hitems h (trim_eq_nil_iff.1 hnil)
    rw [splitOperands_eq_map htrim, split_fields hne hitems h, map_trim_fields hitems h]
  · intro text hblank
    have htrim : trim text ≠ [] := fun hnil => hblank (trim_eq_nil_iff.1 hnil)
    rw [splitOperands_eq_map htrim, List.length_map]
    exact Quoted.length_splitFrom (by decide) []

/-- Commas in both kinds of quotation, an empty item, and a quote character of the other kind. -/
theorem joined_operands_are_split_quoted :
    let items := [['H'], "','".toList, [], "\"it's,\"+1".toList]
    let field := " H ,\t',',\u3000,\"it's,\"+1".toList
    splitOperands field = items ∧ (Quoted.outside none field).count ',' = 3 := by
  intro items field
  have hitem : ∀ item ∈ items, Item item := by
    have hall : ∀ item ∈ items, trim item = item ∧ Quoted.scan none item = none ∧
        ',' ∉ Quoted.outside none item := by decide
    exact fun item hmem => ⟨(hall item hmem).1, (hall item hmem).2.1, (hall item hmem).2.2⟩
  have hspaced : List.Forall₂ Spaced
      [" H ".toList, "\t','".toList, ['\u3000'], "\"it's,\"+1".toList] items :=
    .cons ⟨[' '], [' '], by decide, by decide, rfl⟩
    (.cons ⟨['\t'], [], by decide, by decide, rfl⟩
    (.cons ⟨['\u3000'], [], by decide, by decide, rfl⟩
    (.cons ⟨[], [], by decide, by decide, rfl⟩ .nil)))
  have hsplit : splitOperands field = items :=
    joined_operands_are_split.1 items (by decide) (by decide) hitem _ hspaced
  have hlength := joined_operands_are_split.2 field (by decide)
  rw [hsplit] at hlength
  exact ⟨hsplit, (Nat.succ.inj hlength).symm⟩

end Banked8085.Assembler
