import Mathlib.Data.List.Basic
import Mathlib.Data.List.Forall2

/-! # Successful results

A computation that may stop at an error succeeds exactly when each of its parts does. These lemmas
take such a computation apart: `bind_eq_ok` and `bind_eq_error` for a sequence,
`foldlM_append_eq_ok` and `foldlM_concat_eq_ok` for a pass over a list, `forall₂_of_mapM` for a
collected list. `foldlM_eq_error` and `exists_of_foldlM_eq_error` say where a pass stops. `Agree`
compares two computations that stop at an error in the same cases, though perhaps not at the same
error.
-/

namespace Banked8085
set_option autoImplicit false

variable {ε α β : Type}

theorem bind_eq_ok {x : Except ε α} {f : α → Except ε β} {b : β} :
    (x >>= f) = .ok b ↔ ∃ a, x = .ok a ∧ f a = .ok b := by
  cases x with
  | error e =>
    constructor
    · intro h
      exact absurd h (by simp [bind, Except.bind])
    · intro h
      obtain ⟨a, h, -⟩ := h
      exact absurd h (by simp)
  | ok a =>
    constructor
    · intro h
      exact ⟨a, rfl, h⟩
    · intro h
      obtain ⟨a', h, hf⟩ := h
      cases h
      exact hf

/-- The first part fails, or the second one does after it. -/
theorem bind_eq_error {x : Except ε α} {f : α → Except ε β} {e : ε} :
    (x >>= f) = .error e ↔ x = .error e ∨ ∃ a, x = .ok a ∧ f a = .error e := by
  cases x with
  | error d =>
    constructor
    · intro h
      exact .inl (congrArg Except.error (Except.error.inj h))
    · rintro (h | ⟨a, h, -⟩)
      · exact congrArg Except.error (Except.error.inj h)
      · cases h
  | ok a =>
    constructor
    · intro h
      exact .inr ⟨a, rfl, h⟩
    · rintro (h | ⟨b, h, hf⟩)
      · cases h
      · cases h
        exact hf

/-- If the second part never fails, only the first one can. -/
theorem bind_eq_error_of_total {x : Except ε α} {f : α → Except ε β} {e : ε}
    (htotal : ∀ a, ∃ b, f a = .ok b) : (x >>= f) = .error e ↔ x = .error e := by
  rw [bind_eq_error]
  refine or_iff_left ?_
  rintro ⟨a, -, h⟩
  obtain ⟨b, hb⟩ := htotal a
  rw [hb] at h
  cases h

theorem pure_eq_ok {a b : α} : (pure a : Except ε α) = .ok b ↔ a = b := by
  constructor
  · intro h
    exact Except.ok.inj h
  · intro h
    subst h
    rfl

theorem eq_ok_get {x : Except ε α} (h : x.toOption.isSome) : x = .ok (x.toOption.get h) := by
  cases x with
  | error e => cases h
  | ok a => rfl

theorem foldlM_append_eq_ok {f : β → α → Except ε β} {before after : List α} {start stop : β} :
    (before ++ after).foldlM f start = .ok stop ↔
      ∃ middle, before.foldlM f start = .ok middle ∧ after.foldlM f middle = .ok stop := by
  rw [List.foldlM_append, bind_eq_ok]

theorem foldlM_cons_eq_ok {f : β → α → Except ε β} {a : α} {after : List α} {start stop : β} :
    (a :: after).foldlM f start = .ok stop ↔
      ∃ middle, f start a = .ok middle ∧ after.foldlM f middle = .ok stop := by
  rw [List.foldlM_cons, bind_eq_ok]

theorem foldlM_concat_eq_ok {f : β → α → Except ε β} {before : List α} {a : α} {start stop : β} :
    (before ++ [a]).foldlM f start = .ok stop ↔
      ∃ middle, before.foldlM f start = .ok middle ∧ f middle a = .ok stop := by
  rw [foldlM_append_eq_ok]
  constructor
  · intro h
    obtain ⟨middle, h, hlast⟩ := h
    obtain ⟨b, hb, hnil⟩ := foldlM_cons_eq_ok.1 hlast
    rw [List.foldlM_nil, pure_eq_ok] at hnil
    exact ⟨middle, h, hnil ▸ hb⟩
  · intro h
    obtain ⟨middle, h, hlast⟩ := h
    exact ⟨middle, h, foldlM_cons_eq_ok.2 ⟨stop, hlast, rfl⟩⟩

/-- The first element that is refused ends the pass with its error. -/
theorem foldlM_eq_error {f : β → α → Except ε β} {before after : List α} {a : α}
    {start middle : β} {e : ε} (hbefore : before.foldlM f start = .ok middle)
    (h : f middle a = .error e) : (before ++ a :: after).foldlM f start = .error e := by
  rw [List.foldlM_append, hbefore]
  show (a :: after).foldlM f middle = .error e
  rw [List.foldlM_cons, h]
  rfl

/-- A pass that fails stops at some element, which it has reached. -/
theorem exists_of_foldlM_eq_error {f : β → α → Except ε β} {l : List α} {start : β} {e : ε}
    (h : l.foldlM f start = .error e) :
    ∃ before a after middle, l = before ++ a :: after ∧
      before.foldlM f start = .ok middle ∧ f middle a = .error e := by
  induction l generalizing start with
  | nil => cases h
  | cons a l ih =>
    rw [List.foldlM_cons, bind_eq_error] at h
    rcases h with ha | ⟨next, ha, hrest⟩
    · exact ⟨[], a, l, start, rfl, rfl, ha⟩
    · obtain ⟨before, b, after, middle, rfl, hbefore, hb⟩ := ih hrest
      exact ⟨a :: before, b, after, middle, rfl, foldlM_cons_eq_ok.2 ⟨next, ha, hbefore⟩, hb⟩

/-- What every step keeps, a whole pass keeps. -/
theorem foldlM_induction {f : β → α → Except ε β} {motive : β → Prop}
    (step : ∀ b a b', f b a = .ok b' → motive b → motive b') {l : List α} {start stop : β}
    (h : l.foldlM f start = .ok stop) (hstart : motive start) : motive stop := by
  induction l generalizing start with
  | nil =>
    rw [List.foldlM_nil, pure_eq_ok] at h
    exact h ▸ hstart
  | cons a l ih =>
    obtain ⟨middle, ha, hl⟩ := foldlM_cons_eq_ok.1 h
    exact ih hl (step _ _ _ ha hstart)

theorem forall₂_of_mapM {f : α → Except ε β} {l : List α} {results : List β}
    (h : l.mapM f = .ok results) : List.Forall₂ (fun a b => f a = .ok b) l results := by
  induction l generalizing results with
  | nil =>
    rw [List.mapM_nil, pure_eq_ok] at h
    subst h
    exact .nil
  | cons a l ih =>
    rw [List.mapM_cons, bind_eq_ok] at h
    obtain ⟨b, hb, h⟩ := h
    obtain ⟨rest, hrest, h⟩ := bind_eq_ok.1 h
    rw [pure_eq_ok] at h
    subst h
    exact .cons hb (ih hrest)

theorem ne_nil_of_mapM {f : α → Except ε β} {l : List α} {results : List β}
    (h : l.mapM f = .ok results) (hl : l ≠ []) : results ≠ [] := by
  have hlength := (forall₂_of_mapM h).length_eq
  rintro rfl
  exact hl (List.length_eq_zero_iff.1 hlength)

theorem exists_of_forall₂_append_cons {r : α → β → Prop} {before after : List α} {a : α}
    {results : List β} (h : List.Forall₂ r (before ++ a :: after) results) :
    ∃ first b rest, results = first ++ b :: rest ∧ List.Forall₂ r before first ∧ r a b := by
  induction before generalizing results with
  | nil =>
    cases h with
    | cons hab _ => exact ⟨[], _, _, rfl, .nil, hab⟩
  | cons d before ih =>
    cases h with
    | cons hd hrest =>
      obtain ⟨first, b, rest, rfl, hfirst, hab⟩ := ih hrest
      exact ⟨_ :: first, b, rest, rfl, .cons hd hfirst, hab⟩

/-- What two computations make of each element one after the other, two passes make of the list. -/
theorem exists_mapM_mapM {f : α → Except ε β} {δ γ : Type} {g : β → Except δ γ} {l : List α}
    {results : List γ}
    (h : List.Forall₂ (fun a c => ∃ b, f a = .ok b ∧ g b = .ok c) l results) :
    ∃ middle, l.mapM f = .ok middle ∧ middle.mapM g = .ok results := by
  induction h with
  | nil => exact ⟨[], rfl, rfl⟩
  | cons hac _ ih =>
    obtain ⟨b, hb, hc⟩ := hac
    obtain ⟨middle, hf, hg⟩ := ih
    refine ⟨b :: middle, ?_, ?_⟩
    · rw [List.mapM_cons, hb, hf]
      rfl
    · rw [List.mapM_cons, hc, hg]
      rfl

theorem length_flatten_of_mapM {f : α → Except ε (List β)} {size : α → Nat}
    (hsize : ∀ a chunk, f a = .ok chunk → chunk.length = size a) {l : List α}
    {chunks : List (List β)} (h : l.mapM f = .ok chunks) :
    chunks.flatten.length = l.foldr (fun a total => size a + total) 0 := by
  have hall := forall₂_of_mapM h
  clear h
  induction hall with
  | nil => rfl
  | cons hchunk _ ih =>
    rw [List.flatten_cons, List.length_append, hsize _ _ hchunk, ih, List.foldr_cons]

theorem foldr_const_add (n : Nat) (l : List α) :
    l.foldr (fun _ total => n + total) 0 = n * l.length := by
  induction l with
  | nil => rfl
  | cons a l ih => rw [List.foldr_cons, ih, List.length_cons, Nat.mul_succ, Nat.add_comm]

/-! ## Results that agree -/

/-- Both results are values, which `r` relates, or both are errors. -/
inductive Agree {ε δ α β : Type} (r : α → β → Prop) : Except ε α → Except δ β → Prop
  | ok {a b} (h : r a b) : Agree r (.ok a) (.ok b)
  | error (e d) : Agree r (.error e) (.error d)

namespace Agree
variable {ε δ α β γ κ : Type} {r : α → β → Prop} {s : γ → κ → Prop}

theorem refl (x : Except ε α) : Agree Eq x x := by
  cases x with
  | ok a => exact .ok rfl
  | error e => exact .error e e

theorem mono {r' : α → β → Prop} {x : Except ε α} {y : Except δ β} (h : Agree r x y)
    (himp : ∀ a b, r a b → r' a b) : Agree r' x y := by
  cases h with
  | ok h => exact .ok (himp _ _ h)
  | error e d => exact .error e d

theorem with_eq {x : Except ε α} {y : Except δ β} (h : Agree r x y) :
    Agree (fun a b => x = .ok a ∧ y = .ok b ∧ r a b) x y := by
  cases h with
  | ok h => exact .ok ⟨rfl, rfl, h⟩
  | error e d => exact .error e d

theorem bind {x : Except ε α} {y : Except δ β} {f : α → Except ε γ} {g : β → Except δ κ}
    (h : Agree r x y) (hfg : ∀ a b, r a b → Agree s (f a) (g b)) :
    Agree s (x >>= f) (y >>= g) := by
  cases h with
  | ok h => exact hfg _ _ h
  | error e d => exact .error e d

theorem ok_or_error {x : Except ε α} {y : Except δ β} (h : Agree r x y) :
    (∃ a b, x = .ok a ∧ y = .ok b ∧ r a b) ∨ ∃ e d, x = .error e ∧ y = .error d := by
  cases h with
  | ok h => exact .inl ⟨_, _, rfl, rfl, h⟩
  | error e d => exact .inr ⟨e, d, rfl, rfl⟩

theorem mapM {l : List α} {m : List β} {f : α → Except ε γ} {g : β → Except δ κ}
    (h : List.Forall₂ r l m) (hfg : ∀ a b, r a b → Agree s (f a) (g b)) :
    Agree (List.Forall₂ s) (l.mapM f) (m.mapM g) := by
  induction h with
  | nil => exact .ok .nil
  | cons hab _ ih =>
    rw [List.mapM_cons, List.mapM_cons]
    exact (hfg _ _ hab).bind fun c d hcd => ih.bind fun cs ds hrest => .ok (.cons hcd hrest)

theorem of_eq_ok_iff {x : Except ε α} {y : Except δ α} (h : ∀ a, x = .ok a ↔ y = .ok a) :
    Agree Eq x y := by
  cases x with
  | ok a =>
    rw [(h a).1 rfl]
    exact .ok rfl
  | error e =>
    cases y with
    | ok b => cases (h b).2 rfl
    | error d => exact .error e d

theorem eq_ok_iff {x : Except ε α} {y : Except δ α} (h : Agree Eq x y) {a : α} :
    x = .ok a ↔ y = .ok a := by
  cases h with
  | ok h => simp [h]
  | error e d => simp

theorem exists_ok_iff {x : Except ε α} {y : Except δ β} (h : Agree r x y) :
    (∃ a, x = .ok a) ↔ ∃ b, y = .ok b := by
  cases h with
  | ok h => exact iff_of_true ⟨_, rfl⟩ ⟨_, rfl⟩
  | error e d => exact iff_of_false (by simp) (by simp)

theorem related {x : Except ε α} {y : Except δ β} {a : α} {b : β} (h : Agree r x y)
    (hx : x = .ok a) (hy : y = .ok b) : r a b := by
  subst hx hy
  cases h with
  | ok h => exact h

end Agree
end Banked8085
