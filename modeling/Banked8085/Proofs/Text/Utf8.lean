import Mathlib.Logic.Function.Iterate
import Banked8085.Text.Basic

/-! # The bytes of UTF-8

Each text has its bytes, from which it can be read (`encode_toList`, `decode?_eq_some`), and the bytes
of texts have the order of their code points (`encode_lt_of_compare`). `Utf8.form` says how a code
point is divided among bytes: a first byte, which tells how many there are, and a digit of base 64 in
each of the others.
-/

namespace Banked8085.Utf8
set_option autoImplicit false

/-! ## Bytes of characters -/

/-- How code points of one length are written: a first byte from `base` on, which takes `size`
values, and `more` bytes after it. -/
structure Form where
  base : Nat
  size : Nat
  more : Nat
deriving DecidableEq

def form (v : Nat) : Form :=
  if v ≤ 0x7F then ⟨0, 128, 0⟩
  else if v ≤ 0x7FF then ⟨0xC0, 32, 1⟩
  else if v ≤ 0xFFFF then ⟨0xE0, 16, 2⟩
  else ⟨0xF0, 8, 3⟩

/-- The bytes of `v` with `more` bytes after the first, each of which takes a digit of base 64. -/
def digits (base size : Nat) : Nat → Nat → List Byte
  | 0, v => [UInt8.ofNat (v % size + base)]
  | more + 1, v => digits base size more (v / 64) ++ [UInt8.ofNat (v % 64 + 0x80)]

theorem encodeChar_eq (c : Char) :
    String.utf8EncodeChar c =
      digits (form c.val.toNat).base (form c.val.toNat).size (form c.val.toNat).more
        c.val.toNat := by
  rw [String.utf8EncodeChar]
  unfold form
  generalize c.val.toNat = v
  split
  case isTrue h =>
    have hv : v % 128 = v := Nat.mod_eq_of_lt (by omega)
    simp [digits, hv]
  case isFalse =>
    split
    · rfl
    · split
      · simp [digits, Nat.div_div_eq_div_mul]
      · simp [digits, Nat.div_div_eq_div_mul]

theorem ofNat_lt {m n : Nat} (h : m < n) (hn : n < 256) : UInt8.ofNat m < UInt8.ofNat n := by
  rw [UInt8.lt_iff_toNat_lt, UInt8.toNat_ofNat', UInt8.toNat_ofNat']
  omega

variable {base size m n : Nat}

/-- The order of two numbers of one length is settled by the first digit in which they differ. -/
theorem digits_append_lt {more : Nat} (h : m < n) (hn : (· / 64)^[more] n < size)
    (hbase : base + size ≤ 256) (s t : List Byte) :
    digits base size more m ++ s < digits base size more n ++ t := by
  induction more generalizing m n s t with
  | zero =>
    have hsize : n < size := hn
    rw [digits, digits, Nat.mod_eq_of_lt hsize, Nat.mod_eq_of_lt (Nat.lt_trans h hsize)]
    exact List.cons_lt_cons_iff.2 (.inl (ofNat_lt (by omega) (by omega)))
  | succ more ih =>
    rw [digits, digits, List.append_assoc, List.append_assoc]
    by_cases hhigh : m / 64 = n / 64
    · rw [hhigh]
      refine List.append_left_lt (List.cons_lt_cons_iff.2 (.inl (ofNat_lt ?_ ?_)))
      · omega
      · omega
    · have hlt : m / 64 < n / 64 := by omega
      exact ih hlt hn _ _

theorem exists_digits_eq (hsize : 0 < size) (more v : Nat) :
    ∃ first rest, digits base size more v = UInt8.ofNat first :: rest ∧
      base ≤ first ∧ first < base + size := by
  induction more generalizing v with
  | zero =>
    have hlt : v % size < size := Nat.mod_lt v hsize
    exact ⟨v % size + base, [], rfl, by omega, by omega⟩
  | succ more ih =>
    obtain ⟨first, rest, heq, hbounds⟩ := ih (v / 64)
    refine ⟨first, rest ++ [UInt8.ofNat (v % 64 + 0x80)], ?_, hbounds⟩
    rw [digits, heq, List.cons_append]

/-- The first bytes of longer forms are higher. -/
theorem form_eq_or_lt (h : m ≤ n) :
    form m = form n ∨ (form m).base + (form m).size ≤ (form n).base := by
  unfold form
  by_cases h1 : n ≤ 0x7F
  · rw [if_pos h1, if_pos (Nat.le_trans h h1)]
    exact .inl rfl
  by_cases h2 : n ≤ 0x7FF
  · rw [if_neg h1, if_pos h2, if_pos (Nat.le_trans h h2)]
    split
    · exact .inr (by decide)
    · exact .inl rfl
  by_cases h3 : n ≤ 0xFFFF
  · rw [if_neg h1, if_neg h2, if_pos h3, if_pos (Nat.le_trans h h3)]
    split
    · exact .inr (by decide)
    · split
      · exact .inr (by decide)
      · exact .inl rfl
  · rw [if_neg h1, if_neg h2, if_neg h3]
    split
    · exact .inr (by decide)
    · split
      · exact .inr (by decide)
      · split
        · exact .inr (by decide)
        · exact .inl rfl

theorem form_bounds (h : n < 0x110000) :
    0 < (form n).size ∧ (form n).base + (form n).size ≤ 256 ∧
      (· / 64)^[(form n).more] n < (form n).size := by
  unfold form
  split
  case isTrue h1 => exact ⟨by decide, by decide, show n < 128 by omega⟩
  case isFalse =>
    split
    · exact ⟨by decide, by decide, show n / 64 < 32 by omega⟩
    · split
      · exact ⟨by decide, by decide, show n / 64 / 64 < 16 by omega⟩
      · exact ⟨by decide, by decide, show n / 64 / 64 / 64 < 8 by omega⟩

theorem code_lt (c : Char) : c.val.toNat < 0x110000 := by
  rcases c.valid with h | h
  · omega
  · exact h.2

/-- The bytes of a character are below those of a later one, whatever follows either. -/
theorem encodeChar_append_lt {c d : Char} (h : c < d) (s t : List Byte) :
    String.utf8EncodeChar c ++ s < String.utf8EncodeChar d ++ t := by
  have hlt : c.val.toNat < d.val.toNat := UInt32.lt_iff_toNat_lt.1 h
  obtain ⟨hsize, -, -⟩ := form_bounds (code_lt c)
  obtain ⟨hsize', hbase, hhigh⟩ := form_bounds (code_lt d)
  rw [encodeChar_eq, encodeChar_eq]
  rcases form_eq_or_lt (Nat.le_of_lt hlt) with hform | hform
  · rw [hform]
    exact digits_append_lt hlt hhigh hbase s t
  · obtain ⟨first, rest, heq, -, hfirst⟩ := exists_digits_eq hsize (form c.val.toNat).more
      c.val.toNat
    obtain ⟨first', rest', heq', hfirst', hlast⟩ := exists_digits_eq hsize'
      (form d.val.toNat).more d.val.toNat
    rw [heq, heq', List.cons_append, List.cons_append]
    exact List.cons_lt_cons_iff.2 (.inl (ofNat_lt (by omega) (by omega)))

/-! ## Bytes of texts -/

theorem encode_toList (text : String) : encode text.toList = text.toUTF8.data.toList := by
  have hlist : String.ofList text.toList = text := String.ofList_toList
  have hbytes : text.toUTF8 = (encode text.toList).toByteArray :=
    (congrArg String.toByteArray hlist).symm.trans String.toByteArray_ofList
  rw [hbytes, List.data_toByteArray]

/-- Bytes are a text if they are its bytes. -/
theorem decode?_eq_some {bytes : List Byte} {text : String} :
    decode? bytes = some text ↔ bytes = text.toUTF8.data.toList := by
  rw [decode?, String.fromUTF8?]
  constructor
  · intro h
    split at h
    case isTrue hvalid =>
      cases h
      rfl
    case isFalse => cases h
  · rintro rfl
    exact dif_pos text.isValidUTF8

theorem encode_cons (c : Char) (s : List Char) :
    encode (c :: s) = String.utf8EncodeChar c ++ encode s := List.flatMap_cons

/-- The order of the bytes is that of the code points. -/
theorem encode_lt_of_compare {s t : List Char} (h : compare s t = .lt) : encode s < encode t := by
  induction s generalizing t with
  | nil =>
    cases t with
    | nil => cases h
    | cons d t =>
      rw [encode_cons, encodeChar_eq]
      obtain ⟨first, rest, heq, -⟩ :=
        exists_digits_eq (form_bounds (code_lt d)).1 (form d.val.toNat).more d.val.toNat
      rw [heq, List.cons_append]
      exact List.nil_lt_cons _ _
  | cons c s ih =>
    cases t with
    | nil => cases h
    | cons d t =>
      rw [List.compare_cons_cons, Ordering.then_eq_lt] at h
      rw [encode_cons, encode_cons]
      rcases h with hlt | ⟨heq, hrest⟩
      · exact encodeChar_append_lt (compareOfLessAndEq_eq_lt.1 hlt) _ _
      · rw [Std.LawfulEqCmp.eq_of_compare heq]
        exact List.append_left_lt (ih hrest)

end Banked8085.Utf8
