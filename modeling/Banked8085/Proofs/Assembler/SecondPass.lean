import Banked8085.Proofs.Assembler.FirstPass

/-! # The second pass

What placing bytes does to an image (`place_eq_ok`) and what one line does to the output
(`put_cases`). The end of an image has 32 bits. It is the true one as long as the image is
`Image.Bounded`, and then new bytes come to lie where they belong (`holds_of_place`). Bytes that an
image holds stay where they are (`holds_of_pass`), and its first byte lies in the address space
(`sound_of_pass`).
-/

namespace Banked8085.Assembler
set_option autoImplicit false

namespace Image
variable {image later : Image} {start : UInt32} {data : List Byte}

theorem place_nil : image.place start [] = .ok image := rfl

/-- Nothing changes, or the image begins, or it grows at its end. -/
theorem place_eq_ok (hdata : data ≠ []) :
    image.place start data = .ok later ↔
      (image.origin = none ∧ later = ⟨some start, image.bytes ++ data⟩) ∨
      ∃ origin, image.origin = some origin ∧ origin + UInt32.ofNat image.bytes.size ≤ start ∧
        later = ⟨some origin, image.bytes ++
          Array.replicate (start - (origin + UInt32.ofNat image.bytes.size)).toNat 0 ++ data⟩ := by
  have hempty : data.isEmpty = false := by simpa using hdata
  obtain ⟨origin, bytes⟩ := image
  cases origin with
  | none => simp [place, stop, hempty, eq_comm]
  | some origin =>
    by_cases hlt : start < origin + UInt32.ofNat bytes.size
    · have hnle : ¬ origin + UInt32.ofNat bytes.size ≤ start := UInt32.not_le.2 hlt
      simp [place, stop, hempty, hlt, hnle]
    · have hle : origin + UInt32.ofNat bytes.size ≤ start := UInt32.not_lt.1 hlt
      simp [place, stop, hempty, hlt, hle, eq_comm]

/-! ## The end of an image -/

/-- A counter of 32 bits can count the addresses up to the end of the image. -/
def Bounded (image : Image) : Prop :=
  ∀ origin, image.origin = some origin → origin.toNat + image.bytes.size < 4294967296

theorem Bounded.place_eq_ok (hbounded : image.Bounded) (hdata : data ≠ []) :
    image.place start data = .ok later ↔
      (image.origin = none ∧ later = ⟨some start, image.bytes ++ data⟩) ∨
      ∃ origin, image.origin = some origin ∧ origin.toNat + image.bytes.size ≤ start.toNat ∧
        later = ⟨some origin, image.bytes ++
          Array.replicate (start.toNat - (origin.toNat + image.bytes.size)) 0 ++ data⟩ := by
  rw [Image.place_eq_ok hdata]
  refine or_congr_right (exists_congr fun origin => and_congr_right fun horigin => ?_)
  have hstop := toNat_add_ofNat (hbounded origin horigin)
  rw [UInt32.le_iff_toNat_le, hstop]
  refine and_congr_right fun hle => ?_
  rw [UInt32.toNat_sub_of_le _ _ (UInt32.le_iff_toNat_le.2 (hstop ▸ hle)), hstop]

/-- Behind an image that has grown lie just the new bytes. -/
theorem Bounded.size_of_place (hbounded : image.Bounded)
    (hblank : image.origin = none → image.bytes = #[]) (hdata : data ≠ [])
    (h : image.place start data = .ok later) {origin : UInt32}
    (horigin : later.origin = some origin) :
    origin.toNat + later.bytes.size = start.toNat + data.length := by
  rcases (hbounded.place_eq_ok hdata).1 h with ⟨hnone, rfl⟩ | ⟨origin', -, hle, rfl⟩
  · cases horigin
    rw [hblank hnone]
    simp
  · cases horigin
    simp only [← Array.length_toList, Array.toList_appendList, Array.toList_append,
      List.length_append, Array.toList_replicate, List.length_replicate]
    rw [Array.length_toList]
    omega

/-! ## What an image holds -/

/-- The image has `data` at the addresses from `start` on. -/
def Holds (image : Image) (start : Nat) (data : List Byte) : Prop :=
  ∃ origin, image.origin = some origin ∧ origin.toNat ≤ start ∧
    data <+: image.bytes.toList.drop (start - origin.toNat)

/-- An image begins with its first bytes, and these go into the address space. -/
structure Sound (image : Image) : Prop where
  bytes_of_none : image.origin = none → image.bytes = #[]
  origin_lt : ∀ origin, image.origin = some origin → origin.toNat < 65536

theorem sound_blank : Sound {} := ⟨fun _ => rfl, fun _ h => by cases h⟩

theorem Sound.place (hsound : image.Sound) (hstart : image.origin = none → start.toNat < 65536)
    (h : image.place start data = .ok later) : later.Sound := by
  by_cases hdata : data = []
  · subst hdata
    cases h
    exact hsound
  · rcases (place_eq_ok hdata).1 h with ⟨hnone, rfl⟩ | ⟨origin, horigin, -, rfl⟩
    · refine ⟨fun hn => (by cases hn), fun origin ho => ?_⟩
      cases ho
      exact hstart hnone
    · refine ⟨fun hn => (by cases hn), fun other ho => ?_⟩
      cases ho
      exact hsound.origin_lt origin horigin

theorem Sound.toNat_origin (hsound : image.Sound) :
    (image.origin.getD 0).toUInt16.toNat = (image.origin.getD 0).toNat := by
  rw [UInt32.toNat_toUInt16]
  cases horigin : image.origin with
  | none => rfl
  | some origin => exact Nat.mod_eq_of_lt (hsound.origin_lt origin horigin)

theorem holds_of_place (hbounded : image.Bounded)
    (hblank : image.origin = none → image.bytes = #[]) (hdata : data ≠ [])
    (h : image.place start data = .ok later) : later.Holds start.toNat data := by
  rcases (hbounded.place_eq_ok hdata).1 h with ⟨hnone, rfl⟩ | ⟨origin, -, hle, rfl⟩
  · refine ⟨start, rfl, Nat.le_refl _, ?_⟩
    rw [hblank hnone, Nat.sub_self]
    simp
  · refine ⟨origin, rfl, by omega, ?_⟩
    have hlength : (image.bytes ++ Array.replicate
        (start.toNat - (origin.toNat + image.bytes.size)) (0 : Byte)).toList.length =
        start.toNat - origin.toNat := by
      simp only [Array.toList_append, List.length_append, Array.length_toList,
        Array.size_replicate]
      omega
    refine ⟨[], ?_⟩
    rw [List.append_nil, Array.toList_appendList, ← hlength, List.drop_left]

theorem Holds.place {first : Nat} {more : List Byte} (hholds : image.Holds first data)
    (hdata : data ≠ []) (h : image.place start more = .ok later) : later.Holds first data := by
  obtain ⟨origin, horigin, hle, hstarts⟩ := hholds
  by_cases hmore : more = []
  · subst hmore
    cases h
    exact ⟨origin, horigin, hle, hstarts⟩
  · rcases (place_eq_ok hmore).1 h with ⟨hnone, -⟩ | ⟨origin', horigin', -, rfl⟩
    · rw [horigin] at hnone
      cases hnone
    · obtain rfl : origin' = origin := Option.some.inj (horigin'.symm.trans horigin)
      refine ⟨origin', rfl, hle, ?_⟩
      have hdrop : first - origin'.toNat ≤ image.bytes.toList.length := by
        have hlength := hstarts.length_le
        have hpos := List.length_pos_iff.2 hdata
        rw [List.length_drop] at hlength
        omega
      simp only [Array.toList_append, Array.toList_appendList, List.append_assoc]
      rw [List.drop_append_of_le_length hdrop]
      exact hstarts.trans (List.prefix_append _ _)

theorem Holds.stop_le {first : Nat} {origin : UInt32} (h : image.Holds first data)
    (hdata : data ≠ []) (horigin : image.origin = some origin) :
    first + data.length ≤ origin.toNat + image.bytes.size := by
  obtain ⟨origin', horigin', hle, hstarts⟩ := h
  obtain rfl : origin = origin' := Option.some.inj (horigin.symm.trans horigin')
  have hlength := hstarts.length_le
  have hpos := List.length_pos_iff.2 hdata
  have hsize : image.bytes.toList.length = image.bytes.size := Array.length_toList
  rw [List.length_drop, hsize] at hlength
  omega

end Image

theorem Statement.origin_or_other (statement : Statement) :
    (∃ value, statement = .origin value) ∨ ∀ value, statement ≠ .origin value := by
  cases statement with
  | origin value => exact .inl ⟨value, rfl⟩
  | _ => exact .inr nofun

theorem Line.ne_origin {statement : Statement} (line : Line) (hs : line.statement = some statement)
    (ho : ∀ value, statement ≠ .origin value) : ∀ value, line.statement ≠ some (.origin value) := by
  intro value hv
  exact ho value (Option.some.inj (hs.symm.trans hv))

namespace Output
variable {symbols : SymbolTable} {output later : Output}

/-! ## A step -/

theorem put_origin {value : Value} :
    output.put symbols (.origin value) = .ok later ↔
      ∃ counter, symbols.address value = .ok counter ∧ later = { output with counter } := by
  simp only [put, bind_eq_ok, pure_eq_ok, @eq_comm _ later]

theorem put_eq {statement : Statement} (ho : ∀ value, statement ≠ .origin value) :
    output.put symbols statement = (do
      let data ← statement.emit symbols
      let image ← output.image.place output.counter data
      pure ⟨image, output.counter + UInt32.ofNat data.length⟩) := by
  cases statement with
  | origin value => exact absurd rfl (ho value)
  | _ => rfl

theorem put_other {statement : Statement} (ho : ∀ value, statement ≠ .origin value) :
    output.put symbols statement = .ok later ↔
      ∃ data image, statement.emit symbols = .ok data ∧
        output.image.place output.counter data = .ok image ∧
        later = ⟨image, output.counter + UInt32.ofNat data.length⟩ := by
  rw [put_eq ho, bind_eq_ok]
  constructor
  · intro h
    obtain ⟨data, hdata, h⟩ := h
    obtain ⟨image, himage, h⟩ := bind_eq_ok.1 h
    exact ⟨data, image, hdata, himage, (pure_eq_ok.1 h).symm⟩
  · intro h
    obtain ⟨data, image, hdata, himage, rfl⟩ := h
    exact ⟨data, hdata, bind_eq_ok.2 ⟨image, himage, rfl⟩⟩

theorem put_cases {statement : Statement} (h : output.put symbols statement = .ok later) :
    (∃ value counter, statement = .origin value ∧ symbols.address value = .ok counter ∧
      later = { output with counter }) ∨
      (∀ value, statement ≠ .origin value) ∧
        ∃ data image, statement.emit symbols = .ok data ∧
          output.image.place output.counter data = .ok image ∧
          later = ⟨image, output.counter + UInt32.ofNat data.length⟩ := by
  rcases statement.origin_or_other with ⟨value, rfl⟩ | hother
  · obtain ⟨counter, haddress, rfl⟩ := put_origin.1 h
    exact .inl ⟨value, counter, rfl, haddress, rfl⟩
  · exact .inr ⟨hother, (put_other hother).1 h⟩

theorem next_none {line : Line} (h : line.statement = none) :
    output.next symbols line = .ok output := by
  simp only [next, h]

theorem next_some {line : Line} {statement : Statement} (h : line.statement = some statement) :
    output.next symbols line = .ok later ↔ output.put symbols statement = .ok later := by
  simp only [next, h, blame_eq_ok]

/-- A line changes the image by placing its bytes at the counter, or moves the counter alone. -/
theorem place_of_next {line : Line} (h : output.next symbols line = .ok later) :
    ∃ data, output.image.place output.counter data = .ok later.image ∧
      ((∀ value, line.statement ≠ some (.origin value)) ∧ data.length = line.extent ∧
        later.counter = output.counter + UInt32.ofNat line.extent ∨
        data = [] ∧ later.counter.toNat < 65536) := by
  cases hs : line.statement with
  | none =>
    rw [next_none hs] at h
    cases h
    refine ⟨[], Image.place_nil, .inl ⟨nofun, ?_⟩⟩
    rw [Line.extent, hs]
    exact ⟨rfl, (UInt32.add_zero _).symm⟩
  | some statement =>
    rw [next_some hs] at h
    rcases put_cases h with ⟨value, counter, -, haddress, rfl⟩ |
      ⟨hother, data, image, hemit, himage, rfl⟩
    · exact ⟨[], Image.place_nil, .inr ⟨rfl, (address_eq_ok.1 haddress).2⟩⟩
    · have hlength := length_of_emit hemit
      rw [Line.extent_some hs, ← hlength]
      exact ⟨data, himage, .inl ⟨hs ▸ line.ne_origin hs hother, rfl, rfl⟩⟩

/-! ## What passes keep -/

/-- The image is sound, and until it begins the counter is an address. -/
structure Sound (output : Output) : Prop where
  image : output.image.Sound
  counter_lt : output.image.origin = none → output.counter.toNat < 65536

theorem sound_start : Sound {} := ⟨Image.sound_blank, fun _ => by decide⟩

theorem Sound.next {line : Line} (hsound : output.Sound)
    (h : output.next symbols line = .ok later) : later.Sound := by
  obtain ⟨data, hplace, hcounter⟩ := place_of_next h
  refine ⟨hsound.image.place hsound.counter_lt hplace, fun hnone => ?_⟩
  rcases hcounter with ⟨-, hlength, hcounter⟩ | ⟨-, hlt⟩
  · by_cases hdata : data = []
    · subst hdata
      rw [Image.place_nil] at hplace
      rw [← Except.ok.inj hplace] at hnone
      rw [← hlength] at hcounter
      rw [hcounter.trans (UInt32.add_zero _)]
      exact hsound.counter_lt hnone
    · rcases (Image.place_eq_ok hdata).1 hplace with ⟨-, himage⟩ | ⟨origin, -, -, himage⟩
      · rw [himage] at hnone
        cases hnone
      · rw [himage] at hnone
        cases hnone
  · exact hlt

theorem sound_of_pass {lines : List Line} (h : lines.foldlM (next symbols) output = .ok later)
    (hsound : output.Sound) : later.Sound :=
  foldlM_induction (motive := Sound) (fun _ _ _ hstep hkept => hkept.next hstep) h hsound

theorem holds_of_pass {lines : List Line} {start : Nat} {data : List Byte}
    (h : lines.foldlM (next symbols) output = .ok later) (hdata : data ≠ [])
    (hholds : output.image.Holds start data) : later.image.Holds start data := by
  refine foldlM_induction (motive := fun o => o.image.Holds start data) ?_ h hholds
  intro o line o' hstep hkept
  obtain ⟨more, hplace, -⟩ := place_of_next hstep
  exact hkept.place hdata hplace

end Output
end Banked8085.Assembler
