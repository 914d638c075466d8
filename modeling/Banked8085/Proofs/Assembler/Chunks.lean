import Mathlib.Data.List.Chain
import Banked8085.Proofs.Assembler.SecondPass

/-! # Chunks of an image

The second pass writes the bytes of each line at its address counter. `chunksFrom` lists these
chunks without an image, and `Image.Shows` says that an image consists of them. Counters have 32
bits, so this is said of chunks that are `Chunk.Bounded`, which end where 32 bits can count:

* `image_of_pass`: a pass builds its image by placing the chunks of its lines;
* `Shows.place`, `Shows.placeAll`: what placing chunks keeps;
* `Shows.placeAll_ok_iff`: it succeeds exactly when no chunk starts below the end of the one before.
-/

namespace Banked8085.Assembler
set_option autoImplicit false

/-- Bytes with the counter at the first one. -/
structure Chunk where
  start : UInt32
  data : List Byte
deriving DecidableEq, Repr, Inhabited

namespace Chunk

def stop (chunk : Chunk) : Nat := chunk.start.toNat + chunk.data.length

def Bounded (chunk : Chunk) : Prop := chunk.stop < 4294967296

/-- The second chunk does not start below the end of the first one. -/
def Before (first second : Chunk) : Prop := first.stop ≤ second.start.toNat

instance (first second : Chunk) : Decidable (Before first second) :=
  inferInstanceAs (Decidable (first.stop ≤ second.start.toNat))

def Covers (chunk : Chunk) (address : Nat) : Prop :=
  chunk.start.toNat ≤ address ∧ address < chunk.stop

end Chunk

/-! ## The chunks of lines -/

/-- The bytes of a line that is reached with this counter, and the counter behind the line. -/
def Line.emit (symbols : SymbolTable) (counter : UInt32) (line : Line) :
    Except AssemblyError (List Byte × UInt32) :=
  match line.statement with
  | none => .ok ([], counter)
  | some (.origin value) => line.blame do
    let target ← symbols.address value
    pure ([], target)
  | some statement => line.blame do
    let data ← statement.emit symbols
    pure (data, counter + UInt32.ofNat data.length)

/-- All bytes of the lines, with the counter at each line that has any. -/
def chunksFrom (symbols : SymbolTable) (counter : UInt32) :
    List Line → Except AssemblyError (List Chunk)
  | [] => .ok []
  | line :: rest => do
    let (data, next) ← line.emit symbols counter
    let later ← chunksFrom symbols next rest
    pure (if data = [] then later else ⟨counter, data⟩ :: later)

/-- The operand of an origin is an address, and any other statement has its bytes. -/
def Line.Encodes (symbols : SymbolTable) (line : Line) : Prop :=
  match line.statement with
  | none => True
  | some (.origin value) => ∃ target, symbols.address value = .ok target
  | some statement => ∃ data, statement.emit symbols = .ok data

section Lines
variable {symbols : SymbolTable} {counter : UInt32}

theorem Line.emit_none {line : Line} (h : line.statement = none) :
    line.emit symbols counter = .ok ([], counter) := by
  simp only [emit, h]

theorem Line.emit_origin {line : Line} {value : Value} (h : line.statement = some (.origin value))
    {data : List Byte} {next : UInt32} :
    line.emit symbols counter = .ok (data, next) ↔
      data = [] ∧ symbols.address value = .ok next := by
  simp only [emit, h, blame_eq_ok, bind_eq_ok, pure_eq_ok, Prod.mk.injEq]
  constructor
  · intro h
    obtain ⟨target, htarget, rfl, rfl⟩ := h
    exact ⟨rfl, htarget⟩
  · intro h
    obtain ⟨rfl, htarget⟩ := h
    exact ⟨next, htarget, rfl, rfl⟩

theorem Line.emit_other {line : Line} {statement : Statement} (h : line.statement = some statement)
    (ho : ∀ value, statement ≠ .origin value) {data : List Byte} {next : UInt32} :
    line.emit symbols counter = .ok (data, next) ↔
      statement.emit symbols = .ok data ∧ next = counter + UInt32.ofNat data.length := by
  have hemit : line.emit symbols counter = line.blame (do
      let data ← statement.emit symbols
      pure (data, counter + UInt32.ofNat data.length)) := by
    unfold emit
    rw [h]
    cases statement with
    | origin value => exact absurd rfl (ho value)
    | _ => rfl
  simp only [hemit, blame_eq_ok, bind_eq_ok, pure_eq_ok, Prod.mk.injEq]
  constructor
  · intro h
    obtain ⟨bytes, hbytes, rfl, rfl⟩ := h
    exact ⟨hbytes, rfl⟩
  · intro h
    obtain ⟨hbytes, rfl⟩ := h
    exact ⟨data, hbytes, rfl, rfl⟩

theorem Line.Encodes.exists_emit {line : Line} (h : line.Encodes symbols) (counter : UInt32) :
    ∃ data next, line.emit symbols counter = .ok (data, next) := by
  cases hs : line.statement with
  | none => exact ⟨[], counter, emit_none hs⟩
  | some statement =>
    unfold Encodes at h
    rw [hs] at h
    rcases statement.origin_or_other with ⟨value, rfl⟩ | hother
    · obtain ⟨target, htarget⟩ := h
      exact ⟨[], target, (emit_origin hs).2 ⟨rfl, htarget⟩⟩
    · have hdata : ∃ data, statement.emit symbols = .ok data := by
        cases statement with
        | origin value => exact absurd rfl (hother value)
        | _ => exact h
      obtain ⟨data, hdata⟩ := hdata
      exact ⟨data, _, (emit_other hs hother).2 ⟨hdata, rfl⟩⟩

theorem chunksFrom_cons {line : Line} {rest : List Line} {chunks : List Chunk} :
    chunksFrom symbols counter (line :: rest) = .ok chunks ↔
      ∃ data next later, line.emit symbols counter = .ok (data, next) ∧
        chunksFrom symbols next rest = .ok later ∧
        chunks = if data = [] then later else ⟨counter, data⟩ :: later := by
  rw [chunksFrom, bind_eq_ok]
  constructor
  · intro h
    obtain ⟨⟨data, next⟩, hemit, h⟩ := h
    obtain ⟨later, hlater, h⟩ := bind_eq_ok.1 h
    exact ⟨data, next, later, hemit, hlater, (pure_eq_ok.1 h).symm⟩
  · intro h
    obtain ⟨data, next, later, hemit, hlater, rfl⟩ := h
    exact ⟨(data, next), hemit, bind_eq_ok.2 ⟨later, hlater, rfl⟩⟩

theorem exists_chunksFrom {lines : List Line} (h : ∀ line ∈ lines, line.Encodes symbols)
    (counter : UInt32) : ∃ chunks, chunksFrom symbols counter lines = .ok chunks := by
  induction lines generalizing counter with
  | nil => exact ⟨[], rfl⟩
  | cons line rest ih =>
    obtain ⟨data, next, hemit⟩ := (h line List.mem_cons_self).exists_emit counter
    obtain ⟨later, hlater⟩ := ih (fun l hl => h l (List.mem_cons_of_mem _ hl)) next
    exact ⟨_, chunksFrom_cons.2 ⟨data, next, later, hemit, hlater, rfl⟩⟩

theorem data_ne_nil_of_chunksFrom {lines : List Line} {chunks : List Chunk}
    (h : chunksFrom symbols counter lines = .ok chunks) : ∀ chunk ∈ chunks, chunk.data ≠ [] := by
  induction lines generalizing counter chunks with
  | nil =>
    cases h
    simp
  | cons line rest ih =>
    obtain ⟨data, next, later, -, hlater, rfl⟩ := chunksFrom_cons.1 h
    by_cases hdata : data = []
    · rw [if_pos hdata]
      exact ih hlater
    · rw [if_neg hdata]
      exact List.forall_mem_cons.2 ⟨hdata, ih hlater⟩

end Lines

/-! ## A pass places the chunks -/

/-- Place chunks one after the other. -/
def Image.placeAll (image : Image) (chunks : List Chunk) : Except Fault Image :=
  chunks.foldlM (fun image chunk => image.place chunk.start chunk.data) image

section Passes
variable {symbols : SymbolTable} {output later : Output} {image : Image}

theorem Output.next_eq_ok {line : Line} :
    output.next symbols line = .ok later ↔
      ∃ data, line.emit symbols output.counter = .ok (data, later.counter) ∧
        output.image.place output.counter data = .ok later.image := by
  cases hs : line.statement with
  | none =>
    rw [next_none hs, Line.emit_none hs]
    constructor
    · intro h
      cases h
      exact ⟨[], rfl, Image.place_nil⟩
    · intro h
      obtain ⟨data, hemit, hplace⟩ := h
      obtain ⟨rfl, hcounter⟩ := Prod.mk.inj (Except.ok.inj hemit)
      rw [Image.place_nil, Except.ok.injEq] at hplace
      obtain ⟨image, counter⟩ := output
      obtain ⟨image', counter'⟩ := later
      obtain rfl : counter = counter' := hcounter
      obtain rfl : image = image' := hplace
      rfl
  | some statement =>
    rw [next_some hs]
    rcases statement.origin_or_other with ⟨value, rfl⟩ | hother
    · simp only [put_origin, Line.emit_origin hs]
      constructor
      · intro h
        obtain ⟨target, htarget, rfl⟩ := h
        exact ⟨[], ⟨rfl, htarget⟩, Image.place_nil⟩
      · intro h
        obtain ⟨data, ⟨rfl, htarget⟩, hplace⟩ := h
        rw [Image.place_nil, Except.ok.injEq] at hplace
        refine ⟨later.counter, htarget, ?_⟩
        rw [hplace]
    · simp only [put_other hother, Line.emit_other hs hother]
      constructor
      · intro h
        obtain ⟨data, image, hdata, hplace, rfl⟩ := h
        exact ⟨data, ⟨hdata, rfl⟩, hplace⟩
      · intro h
        obtain ⟨data, ⟨hdata, hcounter⟩, hplace⟩ := h
        refine ⟨data, later.image, hdata, hplace, ?_⟩
        rw [← hcounter]

theorem placeAll_cons {chunk : Chunk} {chunks : List Chunk} {final : Image} :
    image.placeAll (chunk :: chunks) = .ok final ↔
      ∃ middle, image.place chunk.start chunk.data = .ok middle ∧
        middle.placeAll chunks = .ok final :=
  foldlM_cons_eq_ok

/-- The image behind a pass is the one before it with the chunks of the lines placed in it. -/
theorem image_of_pass {lines : List Line} :
    (∃ later, lines.foldlM (Output.next symbols) output = .ok later ∧ later.image = image) ↔
      ∃ chunks, chunksFrom symbols output.counter lines = .ok chunks ∧
        output.image.placeAll chunks = .ok image := by
  induction lines generalizing output with
  | nil =>
    constructor
    · intro h
      obtain ⟨later, h, rfl⟩ := h
      cases h
      exact ⟨[], rfl, rfl⟩
    · intro h
      obtain ⟨chunks, h, himage⟩ := h
      cases h
      cases himage
      exact ⟨output, rfl, rfl⟩
  | cons line rest ih =>
    constructor
    · intro h
      obtain ⟨later, h, himage⟩ := h
      obtain ⟨middle, hnext, hrest⟩ := foldlM_cons_eq_ok.1 h
      obtain ⟨data, hemit, hplace⟩ := Output.next_eq_ok.1 hnext
      obtain ⟨chunks, hchunks, hall⟩ := ih.1 ⟨later, hrest, himage⟩
      refine ⟨_, chunksFrom_cons.2 ⟨data, _, chunks, hemit, hchunks, rfl⟩, ?_⟩
      by_cases hdata : data = []
      · subst hdata
        rw [if_pos rfl]
        rw [Image.place_nil, Except.ok.injEq] at hplace
        rw [hplace]
        exact hall
      · rw [if_neg hdata]
        exact placeAll_cons.2 ⟨middle.image, hplace, hall⟩
    · intro h
      obtain ⟨chunks, hchunks, hall⟩ := h
      obtain ⟨data, next, later, hemit, hlater, rfl⟩ := chunksFrom_cons.1 hchunks
      have hmiddle : ∃ middle, output.image.place output.counter data = .ok middle ∧
          middle.placeAll later = .ok image := by
        by_cases hdata : data = []
        · subst hdata
          rw [if_pos rfl] at hall
          exact ⟨output.image, Image.place_nil, hall⟩
        · rw [if_neg hdata] at hall
          exact placeAll_cons.1 hall
      obtain ⟨middle, hplace, hall⟩ := hmiddle
      have hpass : ∃ final, rest.foldlM (Output.next symbols) ⟨middle, next⟩ = .ok final ∧
          final.image = image := ih.2 ⟨later, hlater, hall⟩
      obtain ⟨final, hrest, himage⟩ := hpass
      exact ⟨final, foldlM_cons_eq_ok.2 ⟨⟨middle, next⟩, Output.next_eq_ok.2 ⟨data, hemit, hplace⟩,
        hrest⟩, himage⟩

theorem emitLines_eq_ok {lines : List Line} :
    emitLines symbols lines = .ok image ↔
      ∃ chunks, chunksFrom symbols 0 lines = .ok chunks ∧ Image.placeAll {} chunks = .ok image := by
  have hpass : (∃ output, lines.foldlM (Output.next symbols) {} = .ok output ∧
      output.image = image) ↔ _ := image_of_pass
  rw [← hpass]
  simp only [emitLines, bind_eq_ok, pure_eq_ok]

end Passes

/-! ## Images made of chunks -/

namespace Image
variable {image later : Image} {chunk : Chunk} {chunks more : List Chunk}

/-- The image consists of these chunks and of zeros between them. -/
structure Shows (image : Image) (chunks : List Chunk) : Prop where
  data_ne_nil : ∀ chunk ∈ chunks, chunk.data ≠ []
  ordered : chunks.IsChain Chunk.Before
  origin : image.origin = chunks.head?.map Chunk.start
  stop : image.origin.map (·.toNat + image.bytes.size) = chunks.getLast?.map Chunk.stop
  blank : image.origin = none → image.bytes = #[]
  holds : ∀ chunk ∈ chunks, image.Holds chunk.start.toNat chunk.data
  zero : ∀ origin, image.origin = some origin → ∀ k byte, image.bytes.toList[k]? = some byte →
    (∀ chunk ∈ chunks, ¬ chunk.Covers (origin.toNat + k)) → byte = 0

theorem shows_nil : Shows {} [] :=
  ⟨by simp, .nil, rfl, rfl, fun _ => rfl, by simp, fun _ h => by cases h⟩

theorem Shows.origin_eq_none (hshows : image.Shows chunks) : image.origin = none ↔ chunks = [] := by
  rw [hshows.origin]
  cases chunks with
  | nil => simp
  | cons chunk rest => simp

theorem Shows.bounded (hshows : image.Shows chunks) (hbounded : ∀ c ∈ chunks, c.Bounded) :
    image.Bounded := by
  intro origin horigin
  have hstop := hshows.stop
  rw [horigin, Option.map_some] at hstop
  obtain ⟨last, hlast, hend⟩ := Option.map_eq_some_iff.1 hstop.symm
  rw [← hend]
  exact hbounded last (List.mem_of_getLast? hlast)

/-- A chunk can be placed behind the last one. -/
theorem Shows.place_ok_iff (hshows : image.Shows chunks) (hbounded : ∀ c ∈ chunks, c.Bounded)
    (hdata : chunk.data ≠ []) :
    (∃ later, image.place chunk.start chunk.data = .ok later) ↔
      ∀ last ∈ chunks.getLast?, last.Before chunk := by
  have himage := hshows.bounded hbounded
  cases horigin : image.origin with
  | none =>
    obtain rfl := hshows.origin_eq_none.1 horigin
    exact iff_of_true ⟨_, (himage.place_eq_ok hdata).2 (.inl ⟨horigin, rfl⟩)⟩ (by simp)
  | some origin =>
    have hstop := hshows.stop
    rw [horigin, Option.map_some] at hstop
    obtain ⟨last, hlast, hend⟩ := Option.map_eq_some_iff.1 hstop.symm
    have hbefore : last.Before chunk ↔ origin.toNat + image.bytes.size ≤ chunk.start.toNat := by
      rw [← hend]
      rfl
    simp only [hlast, Option.mem_some_iff, forall_eq', hbefore]
    constructor
    · intro h
      obtain ⟨later, h⟩ := h
      rcases (himage.place_eq_ok hdata).1 h with ⟨hnone, -⟩ | ⟨origin', horigin', hle, -⟩
      · rw [horigin] at hnone
        cases hnone
      · rw [horigin, Option.some.injEq] at horigin'
        rw [horigin']
        exact hle
    · intro hle
      exact ⟨_, (himage.place_eq_ok hdata).2 (.inr ⟨origin, horigin, hle, rfl⟩)⟩

/-- Outside its chunks an image stays zero when one more chunk is placed. -/
theorem Shows.zero_of_place (hshows : image.Shows chunks) (hbounded : ∀ c ∈ chunks, c.Bounded)
    (hdata : chunk.data ≠ []) (h : image.place chunk.start chunk.data = .ok later)
    {origin : UInt32} {k : Nat} {byte : Byte}
    (horigin : later.origin = some origin) (hbyte : later.bytes.toList[k]? = some byte)
    (hcovers : ∀ c ∈ chunks ++ [chunk], ¬ c.Covers (origin.toNat + k)) : byte = 0 := by
  have hnew : ¬ chunk.Covers (origin.toNat + k) := hcovers chunk (by simp)
  have hk := (List.getElem?_eq_some_iff.1 hbyte).1
  rcases ((hshows.bounded hbounded).place_eq_ok hdata).1 h with
    ⟨hnone, rfl⟩ | ⟨origin', horigin', hle, rfl⟩
  · cases horigin
    simp only [hshows.blank hnone, Array.toList_appendList, List.nil_append] at hk
    exact absurd ⟨by omega, by unfold Chunk.stop; omega⟩ hnew
  · cases horigin
    simp only [Array.toList_appendList, Array.toList_append, Array.toList_replicate] at hbyte hk
    simp only [List.length_append, Array.length_toList, List.length_replicate] at hk
    by_cases hold : k < image.bytes.size
    · rw [List.append_assoc, List.getElem?_append_left (by simpa using hold)] at hbyte
      exact hshows.zero origin horigin' k byte hbyte fun c hc =>
        hcovers c (List.mem_append_left _ hc)
    · have hgap : k < image.bytes.size +
          (chunk.start.toNat - (origin.toNat + image.bytes.size)) := by
        by_contra hlt
        exact hnew ⟨by omega, by unfold Chunk.stop; omega⟩
      rw [List.getElem?_append_left (by simpa using hgap),
        List.getElem?_append_right (by simpa using hold)] at hbyte
      exact List.eq_of_mem_replicate (List.mem_of_getElem? hbyte)

theorem Shows.place (hshows : image.Shows chunks) (hbounded : ∀ c ∈ chunks, c.Bounded)
    (hdata : chunk.data ≠ []) (h : image.place chunk.start chunk.data = .ok later) :
    later.Shows (chunks ++ [chunk]) := by
  have himage := hshows.bounded hbounded
  have hordered := (hshows.place_ok_iff hbounded hdata).1 ⟨later, h⟩
  refine ⟨?_, ?_, ?_, ?_, ?_, ?_, ?_⟩
  · intro c hc
    rcases List.mem_append.1 hc with hold | hnew
    · exact hshows.data_ne_nil c hold
    · rw [List.mem_singleton.1 hnew]
      exact hdata
  · refine hshows.ordered.append (.singleton chunk) ?_
    simpa using hordered
  · rcases (place_eq_ok hdata).1 h with ⟨hnone, rfl⟩ | ⟨origin, horigin, -, rfl⟩
    · obtain rfl := hshows.origin_eq_none.1 hnone
      rfl
    · have hhead := hshows.origin
      rw [horigin] at hhead
      cases chunks with
      | nil => cases hhead
      | cons first rest => exact hhead
  · rw [List.getLast?_concat, Option.map_some]
    have hsome : ∃ origin, later.origin = some origin := by
      rcases (place_eq_ok hdata).1 h with ⟨-, rfl⟩ | ⟨origin, -, -, rfl⟩
      · exact ⟨_, rfl⟩
      · exact ⟨_, rfl⟩
    obtain ⟨origin, horigin⟩ := hsome
    rw [horigin, Option.map_some, himage.size_of_place hshows.blank hdata h horigin]
    rfl
  · intro hnone
    rcases (place_eq_ok hdata).1 h with ⟨-, rfl⟩ | ⟨origin, -, -, rfl⟩
    · cases hnone
    · cases hnone
  · intro c hc
    rcases List.mem_append.1 hc with hold | hnew
    · exact (hshows.holds c hold).place (hshows.data_ne_nil c hold) h
    · rw [List.mem_singleton.1 hnew]
      exact holds_of_place himage hshows.blank hdata h
  · intro origin horigin k byte hbyte hcovers
    exact hshows.zero_of_place hbounded hdata h horigin hbyte hcovers

theorem Shows.placeAll (hshows : image.Shows chunks) (hdata : ∀ c ∈ more, c.data ≠ [])
    (hbounded : ∀ c ∈ chunks ++ more, c.Bounded) (h : image.placeAll more = .ok later) :
    later.Shows (chunks ++ more) := by
  induction more generalizing image chunks with
  | nil =>
    cases h
    rw [List.append_nil]
    exact hshows
  | cons chunk more ih =>
    obtain ⟨middle, hplace, hrest⟩ := placeAll_cons.1 h
    obtain ⟨hchunk, hmore⟩ := List.forall_mem_cons.1 hdata
    have hold : ∀ c ∈ chunks, c.Bounded := fun c hc => hbounded c (List.mem_append_left _ hc)
    rw [List.append_cons] at hbounded ⊢
    exact ih (hshows.place hold hchunk hplace) hmore hbounded hrest

theorem Shows.placeAll_ok_iff (hshows : image.Shows chunks) (hdata : ∀ c ∈ more, c.data ≠ [])
    (hbounded : ∀ c ∈ chunks ++ more, c.Bounded) :
    (∃ later, image.placeAll more = .ok later) ↔ (chunks ++ more).IsChain Chunk.Before := by
  induction more generalizing image chunks with
  | nil =>
    rw [List.append_nil]
    exact iff_of_true ⟨image, rfl⟩ hshows.ordered
  | cons chunk more ih =>
    obtain ⟨hchunk, hmore⟩ := List.forall_mem_cons.1 hdata
    have hold : ∀ c ∈ chunks, c.Bounded := fun c hc => hbounded c (List.mem_append_left _ hc)
    constructor
    · intro h
      obtain ⟨later, h⟩ := h
      obtain ⟨middle, hplace, hrest⟩ := placeAll_cons.1 h
      rw [List.append_cons] at hbounded ⊢
      exact (ih (hshows.place hold hchunk hplace) hmore hbounded).1 ⟨later, hrest⟩
    · intro hchain
      have hlast := (List.isChain_append.1 hchain).2.2
      obtain ⟨middle, hplace⟩ := (hshows.place_ok_iff hold hchunk).2 fun last hl =>
        hlast last hl chunk rfl
      rw [List.append_cons] at hbounded hchain
      obtain ⟨later, hrest⟩ := (ih (hshows.place hold hchunk hplace) hmore hbounded).2 hchain
      exact ⟨later, placeAll_cons.2 ⟨middle, hplace, hrest⟩⟩

end Image

/-! ## The image of the second pass -/

variable {symbols : SymbolTable} {lines : List Line}

theorem shows_of_emitLines {image : Image} {chunks : List Chunk}
    (h : emitLines symbols lines = .ok image)
    (hchunks : chunksFrom symbols 0 lines = .ok chunks) (hbounded : ∀ c ∈ chunks, c.Bounded) :
    image.Shows chunks := by
  obtain ⟨chunks', hchunks', hplace⟩ := emitLines_eq_ok.1 h
  obtain rfl : chunks = chunks' := Except.ok.inj (hchunks.symm.trans hchunks')
  exact Image.shows_nil.placeAll (data_ne_nil_of_chunksFrom hchunks) hbounded hplace

theorem emitLines_error_iff {chunks : List Chunk}
    (hchunks : chunksFrom symbols 0 lines = .ok chunks) (hbounded : ∀ c ∈ chunks, c.Bounded) :
    (∃ e, emitLines symbols lines = .error e) ↔ ¬ chunks.IsChain Chunk.Before := by
  have hok : (∃ image, emitLines symbols lines = .ok image) ↔ chunks.IsChain Chunk.Before := by
    rw [← List.nil_append chunks,
      ← Image.shows_nil.placeAll_ok_iff (data_ne_nil_of_chunksFrom hchunks) hbounded]
    simp only [emitLines_eq_ok, hchunks, Except.ok.injEq, exists_eq_left']
  rw [← hok]
  cases emitLines symbols lines with
  | error e => simp
  | ok image => simp

theorem sound_of_emitLines {image : Image} (h : emitLines symbols lines = .ok image) :
    image.Sound := by
  obtain ⟨output, houtput, himage⟩ := bind_eq_ok.1 h
  cases himage
  exact (Output.sound_of_pass houtput Output.sound_start).image

/-- The image of a list of lines consists of the chunks of these lines in their order, with zeros
in the gaps, if a counter of 32 bits can count up to the end of each chunk. A source with these
lines has its bytes from the first chunk on, or from zero if there is none. If all lines have their
bytes, then only chunks that overlap keep the image from existing. -/
theorem emitLines_shows_chunks (symbols : SymbolTable) (lines : List Line) :
    (∀ image, emitLines symbols lines = .ok image →
      (∃ chunks, chunksFrom symbols 0 lines = .ok chunks ∧
        ((∀ chunk ∈ chunks, chunk.Bounded) → image.Shows chunks)) ∧
      ∀ source, parseSource source.toList = .ok lines → layOut lines = .ok symbols →
        ∃ assembly, assemble source = .ok assembly ∧ assembly.bytes = image.bytes.toList ∧
          assembly.origin.toNat = (image.origin.getD 0).toNat) ∧
    ((∀ line ∈ lines, line.Encodes symbols) →
      ∃ chunks, chunksFrom symbols 0 lines = .ok chunks ∧
        ((∀ chunk ∈ chunks, chunk.Bounded) →
          ((∃ e, emitLines symbols lines = .error e) ↔ ¬ chunks.IsChain Chunk.Before))) := by
  constructor
  · intro image himage
    constructor
    · obtain ⟨chunks, hchunks, -⟩ := emitLines_eq_ok.1 himage
      exact ⟨chunks, hchunks, shows_of_emitLines himage hchunks⟩
    · intro source hlines hsymbols
      refine ⟨⟨(image.origin.getD 0).toUInt16, image.bytes.toList, symbols⟩, ?_, rfl,
        (sound_of_emitLines himage).toNat_origin⟩
      exact bind_eq_ok.2 ⟨lines, hlines, bind_eq_ok.2 ⟨symbols, hsymbols,
        bind_eq_ok.2 ⟨image, himage, rfl⟩⟩⟩
  · intro hencodes
    obtain ⟨chunks, hchunks⟩ := exists_chunksFrom hencodes 0
    exact ⟨chunks, hchunks, emitLines_error_iff hchunks⟩

/-- Two chunks with a gap of one byte between them, and two that overlap in one byte. -/
theorem emitLines_shows_chunks_gap :
    (∃ lines image, parseSource " ORG 20h\n ORG 10h\n DB 1, 2\n ORG 13h\n DB 3".toList = .ok lines ∧
      emitLines {} lines = .ok image ∧ image.Shows [⟨0x10, [1, 2]⟩, ⟨0x13, [3]⟩] ∧
      ∃ assembly, assemble " ORG 20h\n ORG 10h\n DB 1, 2\n ORG 13h\n DB 3" = .ok assembly ∧
        assembly.bytes = [1, 2, 0, 3] ∧ assembly.origin.toNat = 0x10) ∧
    ∃ lines, parseSource " ORG 10h\n DB 1, 2\n ORG 11h\n DB 3".toList = .ok lines ∧
      ∃ e, emitLines {} lines = .error e := by
  constructor
  · generalize hsource : " ORG 20h\n ORG 10h\n DB 1, 2\n ORG 13h\n DB 3" = source
    obtain ⟨lines, hlines⟩ : ∃ lines : List Line, lines =
        [⟨1, none, some (.origin (.number 0x20))⟩, ⟨2, none, some (.origin (.number 0x10))⟩,
          ⟨3, none, some (.bytes [.value (.number 1), .value (.number 2)])⟩,
          ⟨4, none, some (.origin (.number 0x13))⟩,
          ⟨5, none, some (.bytes [.value (.number 3)])⟩] := ⟨_, rfl⟩
    have hparse : parseSource source.toList = .ok lines := by
      rw [← hsource, hlines]
      decide +kernel
    have himage : emitLines {} lines = .ok ⟨some 0x10, #[1, 2, 0, 3]⟩ := by
      rw [hlines]
      rfl
    have hsymbols : layOut lines = .ok {} := by
      rw [hlines]
      rfl
    have hlist : chunksFrom {} 0 lines = .ok [⟨0x10, [1, 2]⟩, ⟨0x13, [3]⟩] := by
      rw [hlines]
      rfl
    obtain ⟨⟨chunks, hchunks, hshows⟩, hassemble⟩ :=
      (emitLines_shows_chunks {} lines).1 _ himage
    obtain rfl := Except.ok.inj (hchunks.symm.trans hlist)
    have hbounded : ∀ chunk ∈ [(⟨0x10, [1, 2]⟩ : Chunk), ⟨0x13, [3]⟩], chunk.Bounded := by
      unfold Chunk.Bounded
      decide
    exact ⟨lines, _, hparse, himage, hshows hbounded, hassemble source hparse hsymbols⟩
  · obtain ⟨lines, hlines⟩ : ∃ lines : List Line, lines =
        [⟨1, none, some (.origin (.number 0x10))⟩,
          ⟨2, none, some (.bytes [.value (.number 1), .value (.number 2)])⟩,
          ⟨3, none, some (.origin (.number 0x11))⟩,
          ⟨4, none, some (.bytes [.value (.number 3)])⟩] := ⟨_, rfl⟩
    have hparse : parseSource " ORG 10h\n DB 1, 2\n ORG 11h\n DB 3".toList = .ok lines := by
      rw [hlines]
      decide +kernel
    have hencodes : ∀ line ∈ lines, line.Encodes {} := by
      rw [hlines]
      simp only [List.forall_mem_cons, List.not_mem_nil, false_implies, implies_true, and_true]
      exact ⟨⟨0x10, rfl⟩, ⟨[1, 2], rfl⟩, ⟨0x11, rfl⟩, ⟨[3], rfl⟩⟩
    have hlist : chunksFrom {} 0 lines = .ok [⟨0x10, [1, 2]⟩, ⟨0x11, [3]⟩] := by
      rw [hlines]
      rfl
    obtain ⟨chunks, hchunks, herror⟩ := (emitLines_shows_chunks {} lines).2 hencodes
    obtain rfl := Except.ok.inj (hchunks.symm.trans hlist)
    have hbounded : ∀ chunk ∈ [(⟨0x10, [1, 2]⟩ : Chunk), ⟨0x11, [3]⟩], chunk.Bounded := by
      unfold Chunk.Bounded
      decide
    exact ⟨lines, hparse, (herror hbounded).2 (by decide)⟩

end Banked8085.Assembler
