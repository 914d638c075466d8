import Banked8085.Command
import Banked8085.Proofs.Assembler.Symbols
import Banked8085.Proofs.Results
import Banked8085.Proofs.Text.Columns

/-! # Assembling on the command line

The tool either stops before it has changed anything, because of its arguments or of an `Obstacle`,
or it does everything it was asked for: `assembles_or_changes_nothing`. Of the file system around it
only this is used, that writing is `FileSystem.Reliable`.
-/

namespace Banked8085

/-! ## Files around the tool -/

/-- What is expected of the files around a tool. A write that fails has changed nothing. One that
succeeds has put its bytes into the file at the path, and each path that does not lead to the `same`
file still gives what it gave before. -/
structure FileSystem.Reliable {σ : Type} (system : FileSystem σ)
    (same : σ → String → String → Prop) : Prop where
  failed : ∀ files path content cause later,
    system.write files path content = (.error cause, later) → later = files
  written : ∀ files path content later,
    system.write files path content = (.ok (), later) → system.read later path = .ok content
  kept : ∀ files path content later other,
    system.write files path content = (.ok (), later) → ¬same files path other →
      ∀ found, system.read later other = .ok found ↔ system.read files other = .ok found

namespace Command
set_option autoImplicit false
open Assembler

/-- The bytes of a text in UTF-8. -/
def utf8 (text : String) : List Byte := text.toUTF8.data.toList

theorem textBytes_eq_utf8 (text : String) : textBytes text = utf8 text := Utf8.encode_toList text

namespace Assemble

/-! ## Printed text -/

/-- A number in upper-case hexadecimal digits, of which there are at least four. -/
def upperHex (n : Nat) : List Char := ((Nat.toDigits 16 n).map Char.toUpper).leftpad 4 '0'

/-- The line that tells how many bytes were written and where they belong. -/
def summaryLine (path : String) (assembly : Assembly) : List Char :=
  path.toList ++ ": ".toList ++ Nat.toDigits 10 assembly.bytes.length ++
    " bytes at 0x".toList ++ upperHex assembly.origin.toNat ++ ['\n']

/-- The line of a symbol: its name in a column of sixteen characters, a space, and its value. -/
def symbolRow (symbol : List Char × Nat) : List Char :=
  symbol.1.rightpad 16 ' ' ++ ' ' :: upperHex symbol.2 ++ ['\n']

theorem toList_symbolLine (name : List Char) (value : Nat) :
    (symbolLine name value).toList = symbolRow (name, value) := by
  have hpad : name ++ List.replicate (16 - name.length) ' ' = name.rightpad 16 ' ' := rfl
  simp only [symbolLine, String.toList_append, String.toList_ofList, Hex.toList_atLeast, hpad]
  simp [symbolRow, upperHex, upper]

theorem toList_report (path : String) (assembly : Assembly) (symbols : Bool) :
    (report path assembly symbols).toList =
      summaryLine path assembly ++
        if symbols then assembly.symbols.toList.flatMap symbolRow else [] := by
  cases symbols with
  | false => simp [report, summaryLine, hexAddress, Hex.toList_atLeast, upperHex, upper]
  | true =>
    simp [report, summaryLine, hexAddress, Hex.toList_atLeast, upperHex, upper, List.flatMap_def,
      Function.comp_def, toList_symbolLine]

/-! ## Sources -/

/-- The file at the path is the text, written in UTF-8. -/
def HoldsText (files : FileReader) (path source : String) : Prop :=
  files path = .ok (utf8 source)

theorem assembleFile_eq_ok {files : FileReader} {path : String} {assembly : Assembly} :
    assembleFile files path = .ok assembly ↔
      ∃ source, HoldsText files path source ∧ assemble source = .ok assembly := by
  unfold assembleFile HoldsText
  cases files path with
  | error cause => simp
  | ok content =>
    simp only [Except.ok.injEq, utf8, ← Utf8.decode?_eq_some]
    cases Utf8.decode? content with
    | none => simp
    | some source =>
      cases hassemble : assemble source with
      | error cause => simp [hassemble]
      | ok found => simp [hassemble]

theorem HoldsText.unique {files : FileReader} {path source other : String}
    (h : HoldsText files path source) (h' : HoldsText files path other) : source = other := by
  have hbytes : utf8 source = utf8 other := Except.ok.inj (h.symm.trans h')
  exact Option.some.inj ((Utf8.decode?_eq_some.2 rfl).symm.trans (Utf8.decode?_eq_some.2 hbytes))

section Runs
variable {σ : Type} {system : FileSystem σ} {same : σ → String → String → Prop} {files : σ}
  {arguments : List String} {input output : String} {assembly : Assembly}

/-- What keeps the tool from writing its image. -/
inductive Obstacle (system : FileSystem σ) (files : σ) (input output : String) : Prop
  | unreadable : (∀ source, ¬HoldsText (system.read files) input source) →
    Obstacle system files input output
  | rejected {source : String} {cause : AssemblyError} :
    HoldsText (system.read files) input source → assemble source = .error cause →
    Obstacle system files input output
  | unwritable {source : String} {assembly : Assembly} {cause : FileError} :
    HoldsText (system.read files) input source → assemble source = .ok assembly →
    (system.write files output assembly.bytes).1 = .error cause →
    Obstacle system files input output

/-! ## Runs -/

theorem run_of_paths_ne (h : (arguments.filter (· ≠ symbolsFlag)).length ≠ 2) :
    run system files arguments = (.refused usage, files) := by
  unfold run plan
  split
  case h_1 outcome hplan =>
    split at hplan
    case h_1 input output hpaths =>
      rw [hpaths] at h
      exact absurd rfl h
    case h_2 =>
      cases hplan
      rfl
  case h_2 path image text hplan =>
    split at hplan
    case h_1 input output hpaths =>
      rw [hpaths] at h
      exact absurd rfl h
    case h_2 => cases hplan

theorem run_of_rejected (hpaths : arguments.filter (· ≠ symbolsFlag) = [input, output])
    {cause : SourceError} (h : assembleFile (system.read files) input = .error cause) :
    run system files arguments = (.failed cause.message, files) := by
  simp only [run, plan, hpaths, h]

theorem run_of_assembled (hpaths : arguments.filter (· ≠ symbolsFlag) = [input, output])
    (h : assembleFile (system.read files) input = .ok assembly) :
    run system files arguments =
      (finish output (report output assembly (arguments.contains symbolsFlag))
        (system.write files output assembly.bytes).1,
        (system.write files output assembly.bytes).2) := by
  simp only [run, plan, hpaths, h]

theorem run_of_obstacle (hsystem : system.Reliable same)
    (hpaths : arguments.filter (· ≠ symbolsFlag) = [input, output])
    (h : Obstacle system files input output) :
    ∃ message, run system files arguments =
      ({ code := 1, stdout := [], stderr := message }, files) := by
  cases hassembled : assembleFile (system.read files) input with
  | error cause => exact ⟨_, run_of_rejected hpaths hassembled⟩
  | ok assembly =>
    obtain ⟨source, hsource, hok⟩ := assembleFile_eq_ok.1 hassembled
    rw [run_of_assembled hpaths hassembled]
    cases h with
    | unreadable hnone => exact absurd hsource (hnone source)
    | rejected hother herror =>
      rw [hsource.unique hother, herror] at hok
      cases hok
    | unwritable hother hok' hwrite =>
      rw [hsource.unique hother, hok'] at hok
      cases hok
      have hsame : (system.write files output assembly.bytes).2 = files :=
        hsystem.failed _ _ _ _ _ (Prod.ext hwrite rfl)
      rw [hwrite, hsame]
      exact ⟨_, rfl⟩

theorem exists_of_no_obstacle (h : ¬Obstacle system files input output) :
    ∃ source assembly written, HoldsText (system.read files) input source ∧
      assemble source = .ok assembly ∧
      system.write files output assembly.bytes = (.ok (), written) := by
  by_cases htext : ∃ source, HoldsText (system.read files) input source
  · obtain ⟨source, hsource⟩ := htext
    cases hassemble : assemble source with
    | error cause => exact absurd (.rejected hsource hassemble) h
    | ok assembly =>
      cases hwrite : (system.write files output assembly.bytes).1 with
      | error cause => exact absurd (.unwritable hsource hassemble hwrite) h
      | ok _ => exact ⟨source, assembly, _, hsource, hassemble, Prod.ext hwrite rfl⟩
  · exact absurd (.unreadable (not_exists.1 htext)) h

/-- Without exactly two paths beside the flags the tool refuses its arguments, whatever the files. If
there is an obstacle, it fails. In both cases it prints nothing and changes nothing. Otherwise the
bytes of the source go to the second path, where they can be read back, all other files are as
before, and the tool prints its summary and, if asked to, a line for each symbol, in ascending order
of their names. -/
theorem assembles_or_changes_nothing (hsystem : system.Reliable same) (files : σ)
    (arguments : List String) :
    ((arguments.filter (· ≠ "--symbols")).length ≠ 2 →
      run system files arguments =
        ({ code := 2, stdout := [], stderr := usage ++ "\n" }, files)) ∧
    ∀ input output, arguments.filter (· ≠ "--symbols") = [input, output] →
      (Obstacle system files input output →
        ∃ message, run system files arguments =
          ({ code := 1, stdout := [], stderr := message }, files)) ∧
      (¬Obstacle system files input output →
        ∃ source assembly written listing,
          HoldsText (system.read files) input source ∧ assemble source = .ok assembly ∧
          assembly.symbols.Lists listing ∧
          run system files arguments =
            ({ code := 0
               stdout := utf8 (String.ofList (summaryLine output assembly ++
                 if "--symbols" ∈ arguments then listing.flatMap symbolRow else []))
               stderr := "" }, written) ∧
          system.read written output = .ok assembly.bytes ∧
          ∀ path found, ¬same files output path →
            (system.read written path = .ok found ↔ system.read files path = .ok found)) := by
  refine ⟨run_of_paths_ne, fun input output hpaths => ⟨run_of_obstacle hsystem hpaths, ?_⟩⟩
  intro h
  obtain ⟨source, assembly, written, hsource, hassemble, hwrite⟩ := exists_of_no_obstacle h
  refine ⟨source, assembly, written, assembly.symbols.toList, hsource, hassemble,
    assembly.symbols.lists_toList, ?_, hsystem.written _ _ _ _ hwrite,
    fun path found hother => hsystem.kept _ _ _ _ path hwrite hother found⟩
  have hreport := toList_report output assembly (arguments.contains symbolsFlag)
  simp only [List.contains_iff_mem] at hreport
  rw [run_of_assembled hpaths (assembleFile_eq_ok.2 ⟨source, hsource, hassemble⟩), hwrite, finish,
    textBytes_eq_utf8, ← String.ofList_toList (s := report _ _ _), hreport]
  rfl

end Runs

/-! ## A directory -/

/-- A directory without others in it, in which files can be replaced and created. -/
def plainDirectory : FileSystem (List (String × List Byte)) where
  read files path :=
    match files.lookup path with
    | some content => .ok content
    | none => .error .notFound
  write files path content :=
    if path.toList.contains '/' then (.error .notFound, files)
    else (.ok (), (path, content) :: files)

theorem write_plainDirectory_eq_ok {files later : List (String × List Byte)} {path : String}
    {content : List Byte} (h : plainDirectory.write files path content = (.ok (), later)) :
    later = (path, content) :: files := by
  unfold plainDirectory at h
  simp only at h
  split at h
  · cases h
  · cases h
    rfl

theorem reliable_plainDirectory : plainDirectory.Reliable fun _ path other => path = other where
  failed files path content cause later h := by
    unfold plainDirectory at h
    simp only at h
    split at h
    · cases h
      rfl
    · cases h
  written files path content later h := by
    rw [write_plainDirectory_eq_ok h]
    simp [plainDirectory]
  kept files path content later other h hother found := by
    have hne : (other == path) = false := beq_eq_false_iff_ne.2 fun heq => hother heq.symm
    rw [write_plainDirectory_eq_ok h]
    simp [plainDirectory, List.lookup_cons, hne]

/-- A source that its own image replaces; the image does not begin at address zero. Without a second
path, and with one that leads nowhere, the source stays as it is. -/
theorem assembles_or_changes_nothing_in_place :
    let files := [("a", utf8 " ORG 100h\nGO: NOP")]
    run plainDirectory files ["a"] =
        ({ code := 2, stdout := [], stderr := usage ++ "\n" }, files) ∧
      (∃ message, run plainDirectory files ["a", "b/a"] =
        ({ code := 1, stdout := [], stderr := message }, files)) ∧
      ∃ written, run plainDirectory files ["a", "--symbols", "a"] =
          ({ code := 0
             stdout := utf8 "a: 1 bytes at 0x0100\nGO               0100\n"
             stderr := "" }, written) ∧
        plainDirectory.read written "a" = .ok [0x00] := by
  intro files
  have htext : HoldsText (plainDirectory.read files) "a" " ORG 100h\nGO: NOP" := rfl
  have hknown := eq_ok_get (x := assemble " ORG 100h\nGO: NOP") (by decide +kernel)
  have hnone : ¬Obstacle plainDirectory files "a" "a" := by
    rintro (hunread | ⟨hsource, herror⟩ | ⟨-, -, hwrite⟩)
    · exact hunread _ htext
    · rw [hsource.unique htext, hknown] at herror
      cases herror
    · cases hwrite
  have hall := assembles_or_changes_nothing reliable_plainDirectory files
  obtain ⟨source, assembly, written, listing, hsource, hassemble, hlists, hrun, hread, -⟩ :=
    ((hall ["a", "--symbols", "a"]).2 "a" "a" (by decide)).2 hnone
  rw [hsource.unique htext, hknown] at hassemble
  cases hassemble
  have hprinted : (run plainDirectory files ["a", "--symbols", "a"]).1.stdout =
      utf8 "a: 1 bytes at 0x0100\nGO               0100\n" := by decide +kernel
  refine ⟨(hall ["a"]).1 (by decide), ?_, written, ?_, ?_⟩
  · exact ((hall ["a", "b/a"]).2 "a" "b/a" (by decide)).1 (.unwritable htext hknown rfl)
  · rw [hrun] at hprinted ⊢
    rw [← hprinted]
  · rw [hread]
    decide +kernel

end Assemble
end Command
end Banked8085
