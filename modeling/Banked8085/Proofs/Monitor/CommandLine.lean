import Mathlib.Data.List.Induction
import Banked8085.Monitor.Settings
import Banked8085.Proofs.Text.Digits

/-! # Command lines of the monitor

A command line is read from the left into complete arguments (`Reads`), and each kind of argument is
judged on its own: the settings exist exactly if all arguments are accepted, and are read off the
names and the last value of each option (`command_line_grammar`). An argument can therefore stand
anywhere, as long as names stay in order and so do the values of one option.
-/

namespace Banked8085.Monitor
set_option autoImplicit false

/-! ## Numbers -/

theorem parseBudget_eq_ok_iff {value : String} {n : UInt64} :
    parseBudget value = .ok n ↔ Numeral.Signed 10 value.toList n.toNat := by
  have hlimit : n.toNat ≤ budgetLimit := Nat.le_of_lt_succ n.toNat_lt
  unfold parseBudget
  cases hread : Numeral.read 10 budgetLimit value.toList with
  | error cause =>
    refine iff_of_false nofun fun hsigned => ?_
    rw [(Numeral.read_eq_ok_iff (by decide)).2 ⟨hsigned, hlimit⟩] at hread
    cases hread
  | ok m =>
    obtain ⟨hsigned, hm⟩ := (Numeral.read_eq_ok_iff (by decide)).1 hread
    have hm' : (UInt64.ofNat m).toNat = m := UInt64.toNat_ofNat_of_lt' (Nat.lt_succ_of_le hm)
    constructor
    · intro h
      obtain rfl := Except.ok.inj h
      rwa [hm']
    · intro h
      have hsame := hread.symm.trans ((Numeral.read_eq_ok_iff (by decide)).2 ⟨h, hlimit⟩)
      obtain rfl := Except.ok.inj hsame
      exact congrArg Except.ok UInt64.ofNat_toNat

/-! ## Complete arguments -/

/-- An option with the value that it takes, or a name. -/
inductive Argument
  | budget (value : String)
  | dump (value : String)
  | echo
  | unknown (option : String)
  | name (text : String)
deriving DecidableEq

namespace Argument

/-- An option that takes a value takes the word behind it, whatever that looks like. -/
def words : Argument → List String
  | .budget value => ["--max-steps", value]
  | .dump value => ["--dump", value]
  | .echo => ["--echo"]
  | .unknown option => [option]
  | .name text => [text]

/-- A name does not look like an option, and an unknown option is none of the others. -/
def Complete : Argument → Prop
  | .unknown option => isOption option = true ∧ option ∉ ["--max-steps", "--dump", "--echo"]
  | .name text => isOption text = false
  | _ => True

def budget? : Argument → Option String
  | .budget value => some value
  | _ => none

def dump? : Argument → Option String
  | .dump value => some value
  | _ => none

def name? : Argument → Option String
  | .name text => some text
  | _ => none

def budgets (arguments : List Argument) : List String := arguments.filterMap budget?

def dumps (arguments : List Argument) : List String := arguments.filterMap dump?

def names (arguments : List Argument) : List String := arguments.filterMap name?

/-- Values can be read, and no option is unknown. -/
def Accepted : Argument → Prop
  | .budget value => ∃ n, parseBudget value = .ok n
  | .dump value => ∃ start, parseAddress value = .ok start
  | .unknown _ => False
  | _ => True

end Argument

/-- The words of a command line, read from the left as one complete argument after the other. -/
inductive Reads : List String → List Argument → Prop
  | nil : Reads [] []
  | cons {argument line arguments} (hcomplete : argument.Complete) (h : Reads line arguments) :
    Reads (argument.words ++ line) (argument :: arguments)

/-- There are one to three names, of which the third is an address. -/
structure Accepted (arguments : List Argument) : Prop where
  each : ∀ argument ∈ arguments, argument.Accepted
  some_name : 1 ≤ (Argument.names arguments).length
  three_names : (Argument.names arguments).length ≤ 3
  address : ∀ text, (Argument.names arguments)[2]? = some text →
    ∃ start, parseAddress text = .ok start

/-- What the options say; of several values the last one counts. -/
def describedOptions (arguments : List Argument) : Settings where
  stepBudget := (Argument.budgets arguments).getLast?.bind fun value => (parseBudget value).toOption
  echo := decide (Argument.echo ∈ arguments)
  dump := (Argument.dumps arguments).getLast?.bind fun value => (parseAddress value).toOption

/-- What the options and the names say. -/
def described (arguments : List Argument) : Settings :=
  { describedOptions arguments with
    bios := (Argument.names arguments)[0]?
    program := (Argument.names arguments)[1]?
    programAddress :=
      ((Argument.names arguments)[2]?.bind fun text => (parseAddress text).toOption).getD 0x2000 }

/-- The same arguments in another order, in which names and the values of one option keep theirs. -/
structure Rearranged (first second : List Argument) : Prop where
  perm : first.Perm second
  names : Argument.names first = Argument.names second
  budgets : Argument.budgets first = Argument.budgets second
  dumps : Argument.dumps first = Argument.dumps second

/-! ## Options -/

/-- What one argument does to the settings when it is read. -/
def Argument.apply (settings : Settings) : Argument → Except SettingsError Settings
  | .budget value => do
    let n ← parseBudget value
    pure { settings with stepBudget := some n }
  | .dump value => do
    let start ← parseAddress value
    pure { settings with dump := some start }
  | .echo => pure { settings with echo := true }
  | .unknown option => throw (.unknownOption option)
  | .name _ => pure settings

variable {line : List String} {arguments : List Argument}

/-- The options are applied in order, and the names are left over. -/
theorem readOptions_eq (h : Reads line arguments) (settings : Settings) :
    settings.readOptions line =
      (arguments.foldlM Argument.apply settings >>= fun applied =>
        pure (applied, Argument.names arguments)) := by
  induction h generalizing settings with
  | nil => rfl
  | @cons argument line arguments hcomplete _ ih =>
    rw [List.foldlM_cons, Settings.readOptions.eq_def]
    cases argument with
    | budget value =>
      dsimp only [Argument.words, List.cons_append, List.nil_append, Argument.apply]
      rw [if_pos rfl]
      cases parseBudget value with
      | error e => rfl
      | ok n => exact ih _
    | dump value =>
      dsimp only [Argument.words, List.cons_append, List.nil_append, Argument.apply]
      rw [if_neg (by decide), if_neg (by decide), if_pos rfl]
      cases parseAddress value with
      | error e => rfl
      | ok start => exact ih _
    | echo =>
      dsimp only [Argument.words, List.cons_append, List.nil_append]
      rw [if_neg (by decide), if_pos rfl]
      exact ih _
    | unknown option =>
      obtain ⟨hoption, hother⟩ := hcomplete
      simp only [List.mem_cons, List.not_mem_nil, or_false, not_or] at hother
      dsimp only [Argument.words, List.cons_append, List.nil_append]
      rw [if_neg hother.1, if_neg hother.2.2, if_neg hother.2.1, if_pos hoption]
      rfl
    | name text =>
      have htext : isOption text = false := hcomplete
      have hother : ∀ option, isOption option = true → text ≠ option := by
        rintro option hoption rfl
        exact absurd hoption (Bool.eq_false_iff.1 htext)
      dsimp only [Argument.words, List.cons_append, List.nil_append]
      rw [if_neg (hother _ (by decide)), if_neg (hother _ (by decide)),
        if_neg (hother _ (by decide)), if_neg (Bool.eq_false_iff.1 htext), ih]
      show _ = arguments.foldlM Argument.apply settings >>= _
      cases arguments.foldlM Argument.apply settings with
      | error e => rfl
      | ok applied => rfl

theorem exists_reads_of_readOptions {settings : Settings} {result : Settings × List String}
    (h : settings.readOptions line = .ok result) : ∃ arguments, Reads line arguments := by
  fun_induction Settings.readOptions settings line generalizing result with
  | case1 => exact ⟨[], .nil⟩
  | case2 => cases h
  | case3 settings value line ih =>
    obtain ⟨n, -, hrest⟩ := bind_eq_ok.1 h
    obtain ⟨arguments, hreads⟩ := ih n hrest
    exact ⟨_, @Reads.cons (.budget value) _ _ trivial hreads⟩
  | case4 settings line _ ih =>
    obtain ⟨arguments, hreads⟩ := ih h
    exact ⟨_, @Reads.cons .echo _ _ trivial hreads⟩
  | case5 => cases h
  | case6 settings value line _ _ ih =>
    obtain ⟨start, -, hrest⟩ := bind_eq_ok.1 h
    obtain ⟨arguments, hreads⟩ := ih start hrest
    exact ⟨_, @Reads.cons (.dump value) _ _ trivial hreads⟩
  | case7 => cases h
  | case8 settings text line _ _ _ hoption ih =>
    obtain ⟨rest, hrest, -⟩ := bind_eq_ok.1 h
    obtain ⟨arguments, hreads⟩ := ih hrest
    exact ⟨_, @Reads.cons (.name text) _ _ (Bool.eq_false_iff.2 hoption) hreads⟩

theorem bind_set_eq_ok {ε α β : Type} {x : Except ε α} (set : Option α → β) {b : β} :
    (x >>= fun a => pure (set (some a))) = .ok b ↔ (∃ a, x = .ok a) ∧ b = set x.toOption := by
  cases x with
  | error e => exact iff_of_false nofun fun h => nomatch h.1
  | ok a =>
    constructor
    · intro h
      exact ⟨⟨a, rfl⟩, (Except.ok.inj h).symm⟩
    · rintro ⟨-, rfl⟩
      rfl

/-- The argument that is read last has the last word on its option. -/
theorem apply_describedOptions {argument : Argument} {settings : Settings} :
    argument.apply (describedOptions arguments) = .ok settings ↔
      argument.Accepted ∧ settings = describedOptions (arguments ++ [argument]) := by
  cases argument with
  | budget value =>
    have hlast : describedOptions (arguments ++ [.budget value]) =
        { describedOptions arguments with stepBudget := (parseBudget value).toOption } := by
      simp [describedOptions, Argument.budgets, Argument.dumps, Argument.budget?, Argument.dump?]
    rw [hlast]
    exact bind_set_eq_ok fun n => { describedOptions arguments with stepBudget := n }
  | dump value =>
    have hlast : describedOptions (arguments ++ [.dump value]) =
        { describedOptions arguments with dump := (parseAddress value).toOption } := by
      simp [describedOptions, Argument.budgets, Argument.dumps, Argument.budget?, Argument.dump?]
    rw [hlast]
    exact bind_set_eq_ok fun start => { describedOptions arguments with dump := start }
  | echo =>
    have hlast : describedOptions (arguments ++ [.echo]) =
        { describedOptions arguments with echo := true } := by
      simp [describedOptions, Argument.budgets, Argument.dumps, Argument.budget?, Argument.dump?]
    rw [hlast, Argument.apply, pure_eq_ok]
    exact ⟨fun h => ⟨trivial, h.symm⟩, fun h => h.2.symm⟩
  | unknown option => exact iff_of_false nofun fun h => h.1
  | name text =>
    have hlast : describedOptions (arguments ++ [.name text]) = describedOptions arguments := by
      simp [describedOptions, Argument.budgets, Argument.dumps, Argument.budget?, Argument.dump?]
    rw [hlast, Argument.apply, pure_eq_ok]
    exact ⟨fun h => ⟨trivial, h.symm⟩, fun h => h.2.symm⟩

/-- Of the values of an option, the last one replaces the others. -/
theorem foldlM_apply_eq_ok {settings : Settings} :
    arguments.foldlM Argument.apply {} = .ok settings ↔
      (∀ argument ∈ arguments, argument.Accepted) ∧ settings = describedOptions arguments := by
  induction arguments using List.reverseRecOn generalizing settings with
  | nil =>
    rw [List.foldlM_nil, pure_eq_ok]
    exact ⟨fun h => ⟨fun _ hmem => absurd hmem List.not_mem_nil, h.symm⟩, fun h => h.2.symm⟩
  | append_singleton arguments argument ih =>
    rw [foldlM_concat_eq_ok, List.forall_mem_append, List.forall_mem_singleton]
    constructor
    · rintro ⟨middle, hmiddle, hlast⟩
      obtain ⟨hall, rfl⟩ := ih.1 hmiddle
      obtain ⟨hargument, heq⟩ := apply_describedOptions.1 hlast
      exact ⟨⟨hall, hargument⟩, heq⟩
    · rintro ⟨⟨hall, hargument⟩, heq⟩
      exact ⟨_, ih.2 ⟨hall, rfl⟩, apply_describedOptions.2 ⟨hargument, heq⟩⟩

/-! ## Names -/

theorem readNames_eq_ok {settings : Settings} :
    (describedOptions arguments).readNames (Argument.names arguments) = .ok settings ↔
      (1 ≤ (Argument.names arguments).length ∧ (Argument.names arguments).length ≤ 3 ∧
        ∀ text, (Argument.names arguments)[2]? = some text →
          ∃ start, parseAddress text = .ok start) ∧
      settings = described arguments := by
  unfold described
  generalize Argument.names arguments = names
  match names with
  | [] => exact iff_of_false nofun fun h => absurd h.1.1 (by decide)
  | [bios] =>
    constructor
    · intro h
      exact ⟨⟨by simp, by simp, nofun⟩, (Except.ok.inj h).symm⟩
    · rintro ⟨-, rfl⟩
      rfl
  | [bios, program] =>
    constructor
    · intro h
      exact ⟨⟨by simp, by simp, nofun⟩, (Except.ok.inj h).symm⟩
    · rintro ⟨-, rfl⟩
      rfl
  | [bios, program, address] =>
    simp only [Settings.readNames]
    cases haddress : parseAddress address with
    | error e =>
      refine iff_of_false nofun fun h => ?_
      obtain ⟨start, hstart⟩ := h.1.2.2 address rfl
      cases haddress.symm.trans hstart
    | ok start =>
      constructor
      · intro h
        refine ⟨⟨by simp, by simp, fun text htext => ⟨start, ?_⟩⟩, ?_⟩
        · obtain rfl := Option.some.inj htext
          exact haddress
        · obtain rfl := Except.ok.inj h
          simp [haddress, Except.toOption]
      · rintro ⟨-, rfl⟩
        simp [haddress, Except.toOption]
  | bios :: program :: address :: name :: surplus =>
    refine iff_of_false (fun h => ?_) fun h => ?_
    · obtain ⟨start, -, hsurplus⟩ := bind_eq_ok.1 h
      cases hsurplus
    · have hlength : surplus.length + 4 ≤ 3 := h.1.2.1
      omega

/-! ## Command lines -/

/-- The first word tells the kind of argument, and the kind how many words belong to it. -/
theorem Argument.first_unique {first second : Argument} {s t : List String}
    (hfirst : first.Complete) (hsecond : second.Complete)
    (h : first.words ++ s = second.words ++ t) : first = second ∧ s = t := by
  have hbudget : isOption "--max-steps" = true := by decide
  have hdump : isOption "--dump" = true := by decide
  have hecho : isOption "--echo" = true := by decide
  cases first <;> cases second <;> simp_all [Argument.words, Argument.Complete]

/-- What is read first does not depend on what follows. -/
theorem Reads.of_append {tail : List String} {all : List Argument} (h : Reads line arguments)
    (hall : Reads (line ++ tail) all) : ∃ rest, all = arguments ++ rest ∧ Reads tail rest := by
  induction h generalizing all with
  | nil => exact ⟨all, rfl, hall⟩
  | @cons argument line arguments hcomplete _ ih =>
    rw [List.append_assoc] at hall
    generalize hwords : argument.words ++ (line ++ tail) = words at hall
    cases hall with
    | nil => cases argument <;> cases hwords
    | cons hother hrest =>
      obtain ⟨rfl, rfl⟩ := Argument.first_unique hcomplete hother hwords
      obtain ⟨rest, rfl, htail⟩ := ih hrest
      exact ⟨rest, rfl, htail⟩

theorem Reads.append {tail : List String} {rest : List Argument} (h : Reads line arguments)
    (htail : Reads tail rest) : Reads (line ++ tail) (arguments ++ rest) := by
  induction h with
  | nil => exact htail
  | cons hcomplete _ ih =>
    rw [List.append_assoc]
    exact .cons hcomplete ih

theorem ofArguments_eq_ok {settings : Settings} :
    Settings.ofArguments line = .ok settings ↔
      ∃ arguments, Reads line arguments ∧ Accepted arguments ∧ settings = described arguments := by
  rw [Settings.ofArguments, bind_eq_ok]
  constructor
  · rintro ⟨⟨applied, names⟩, hread, hnames⟩
    obtain ⟨arguments, hreads⟩ := exists_reads_of_readOptions hread
    rw [readOptions_eq hreads, bind_eq_ok] at hread
    obtain ⟨options, happlied, hpair⟩ := hread
    obtain ⟨hall, rfl⟩ := foldlM_apply_eq_ok.1 happlied
    obtain ⟨rfl, rfl⟩ := Prod.mk.inj (pure_eq_ok.1 hpair)
    obtain ⟨⟨hone, hthree, haddress⟩, heq⟩ := readNames_eq_ok.1 hnames
    exact ⟨arguments, hreads, ⟨hall, hone, hthree, haddress⟩, heq⟩
  · rintro ⟨arguments, hreads, h, heq⟩
    refine ⟨(describedOptions arguments, Argument.names arguments), ?_, ?_⟩
    · rw [readOptions_eq hreads, foldlM_apply_eq_ok.2 ⟨h.each, rfl⟩]
      rfl
    · exact readNames_eq_ok.2 ⟨⟨h.some_name, h.three_names, h.address⟩, heq⟩

namespace Rearranged
variable {first second : List Argument}

theorem symm (h : Rearranged first second) : Rearranged second first :=
  ⟨h.perm.symm, h.names.symm, h.budgets.symm, h.dumps.symm⟩

theorem append (h : Rearranged first second) (rest : List Argument) :
    Rearranged (first ++ rest) (second ++ rest) := by
  refine ⟨h.perm.append_right rest, ?_, ?_, ?_⟩
  · rw [Argument.names, Argument.names, List.filterMap_append, List.filterMap_append]
    exact congrArg (· ++ _) h.names
  · rw [Argument.budgets, Argument.budgets, List.filterMap_append, List.filterMap_append]
    exact congrArg (· ++ _) h.budgets
  · rw [Argument.dumps, Argument.dumps, List.filterMap_append, List.filterMap_append]
    exact congrArg (· ++ _) h.dumps

theorem accepted (h : Rearranged first second) (hfirst : Accepted first) : Accepted second := by
  refine ⟨fun argument hmem => hfirst.each argument (h.perm.mem_iff.2 hmem), ?_, ?_, ?_⟩
  · exact h.names ▸ hfirst.some_name
  · exact h.names ▸ hfirst.three_names
  · exact h.names ▸ hfirst.address

theorem described_eq (h : Rearranged first second) : described first = described second := by
  have hecho : Argument.echo ∈ first ↔ Argument.echo ∈ second := h.perm.mem_iff
  have hoptions : describedOptions first = describedOptions second := by
    simp only [describedOptions, h.budgets, h.dumps, hecho]
  rw [described, described, hoptions, h.names]

theorem ofArguments_of_eq_ok {line line' : List String} (h : Rearranged first second)
    (hfirst : Reads line first) (hsecond : Reads line' second) {tail : List String}
    {settings : Settings} (hline : Settings.ofArguments (line ++ tail) = .ok settings) :
    Settings.ofArguments (line' ++ tail) = .ok settings := by
  obtain ⟨all, hreads, haccepted, rfl⟩ := ofArguments_eq_ok.1 hline
  obtain ⟨rest, rfl, htail⟩ := hfirst.of_append hreads
  have hall := h.append rest
  exact ofArguments_eq_ok.2
    ⟨second ++ rest, hsecond.append htail, hall.accepted haccepted, hall.described_eq⟩

end Rearranged

/-- A command line is read in one way only. It gives settings exactly if all its arguments are
accepted, where the value of a budget is an unsigned decimal number that may have a plus sign in
front, and the settings are what the arguments say. Arguments at the start of a line can be
rearranged, whatever follows them. -/
theorem command_line_grammar :
    (∀ line first second, Reads line first → Reads line second → first = second) ∧
    (∀ line settings, Settings.ofArguments line = .ok settings ↔
      ∃ arguments, Reads line arguments ∧ Accepted arguments ∧ settings = described arguments) ∧
    (∀ value n, parseBudget value = .ok n ↔ Numeral.Signed 10 value.toList n.toNat) ∧
    ∀ line line' first second, Reads line first → Reads line' second → Rearranged first second →
      ∀ tail settings, Settings.ofArguments (line ++ tail) = .ok settings ↔
        Settings.ofArguments (line' ++ tail) = .ok settings := by
  refine ⟨?_, fun line settings => ofArguments_eq_ok, fun value n => parseBudget_eq_ok_iff, ?_⟩
  · intro line first second hfirst hsecond
    rw [← List.append_nil line] at hsecond
    obtain ⟨rest, rfl, htail⟩ := hfirst.of_append hsecond
    generalize hnil : [] = words at htail
    cases htail with
    | nil => exact (List.append_nil first).symm
    | @cons argument => cases argument <;> cases hnil
  · intro line line' first second hfirst hsecond h tail settings
    exact ⟨h.ofArguments_of_eq_ok hfirst hsecond, h.symm.ofArguments_of_eq_ok hsecond hfirst⟩

/-- A repeated option is moved behind the names and another one to the front. -/
theorem command_line_grammar_moved :
    Settings.ofArguments (["bios", "--max-steps", "7", "prog", "--max-steps", "+12", "--echo"] ++
        ["--dump", "20h"]) =
          .ok ⟨some "bios", some "prog", 0x2000, 1000, some 12, true, some 0x20⟩ ∧
      Settings.ofArguments (["--echo", "--max-steps", "7", "bios", "prog", "--max-steps", "+12"] ++
        ["--dump", "20h"]) =
          .ok ⟨some "bios", some "prog", 0x2000, 1000, some 12, true, some 0x20⟩ := by
  obtain ⟨-, hsettings, -, hmoved⟩ := command_line_grammar
  let first : List Argument :=
    [.name "bios", .budget "7", .name "prog", .budget "+12", .echo]
  let second : List Argument :=
    [.echo, .budget "7", .name "bios", .name "prog", .budget "+12"]
  have hbios : isOption "bios" = false := by decide
  have hprog : isOption "prog" = false := by decide
  have hfirst : Reads ["bios", "--max-steps", "7", "prog", "--max-steps", "+12", "--echo"] first :=
    @Reads.cons (.name "bios") _ _ hbios <| @Reads.cons (.budget "7") _ _ trivial <|
      @Reads.cons (.name "prog") _ _ hprog <| @Reads.cons (.budget "+12") _ _ trivial <|
      @Reads.cons .echo _ _ trivial .nil
  have hsecond :
      Reads ["--echo", "--max-steps", "7", "bios", "prog", "--max-steps", "+12"] second :=
    @Reads.cons .echo _ _ trivial <| @Reads.cons (.budget "7") _ _ trivial <|
      @Reads.cons (.name "bios") _ _ hbios <| @Reads.cons (.name "prog") _ _ hprog <|
      @Reads.cons (.budget "+12") _ _ trivial .nil
  have hdump : Reads ["--dump", "20h"] [.dump "20h"] := @Reads.cons (.dump "20h") _ _ trivial .nil
  have hrearranged : Rearranged first second := ⟨by decide, by decide, by decide, by decide⟩
  have haccepted : Accepted (first ++ [.dump "20h"]) := by
    refine ⟨?_, by decide, by decide, nofun⟩
    intro argument hmem
    simp only [first, List.cons_append, List.nil_append, List.mem_cons, List.not_mem_nil,
      or_false] at hmem
    obtain rfl | rfl | rfl | rfl | rfl | rfl := hmem
    exacts [trivial, ⟨7, by decide +kernel⟩, trivial, ⟨12, by decide +kernel⟩, trivial,
      ⟨0x20, by decide +kernel⟩]
  have hline := (hsettings _ _).2 ⟨_, hfirst.append hdump, haccepted, rfl⟩
  have hdescribed : described (first ++ [.dump "20h"]) =
      ⟨some "bios", some "prog", 0x2000, 1000, some 12, true, some 0x20⟩ := by decide +kernel
  rw [hdescribed] at hline
  exact ⟨hline, (hmoved _ _ _ _ hfirst hsecond hrearranged _ _).1 hline⟩

end Banked8085.Monitor
