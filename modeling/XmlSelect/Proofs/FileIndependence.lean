import XmlSelect.CommandLine.Run
import XmlSelect.Proofs.CacheRefinement

/-! Files on the command line do not see each other. They share a cache and the standard input, but
whatever a cache has been asked before, its verdicts are those of the validator, and the standard
input is read for one file at most. What is printed for each file is then what a run on it alone
prints, and how the cache is kept makes no difference. How arguments are read and which encodings
there are is left open. -/
namespace XmlSelect

namespace Gate

variable {cache : Cache} {maxLength : Nat}

/-- The cache holds nothing but what the usual validator accepts with a greatest length. -/
def Cache.Faithful (cache : Cache) (maxLength : Nat) : Prop :=
  ∃ list : UseList, cache.Refines list ∧ list.Sound ∧ list.validator = {} ∧
    list.settings.maxLength = maxLength

namespace Cache.Faithful

theorem new (settings : Settings) : Cache.Faithful { settings } settings.maxLength :=
  ⟨{ settings, validator := {} }, ⟨rfl, rfl, [], .empty, rfl⟩,
    ⟨List.nodup_nil, Nat.zero_le _, nofun⟩, rfl, rfl⟩

theorem verdict (faithful : cache.Faithful maxLength) (text : Text) :
    (cache.check text).1 = Validator.validate {} text maxLength := by
  obtain ⟨list, refines, sound, validator, rfl⟩ := faithful
  rw [refines.check_verdict sound, validator]

theorem check (faithful : cache.Faithful maxLength) (text : Text) :
    (cache.check text).2.Faithful maxLength := by
  obtain ⟨list, refines, sound, validator, limit⟩ := faithful
  refine ⟨_, refines.check text, sound.check text,
    (UseList.validator_serve list (.check text)).trans validator, ?_⟩
  rw [UseList.settings_check, limit]

/-- The answer of a query without a cache. -/
theorem run_fst (faithful : cache.Faithful maxLength) (document : Document) (node : Nat)
    (kind : QueryKind) (selector : Text) :
    (Query.run cache document node kind selector).1 =
      (Query.toXPath kind selector).bind fun expression =>
        ((Validator.validate {} expression maxLength).mapError QueryError.rejected).bind fun _ =>
          Query.evaluateNodes document node expression := by
  simp only [Gate.run_fst, faithful.verdict]

theorem run (faithful : cache.Faithful maxLength) (document : Document) (node : Nat)
    (kind : QueryKind) (selector : Text) :
    (Query.run cache document node kind selector).2.Faithful maxLength := by
  unfold Query.run
  cases Query.toXPath kind selector with
  | error => exact faithful
  | ok expression =>
    have kept := faithful.check expression
    dsimp only
    rcases checked : cache.check expression with ⟨_ | _, after⟩ <;> rw [checked] at kept <;>
      exact kept

end Cache.Faithful

end Gate

namespace CommandLine

open Gate (Cache)

namespace Outcome

@[simp] theorem printed_append (earlier later : Outcome) :
    (earlier ++ later).printed = earlier.printed ++ later.printed := rfl

@[simp] theorem complaints_append (earlier later : Outcome) :
    (earlier ++ later).complaints = earlier.complaints ++ later.complaints := rfl

@[simp] theorem code_append (earlier later : Outcome) :
    (earlier ++ later).status.code = max earlier.status.code later.status.code := by
  change (earlier.status.worse later.status).code = _
  unfold Status.worse
  split <;> omega

@[simp] theorem append_empty (outcome : Outcome) : outcome ++ {} = outcome := by
  obtain ⟨status, printed, complaints, paths⟩ := outcome
  change Outcome.mk (status.worse .success) (printed ++ []) (complaints ++ []) (paths ++ []) = _
  rw [List.append_nil, List.append_nil, List.append_nil]
  rfl

/-- Outcomes one after another. -/
def concat (outcomes : List Outcome) : Outcome := outcomes.foldr (· ++ ·) {}

section Concat

variable (outcomes : List Outcome)

theorem printed_concat : (concat outcomes).printed = outcomes.flatMap (·.printed) := by
  induction outcomes with
  | nil => rfl
  | cons first rest ih => exact congrArg (first.printed ++ ·) ih

theorem complaints_concat : (concat outcomes).complaints = outcomes.flatMap (·.complaints) := by
  induction outcomes with
  | nil => rfl
  | cons first rest ih => exact congrArg (first.complaints ++ ·) ih

/-- The greatest code counts. -/
theorem code_concat :
    (concat outcomes).status.code = (outcomes.map (·.status.code)).foldr max 0 := by
  induction outcomes with
  | nil => rfl
  | cons first rest ih =>
    rw [List.map_cons, List.foldr_cons, ← ih]
    exact code_append first (concat rest)

end Concat

end Outcome

/-- The options are the same, those of the cache and the files apart. -/
structure Arguments.SameButCache (given other : Arguments) : Prop where
  switches : ∀ switch, switch ≠ .noCache → other.has switch = given.has switch
  settings : ∀ setting, setting ≠ .cacheSize → other.value? setting = given.value? setting

/-- A file has the same bytes in both, and so have all files that it may ask for. -/
def Inputs.SameFor (inputs other : Inputs) (name : Text) : Prop :=
  other.file = inputs.file ∧ (name = ['-'] → other.standard = inputs.standard)

theorem Inputs.SameFor.after {start inputs : Inputs} {name : Text} {rest : List Text}
    (same : ∀ other ∈ name :: rest, start.SameFor inputs other)
    (once : (name :: rest).count ['-'] ≤ 1) :
    ∀ other ∈ rest, start.SameFor (inputs.after name) other := by
  intro other member
  have here := same other (List.mem_cons_of_mem name member)
  unfold Inputs.after
  split
  · rename_i standard
    rw [List.count_cons, if_pos standard] at once
    refine ⟨here.1, fun again => ?_⟩
    have twice := List.count_pos_iff.mpr (again ▸ member)
    omega
  · exact here

namespace Command

/-- The commands query each file in the same way. -/
structure Alike (command other : Command) : Prop where
  kind : other.kind = command.kind
  selector : other.selector = command.selector
  given : command.given.SameButCache other.given

/-- The commands have the same options; the files may be others. -/
structure SameOptions (command other : Command) : Prop where
  kind : other.kind = command.kind
  selector : other.selector = command.selector
  switches : ∀ switch, other.given.has switch = command.given.has switch
  settings : ∀ setting, other.given.value? setting = command.given.value? setting

/-- The command with the same options for one file. -/
def on (command : Command) (name : Text) : Command :=
  { command with given := { command.given with files := [name] } }

variable {command other : Command} {inputs inputs' : Inputs} {cache cache' : Cache}
  {maxLength : Nat} {name : Text}

theorem SameOptions.alike (same : command.SameOptions other) : command.Alike other :=
  ⟨same.kind, same.selector, fun switch _ => same.switches switch,
    fun setting _ => same.settings setting⟩

theorem SameOptions.settings_eq (same : command.SameOptions other) :
    other.settings = command.settings := by
  simp only [Command.settings, same.switches, same.settings]

theorem sameOptions_on (command : Command) (name : Text) : command.SameOptions (command.on name) :=
  ⟨rfl, rfl, fun _ => rfl, fun _ => rfl⟩

/-- What a query comes to for the file. -/
def answer (command : Command) (name : Text) (document : Document) :
    Except QueryError (List Nat) → Outcome
  | .ok nodes => { printed := command.printNodes document nodes }
  | .error error =>
    { status := if error.isInputValidation then .rejected else .failed
      complaints := complaint name error.message }

theorem queryDocument_eq (command : Command) (cache : Cache) (name : Text) (document : Document) :
    command.queryDocument cache name document =
      (command.answer name document
        (Query.run cache document Document.root command.kind command.selector).1,
       (Query.run cache document Document.root command.kind command.selector).2) := by
  unfold queryDocument
  rcases Query.run cache document Document.root command.kind command.selector with ⟨_ | _, after⟩ <;>
    rfl

section Alike

variable (alike : command.Alike other)

include alike

theorem Alike.answer : other.answer = command.answer := by
  funext name document result
  have first := alike.given.switches .first (by decide)
  have count := alike.given.switches .count (by decide)
  cases result with
  | error => rfl
  | ok nodes => simp only [Command.answer, printNodes, first, count]

theorem Alike.options (same : inputs.SameFor inputs' name) :
    other.options inputs' name = command.options inputs name := by
  have allowed := alike.given.switches .allowExternalEntities (by decide)
  have entities : inputs'.entity? = inputs.entity? := by
    funext folder request
    rw [Inputs.entity?, Inputs.entity?, same.1]
  rw [Command.options, Command.options, allowed, entities]

theorem Alike.warnings (name : Text) (diagnostics : List Markup.Diagnostic) :
    other.warnings name diagnostics = command.warnings name diagnostics := by
  rw [Command.warnings, Command.warnings, alike.given.switches .verbose (by decide)]

/-- What comes of a file depends neither on the cache nor on other files. -/
theorem Alike.queryFile_fst [Encoding.Library] (faithful : cache.Faithful maxLength)
    (faithful' : cache'.Faithful maxLength) (same : inputs.SameFor inputs' name) :
    (other.queryFile inputs' cache' name).1 = (command.queryFile inputs cache name).1 := by
  have bytes : inputs'.read name = inputs.read name := by
    unfold Inputs.read
    split
    · rename_i standard
      rw [same.2 (eq_of_beq standard)]
    · rw [same.1]
  unfold queryFile
  rw [bytes]
  cases inputs.read name with
  | error => rfl
  | ok bytes =>
    dsimp only
    rw [alike.options same]
    cases Markup.parseBytes (command.options inputs name) bytes with
    | error => rfl
    | ok reading =>
      simp only [queryDocument_eq, alike.answer, alike.warnings, alike.kind, alike.selector,
        faithful.run_fst, faithful'.run_fst]

end Alike

/-- The greatest length is read from its own argument alone. -/
theorem settings_maxLength {settings : Gate.Settings} (valid : command.settings = .ok settings) :
    (match command.given.value? .maxLength with
      | some text => Gate.parseLimit Setting.maxLength.text text
      | none => .ok 10000) = .ok settings.maxLength := by
  obtain ⟨maxLength, found, valid⟩ := bind_ok valid
  obtain ⟨maxSize, -, valid⟩ := bind_ok valid
  cases valid
  exact found

theorem Alike.maxLength_eq (alike : command.Alike other) {settings settings' : Gate.Settings}
    (valid : command.settings = .ok settings) (valid' : other.settings = .ok settings') :
    settings'.maxLength = settings.maxLength := by
  have same := settings_maxLength valid'
  rw [alike.given.settings .maxLength (by decide), settings_maxLength valid] at same
  exact (Except.ok.inj same).symm

section Files

variable [Encoding.Library]

theorem queryFile_snd (command : Command) (inputs : Inputs) (name : Text)
    (faithful : cache.Faithful maxLength) :
    (command.queryFile inputs cache name).2.Faithful maxLength := by
  unfold queryFile
  cases inputs.read name with
  | error => exact faithful
  | ok bytes =>
    dsimp only
    cases Markup.parseBytes (command.options inputs name) bytes with
    | error => exact faithful
    | ok reading =>
      dsimp only
      rw [queryDocument_eq]
      exact faithful.run ..

/-- How the cache is kept makes no difference. -/
theorem Alike.queryFiles (alike : command.Alike other) (faithful : cache.Faithful maxLength)
    (faithful' : cache'.Faithful maxLength) (inputs : Inputs) (files : List Text) :
    other.queryFiles inputs cache' files = command.queryFiles inputs cache files := by
  induction files generalizing inputs cache cache' with
  | nil => rfl
  | cons name rest ih =>
    have here : (other.queryFile inputs cache' name).1 = (command.queryFile inputs cache name).1 :=
      alike.queryFile_fst faithful faithful' ⟨rfl, fun _ => rfl⟩
    have behind := ih (command.queryFile_snd inputs name faithful)
      (other.queryFile_snd inputs name faithful') (inputs.after name)
    rw [Command.queryFiles, Command.queryFiles]
    dsimp only
    rw [here, behind]

/-- The files come one after another, each as if it were the only one. -/
theorem queryFiles_eq {fresh : Cache} (faithful : cache.Faithful maxLength)
    (faithful' : fresh.Faithful maxLength) {start : Inputs} {files : List Text}
    (once : files.count ['-'] ≤ 1) (same : ∀ name ∈ files, start.SameFor inputs name) :
    command.queryFiles inputs cache files =
      .concat (files.map fun name => (command.queryFile start fresh name).1) := by
  have alike : command.Alike command := ⟨rfl, rfl, fun _ _ => rfl, fun _ _ => rfl⟩
  induction files generalizing inputs cache with
  | nil => rfl
  | cons name rest ih =>
    have here : (command.queryFile inputs cache name).1 = (command.queryFile start fresh name).1 :=
      alike.queryFile_fst faithful' faithful (same name List.mem_cons_self)
    have behind := ih (command.queryFile_snd inputs name faithful)
      (Nat.le_trans (List.count_le_count_cons ..) once) (Inputs.SameFor.after same once)
    rw [Command.queryFiles]
    dsimp only
    rw [here, behind]
    rfl

end Files

section Runs

variable [Encoding.Library] {settings : Gate.Settings} (valid : command.settings = .ok settings)

include valid

theorem run_eq (inputs : Inputs) :
    command.run inputs = command.queryFiles inputs { settings } command.given.files := by
  rw [Command.run, valid]

/-- A run on one file comes to what the file comes to among others. -/
theorem SameOptions.run_eq (same : command.SameOptions other) (files : other.given.files = [name])
    (inputs : Inputs) :
    other.run inputs = (command.queryFile inputs { settings } name).1 := by
  have faithful := Cache.Faithful.new settings
  rw [Command.run_eq (same.settings_eq.trans valid), files,
    same.alike.queryFiles faithful faithful]
  exact Outcome.append_empty _

/-- A run comes to what runs on its files come to, one after another. -/
theorem run_eq_concat (once : command.given.files.count ['-'] ≤ 1) (inputs : Inputs) :
    command.run inputs = .concat (command.given.files.map fun name => (command.on name).run inputs)
    := by
  have faithful := Cache.Faithful.new settings
  rw [run_eq valid, queryFiles_eq faithful faithful once fun _ _ => ⟨rfl, fun _ => rfl⟩]
  refine congrArg Outcome.concat (List.map_congr_left fun name _ => ?_)
  exact ((command.sameOptions_on name).run_eq valid rfl inputs).symm

/-- Runs that differ in how the cache is kept come to the same. -/
theorem Alike.run_eq (alike : command.Alike other) {limits : Gate.Settings}
    (valid' : other.settings = .ok limits) (files : other.given.files = command.given.files)
    (inputs : Inputs) : other.run inputs = command.run inputs := by
  have faithful := Cache.Faithful.new limits
  rw [alike.maxLength_eq valid valid'] at faithful
  rw [Command.run_eq valid, Command.run_eq valid', files]
  exact alike.queryFiles (.new settings) faithful inputs _

end Runs

end Command

section Runs

variable [Encoding.Library] {read? : List Text → Option Command} {arguments : List Text}
  {command : Command}

theorem execute_eq (accepted : read? arguments = some command) (inputs : Inputs) :
    execute read? arguments inputs = command.run inputs := by
  rw [execute, accepted]

/-- What a run prints and complains about is what runs with the same options on each of its files
do, one after another, and the greatest of their exit codes counts. All arguments that ask for the
same options and one file come to the same, and how the cache is kept makes no difference. -/
theorem run_files {settings : Gate.Settings} (accepted : read? arguments = some command)
    (valid : command.settings = .ok settings) (once : command.given.files.count ['-'] ≤ 1)
    (inputs : Inputs) :
    ((execute read? arguments inputs).printed =
        command.given.files.flatMap (fun name => ((command.on name).run inputs).printed) ∧
      (execute read? arguments inputs).complaints =
        command.given.files.flatMap (fun name => ((command.on name).run inputs).complaints) ∧
      (execute read? arguments inputs).status.code =
        (command.given.files.map fun name => ((command.on name).run inputs).status.code).foldr
          max 0) ∧
    (∀ alone single name, read? alone = some single → single.given.files = [name] →
      command.SameOptions single →
        execute read? alone inputs = (command.on name).run inputs) ∧
    ∀ variant other limits, read? variant = some other → other.settings = .ok limits →
      other.given.files = command.given.files → command.Alike other →
        (execute read? variant inputs).printed = (execute read? arguments inputs).printed ∧
          (execute read? variant inputs).complaints = (execute read? arguments inputs).complaints ∧
          (execute read? variant inputs).status.code =
            (execute read? arguments inputs).status.code := by
  rw [execute_eq accepted]
  refine ⟨⟨?_, ?_, ?_⟩, ?_, ?_⟩
  · rw [Command.run_eq_concat valid once, Outcome.printed_concat, List.flatMap_map]
  · rw [Command.run_eq_concat valid once, Outcome.complaints_concat, List.flatMap_map]
  · rw [Command.run_eq_concat valid once, Outcome.code_concat, List.map_map]
    rfl
  · intro alone single name accepted' files same
    rw [execute_eq accepted', same.run_eq valid files,
      (command.sameOptions_on name).run_eq valid rfl]
  · intro variant other limits accepted' valid' files alike
    rw [execute_eq accepted', alike.run_eq valid valid' files]
    exact ⟨rfl, rfl, rfl⟩

end Runs

/-- A file, the standard input and a file that is not there, with and without a cache. -/
theorem run_files_three :
    let inputs : Inputs :=
      ⟨fun name => if name = ['x'] then .ok [60, 98, 47, 62] else .error .missing,
        [60, 97, 47, 62]⟩
    let arguments := ["--xpath=//b".toList, "--count".toList, ['x'], ['-'], ['y']]
    let alone (name : Text) := [name, "--count".toList, "--xpath".toList, "//b".toList]
    let variant := "--no-cache".toList :: "--cache-size=1".toList :: arguments
    ∃ command, Command.ofArguments? arguments = some command ∧ command.settings = .ok {} ∧
      command.given.files = [['x'], ['-'], ['y']] ∧ command.given.files.count ['-'] ≤ 1 ∧
      (run arguments inputs).printed = (run (alone ['x']) inputs).printed ++
        ((run (alone ['-']) inputs).printed ++ (run (alone ['y']) inputs).printed) ∧
      (run variant inputs).complaints = (run arguments inputs).complaints := by
  intro inputs arguments alone variant
  let given : Arguments := ⟨[.count], [(.xpath, "//b".toList)], [['x'], ['-'], ['y']]⟩
  let uncached : Arguments :=
    ⟨[.count, .noCache], [(.xpath, "//b".toList), (.cacheSize, ['1'])], given.files⟩
  let command : Command := ⟨.xpath, "//b".toList, given⟩
  have accepted : Command.ofArguments? arguments = some command := by decide +kernel
  have accepted' : Command.ofArguments? variant = some ⟨.xpath, "//b".toList, uncached⟩ := by
    decide +kernel
  have valid : command.settings = .ok {} := by decide +kernel
  have valid' : Command.settings ⟨.xpath, "//b".toList, uncached⟩ = .ok ⟨false, 1, 10000⟩ := by
    decide +kernel
  have same : given.SameButCache uncached :=
    ⟨fun switch other => by cases switch <;> first | rfl | exact absurd rfl other,
      fun setting other => by cases setting <;> first | rfl | exact absurd rfl other⟩
  obtain ⟨⟨printed, -, -⟩, apart, hidden⟩ := run_files accepted valid (by decide) inputs
  have single (name : Text) (read : Command.ofArguments? (alone name) = some (command.on name)) :
      run (alone name) inputs = (command.on name).run inputs :=
    apart _ _ name read rfl (command.sameOptions_on name)
  have complaints := (hidden variant _ _ accepted' valid' rfl ⟨rfl, rfl, same⟩).2.1
  refine ⟨_, accepted, valid, rfl, by decide, ?_, complaints⟩
  rw [single ['x'] (by decide +kernel), single ['-'] (by decide +kernel),
    single ['y'] (by decide +kernel)]
  exact printed.trans (by simp [command, given])

end CommandLine

end XmlSelect
