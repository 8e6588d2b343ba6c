import SourceAudit.Command
import SourceAudit.Proofs.ConfigurationText
import SourceAudit.Proofs.FileSystem
import SourceAudit.Proofs.Pipeline.Completion
import SourceAudit.Proofs.Report.Rendering

/-! What the scan command does with every command line.

The command can be stopped at four stages, and the first stage at which it is decides what it says
(`Obstacle`). If nothing stops it, every setting is taken from the command line, or else from the
configuration file, or else from the defaults (`Serves`), and the report is one that a scan to this
plan may come to. Each stage of the program is shown to fail exactly with the obstacles of that stage;
the program puts them together in their order. -/
namespace SourceAudit.Command
open Scan

/-! ### What stops a scan -/

/-- Where a scan can be stopped. -/
inductive Stage where
  | languages
  | root
  | configuration
  | output

def Stage.rank : Stage → Nat
  | .languages => 0
  | .root => 1
  | .configuration => 2
  | .output => 3

/-- A name that is not blank and names no language. -/
def isUnknown (name : String) : Bool :=
  !(Text.trimmed name).isEmpty && (Language.ofName? (Text.trimmed name)).isNone

/-- The configuration file of a scan: the one that is named, or that of the scanned directory. -/
def configPath (a : ScanArguments) : Path :=
  a.config.getD (a.path.join (Text.Utf8.encode Config.fileName.toList))

/-- What stops a scan, by stage, and what is said about it. -/
inductive Obstacle (fs : FileSystem) (a : ScanArguments) : Stage → Fault → Prop
  | unknownLanguage {names : List String} {name : String} (given : a.languages = some names)
      (first : names.find? isUnknown = some name) :
      Obstacle fs a .languages (.configuration ("unknown language '" ++ Text.trimmed name ++ "'"))
  | emptyRoot (empty : a.path.bytes = []) : Obstacle fs a .root .emptyPath
  | missingRoot {cause : FileError} (given : a.path.bytes ≠ [])
      (missing : fs.entry a.path = .error cause) :
      Obstacle fs a .root (.targetNotFound a.path.display cause)
  | otherRoot {entry : Entry} (given : a.path.bytes ≠ []) (found : fs.entry a.path = .ok entry)
      (other : ∀ entries, entry ≠ .directory entries) :
      Obstacle fs a .root (.notADirectory a.path.display)
  | unreadable {cause : FileError} (found : fs.exists? (configPath a) = true)
      (unread : fs.readText (configPath a) = .error cause) :
      Obstacle fs a .configuration (.file cause)
  | malformed {text : List Char} (found : fs.exists? (configPath a) = true)
      (read : fs.readText (configPath a) = .ok text)
      (meaningless : ∀ t config, Toml.ofText? text = some t → ¬Config.SaidBy t config) :
      Obstacle fs a .configuration .malformedConfiguration
  | unwritable {p : Path} {cause : FileError} (asked : a.output = some p)
      (refused : ∀ content, fs.write p content = .error cause) :
      Obstacle fs a .output (.output ("cannot write " ++ p.display ++ ": " ++ cause.message))

/-- The obstacle that decides: nothing stops the scan at an earlier stage. -/
structure FirstObstacle (fs : FileSystem) (a : ScanArguments) (stage : Stage) (fault : Fault) :
    Prop where
  obstacle : Obstacle fs a stage fault
  earliest : ∀ earlier : Stage, earlier.rank < stage.rank → ∀ other, ¬Obstacle fs a earlier other

/-- The outcome of a command that stops: it says why, and leaves everything as it was. -/
structure StopsWith (fs : FileSystem) (fault : Fault) (outcome : Outcome) : Prop where
  exitCode : outcome.exitCode = 1
  message : outcome.messages.getLast? = some ("Error: " ++ fault.message)
  output : outcome.output = ""
  written : outcome.written = none
  unchanged : outcome.fs = fs

/-- Where a text goes: to standard output, or to a file. -/
inductive Delivers (fs : FileSystem) (text : String) : Option Path → FileSystem → String → Prop
  | printed : Delivers fs text none fs text
  | written {p : Path} {next : FileSystem}
      (h : fs.write p (Text.Utf8.encode text.toList) = .ok next) : Delivers fs text (some p) next ""

/-! ### Where settings come from -/

/-- A setting is what the command line gives, or else what the configuration file gives, or else the
default. -/
inductive Takes {α : Type} (given configured : Option α) (default : α) : α → Prop
  | given {x : α} (h : given = some x) : Takes given configured default x
  | configured {x : α} (silent : given = none) (h : configured = some x) :
      Takes given configured default x
  | default (silent : given = none) (h : configured = none) : Takes given configured default default

/-- What the configuration file of a scan says; without a file it says nothing. -/
inductive Configures (fs : FileSystem) (p : Path) : Config → Prop
  | absent (h : fs.exists? p = false) : Configures fs p {}
  | present {text : List Char} {t : Toml} {config : Config} (found : fs.exists? p = true)
      (read : fs.readText p = .ok text) (table : Toml.ofText? text = some t)
      (said : Config.SaidBy t config) : Configures fs p config

/-- The languages among some names. -/
def recognised (names : List String) : List Language :=
  names.filterMap fun name => Language.ofName? (Text.trimmed name)

/-- A plan that does what the command line and the configuration file ask for. -/
structure Serves (processors : Nat) (a : ScanArguments) (config : Config) (plan : Plan) : Prop where
  languages : ∃ list, Takes (a.languages.map recognised) config.settings.languages [] list ∧
    plan.languages = if list = [] then Language.all else list
  excluded : Takes none config.settings.excludeDirs Settings.defaultExcluded plan.excluded
  workers : ∃ number, Takes a.concurrency config.settings.concurrency 0 number ∧
    plan.workers = if number = 0 then max processors 2 else number
  least : Takes (a.leastSeverity.bind Severity.ofName?) config.settings.leastSeverity .info plan.least
  failOn : Takes ((a.failOn.bind Severity.ofName?).map some) (config.policy.failOn.map some) none
    plan.failOn

/-! ### The stages of the program -/

theorem recognised_of_blank {name : String} (blank : (Text.trimmed name).isEmpty = true)
    (names : List String) : recognised (name :: names) = recognised names := by
  have empty : Text.trimmed name = "" := String.isEmpty_iff.mp blank
  have unnamed : Language.ofName? (Text.trimmed name) = none := by
    rw [empty]
    decide +kernel
  exact List.filterMap_cons_none unnamed

theorem chosenLanguages_eq (names : List String) :
    chosenLanguages names =
      match names.find? isUnknown with
      | some name => .error (.configuration ("unknown language '" ++ Text.trimmed name ++ "'"))
      | none => .ok (recognised names) := by
  induction names with
  | nil => rfl
  | cons name names ih =>
    unfold chosenLanguages at ih ⊢
    by_cases blank : (Text.trimmed name).isEmpty = true
    · have known : isUnknown name = false := by rw [isUnknown, blank]; rfl
      rw [List.map_cons, List.filter_cons_of_neg (by simp [blank]), ih, recognised_of_blank blank,
        List.find?_cons_of_neg (by simp [known])]
    · rw [List.map_cons, List.filter_cons_of_pos (by simp [blank]), List.mapM_cons, ih]
      cases named : Language.ofName? (Text.trimmed name) with
      | none =>
        have unknown : isUnknown name = true := by simp [isUnknown, blank, named]
        rw [List.find?_cons_of_pos unknown]
        rfl
      | some language =>
        have known : isUnknown name = false := by simp [isUnknown, named]
        rw [List.find?_cons_of_neg (by simp [known])]
        cases names.find? isUnknown with
        | none =>
          have more : recognised (name :: names) = language :: recognised names :=
            List.filterMap_cons_some named
          rw [more]
          rfl
        | some other => rfl

theorem chosenSeverity_fst (name : Option String) :
    (chosenSeverity name).1 = name.bind Severity.ofName? := by
  cases name with
  | none => rfl
  | some name =>
    unfold chosenSeverity
    cases named : Severity.ofName? name with
    | none => simp [named]
    | some severity => simp [named]

/-- What the command line asks a scan for, once its languages are known. -/
def asked (a : ScanArguments) : Scan.Options :=
  { configPath := a.config
    settings :=
      { languages := a.languages.map recognised
        concurrency := a.concurrency
        leastSeverity := a.leastSeverity.bind Severity.ofName? }
    failOn := a.failOn.bind Severity.ofName? }

/-- The answer of a stage: a fault that stops the scan, or something to go on with. -/
inductive Answers {α : Type} (Stops : Fault → Prop) (Goes : α → Prop) : Except Fault α → Prop
  | stopped {fault : Fault} (h : Stops fault) : Answers Stops Goes (.error fault)
  | passed {x : α} (h : Goes x) : Answers Stops Goes (.ok x)

/-- A stage whose faults are exactly what stops it. -/
structure Decides {α : Type} (Stops : Fault → Prop) (Goes : α → Prop) (r : Except Fault α) :
    Prop where
  answers : Answers Stops Goes r
  eq_error : ∀ {fault}, Stops fault → r = .error fault

theorem Decides.eq_ok {α : Type} {Stops : Fault → Prop} {Goes : α → Prop} {r : Except Fault α}
    (h : Decides Stops Goes r) (free : ∀ fault, ¬Stops fault) : ∃ x, r = .ok x ∧ Goes x := by
  cases h.answers with
  | stopped stops => exact absurd stops (free _)
  | passed goes => exact ⟨_, rfl, goes⟩

theorem decoded_eq_some_iff {text : List Char} {config : Config} :
    (Toml.ofText? text).bind Config.ofToml? = some config ↔
      ∃ t, Toml.ofText? text = some t ∧ Config.SaidBy t config := by
  simp only [Option.bind_eq_some_iff, Config.ofToml?_eq_some_iff]

theorem decoded_eq_none_iff {text : List Char} :
    (Toml.ofText? text).bind Config.ofToml? = none ↔
      ∀ t config, Toml.ofText? text = some t → ¬Config.SaidBy t config := by
  rw [Option.eq_none_iff_forall_ne_some]
  constructor
  · intro undecoded t config table said
    exact undecoded config (decoded_eq_some_iff.mpr ⟨t, table, said⟩)
  · intro meaningless config decoded
    obtain ⟨t, table, said⟩ := decoded_eq_some_iff.mp decoded
    exact meaningless t config table said

theorem configures_iff_of_text {fs : FileSystem} {p : Path} {written : Config}
    (fits : written.settings.Fits) (read : fs.readText p = .ok written.text) {config : Config} :
    Configures fs p config ↔ config = written := by
  have found := FileSystem.exists?_of_readText read
  obtain ⟨t, table, said⟩ := Config.saidBy_text fits
  constructor
  · intro h
    cases h with
    | absent missing => cases found.symm.trans missing
    | present _ read' table' said' =>
      cases read.symm.trans read'
      cases table.symm.trans table'
      rw [← Config.ofToml?_eq_some_iff] at said said'
      exact Option.some.inj (said'.symm.trans said)
  · rintro rfl
    exact .present found read table said

section Stages
variable (fs : FileSystem) (a : ScanArguments)

theorem languages_decides :
    Decides (Obstacle fs a .languages) (· = asked a) (scanOptionsOf a) where
  answers := by
    unfold scanOptionsOf
    rw [chosenSeverity_fst, chosenSeverity_fst]
    cases given : a.languages with
    | none =>
      apply Answers.passed
      rw [asked, given]
      rfl
    | some names =>
      rw [Option.mapM_some, chosenLanguages_eq]
      cases first : names.find? isUnknown with
      | none =>
        apply Answers.passed
        rw [asked, given]
        rfl
      | some name => exact .stopped (.unknownLanguage given first)
  eq_error := by
    intro fault h
    cases h with
    | unknownLanguage given first =>
      rw [scanOptionsOf, given, Option.mapM_some, chosenLanguages_eq, first]
      rfl

theorem root_decides :
    Decides (Obstacle fs a .root) (fun _ => True) (validateRoot fs a.path) where
  answers := by
    unfold validateRoot
    by_cases empty : a.path.bytes = []
    · rw [if_pos (List.isEmpty_iff.mpr empty)]
      exact .stopped (.emptyRoot empty)
    · rw [if_neg (mt List.isEmpty_iff.mp empty)]
      cases found : fs.entry a.path with
      | error cause => exact .stopped (.missingRoot empty found)
      | ok entry =>
        cases entry with
        | directory entries => exact .passed trivial
        | file content => exact .stopped (.otherRoot empty found fun _ h => nomatch h)
        | link target => exact .stopped (.otherRoot empty found fun _ h => nomatch h)
  eq_error := by
    intro fault h
    cases h with
    | emptyRoot empty => exact if_pos (List.isEmpty_iff.mpr empty)
    | missingRoot given missing =>
      rw [validateRoot, if_neg (mt List.isEmpty_iff.mp given), missing]
    | @otherRoot entry given found other =>
      rw [validateRoot, if_neg (mt List.isEmpty_iff.mp given), found]
      cases entry with
      | directory entries => exact absurd rfl (other entries)
      | file content => rfl
      | link target => rfl

theorem configuration_decides :
    Decides (Obstacle fs a .configuration) (Configures fs (configPath a))
      (Config.load fs (configPath a)) where
  answers := by
    unfold Config.load
    cases found : fs.exists? (configPath a) with
    | false => exact .passed (.absent found)
    | true =>
      rw [if_pos rfl]
      cases read : fs.readText (configPath a) with
      | error cause => exact .stopped (.unreadable found read)
      | ok text =>
        dsimp only
        cases decoded : (Toml.ofText? text).bind Config.ofToml? with
        | none => exact .stopped (.malformed found read (decoded_eq_none_iff.mp decoded))
        | some config =>
          obtain ⟨t, table, said⟩ := decoded_eq_some_iff.mp decoded
          exact .passed (.present found read table said)
  eq_error := by
    intro fault h
    cases h with
    | unreadable found unread => rw [Config.load, if_pos found, unread]
    | malformed found read meaningless =>
      rw [Config.load, if_pos found, read]
      dsimp only
      rw [decoded_eq_none_iff.mpr meaningless]

/-- Whether a file can be written does not depend on what is to be written. -/
theorem write_cases (p : Path) :
    (∃ cause, ∀ content, fs.write p content = .error cause) ∨
      ∀ content, ∃ next, fs.write p content = .ok next := by
  unfold FileSystem.write
  by_cases slash : p.bytes.getLast? = some Path.slash
  · simp only [if_pos slash]
    cases fs.walk true FileSystem.linkLimit (fs.origin p)
      ((FileSystem.steps p).dropLast.dropLast ++ [[Path.dot]]) with
    | error cause => exact .inl ⟨cause, fun _ => rfl⟩
    | ok found => exact .inl ⟨.isADirectory, fun _ => rfl⟩
  · simp only [if_neg slash]
    cases fs.resolve true p with
    | error cause => exact .inl ⟨cause, fun _ => rfl⟩
    | ok found =>
      obtain ⟨names, entry⟩ := found
      cases entry with
      | none => exact .inr fun content => ⟨_, rfl⟩
      | some entry =>
        cases entry with
        | directory entries => exact .inl ⟨.isADirectory, fun _ => rfl⟩
        | file content => exact .inr fun content => ⟨_, rfl⟩
        | link target => exact .inr fun content => ⟨_, rfl⟩

theorem output_decides (text : String) :
    Decides (Obstacle fs a .output) (fun r => Delivers fs text a.output r.1 r.2)
      (deliver fs a.output text) where
  answers := by
    cases asked : a.output with
    | none => exact .passed .printed
    | some p =>
      unfold deliver
      rcases write_cases fs p with ⟨cause, refused⟩ | writes
      · simp only [refused]
        exact .stopped (.unwritable asked refused)
      · obtain ⟨next, written⟩ := writes (Text.Utf8.encode text.toList)
        simp only [written]
        exact .passed (.written written)
  eq_error := by
    intro fault h
    cases h with
    | unwritable asked refused =>
      rw [asked, deliver]
      simp only [refused]

end Stages

/-! ### The plan -/

theorem takes_iff {α : Type} {given configured : Option α} {default x : α} :
    Takes given configured default x ↔ x = (given.or configured).getD default := by
  constructor
  · intro h
    cases h with
    | given h => rw [h, Option.some_or, Option.getD_some]
    | configured silent h => rw [silent, h, Option.none_or, Option.getD_some]
    | default silent h => rw [silent, h, Option.none_or, Option.getD_none]
  · intro h
    cases given with
    | some y => exact .given (congrArg some h.symm)
    | none =>
      cases configured with
      | some y => exact .configured rfl (congrArg some h.symm)
      | none =>
        rw [h]
        exact .default rfl rfl

theorem Takes.unique {α : Type} {given configured : Option α} {default x y : α}
    (hx : Takes given configured default x) (hy : Takes given configured default y) : x = y :=
  (takes_iff.mp hx).trans (takes_iff.mp hy).symm

theorem chosenLanguages_eq_ite (s : Settings) :
    s.chosenLanguages =
      if s.languages.getD [] = [] then Language.all else s.languages.getD [] := by
  unfold Settings.chosenLanguages
  cases s.languages with
  | none => rfl
  | some list => cases list <;> rfl

theorem workers_eq_ite (s : Settings) (processors : Nat) :
    s.workers processors =
      if s.concurrency.getD 0 = 0 then max processors 2 else s.concurrency.getD 0 := by
  unfold Settings.workers
  cases s.concurrency with
  | none => rfl
  | some number => cases number <;> rfl

/-- The settings of a scan: those of its configuration, but for what the command line asks. -/
def settingsFor (a : ScanArguments) (config : Config) : Settings :=
  config.settings.override (asked a).settings

def policyFor (a : ScanArguments) (config : Config) : Policy :=
  ⟨(asked a).failOn.or config.policy.failOn⟩

def planFor (processors : Nat) (a : ScanArguments) (config : Config) : Plan :=
  .ofSettings (settingsFor a config) (policyFor a config).failOn processors

theorem serves_planFor (processors : Nat) (a : ScanArguments) (config : Config) :
    Serves processors a config (planFor processors a config) where
  languages := by
    refine ⟨_, takes_iff.mpr rfl, ?_⟩
    exact chosenLanguages_eq_ite (settingsFor a config)
  excluded := takes_iff.mpr rfl
  workers := by
    refine ⟨_, takes_iff.mpr rfl, ?_⟩
    exact workers_eq_ite (settingsFor a config) processors
  least := takes_iff.mpr rfl
  failOn := by
    apply takes_iff.mpr
    show (a.failOn.bind Severity.ofName?).or config.policy.failOn = _
    cases a.failOn.bind Severity.ofName? with
    | some severity => rfl
    | none => cases config.policy.failOn <;> rfl

/-- The command line and the configuration file leave nothing of the plan open. -/
theorem Serves.eq_planFor {processors : Nat} {a : ScanArguments} {config : Config} {plan : Plan}
    (h : Serves processors a config plan) : plan = planFor processors a config := by
  have served := serves_planFor processors a config
  obtain ⟨list, takesList, languages⟩ := h.languages
  obtain ⟨list', takesList', languages'⟩ := served.languages
  obtain ⟨number, takesNumber, workers⟩ := h.workers
  obtain ⟨number', takesNumber', workers'⟩ := served.workers
  ext1
  · rw [languages, languages', takesList.unique takesList']
  · exact h.excluded.unique served.excluded
  · rw [workers, workers', takesNumber.unique takesNumber']
  · exact h.least.unique served.least
  · exact h.failOn.unique served.failOn

/-! ### The command -/

section Command
variable {engine : Engine} {host : Host} {a : ScanArguments}

/-- The report of the command once nothing stands in its way. -/
def reportFor (engine : Engine) (host : Host) (a : ScanArguments) (config : Config) : Report :=
  reportOn host a.path (settingsFor a config)
    (outcome engine host a.path (settingsFor a config) false)

theorem scan_eq_ok {config : Config} (root : validateRoot host.fs a.path = .ok ())
    (loaded : Config.load host.fs (configPath a) = .ok config) :
    Scan.scan host a.path (asked a) =
      .ok (reportFor Engine.standard host a config,
        (policyFor a config).evaluate (reportFor Engine.standard host a config).findings) := by
  have configured : configFor host a.path (asked a) =
      .ok ⟨settingsFor a config, policyFor a config⟩ := by
    unfold configFor
    show (do let config ← Config.load host.fs (configPath a); _) = _
    rw [loaded]
    rfl
  unfold Scan.scan scanWith
  rw [root, configured]
  rfl

theorem mayReport_reportFor (config : Config) :
    (planFor host.processors a config).MayReport engine host a.path
      (reportFor engine host a config) :=
  Plan.mayReport_outcome _ _

theorem agrees_of_mayReport {config : Config} {report : Report}
    (h : (planFor host.processors a config).MayReport engine host a.path report) :
    Agrees report ((planFor host.processors a config).fileByFile engine host a.path) :=
  h.agrees (one_le_workers _ _)

theorem verdict_eq (config : Config) :
    (policyFor a config).evaluate (reportFor engine host a config).findings =
      (planFor host.processors a config).verdict engine host a.path :=
  Policy.evaluate_perm _ (agrees_of_mayReport (mayReport_reportFor config)).findings

/-- The first obstacle in the order of the stages is the fault of the scan. -/
theorem scanResult_of_obstacle {stage : Stage} {fault : Fault}
    (h : FirstObstacle host.fs a stage fault) : scanResult host a = .error fault := by
  obtain ⟨h, first⟩ := h
  have languages := languages_decides host.fs a
  have root := root_decides host.fs a
  have configuration := configuration_decides host.fs a
  unfold scanResult
  cases stage with
  | languages =>
    rw [languages.eq_error h]
    rfl
  | root =>
    obtain ⟨_, languages, rfl⟩ := languages.eq_ok (first .languages (by decide))
    rw [languages]
    show (Scan.scan host a.path (asked a) >>= _) = _
    rw [Scan.scan, root.eq_error h]
    rfl
  | configuration =>
    obtain ⟨_, languages, rfl⟩ := languages.eq_ok (first .languages (by decide))
    obtain ⟨_, root, -⟩ := root.eq_ok (first .root (by decide))
    rw [languages]
    show (Scan.scan host a.path (asked a) >>= _) = _
    have stopped : configFor host a.path (asked a) = .error fault := by
      unfold configFor
      show (do let config ← Config.load host.fs (configPath a); _) = _
      rw [configuration.eq_error h]
      rfl
    rw [Scan.scan, root, stopped]
    rfl
  | output =>
    obtain ⟨_, languages, rfl⟩ := languages.eq_ok (first .languages (by decide))
    obtain ⟨_, root, -⟩ := root.eq_ok (first .root (by decide))
    obtain ⟨config, configuration, -⟩ := configuration.eq_ok (first .configuration (by decide))
    rw [languages]
    show (Scan.scan host a.path (asked a) >>= _) = _
    rw [scan_eq_ok root configuration]
    show (deliver host.fs a.output _ >>= _) = _
    rw [(output_decides host.fs a _).eq_error h]
    rfl

/-- Where nothing stops it, the command scans to plan and delivers the report. -/
theorem scanResult_of_free (free : ∀ stage fault, ¬Obstacle host.fs a stage fault) :
    ∃ config next text, Configures host.fs (configPath a) config ∧
      Delivers host.fs ((reportFor Engine.standard host a config).render
        ((planFor host.processors a config).verdict Engine.standard host a.path)
        (chosenFormat a.format).1) a.output next text ∧
      scanResult host a =
        .ok ((planFor host.processors a config).verdict Engine.standard host a.path, next, text) := by
  obtain ⟨_, languages, rfl⟩ := (languages_decides host.fs a).eq_ok (free .languages)
  obtain ⟨_, root, -⟩ := (root_decides host.fs a).eq_ok (free .root)
  obtain ⟨config, loaded, configures⟩ := (configuration_decides host.fs a).eq_ok (free .configuration)
  obtain ⟨⟨next, text⟩, delivered, delivers⟩ := (output_decides host.fs a
    ((reportFor Engine.standard host a config).render
      ((planFor host.processors a config).verdict Engine.standard host a.path)
      (chosenFormat a.format).1)).eq_ok (free .output)
  refine ⟨config, next, text, configures, delivers, ?_⟩
  unfold scanResult
  rw [languages]
  show (Scan.scan host a.path (asked a) >>= _) = _
  rw [scan_eq_ok root loaded, verdict_eq]
  show (deliver host.fs a.output _ >>= _) = _
  rw [delivered]
  rfl

end Command

theorem exists_firstObstacle {fs : FileSystem} {a : ScanArguments} {stage : Stage} {fault : Fault}
    (h : Obstacle fs a stage fault) : ∃ stage fault, FirstObstacle fs a stage fault := by
  by_cases sooner : ∃ earlier : Stage, earlier.rank < stage.rank ∧ ∃ other, Obstacle fs a earlier other
  · obtain ⟨earlier, lt, other, h⟩ := sooner
    exact exists_firstObstacle h
  · refine ⟨stage, fault, h, fun earlier lt other h => ?_⟩
    exact sooner ⟨earlier, lt, other, h⟩
termination_by stage.rank

theorem chosenFormat_fst (name : String) :
    (chosenFormat name).1 = (Report.Format.ofName? name).getD .console := by
  unfold chosenFormat
  cases Report.Format.ofName? name <;> rfl

theorem stopsWith_of_error {host : Host} {a : ScanArguments} {fault : Fault}
    (h : scanResult host a = .error fault) : StopsWith host.fs fault (scan host a) := by
  unfold scan
  rw [h]
  exact ⟨rfl, List.getLast?_concat, rfl, rfl, rfl⟩

theorem scan_of_ok {host : Host} {a : ScanArguments} {verdict : Verdict} {next : FileSystem}
    {text : String} (h : scanResult host a = .ok (verdict, next, text)) :
    (scan host a).fs = next ∧ (scan host a).output = text ∧ (scan host a).written = a.output ∧
      (scan host a).exitCode = if verdict.pass = false then 2 else 0 := by
  unfold scan
  rw [h]
  refine ⟨rfl, rfl, rfl, ?_⟩
  show (if verdict.pass then 0 else rejected) = _
  cases verdict.pass <;> rfl

/-- **The scan command stops at the first obstacle or reports to plan.** Which of the reports that a
scan to plan may come to is delivered hangs on how its workers take turns; but for the order of what
they list, they are all the same. -/
theorem scan_stops_or_reports (host : Host) (a : ScanArguments) :
    let outcome := scan host a
    let format := (Report.Format.ofName? a.format).getD .console
    (outcome.exitCode = 1 ↔ ∃ stage fault, Obstacle host.fs a stage fault) ∧
      (∀ stage fault, FirstObstacle host.fs a stage fault → StopsWith host.fs fault outcome) ∧
      (∀ written : Config, written.settings.Fits →
        host.fs.readText (configPath a) = .ok written.text →
        ∀ config, Configures host.fs (configPath a) config ↔ config = written) ∧
      ((∀ stage fault, ¬Obstacle host.fs a stage fault) →
        ∃ config plan report, Configures host.fs (configPath a) config ∧
          Serves host.processors a config plan ∧
          plan.MayReport Engine.standard host a.path report ∧
          (∀ other, plan.MayReport Engine.standard host a.path other →
            Agrees other (plan.fileByFile Engine.standard host a.path)) ∧
          ∃ verdict text, verdict = plan.verdict Engine.standard host a.path ∧
            text = report.render verdict format ∧ report.Displays verdict text format ∧
            Delivers host.fs text a.output outcome.fs outcome.output ∧
            outcome.written = a.output ∧
            outcome.exitCode = if verdict.pass = false then 2 else 0) := by
  intro outcome format
  have stops : ∀ stage fault, FirstObstacle host.fs a stage fault →
      StopsWith host.fs fault outcome :=
    fun _ _ h => stopsWith_of_error (scanResult_of_obstacle h)
  refine ⟨⟨?_, ?_⟩, stops, fun _ fits read _ => configures_iff_of_text fits read, ?_⟩
  · intro failed
    by_contra none
    have free : ∀ stage fault, ¬Obstacle host.fs a stage fault :=
      fun stage fault h => none ⟨stage, fault, h⟩
    obtain ⟨_, _, _, -, -, ok⟩ := scanResult_of_free free
    have code : outcome.exitCode = _ := (scan_of_ok ok).2.2.2
    rw [failed] at code
    split at code <;> cases code
  · intro obstacle
    obtain ⟨_, _, h⟩ := obstacle
    obtain ⟨stage, fault, first⟩ := exists_firstObstacle h
    exact (stops stage fault first).exitCode
  · intro free
    obtain ⟨config, next, text, configures, delivers, ok⟩ := scanResult_of_free free
    obtain ⟨fs, output, written, code⟩ := scan_of_ok ok
    rw [chosenFormat_fst] at delivers
    refine ⟨config, planFor host.processors a config, reportFor Engine.standard host a config,
      configures, serves_planFor _ _ _, mayReport_reportFor config, fun _ => agrees_of_mayReport,
      _, _, rfl, rfl, Report.render_displays _ _ format, ?_, written, code⟩
    rw [show outcome.fs = next from fs, show outcome.output = text from output]
    exact delivers

/-! A machine with a configuration file in its root directory, which is scanned. -/

section Unhindered
variable {fs : FileSystem} {a : ScanArguments} {fault : Fault}

theorem not_obstacle_languages (silent : a.languages = none) : ¬Obstacle fs a .languages fault := by
  intro h
  cases h with
  | unknownLanguage given _ => cases silent.symm.trans given

theorem not_obstacle_root (slash : a.path = ⟨[Path.slash]⟩) : ¬Obstacle fs a .root fault := by
  intro h
  cases h with
  | emptyRoot empty =>
    rw [slash] at empty
    cases empty
  | missingRoot _ missing =>
    rw [slash] at missing
    cases fs.entry_slash.symm.trans missing
  | otherRoot _ found other =>
    rw [slash] at found
    cases fs.entry_slash.symm.trans found
    exact other _ rfl

end Unhindered

def configuredHost (text : List Char) : Host :=
  ⟨.single (Text.Utf8.encode Config.fileName.toList) (Text.Utf8.encode text), 1, ⟨"", ""⟩⟩

theorem readText_configuredHost {text : List Char}
    (decoded : Text.Utf8.decode? (Text.Utf8.encode text) = some text) {a : ScanArguments}
    (path : configPath a = .ofString "/.securescan.toml") :
    (configuredHost text).fs.readText (configPath a) = .ok text := by
  have named : Path.ofString "/.securescan.toml" =
      ⟨Path.slash :: Text.Utf8.encode Config.fileName.toList⟩ := by
    decide +kernel
  rw [path, named]
  exact FileSystem.readText_single (by decide +kernel) decoded

/-- Every setting given. -/
def fullConfig : Config :=
  { settings :=
      { languages := some [.python, .go]
        excludeDirs := some ["lib"]
        concurrency := some 3
        leastSeverity := some .medium }
    policy := ⟨some .high⟩ }

/-- A setting that there is not. -/
def strangeText : List Char := "[scan]\nthreads = 3\n".toList

/-- Two obstacles at once, the earlier of which decides; a file with an unknown setting; and a scan in
which an unknown severity gives way to the configuration file, as settings do that are not given, and
a known one does not. -/
theorem scan_stops_or_reports_configured :
    let stopped : ScanArguments := { path := ⟨[]⟩, languages := some [" ", "cobol"] }
    let served : ScanArguments :=
      { path := .ofString "/", failOn := some "grave", leastSeverity := some " LOW " }
    let full := configuredHost fullConfig.text
    let strange := configuredHost strangeText
    Obstacle full.fs stopped .root .emptyPath ∧
      FirstObstacle full.fs stopped .languages
        (.configuration ("unknown language '" ++ Text.trimmed "cobol" ++ "'")) ∧
      (scan full stopped).exitCode = 1 ∧
      FirstObstacle strange.fs served .configuration .malformedConfiguration ∧
      (scan strange served).exitCode = 1 ∧
      (∀ stage fault, ¬Obstacle full.fs served stage fault) ∧
      ∃ plan : Plan, plan = ⟨[.python, .go], ["lib"], 3, .low, some .high⟩ ∧
        (scan full served).exitCode =
          if (plan.verdict Engine.standard full served.path).pass = false then 2 else 0 := by
  intro stopped served full strange
  have path : configPath served = .ofString "/.securescan.toml" := by decide +kernel
  have slash : served.path = ⟨[Path.slash]⟩ := by decide +kernel
  have readFull : full.fs.readText (configPath served) = .ok fullConfig.text :=
    readText_configuredHost (by decide +kernel) path
  have readStrange : strange.fs.readText (configPath served) = .ok strangeText :=
    readText_configuredHost (by decide +kernel) path
  have fits : fullConfig.settings.Fits := by
    intro n given
    cases given
    decide
  have first : FirstObstacle full.fs stopped .languages
      (.configuration ("unknown language '" ++ Text.trimmed "cobol" ++ "'")) :=
    ⟨.unknownLanguage rfl (show [" ", "cobol"].find? isUnknown = some "cobol" by decide +kernel),
      fun _ lt => absurd lt (Nat.not_lt_zero _)⟩
  have malformed : FirstObstacle strange.fs served .configuration .malformedConfiguration := by
    refine ⟨.malformed (FileSystem.exists?_of_readText readStrange) readStrange
      (decoded_eq_none_iff.mp (by decide +kernel)), fun earlier lt => ?_⟩
    cases earlier with
    | languages => exact fun _ => not_obstacle_languages rfl
    | root => exact fun _ => not_obstacle_root slash
    | configuration => exact absurd lt (by decide)
    | output => exact absurd lt (by decide)
  have free : ∀ stage fault, ¬Obstacle full.fs served stage fault := by
    intro stage fault h
    cases stage with
    | languages => exact not_obstacle_languages rfl h
    | root => exact not_obstacle_root slash h
    | configuration =>
      cases h with
      | unreadable _ unread => cases readFull.symm.trans unread
      | malformed _ read meaningless =>
        cases readFull.symm.trans read
        obtain ⟨t, table, said⟩ := Config.saidBy_text fits
        exact meaningless t _ table said
    | output =>
      cases h with
      | unwritable asked _ => cases asked
  obtain ⟨-, stops, -⟩ := scan_stops_or_reports full stopped
  obtain ⟨-, stopsStrange, -⟩ := scan_stops_or_reports strange served
  obtain ⟨-, -, written, reports⟩ := scan_stops_or_reports full served
  refine ⟨.emptyRoot rfl, first, (stops _ _ first).exitCode, malformed,
    (stopsStrange _ _ malformed).exitCode, free, ?_⟩
  obtain ⟨config, plan, report, configures, serves, -, -, verdict, text, rfl, -, -, -, -, code⟩ :=
    reports free
  cases (written fullConfig fits readFull config).mp configures
  refine ⟨plan, ?_, code⟩
  rw [serves.eq_planFor]
  decide +kernel

end SourceAudit.Command
