import SourceAudit.Command.Arguments
import SourceAudit.Report.Format
import SourceAudit.Scan

/-! The commands of the program. -/
namespace SourceAudit.Command

/-- What a command leaves behind. -/
structure Outcome where
  exitCode : Nat
  /-- What is written to standard output. -/
  output : String := ""
  /-- The lines written to standard error. -/
  messages : List String := []
  /-- The file that was written. -/
  written : Option Path := none
  fs : FileSystem

/-- The exit code of a scan that the policy rejects, and of a command line that is not
understood. -/
def rejected : Nat := 2

/-- The outcome of a command that fails. -/
def failed (fs : FileSystem) (messages : List String) (fault : Fault) : Outcome :=
  { exitCode := fault.exitCode, messages := messages ++ ["Error: " ++ fault.message], fs }

/-! ### Scanning -/

/-- The format that is asked for; an unknown one is the console's, with a warning. -/
def chosenFormat (name : String) : Report.Format × List String :=
  match Report.Format.ofName? name with
  | some f => (f, [])
  | none => (.console, ["Warning: unknown format '" ++ name ++ "', using console"])

/-- The severity that is asked for; an unknown one is none, with a warning. -/
def chosenSeverity : Option String → Option Severity × List String
  | none => (none, [])
  | some name =>
    match Severity.ofName? name with
    | some s => (some s, [])
    | none => (none, ["Warning: unknown severity '" ++ name ++ "', using config default"])

/-- The languages that names stand for; blank names are skipped. -/
def chosenLanguages (names : List String) : Except Fault (List Language) :=
  ((names.map Text.trimmed).filter (!·.isEmpty)).mapM fun name =>
    match Language.ofName? name with
    | some l => .ok l
    | none => .error (.configuration ("unknown language '" ++ name ++ "'"))

/-- What the arguments ask a scan for. -/
def scanOptionsOf (a : ScanArguments) : Except Fault Scan.Options := do
  let languages ← a.languages.mapM chosenLanguages
  return { configPath := a.config
           settings :=
             { languages
               concurrency := a.concurrency
               leastSeverity := (chosenSeverity a.leastSeverity).1 }
           failOn := (chosenSeverity a.failOn).1 }

/-- Writes the report where it is asked for. -/
def deliver (fs : FileSystem) (destination : Option Path) (text : String) :
    Except Fault (FileSystem × String) :=
  match destination with
  | none => .ok (fs, text)
  | some p =>
    match fs.write p (Text.Utf8.encode text.toList) with
    | .ok next => .ok (next, "")
    | .error cause =>
      .error (.output ("cannot write " ++ p.display ++ ": " ++ cause.message))

/-- The scan that the arguments ask for: the verdict, the file system after it and the text
for standard output. -/
def scanResult (host : Scan.Host) (a : ScanArguments) :
    Except Fault (Verdict × FileSystem × String) := do
  let options ← scanOptionsOf a
  let (report, verdict) ← Scan.scan host a.path options
  let (fs, text) ← deliver host.fs a.output (report.render verdict (chosenFormat a.format).1)
  return (verdict, fs, text)

/-- The scan command. -/
def scan (host : Scan.Host) (a : ScanArguments) : Outcome :=
  let warnings :=
    (chosenFormat a.format).2 ++ (chosenSeverity a.failOn).2 ++ (chosenSeverity a.leastSeverity).2
  match scanResult host a with
  | .error fault => failed host.fs warnings fault
  | .ok (verdict, fs, text) =>
    { exitCode := if verdict.pass then 0 else rejected
      output := text
      messages := warnings
      written := a.output
      fs }

/-! ### Listing rules -/

/-- A text with blanks after it, up to a width. -/
def padded (width : Nat) (s : String) : String :=
  s ++ String.ofList (List.replicate (width - s.toList.length) ' ')

/-- A line of the table of rules. -/
def tableLine (kind name severity cwe engine : String) : String :=
  padded 26 kind ++ " " ++ padded 26 name ++ " " ++ padded 10 severity ++ " " ++
    padded 10 cwe ++ " " ++ engine ++ "\n"

def ruleTable (rules : List RuleInfo) : String :=
  tableLine "TYPE" "NAME" "SEVERITY" "CWE" "ENGINE" ++
  String.ofList (List.replicate 84 '-') ++ "\n" ++
  String.join (rules.map fun r => tableLine r.kind r.name r.severity.tag r.cwe r.engine)

/-- The command that lists the rules. -/
def listRules (fs : FileSystem) (format : String) : Outcome :=
  let rules := Engine.standard.rules
  { exitCode := 0
    output :=
      if format = "json" then (Json.ofList RuleInfo.toJson rules).toText ++ "\n"
      else ruleTable rules
    fs }

/-! ### Beginning a configuration -/

/-- The command that writes a configuration file to begin with. -/
def init (fs : FileSystem) (force : Bool) : Outcome :=
  let path := Path.ofString Config.fileName
  if fs.exists? path && !force then
    { exitCode := 1
      messages := [Config.fileName ++ " already exists. Use --force to overwrite."]
      fs }
  else
    match fs.write path (Text.Utf8.encode Config.starter.toList) with
    | .ok next =>
      { exitCode := 0
        output := "Created " ++ Config.fileName ++ "\n"
        written := some path
        fs := next }
    | .error cause => failed fs [] (.file cause)

/-! ### Any command -/

/-- Carries out a request. -/
def execute (host : Scan.Host) : Request → Outcome
  | .scan a => scan host a
  | .listRules format => listRules host.fs format
  | .init force => init host.fs force

/-- How the program is called. -/
def usage : String :=
  "Usage: " ++ Report.Console.programName ++ " [-v] <scan|list-rules|init> [OPTIONS] [PATH]"

/-- The outcome of a command line that asks for no command. -/
def refuse (fs : FileSystem) : Refusal → Outcome
  | .usage => { exitCode := rejected, messages := [usage], fs }
  | .help => { exitCode := 0, output := usage ++ "\n", fs }
  | .version =>
    { exitCode := 0
      output := Report.Console.programName ++ " " ++ Report.Sarif.programVersion ++ "\n"
      fs }

/-- Carries out a command line. -/
def run (host : Scan.Host) (environment : String → Option String) (arguments : List String) :
    Outcome :=
  match read environment arguments with
  | .ok request => execute host request
  | .error r => refuse host.fs r

end SourceAudit.Command
