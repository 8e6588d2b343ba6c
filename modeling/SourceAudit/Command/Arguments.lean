import SourceAudit.Path
import SourceAudit.Word

/-! Command lines.

An option is written out after two dashes, or as one letter after one dash; its value follows
as the next argument, after an equals sign, or right after the letter. Letters without values
may stand together. Everything after two dashes alone is an operand. -/
namespace SourceAudit.Command

/-! ### Options in general -/

/-- An option that may be given. -/
structure OptionSpec where
  name : String
  letter : Option Char := none
  takesValue : Bool := true
  /-- Whether it may be given more than once. -/
  repeats : Bool := false
  /-- Which values are accepted. -/
  accepts : String → Bool := fun _ => true

/-- Why a command line asks for nothing that could be done. -/
inductive Refusal where
  /-- The command line is not understood. -/
  | usage
  /-- Help is asked for. -/
  | help
  /-- The version is asked for. -/
  | version
  deriving DecidableEq, Inhabited

/-- What has been read of a command line. -/
structure Parsed where
  /-- The options with their values, in order; options without values have an empty one. -/
  options : List (String × String) := []
  operands : List String := []

namespace Parsed

/-- The values of an option. -/
def values (p : Parsed) (name : String) : List String :=
  (p.options.filter (·.1 = name)).map (·.2)

def value? (p : Parsed) (name : String) : Option String := (p.values name).head?

def isGiven (p : Parsed) (name : String) : Bool := (p.value? name).isSome

/-- Adds an option. -/
def give (p : Parsed) (spec : OptionSpec) (value : String) : Except Refusal Parsed :=
  if (p.isGiven spec.name && !spec.repeats) || !spec.accepts value then .error .usage
  else .ok { p with options := p.options ++ [(spec.name, value)] }

end Parsed

/-- Whether an argument is an option and not a value. -/
def isOption (argument : List Char) : Bool :=
  match argument with
  | '-' :: _ :: _ => true
  | _ => false

/-- The options that every command has. -/
def verbose : OptionSpec :=
  { name := "verbose", letter := some 'v', takesValue := false, repeats := true }

/-- What an option that is always understood asks for. -/
def refusal? (version : Bool) (name : String) : Option Refusal :=
  if name = "help" || name = "h" then some .help
  else if version && (name = "version" || name = "V") then some .version
  else none

/-- The value of an option: given with it, or else the next argument. -/
def takeValue (given : Option (List Char)) (rest : List (List Char)) :
    Except Refusal (String × List (List Char)) :=
  match given, rest with
  | some value, rest => .ok (String.ofList value, rest)
  | none, next :: rest => if isOption next then .error .usage else .ok (String.ofList next, rest)
  | none, [] => .error .usage

/-- Reads a written out option without its dashes. -/
def readLong (specs : List OptionSpec) (version : Bool) (p : Parsed) (body : List Char)
    (rest : List (List Char)) : Except Refusal (Parsed × List (List Char)) := do
  let name := String.ofList (body.takeWhile (· ≠ '='))
  let given := if body.contains '=' then some ((body.dropWhile (· ≠ '=')).drop 1) else none
  match specs.find? (·.name = name) with
  | some spec =>
    if spec.takesValue then
      let (value, rest) ← takeValue given rest
      return (← p.give spec value, rest)
    else if given.isSome then throw .usage
    else return (← p.give spec "", rest)
  | none =>
    match refusal? version name, given with
    | some r, none => throw r
    | _, _ => throw .usage

/-- Reads letters that stand together. -/
def readLetters (specs : List OptionSpec) (version : Bool) (rest : List (List Char)) :
    Parsed → List Char → Except Refusal (Parsed × List (List Char))
  | p, [] => .ok (p, rest)
  | p, c :: more => do
    match specs.find? (·.letter = some c) with
    | some spec =>
      if spec.takesValue then
        let given := match more with
          | [] => none
          | '=' :: value | value => some value
        let (value, rest) ← takeValue given rest
        return (← p.give spec value, rest)
      else readLetters specs version rest (← p.give spec "") more
    | none => throw ((refusal? version (String.ofList [c])).getD .usage)

/-- Reads arguments; at most so many operands are accepted. Stops where an argument passes
`ends`, and gives the arguments from there on. -/
def readArguments (specs : List OptionSpec) (version : Bool) (operands : Nat)
    (ends : List Char → Bool) :
    Nat → Parsed → List (List Char) → Except Refusal (Parsed × List (List Char))
  | 0, _, _ => .error .usage
  | _ + 1, p, [] => .ok (p, [])
  | steps + 1, p, argument :: rest => do
    match argument with
    | '-' :: '-' :: [] =>
      if p.operands.length + rest.length ≤ operands then
        return ({ p with operands := p.operands ++ rest.map String.ofList }, [])
      else throw .usage
    | '-' :: '-' :: body =>
      let (p, rest) ← readLong specs version p body rest
      readArguments specs version operands ends steps p rest
    | '-' :: c :: letters =>
      let (p, rest) ← readLetters specs version rest p (c :: letters)
      readArguments specs version operands ends steps p rest
    | _ =>
      if ends argument then return (p, argument :: rest)
      else if p.operands.length < operands then
        readArguments specs version operands ends steps
          { p with operands := p.operands ++ [String.ofList argument] } rest
      else throw .usage

/-- Reads all arguments of a command. -/
def readAll (specs : List OptionSpec) (operands : Nat) (arguments : List (List Char)) :
    Except Refusal Parsed := do
  let (p, _) ← readArguments (verbose :: specs) false operands (fun _ => false)
    (arguments.length + 1) {} arguments
  return p

/-! ### The commands -/

/-- What the scan command is asked for, as it is written. -/
structure ScanArguments where
  path : Path := .ofString "."
  config : Option Path := none
  format : String := "console"
  leastSeverity : Option String := none
  languages : Option (List String) := none
  concurrency : Option Nat := none
  failOn : Option String := none
  /-- The file to write the report to. -/
  output : Option Path := none
  deriving Inhabited

/-- The commands. -/
inductive Request where
  | scan (arguments : ScanArguments)
  | listRules (format : String)
  | init (force : Bool)
  deriving Inhabited

/-- A number of 64 bits, possibly after a plus sign. -/
def number? (s : String) : Option Nat :=
  let ds := match s.toList with
    | '+' :: r => r
    | r => r
  let n := Nat.ofDigitChars 10 ds 0
  if !ds.isEmpty && ds.all Char.isDigit && n < Word.unsignedLimit then some n else none

/-- The pieces of a text between commas. -/
def commaPieces (s : String) : List String := (s.toList.splitOn ',').map String.ofList

def isPath (s : String) : Bool := !s.isEmpty

def scanOptions : List OptionSpec :=
  [{ name := "config", letter := some 'c', accepts := isPath },
   { name := "format", letter := some 'f' },
   { name := "min-severity" },
   { name := "languages", repeats := true },
   { name := "concurrency", accepts := fun s => (number? s).isSome },
   { name := "fail-on" },
   { name := "output", letter := some 'o', accepts := isPath }]

/-- The variable that sets the number of workers where no option does. -/
def concurrencyVariable : String := "SECURESCAN_CONCURRENCY"

/-- Reads the arguments of the scan command. -/
def readScan (environment : String → Option String) (arguments : List (List Char)) :
    Except Refusal Request := do
  let p ← readAll scanOptions 1 arguments
  if !p.operands.all isPath then throw .usage
  let concurrency ← match (p.value? "concurrency").or (environment concurrencyVariable) with
    | none => pure none
    | some s =>
      match number? s with
      | some n => pure (some n)
      | none => throw .usage
  let languages := p.values "languages"
  return .scan
    { path := .ofString (p.operands.head?.getD ".")
      config := (p.value? "config").map Path.ofString
      format := (p.value? "format").getD "console"
      leastSeverity := p.value? "min-severity"
      languages := if languages.isEmpty then none else some (languages.flatMap commaPieces)
      concurrency
      failOn := p.value? "fail-on"
      output := (p.value? "output").map Path.ofString }

def readListRules (arguments : List (List Char)) : Except Refusal Request := do
  let p ← readAll [{ name := "format", letter := some 'f' }] 0 arguments
  return .listRules ((p.value? "format").getD "table")

def readInit (arguments : List (List Char)) : Except Refusal Request := do
  let p ← readAll [{ name := "force", takesValue := false }] 0 arguments
  return .init (p.isGiven "force")

/-- The help command takes the name of at most one command. -/
def readHelp (arguments : List (List Char)) : Refusal :=
  match arguments.map String.ofList with
  | [] | ["scan"] | ["list-rules"] | ["init"] | ["help"] => .help
  | _ => .usage

/-- The command that a command line asks for. -/
def read (environment : String → Option String) (arguments : List String) :
    Except Refusal Request := do
  let arguments := arguments.map String.toList
  let (_, rest) ← readArguments [verbose] true 0 (fun _ => true) (arguments.length + 1) {} arguments
  match rest with
  | name :: arguments =>
    match String.ofList name with
    | "scan" => readScan environment arguments
    | "list-rules" => readListRules arguments
    | "init" => readInit arguments
    | "help" => throw (readHelp arguments)
    | _ => throw .usage
  | [] => throw .usage

end SourceAudit.Command
