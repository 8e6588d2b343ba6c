import SourceAudit.Finding
import SourceAudit.Lowering
import SourceAudit.Rule.CallTable
import SourceAudit.Text.Search

/-! Structural rules: conditions on the calls and assignments of a file. -/
namespace SourceAudit

/-- What a structural rule looks for. -/
inductive Criterion where
  /-- Calls in a language that satisfy a condition. -/
  | calls (test : Language → Call → Bool)
  /-- Assignments in a language that satisfy a condition. -/
  | assignments (test : Language → Assignment → Bool)

/-- A rule over constructs. -/
structure StructuralRule where
  info : RuleInfo
  criterion : Criterion

namespace StructuralRule

/-- The sites of the constructs that a rule reports. -/
def sites (rule : StructuralRule) (language : Language) (c : Constructs) : List Site :=
  match rule.criterion with
  | .calls test => (c.calls.filter (test language)).map (·.site)
  | .assignments test => (c.assignments.filter (test language)).map (·.site)

/-- The findings of a rule in a file. -/
def findings (rule : StructuralRule) (file : String) (language : Language) (c : Constructs) :
    List Finding :=
  (rule.sites language c).map (Finding.ofSite rule.info file language)

/-! ### Running code -/

/-- The functions that run a text as code. -/
def evaluators : Language → List String
  | .javascript | .typescript => ["eval", "Function"]
  | .python => ["eval", "exec", "compile"]
  | .go => []

def isEvaluation (language : Language) (call : Call) : Bool :=
  (evaluators language).contains call.callee

/-! ### Starting processes -/

def spawnNames : List String :=
  ["exec", "execSync", "execFile", "execFileSync", "spawn", "spawnSync"]

/-- The calls that start a process, with the argument that holds the command. -/
def spawnTable : Language → CallTable
  | .javascript | .typescript =>
    { callees := CallTable.entries spawnNames 0, properties := CallTable.entries spawnNames 0 }
  | .python =>
    { callees := CallTable.entries
        ["os.system", "os.popen", "os.exec", "os.execv", "os.execve", "os.execvp",
         "subprocess.call", "subprocess.run", "subprocess.Popen", "subprocess.check_output",
         "subprocess.check_call", "commands.getoutput"] 0 }
  | .go => { callees := [("exec.Command", 0), ("exec.CommandContext", 1)] }

/-- A process is started with anything but a plain string. -/
def isCommand (language : Language) (call : Call) : Bool :=
  !call.construct && (spawnTable language).inspects (!·.isStringLiteral) call

/-! ### Opening files -/

/-- The calls that open a file, with the argument that holds the path. -/
def fileTable : Language → CallTable
  | .javascript | .typescript =>
    { properties := CallTable.entries
        ["readFile", "readFileSync", "writeFile", "writeFileSync", "appendFile", "appendFileSync",
         "unlink", "unlinkSync", "readdir", "readdirSync", "createReadStream",
         "createWriteStream"] 0 }
  | .python => { callees := [("open", 0)] }
  | .go =>
    { callees := CallTable.entries
        ["os.Open", "os.Create", "os.OpenFile", "os.ReadFile", "os.WriteFile"] 0 }

/-- A file is opened at a path that varies. -/
def isFileAccess (language : Language) (call : Call) : Bool :=
  !call.construct && (fileTable language).inspects (·.isDynamic) call

/-! ### Querying a database -/

/-- The methods that run a query, with the argument that holds it. -/
def queryTable : Language → CallTable
  | .javascript | .typescript =>
    { properties := CallTable.entries ["query", "execute", "raw", "prepare"] 0 }
  | .python => { properties := CallTable.entries ["execute", "executemany"] 0 }
  | .go =>
    { properties := CallTable.entries ["Query", "Exec", "QueryRow"] 0 ++
        CallTable.entries ["QueryContext", "ExecContext", "QueryRowContext"] 1 }

/-- A query is put together at run time. -/
def isQuery (language : Language) (call : Call) : Bool :=
  !call.construct && call.property.isSome && (queryTable language).inspects (·.isBuiltString) call

/-! ### Writing markup -/

/-- The members that take markup. -/
def markupSinks : List String := ["innerHTML", "outerHTML"]

/-- Markup is written from anything but a plain string. -/
def isMarkupWrite (language : Language) (a : Assignment) : Bool :=
  language.isEcmascript && a.property.any markupSinks.contains &&
    a.values.any (!·.shape.isStringLiteral)

/-! ### Keeping secrets -/

def secretNames : List String :=
  ["password", "passwd", "secret", "token", "api_key", "apikey", "api_secret", "access_token",
   "auth_token", "private_key", "secret_key", "database_url", "db_password"]

/-- Whether a target is named like a credential, in any letter case. -/
def isSecretName (target : String) : Bool :=
  secretNames.any fun name => Text.contains name.toList (Text.lower target.toList)

/-- A literal with its quotes has to be longer than this to be a secret. -/
def shortLiteral : Nat := 4

def isSecretValue (v : Value) : Bool :=
  v.shape.isStringLiteral && shortLiteral < v.text.toList.length

/-- A credential is written out. -/
def isHardcodedSecret (_ : Language) (a : Assignment) : Bool :=
  isSecretName a.target && a.values.any isSecretValue

/-! ### Reading serialized objects -/

def riskyLoaders : List String :=
  ["pickle.load", "pickle.loads", "cPickle.load", "cPickle.loads", "yaml.load", "marshal.loads",
   "shelve.open"]

/-- The loaders that make a load of YAML safe. -/
def safeLoaders : List String := ["SafeLoader", "FullLoader"]

/-- Objects are read back by a loader that runs code, unless the call names a safe one. -/
def isDeserialization (language : Language) (call : Call) : Bool :=
  language = .python && riskyLoaders.contains call.callee &&
    (call.callee ≠ "yaml.load" ||
      !safeLoaders.any fun loader => Text.contains loader.toList call.text.toList)

/-! ### Writing to prototypes -/

def prototypeKeys : List String := ["__proto__", "constructor"]

/-- An assignment goes through the prototype of an object. -/
def isPrototypeWrite (language : Language) (a : Assignment) : Bool :=
  language.isEcmascript && a.targetKeys.any prototypeKeys.contains

/-! ### The catalog -/

def structuralInfo (kind name : String) (severity : Severity) (cwe message : String) : RuleInfo :=
  { kind, name, severity, cwe, message, engine := "structural" }

def evaluation : StructuralRule :=
  ⟨structuralInfo "eval_injection" "Eval Injection" .critical "CWE-95"
    "Dangerous eval/exec call allows arbitrary code execution", .calls isEvaluation⟩

def command : StructuralRule :=
  ⟨structuralInfo "command_injection" "Command Injection" .critical "CWE-78"
    "OS command execution with potentially unsanitized input", .calls isCommand⟩

def fileAccess : StructuralRule :=
  ⟨structuralInfo "path_traversal" "Path Traversal" .high "CWE-22"
    "File operation with dynamic path may allow directory traversal", .calls isFileAccess⟩

def markupWrite : StructuralRule :=
  ⟨structuralInfo "xss_dom" "DOM XSS" .high "CWE-79"
    "DOM-based XSS: unsafe assignment to innerHTML/outerHTML", .assignments isMarkupWrite⟩

def query : StructuralRule :=
  ⟨structuralInfo "sql_injection_ast" "SQL Injection" .high "CWE-89"
    "SQL query constructed with string interpolation or concatenation", .calls isQuery⟩

def hardcodedSecret : StructuralRule :=
  ⟨structuralInfo "hardcoded_secret_ast" "Hardcoded Credential" .critical "CWE-798"
    "Hardcoded credential detected in variable assignment", .assignments isHardcodedSecret⟩

def deserialization : StructuralRule :=
  ⟨structuralInfo "insecure_deserialization" "Insecure Deserialization" .high "CWE-502"
    "Deserialization of untrusted data (pickle/yaml.load without SafeLoader)",
    .calls isDeserialization⟩

def prototypeWrite : StructuralRule :=
  ⟨structuralInfo "prototype_pollution" "Prototype Pollution" .medium "CWE-1321"
    "Potential prototype pollution via __proto__ or constructor.prototype",
    .assignments isPrototypeWrite⟩

/-- The structural rules, in reporting order. -/
def catalog : List StructuralRule :=
  [evaluation, command, fileAccess, markupWrite, query, hardcodedSecret, deserialization,
   prototypeWrite]

/-- The findings of all structural rules, rule by rule. -/
def allFindings (file : String) (language : Language) (c : Constructs) : List Finding :=
  catalog.flatMap fun rule => rule.findings file language c

end StructuralRule
end SourceAudit
