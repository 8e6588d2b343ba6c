import SourceAudit.Grammar.PythonExpression

/-! The statements of Python, and its source files.

A block is made of lines that are indented at least as far as its first one. A line that
cannot be read becomes an error node, and reading goes on with the next line. -/
namespace SourceAudit.Grammar.Python

open Syntax Cursor

variable (r : Rules)

/-! ### Lines -/

/-- The beginning of a line whose indentation passes a test. -/
def line (test : Nat → Bool) : P Unit := do
  let _ ← token fun
    | .line indent _ => test indent
    | _ => false

/-- Whether a statement may end here. -/
def atEnd : P Bool := do
  match ← peek? with
  | none | some (.line ..) => return true
  | some t => return t.isPlain .punct ";"

/-- Reads the rest of a statement without looking at it. -/
def skipStatement : P Unit := do
  let _ ← Parser.many (← remaining) do
    Parser.require !(← atEnd)
    token fun _ => true

/-- Reads the rest of a line without looking at it. -/
def skipLine : P Unit := do
  let _ ← Parser.many (← remaining) (token fun
    | .line .. => false
    | _ => true)

/-! ### Assignments -/

/-- One target, or several between commas. -/
def target (start : Nat) (items : List Tree) (comma : Bool) : P Tree :=
  match items, comma with
  | [e], false => pure (asPattern e)
  | _, _ => close "pattern_list" start (items.map asPattern)

def augmentedOperators : List String :=
  ["+=", "-=", "*=", "/=", "@=", "//=", "%=", "**=", ">>=", "<<=", "&=", "^=", "|="]

/-- An assignment to a target that has been read; `value` reads its right side. -/
def assignmentTo (value : P Tree) (start : Nat) (items : List Tree) (comma : Bool) : P Tree := do
  let left ← target start items comma
  Parser.firstOf
    [(do
        let _ ← punct "="
        let right ← value
        close "assignment" start [left.filling "left", right.filling "right"]),
     (do
        let (text, op) ← operatorOf augmentedOperators
        let right ← value
        close "augmented_assignment" start
          [left.filling "left", mark text "operator" op.start op.stop, right.filling "right"])]

/-- The right side of an assignment, which may be an assignment too. -/
def rightSide : Nat → P Tree
  | 0 => failure
  | n + 1 => do
    let start ← position
    yieldExpression r <|> (do
      let (items, comma) ← commaItems (element r)
      assignmentTo (rightSide n) start items comma <|>
        (match items, comma with
          | [e], false => pure e
          | _, _ => close "expression_list" start items))

/-- A target with its type, and possibly its value. -/
def annotatedAssignment (start : Nat) (e : Tree) : P Tree := do
  let _ ← punct ":"
  let t ← ascription r
  let value ← Parser.optional (do let _ ← punct "="; rightSide r (← remaining))
  close "assignment" start
    ((asPattern e).filling "left" :: t.filling "type" ::
      (value.map (·.filling "right")).toList)

/-- An expression, several of them, or an assignment. -/
def expressionStatement : P Tree := do
  let start ← position
  let parts ← (do return [← yieldExpression r]) <|> (do
    let (items, comma) ← commaItems (element r)
    Parser.firstOf
      [(do return [← assignmentTo (rightSide r (← remaining)) start items comma]),
       (match items, comma with
        | [e], false => do return [← annotatedAssignment r start e]
        | _, _ => failure),
       pure items])
  close "expression_statement" start parts

/-! ### Simple statements -/

/-- The place a print statement writes to. -/
def chevron : P Tree := do
  let start ← position
  let _ ← punct ">>"
  let e ← r.expression
  close "chevron" start [e]

def printStatement : P Tree := do
  let start ← position
  let _ ← keyword "print"
  let place ← Parser.optional (chevron r)
  if place.isSome then
    let _ ← Parser.optional (punct ",")
  let items ← commaList r.expression
  Parser.require (place.isSome || !items.isEmpty)
  close "print_statement" start (place.toList ++ items.map (·.filling "argument"))

def execStatement : P Tree := do
  let start ← position
  let _ ← keyword "exec"
  let code ← stringLiteral r <|> identifier
  let scope ← Parser.optional (do
    let _ ← keyword "in"
    let (items, _) ← commaItems r.expression
    return items)
  close "exec_statement" start (code.filling "code" :: scope.getD [])

/-- The names of types that a definition takes. -/
def typeParameters : P Tree := do
  let start ← position
  let _ ← punct "["
  let items ← commaList do
    let n ← parameterName r
    let bound ← Parser.optional (do let _ ← punct ":"; ascription r)
    let _ ← Parser.optional (do let _ ← punct "="; ascription r)
    close "type" n.start (n :: bound.toList)
  let _ ← punct "]"
  close "type_parameter" start items

/-- The name of a type, possibly with the types that it takes. -/
def typeName : P Tree := do
  let n ← identifier
  let types ← typeParameters r
  close "type" n.start [n, types]

def typeAlias : P Tree := do
  let start ← position
  let _ ← keyword "type"
  let left ← typeName r <|> ascription r
  let _ ← punct "="
  let right ← ascription r
  close "type_alias_statement" start [left.filling "left", right.filling "right"]

/-- A keyword with the expressions after it. -/
def keywordStatement (word kind : String) : P Tree := do
  let start ← position
  let _ ← keyword word
  let e ← Parser.optional (expressions r)
  close kind start e.toList

def raiseStatement : P Tree := do
  let start ← position
  let _ ← keyword "raise"
  let e ← Parser.optional (expressions r)
  let cause ← Parser.optional (do let _ ← keyword "from"; r.expression)
  close "raise_statement" start (e.toList ++ (cause.map (·.filling "cause")).toList)

def assertStatement : P Tree := do
  let start ← position
  let _ ← keyword "assert"
  let (items, _) ← commaItems r.expression
  close "assert_statement" start items

/-- A statement that holds names only; they are not told apart. -/
def namesStatement (word kind : String) : P Tree := do
  let start ← position
  let _ ← keyword word
  skipStatement
  close kind start []

/-- A statement that has its place on one line. -/
def simpleStatement : P Tree :=
  let ended (p : P Tree) : P Tree := do
    let t ← p
    Parser.require (← atEnd)
    return t
  Parser.firstOf
    [keywordStatement r "return" "return_statement", keywordStatement r "del" "delete_statement",
     keywordStatement r "pass" "pass_statement", keywordStatement r "break" "break_statement",
     keywordStatement r "continue" "continue_statement", raiseStatement r, assertStatement r,
     namesStatement "import" "import_statement", namesStatement "from" "import_from_statement",
     namesStatement "global" "global_statement", namesStatement "nonlocal" "nonlocal_statement",
     ended (do
        let t ← printStatement r
        Parser.require (t.hasChild "chevron")
        return t),
     ended (expressionStatement r), ended (printStatement r), ended (execStatement r),
     ended (typeAlias r)]

/-- Simple statements up to the end of the line. -/
def simpleStatements : P (List Tree) := do
  let first ← simpleStatement r
  let rest ← Parser.many (← remaining) (do let _ ← punct ";"; simpleStatement r)
  let _ ← Parser.optional (punct ";")
  match ← peek? with
  | none | some (.line ..) => return first :: rest
  | some _ => failure

/-! ### Blocks -/

/-- The lines of a block with some indentation. -/
def lines (indent : Nat) : P (List Tree) := do
  let found ← Parser.many (← remaining) do
    line (indent ≤ ·)
    r.statement indent
  return found.flatten

/-- The block after a colon: the rest of the line, or the lines that are indented further. -/
def suite (indent : Nat) : P Tree := do
  let _ ← punct ":"
  let start ← position
  match ← peek? with
  | some (.line inner _) =>
    if indent < inner then
      let body ← lines r inner
      close "block" start body
    else close "block" start []
  | none => close "block" start []
  | some _ =>
    let body ← simpleStatements r
    close "block" start body

/-- A later clause of a statement; it begins a line of its own. -/
def clause (indent : Nat) (p : P Tree) : P Tree := do
  line (indent ≤ ·)
  p

def elseClause (indent : Nat) : P Tree := clause indent do
  let start ← position
  let _ ← keyword "else"
  let body ← suite r indent
  close "else_clause" start [body.filling "body"]

def elifClause (indent : Nat) : P Tree := clause indent do
  let start ← position
  let _ ← keyword "elif"
  let condition ← r.expression
  let body ← suite r indent
  close "elif_clause" start [condition.filling "condition", body.filling "consequence"]

def ifStatement (indent : Nat) : P Tree := do
  let start ← position
  let _ ← keyword "if"
  let condition ← r.expression
  let body ← suite r indent
  let others ← Parser.many (← remaining) (elifClause r indent)
  let last ← Parser.optional (elseClause r indent)
  close "if_statement" start
    (condition.filling "condition" :: body.filling "consequence" ::
      (others ++ last.toList).map (·.filling "alternative"))

def whileStatement (indent : Nat) : P Tree := do
  let start ← position
  let _ ← keyword "while"
  let condition ← r.expression
  let body ← suite r indent
  let last ← Parser.optional (elseClause r indent)
  close "while_statement" start
    (condition.filling "condition" :: body.filling "body" ::
      (last.map (·.filling "alternative")).toList)

def forStatement (indent : Nat) : P Tree := do
  let start ← position
  let _ ← Parser.optional (keyword "async")
  let _ ← keyword "for"
  let left ← patterns r
  let _ ← keyword "in"
  let right ← expressions r
  let body ← suite r indent
  let last ← Parser.optional (elseClause r indent)
  close "for_statement" start
    (left.filling "left" :: right.filling "right" :: body.filling "body" ::
      (last.map (·.filling "alternative")).toList)

/-- An expression, possibly with a name for its value. -/
def aliased : P Tree := do
  let e ← r.expression
  (do
      let _ ← keyword "as"
      let start ← position
      let x ← r.expression
      let target ← close "as_pattern_target" start [x]
      close "as_pattern" e.start [e, target.filling "alias"])
    <|> pure e

def exceptClause (indent : Nat) : P Tree := clause indent do
  let start ← position
  let _ ← keyword "except"
  let group ← Parser.optional (punct "*")
  let (items, _) ← (commaItems (aliased r)) <|> pure ([], false)
  let body ← suite r indent
  let kind := if group.isSome then "except_group_clause" else "except_clause"
  close kind start (items.map (·.filling "value") ++ [body])

def finallyClause (indent : Nat) : P Tree := clause indent do
  let start ← position
  let _ ← keyword "finally"
  let body ← suite r indent
  close "finally_clause" start [body]

def tryStatement (indent : Nat) : P Tree := do
  let start ← position
  let _ ← keyword "try"
  let body ← suite r indent
  let handlers ← Parser.many (← remaining) (exceptClause r indent)
  let other ← Parser.optional (elseClause r indent)
  let last ← Parser.optional (finallyClause r indent)
  close "try_statement" start
    (body.filling "body" :: handlers ++ other.toList ++ last.toList)

/-- The values a block is entered with; they may stand in parentheses. -/
def withItems : P (List Tree) :=
  let item : P Tree := do
    let start ← position
    let e ← aliased r
    close "with_item" start [e.filling "value"]
  (do
      let _ ← punct "("
      let (items, _) ← commaItems item
      let _ ← punct ")"
      let colon ← Parser.ahead (punct ":")
      Parser.require colon
      return items)
    <|> (do return (← commaItems item).1)

def withStatement (indent : Nat) : P Tree := do
  let start ← position
  let _ ← Parser.optional (keyword "async")
  let _ ← keyword "with"
  let listStart ← position
  let items ← withItems r
  let list ← close "with_clause" listStart items
  let body ← suite r indent
  close "with_statement" start [list, body.filling "body"]

/-! ### Definitions -/

def parameters : P Tree := do
  let start ← position
  let _ ← punct "("
  let items ← commaList (parameter r true)
  let _ ← punct ")"
  close "parameters" start items

def functionDefinition (indent : Nat) : P Tree := do
  let start ← position
  let _ ← Parser.optional (keyword "async")
  let _ ← keyword "def"
  let n ← identifier
  let types ← Parser.optional (typeParameters r)
  let list ← parameters r
  let result ← Parser.optional (do let _ ← punct "->"; ascription r)
  let body ← suite r indent
  close "function_definition" start
    (n.filling "name" :: (types.map (·.filling "type_parameters")).toList ++
      list.filling "parameters" :: (result.map (·.filling "return_type")).toList ++
      [body.filling "body"])

def classDefinition (indent : Nat) : P Tree := do
  let start ← position
  let _ ← keyword "class"
  let n ← identifier
  let types ← Parser.optional (typeParameters r)
  let bases ← Parser.optional (arguments r)
  let body ← suite r indent
  close "class_definition" start
    (n.filling "name" :: (types.map (·.filling "type_parameters")).toList ++
      (bases.map (·.filling "superclasses")).toList ++ [body.filling "body"])

def decorator : P Tree := do
  let start ← position
  let _ ← punct "@"
  let e ← r.expression
  close "decorator" start [e]

def decoratedDefinition (indent : Nat) : P Tree := do
  let start ← position
  let first ← decorator r
  let rest ← Parser.many (← remaining) (clause indent (decorator r))
  let definition ← clause indent (functionDefinition r indent <|> classDefinition r indent)
  close "decorated_definition" start (first :: rest ++ [definition.filling "definition"])

/-! ### Choices between patterns -/

/-- Skips a pattern up to the colon or the condition after it. -/
def skipPattern : Nat → Nat → P Unit
  | 0, _ => failure
  | n + 1, depth => do
    match ← peek? with
    | none | some (.line ..) => failure
    | some t =>
      if depth = 0 && (t.isPlain .punct ":" || t.isPlain .word "if") then pure ()
      else
        let _ ← token fun _ => true
        let opens := ["(", "[", "\x7b"].any (t.isPlain .punct ·)
        let closes := [")", "]", "\x7d"].any (t.isPlain .punct ·)
        skipPattern n (if opens then depth + 1 else if closes then depth - 1 else depth)

def caseClause (indent : Nat) : P Tree := do
  let start ← position
  let _ ← keyword "case"
  let patternStart ← position
  skipPattern (← remaining) 0
  let p ← close "case_pattern" patternStart []
  let guard ← Parser.optional (do
    let guardStart ← position
    let _ ← keyword "if"
    let e ← r.expression
    close "if_clause" guardStart [e])
  let body ← suite r indent
  close "case_clause" start
    (p :: (guard.map (·.filling "guard")).toList ++ [body.filling "consequence"])

def matchStatement (indent : Nat) : P Tree := do
  let start ← position
  let _ ← keyword "match"
  let (subjects, _) ← commaItems (element r)
  let _ ← punct ":"
  let blockStart ← position
  match ← peek? with
  | some (.line inner _) =>
    Parser.require (indent < inner)
    let cases ← Parser.many (← remaining) (clause inner (caseClause r inner))
    Parser.require !cases.isEmpty
    let body ← close "block" blockStart (cases.map (·.filling "alternative"))
    close "match_statement" start (subjects.map (·.filling "subject") ++ [body.filling "body"])
  | _ => failure

/-! ### Files -/

/-- The statements of a line, or an error node where they cannot be read. -/
def statement (indent : Nat) : P (List Tree) := do
  let start ← position
  if (← remaining) = 0 then return []
  let one (p : P Tree) : P (List Tree) := do return [← p]
  Parser.firstOf
    [one (ifStatement r indent), one (forStatement r indent), one (whileStatement r indent),
     one (tryStatement r indent), one (withStatement r indent),
     one (functionDefinition r indent), one (classDefinition r indent),
     one (decoratedDefinition r indent), one (matchStatement r indent), simpleStatements r,
     one (do
        skipLine
        close "ERROR" start [])]

/-- The parsers one level deeper. -/
def deeper : Rules where
  expression := expression r
  disjunction := disjunction r
  negation := negation r
  unary := unary r
  pattern := pattern r
  statement := statement r

/-- The parsers for constructs that nest at most `n` deep. -/
def rules : Nat → Rules
  | 0 => ⟨failure, failure, failure, failure, failure, fun _ => failure⟩
  | n + 1 => deeper (rules n)

/-- The syntax tree of a source text. -/
def parse (text : List Char) : Tree :=
  let length := Text.Utf8.byteLength text
  match lines (rules (2 * text.length + 4)) 0 ⟨tokens text, 0⟩ with
  | some (body, _) => named "module" 0 length body
  | none => named "module" 0 length []

end SourceAudit.Grammar.Python
