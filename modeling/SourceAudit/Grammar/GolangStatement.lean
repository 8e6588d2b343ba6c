import SourceAudit.Grammar.GolangExpression

/-! The statements of Go, and whole files.

A statement that cannot be read is skipped up to the end of its line and leaves a node of the
kind `ERROR`. -/
namespace SourceAudit.Grammar.Golang

open Syntax Cursor

variable (r : Rules)

def assignmentOperators : List String :=
  ["=", "+=", "-=", "*=", "/=", "%=", "&=", "|=", "^=", "<<=", ">>=", "&^="]

/-- The end of a statement: a semicolon or the end of a line. -/
def separator : P Unit := do
  let _ ← token fun t => t.kind = .newline || (t.kind = .punct && t.text = ";")

/-! ### Simple statements -/

/-- The rest of a simple statement after its first list of expressions. -/
def simpleAfter (literals : Bool) (left : Tree) : P Tree := do
  let start := left.start
  let declaration := do
    let _ ← punct ":="
    let right ← expressionList r literals
    close "short_var_declaration" start [left.filling "left", right.filling "right"]
  let assignment := do
    let op ← token fun t => t.kind = .punct && assignmentOperators.contains t.text
    skipLines
    let right ← expressionList r literals
    close "assignment_statement" start
      [left.filling "left", mark op.text "operator" op.start op.stop, right.filling "right"]
  let single : P Tree := match left.children with
    | [e] => pure e
    | _ => failure
  let step := do
    let e ← single
    (do let _ ← punct "++"; close "inc_statement" start [e])
      <|> (do let _ ← punct "--"; close "dec_statement" start [e])
  let send := do
    let e ← single
    let _ ← punct "<-"
    let v ← r.expression literals
    close "send_statement" start [e.filling "channel", v.filling "value"]
  let alone := do
    let e ← single
    return named "expression_statement" e.start e.stop [e]
  Parser.firstOf [declaration, assignment, step, send, alone]

def simpleStatement (literals : Bool) : P Tree := do
  simpleAfter r literals (← expressionList r literals)

/-! ### Declarations -/

/-- A declared group: one item, or items that end with their lines in parentheses. -/
def group (item : P Tree) : P (List Tree) :=
  (do
      let _ ← punct "("
      let separators : P Unit := do
        let _ ← Parser.many (← remaining) separator
      separators
      let items ← Parser.many (← remaining) (do let x ← item; separators; return x)
      let _ ← punct ")"
      return items)
    <|> (do return [← item])

/-- The items of a group in parentheses have a node of their own. -/
def grouped (kind : String) (item : P Tree) : P (List Tree) := do
  let start ← position
  let parenthesized ← atPunct "("
  let items ← group item
  if parenthesized then
    let list ← close kind start items
    return [list]
  else return items

def names : P (List Tree) := do
  let first ← name
  let rest ← Parser.many (← remaining) (do let _ ← punct ","; skipLines; name)
  return (first :: rest).map fun n => (leaf "identifier" n).filling "name"

/-- Names with a type, values, or both. -/
def specification (kind : String) : P Tree := do
  let start ← position
  let ns ← names
  let t ← Parser.optional r.type
  let values ← Parser.optional do
    let _ ← punct "="
    skipLines
    expressionList r true
  close kind start
    (ns ++ (t.map (·.filling "type")).toList ++ (values.map (·.filling "value")).toList)

def typeParameter : P Tree := do
  let start ← position
  let first ← name
  let rest ← Parser.many (← remaining) (do let _ ← punct ","; name)
  let constraint ← typeElement r
  close "type_parameter_declaration" start
    ((first :: rest).map (fun n => (leaf "identifier" n).filling "name") ++
      [(constraint.withKind "type_constraint").filling "type"])

def typeParameters : P Tree := do
  let start ← position
  let _ ← punct "["
  let items ← commaList (typeParameter r)
  Parser.require !items.isEmpty
  let _ ← punct "]"
  close "type_parameter_list" start items

def typeSpecification : P Tree := do
  let start ← position
  let n ← name
  let nameTree := (leaf "type_identifier" n).filling "name"
  let spec := do
    let parameters ← Parser.optional (typeParameters r)
    let alias? ← Parser.optional (punct "=")
    let t ← r.type
    let kind := if alias?.isSome then "type_alias" else "type_spec"
    close kind start
      (nameTree :: (parameters.map (·.filling "type_parameters")).toList ++ [t.filling "type"])
  let plain := do
    let t ← r.type
    close "type_spec" start [nameTree, t.filling "type"]
  spec <|> plain

def declaration : P Tree := do
  let start ← position
  Parser.firstOf
    [(do
        let _ ← keyword "var"
        close "var_declaration" start (← grouped "var_spec_list" (specification r "var_spec"))),
     (do
        let _ ← keyword "const"
        close "const_declaration" start (← group (specification r "const_spec"))),
     (do
        let _ ← keyword "type"
        close "type_declaration" start (← group (typeSpecification r)))]

/-! ### Compound statements -/

/-- The expression that a statement consists of. -/
def conditionOf? (statement : Tree) : Option Tree :=
  if statement.kind = "expression_statement" then statement.children.head? else none

/-- An optional simple statement and a semicolon, then an optional expression. -/
def header : P (Option Tree × Option Tree) := do
  if ← atPunct "\x7b" then return (none, none)
  let first ← Parser.optional (simpleStatement r false)
  match ← Parser.optional (punct ";") with
  | some _ =>
    if ← atPunct "\x7b" then return (first, none)
    return (first, some (← r.expression false))
  | none =>
    match first.bind conditionOf? with
    | some e => return (none, some e)
    | none => failure

def ifStatement : P Tree := do
  let start ← position
  let _ ← keyword "if"
  let (first, condition) ← header r
  let body ← r.block
  let alternative ← Parser.optional do
    let _ ← keyword "else"
    if ← atKeyword "if" then r.statement else r.block
  close "if_statement" start
    ((first.map (·.filling "initializer")).toList ++ (condition.map (·.filling "condition")).toList ++
      body.filling "consequence" :: (alternative.map (·.filling "alternative")).toList)

/-- The part of a loop before its body. -/
def loopHeader : P (List Tree) := do
  if ← atPunct "\x7b" then return []
  let start ← position
  let range (left : Option Tree) : P (List Tree) := do
    let _ ← keyword "range"
    let right ← r.expression false
    return [← close "range_clause" start
      ((left.map (·.filling "left")).toList ++ [right.filling "right"])]
  let clause (first : Option Tree) : P (List Tree) := do
    let _ ← punct ";"
    let condition ← Parser.optional (r.expression false)
    let _ ← separator
    let update ← Parser.optional (simpleStatement r false)
    return [← close "for_clause" start
      ((first.map (·.filling "initializer")).toList ++
        (condition.map (·.filling "condition")).toList ++ (update.map (·.filling "update")).toList)]
  Parser.firstOf
    [range none, clause none,
     (do
        let left ← expressionList r false
        Parser.firstOf
          [(do
              let _ ← punct ":=" <|> punct "="
              range (some left)),
           (do
              let first ← simpleAfter r false left
              (clause (some first)) <|> (do
                match conditionOf? first with
                | some e => return [e]
                | none => failure))])]

def forStatement : P Tree := do
  let start ← position
  let _ ← keyword "for"
  let parts ← loopHeader r
  let body ← r.block
  close "for_statement" start (parts ++ [body.filling "body"])

/-- Statements up to the end of a case or of a block. -/
def statements : P (List Tree) := do
  let _ ← Parser.many (← remaining) separator
  Parser.many (← remaining) do
    let s ← r.statement
    let _ ← Parser.many (← remaining) separator
    return s

/-- The cases of a switch in braces. -/
def cases (item : P Tree) : P (List Tree) := do
  let _ ← punct "\x7b"
  skipLines
  let items ← Parser.many (← remaining) item
  let _ ← punct "\x7d"
  return items

def defaultCase : P Tree := do
  let start ← position
  let _ ← keyword "default"
  let _ ← punct ":"
  let body ← statements r
  close "default_case" start body

def expressionCase : P Tree := do
  let start ← position
  let _ ← keyword "case"
  let values ← expressionList r true
  let _ ← punct ":"
  let body ← statements r
  close "expression_case" start (values.filling "value" :: body)

def typeCase : P Tree := do
  let start ← position
  let _ ← keyword "case"
  let first ← r.type
  let rest ← Parser.many (← remaining) (do let _ ← punct ","; skipLines; r.type)
  let _ ← punct ":"
  let body ← statements r
  close "type_case" start ((first :: rest).map (·.filling "type") ++ body)

/-- What a switch over types begins with. -/
def typeSwitchHeader : P (List Tree) := do
  let first ← Parser.optional (do
    let s ← simpleStatement r false
    let _ ← punct ";"
    return s)
  let bound ← Parser.optional (do
    let xs ← expressionList r false
    let _ ← punct ":="
    return xs)
  let value ← primary r false
  let _ ← punct "."
  let _ ← punct "("
  let _ ← keyword "type"
  let _ ← punct ")"
  return (first.map (·.filling "initializer")).toList ++
    (bound.map (·.filling "alias")).toList ++ [value.filling "value"]

def switchStatement : P Tree := do
  let start ← position
  let _ ← keyword "switch"
  Parser.firstOf
    [(do
        let parts ← typeSwitchHeader r
        let items ← cases (typeCase r <|> defaultCase r)
        close "type_switch_statement" start (parts ++ items)),
     (do
        let (first, value) ← header r
        let items ← cases (expressionCase r <|> defaultCase r)
        close "expression_switch_statement" start
          ((first.map (·.filling "initializer")).toList ++
            (value.map (·.filling "value")).toList ++ items))]

/-- What a case of a selection waits for: a value sent or received. -/
def communication : P Tree := do
  let left ← expressionList r true
  let start := left.start
  Parser.firstOf
    [(do
        let _ ← punct ":=" <|> punct "="
        let right ← r.expression true
        close "receive_statement" start [left.filling "left", right.filling "right"]),
     (do
        match left.children with
        | [e] =>
          let _ ← punct "<-"
          let v ← r.expression true
          close "send_statement" start [e.filling "channel", v.filling "value"]
        | _ => failure),
     (do
        match left.children with
        | [e] => close "receive_statement" start [e.filling "right"]
        | _ => failure)]

def communicationCase : P Tree := do
  let start ← position
  let _ ← keyword "case"
  let c ← communication r
  let _ ← punct ":"
  let body ← statements r
  close "communication_case" start (c.filling "communication" :: body)

def selectStatement : P Tree := do
  let start ← position
  let _ ← keyword "select"
  let items ← cases (communicationCase r <|> defaultCase r)
  close "select_statement" start items

/-! ### Other statements -/

/-- A keyword with an optional label. -/
def jump (word kind : String) : P Tree := do
  let start ← position
  let _ ← keyword word
  let label ← Parser.optional name
  close kind start (label.map (leaf "label_name")).toList

/-- A keyword with one expression. -/
def deferred (word kind : String) : P Tree := do
  let start ← position
  let _ ← keyword word
  close kind start [← r.expression true]

def returnStatement : P Tree := do
  let start ← position
  let _ ← keyword "return"
  let values ← Parser.optional (expressionList r true)
  close "return_statement" start values.toList

def labeledStatement : P Tree := do
  let start ← position
  let label ← name
  let _ ← punct ":"
  skipLines
  let body ← Parser.optional r.statement
  close "labeled_statement" start ((leaf "label_name" label).filling "label" :: body.toList)

/-- A statement is over: its line, its block or the file ends. -/
def statementEnds : P Unit := do
  match ← peek? with
  | none => return
  | some t =>
    let ends := t.kind = .newline || (t.kind = .punct && [";", "\x7d", ")"].contains t.text)
    Parser.require ends

def soundStatement : P Tree :=
  Parser.firstOf
    [declaration r, ifStatement r, forStatement r, switchStatement r, selectStatement r,
     jump "break" "break_statement", jump "continue" "continue_statement",
     jump "goto" "goto_statement", jump "fallthrough" "fallthrough_statement",
     deferred r "go" "go_statement", deferred r "defer" "defer_statement", returnStatement r,
     labeledStatement r, r.block,
     (do
        let s ← simpleStatement r true
        statementEnds
        return s)]

/-- Reads over tokens up to the end of a line, over whole brackets. -/
def skipLine : Nat → Nat → P Unit
  | 0, _ => pure ()
  | n + 1, depth => do
    match ← peek? with
    | none => return
    | some t =>
      if t.kind = .newline && depth = 0 then return
      if t.kind = .punct && depth = 0 && [";", "\x7d"].contains t.text then return
      let _ ← token fun _ => true
      let opens := t.kind = .punct && ["(", "[", "\x7b"].contains t.text
      let closes := t.kind = .punct && [")", "]", "\x7d"].contains t.text
      skipLine n (if opens then depth + 1 else if closes then depth - 1 else depth)

/-- The rest of a line that cannot be read. -/
def unread : P Tree := do
  let start ← position
  match ← peek? with
  | none => failure
  | some t =>
    Parser.require (t.text ≠ "\x7d" && !(t.kind = .word && ["case", "default"].contains t.text))
    let _ ← token fun _ => true
    let opens := t.kind = .punct && ["(", "[", "\x7b"].contains t.text
    skipLine (← remaining) (if opens then 1 else 0)
    close "ERROR" start []

def statement : P Tree := soundStatement r <|> unread

def block : P Tree := do
  let start ← position
  let _ ← punct "\x7b"
  let body ← statements r
  let _ ← punct "\x7d"
  close "block" start body

/-! ### Files -/

def packageClause : P Tree := do
  let start ← position
  let _ ← keyword "package"
  let n ← name
  close "package_clause" start [leaf "package_identifier" n]

def importSpecification : P Tree := do
  let start ← position
  let alias? ← Parser.optional ((do
      let n ← name
      return (leaf "package_identifier" n).filling "name")
    <|> (do
      let d ← punct "."
      return (leaf "dot" d).filling "name"))
  let path ← token fun t => t.kind = .string || t.kind = .rawString
  close "import_spec" start
    (alias?.toList ++ [(leaf "interpreted_string_literal" path).filling "path"])

def importDeclaration : P Tree := do
  let start ← position
  let _ ← keyword "import"
  close "import_declaration" start (← grouped "import_spec_list" importSpecification)

def functionDeclaration : P Tree := do
  let start ← position
  let _ ← keyword "func"
  let receiver ← Parser.optional (parameterList r)
  let n ← name
  let parameters ← Parser.optional (typeParameters r)
  let parts ← signature r
  let body ← Parser.optional r.block
  let kind := if receiver.isSome then "method_declaration" else "function_declaration"
  let nameKind := if receiver.isSome then "field_identifier" else "identifier"
  close kind start
    ((receiver.map (·.filling "receiver")).toList ++ (leaf nameKind n).filling "name" ::
      (parameters.map (·.filling "type_parameters")).toList ++ parts ++
      (body.map (·.filling "body")).toList)

/-- A declaration or a statement of a file; a stray closing brace is skipped. -/
def topLevel : P Tree :=
  Parser.firstOf
    [packageClause, importDeclaration, functionDeclaration r, statement r,
     (do
        let start ← position
        let _ ← token fun _ => true
        close "ERROR" start [])]

def sourceFile (length : Nat) : P Tree := do
  let _ ← Parser.many (← remaining) separator
  let items ← Parser.many (← remaining) do
    let x ← topLevel r
    let _ ← Parser.many (← remaining) separator
    return x
  return named "source_file" 0 length items

/-! ### The grammar -/

/-- The parsers one level deeper. -/
def deeper : Rules where
  expression := expression r
  type := typeOf r
  statement := statement r
  block := block r
  literalValue := literalValue r

/-- The parsers for constructs that nest at most `n` deep. -/
def rules : Nat → Rules
  | 0 => ⟨fun _ => failure, failure, failure, failure, failure⟩
  | n + 1 => deeper (rules n)

/-- The syntax tree of a source text. -/
def parse (text : List Char) : Tree :=
  let ts := tokens text
  let length := Text.Utf8.byteLength text
  match sourceFile (rules (ts.length + 4)) length ⟨ts, 0⟩ with
  | some (t, _) => t
  | none => named "source_file" 0 length []

end SourceAudit.Grammar.Golang
