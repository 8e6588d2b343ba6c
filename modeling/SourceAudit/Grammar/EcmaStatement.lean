import SourceAudit.Grammar.EcmaMarkup

/-! The statements of the ECMAScript family, and its source files.

A statement that cannot be read becomes an error node, and reading goes on with the next
line. -/
namespace SourceAudit.Grammar.Ecma

open Syntax

variable (r : Rules)

/-! ### Declarations -/

/-- A declared name with its type and its value. -/
def declarator : P Tree := do
  let start ← position
  let p ← r.pattern
  let _ ← if r.flavor.hasTypes then Parser.optional (punct "!") else pure none
  let t ← Parser.optional (typeAscription r)
  let v ← Parser.optional (do let _ ← punct "="; r.expression)
  close "variable_declarator" start
    (p.filling "name" :: (t.map (·.filling "type")).toList ++
      (v.map (·.filling "value")).toList)

/-- Declarations after their keyword, without the end of the statement. -/
def declarators : P Tree := do
  let start ← position
  let t ← keywordOf ["var", "let", "const"]
  let first ← declarator r
  let rest ← Parser.many (← remaining) (do let _ ← punct ","; declarator r)
  if t.text = "var" then
    close "variable_declaration" start (first :: rest)
  else
    close "lexical_declaration" start (mark t.text "kind" t.start t.stop :: first :: rest)

def declaration : P Tree := do
  let d ← declarators r
  semicolon
  close d.kind d.start d.children

def functionDeclaration : P Tree := do
  let start ← position
  let _ ← Parser.optional (keyword "async")
  let _ ← keyword "function"
  let star ← Parser.optional (punct "*")
  let n ← word
  let signature ← callSignature r
  let name := (leaf "identifier" n).filling "name"
  (do
      let body ← r.block
      let kind := if star.isSome then "generator_function_declaration" else "function_declaration"
      close kind start (name :: signature ++ [body.filling "body"]))
    <|> (do
      Parser.require r.flavor.hasTypes
      semicolon
      close "function_signature" start (name :: signature))

def classDeclaration : P Tree := do
  let start ← position
  let decorators ← Parser.many (← remaining) r.decorator
  let abstract? ← if r.flavor.hasTypes then Parser.optional (keyword "abstract") else pure none
  let _ ← keyword "class"
  let parts ← classTail r (if r.flavor.hasTypes then "type_identifier" else "identifier") r.unary
  let named := (parts.head?.any (·.field = some "name"))
  Parser.require named
  close (if abstract?.isSome then "abstract_class_declaration" else "class_declaration") start
    (decorators ++ parts)

/-! ### Declarations of types -/

def interfaceDeclaration : P Tree := do
  let start ← position
  let _ ← keyword "interface"
  let _ ← word
  let types ← Parser.optional (typeParameters r)
  let parents ← Parser.optional (do
    let _ ← keyword "extends"
    commaSeparated r.type)
  let body ← objectType r
  close "interface_declaration" start (types.toList ++ parents.getD [] ++ [body.filling "body"])

def typeAlias : P Tree := do
  let start ← position
  let _ ← keyword "type"
  let _ ← word
  let types ← Parser.optional (typeParameters r)
  let _ ← punct "="
  let t ← r.type
  semicolon
  close "type_alias_declaration" start (types.toList ++ [t.filling "value"])

def enumMember : P Tree := do
  let n ← propertyName r
  (do
      let _ ← punct "="
      let v ← r.expression
      close "enum_assignment" n.start [n.filling "name", v.filling "value"])
    <|> pure n

def enumDeclaration : P Tree := do
  let start ← position
  let _ ← Parser.optional (keyword "const")
  let _ ← keyword "enum"
  let n ← word
  let bodyStart ← position
  let _ ← punct "\x7b"
  let members ← withGrouping true (commaSeparated (enumMember r))
  let _ ← punct "\x7d"
  let body ← close "enum_body" bodyStart members
  close "enum_declaration" start
    [(leaf "identifier" n).filling "name", body.filling "body"]

/-- A named group of declarations. -/
def moduleDeclaration : P Tree := do
  let start ← position
  let _ ← keywordOf ["namespace", "module"]
  Parser.require !(← afterLine)
  let n ← stringLiteral <|> (do
    let first ← word
    let _ ← Parser.many (← remaining) (do let _ ← punct "."; word)
    close "identifier" first.start [])
  let body ← Parser.optional r.block
  if body.isNone then semicolon
  close "internal_module" start (n.filling "name" :: (body.map (·.filling "body")).toList)

/-- The words that begin a declaration. -/
def declarationWords : List String :=
  ["var", "let", "const", "function", "async", "class", "abstract", "interface", "type", "enum",
   "namespace", "module", "global", "import"]

/-- A declaration of something that is defined elsewhere. -/
def ambientDeclaration : P Tree := do
  let start ← position
  let _ ← keyword "declare"
  Parser.require (!(← afterLine) && declarationWords.contains (← wordHere))
  let inner ← (do
      let _ ← keyword "global"
      r.block)
    <|> r.statement
  close "ambient_declaration" start [inner]

/-- The declarations that only typed members of the family have. -/
def typedDeclaration : P Tree := do
  Parser.require r.flavor.hasTypes
  Parser.firstOf
    [interfaceDeclaration r, typeAlias r, enumDeclaration r, moduleDeclaration r,
     ambientDeclaration r]

/-! ### Imports and exports -/

/-- Names and what stands between them in an import or an export. -/
def clauseNames : P Unit := do
  let _ ← Parser.many (← remaining) (do
    Parser.firstOf
      [(do let _ ← word),
       (do let _ ← punctOf [",", "*"]),
       (do
          let _ ← punct "\x7b"
          let _ ← Parser.many (← remaining) (Parser.firstOf
            [(do let _ ← word), (do let _ ← stringLiteral), (do let _ ← punct ",")])
          let _ ← punct "\x7d")])

/-- The properties that a module is asked for with. -/
def importAttributes : P (List Tree) := do
  let found ← Parser.optional (do
    Parser.require !(← afterLine)
    let _ ← keywordOf ["with", "assert"]
    objectLiteral r)
  return found.toList

def importStatement : P Tree := do
  let start ← position
  let _ ← keyword "import"
  let parts ← Parser.firstOf
    [(do
        let s ← stringLiteral
        return s.filling "source" :: (← importAttributes r)),
     (do
        Parser.require r.flavor.hasTypes
        let _ ← Parser.optional (modifier ["type"])
        let _ ← word
        let _ ← punct "="
        (do
            let _ ← keyword "require"
            let _ ← punct "("
            let s ← stringLiteral
            let _ ← punct ")"
            return [s.filling "source"])
          <|> (do
            let _ ← word
            let _ ← Parser.many (← remaining) (do let _ ← punct "."; word)
            return [])),
     (do
        clauseNames
        let s ← stringLiteral
        return s.filling "source" :: (← importAttributes r))]
  semicolon
  close "import_statement" start parts

def exportStatement : P Tree := do
  let start ← position
  let decorators ← Parser.many (← remaining) r.decorator
  let _ ← keyword "export"
  let parts ← Parser.firstOf
    [(do
        let _ ← keyword "default"
        Parser.firstOf
          [(do return [(← functionDeclaration r).filling "declaration"]),
           (do return [(← classDeclaration r).filling "declaration"]),
           (do
              Parser.require r.flavor.hasTypes
              return [(← interfaceDeclaration r).filling "declaration"]),
           (do
              let e ← r.expression
              semicolon
              return [e.filling "value"])]),
     (do
        Parser.require r.flavor.hasTypes
        let _ ← punct "="
        let e ← r.expression
        semicolon
        return [e]),
     (do
        let _ ← Parser.optional (modifier ["type"])
        let begins ← Parser.ahead (punctOf ["*", "\x7b"])
        Parser.require begins
        clauseNames
        let s ← Parser.optional stringLiteral
        let attributes ← importAttributes r
        semicolon
        return (s.map (·.filling "source")).toList ++ attributes),
     (do
        Parser.require r.flavor.hasTypes
        let _ ← keyword "as"
        let _ ← keyword "namespace"
        let _ ← word
        semicolon
        return []),
     (do return [(← r.statement).filling "declaration"])]
  close "export_statement" start (decorators ++ parts)

/-! ### Control flow -/

/-- A condition in parentheses. -/
def condition : P Tree := parenthesized r

def ifStatement : P Tree := do
  let start ← position
  let _ ← keyword "if"
  let c ← condition r
  let yes ← r.statement
  let no ← Parser.optional (do
    let clauseStart ← position
    let _ ← keyword "else"
    let s ← r.statement
    close "else_clause" clauseStart [s])
  close "if_statement" start
    (c.filling "condition" :: yes.filling "consequence" ::
      (no.map (·.filling "alternative")).toList)

/-- The head of a loop over what an object holds. -/
def loopHead : P (List Tree) := do
  let kind ← Parser.optional (keywordOf ["var", "let", "const"])
  let left ← match kind with
    | none => withoutIn (primary r)
    | some _ => r.pattern
  let initial ← if kind.any (·.text = "var")
    then Parser.optional (do let _ ← punct "="; withoutIn r.expression) else pure none
  let op ← keywordOf ["in", "of"]
  let right ← sequence r
  return (kind.map fun t => mark t.text "kind" t.start t.stop).toList ++
    (asPattern left).filling "left" :: (initial.map (·.filling "value")).toList ++
    [mark op.text "operator" op.start op.stop, right.filling "right"]

/-- The head of a loop with a counter. -/
def counterHead : P (List Tree) := do
  let first ← Parser.optional (withoutIn (declarators r <|> sequence r))
  let _ ← punct ";"
  let second ← Parser.optional (sequence r)
  let _ ← punct ";"
  let third ← Parser.optional (sequence r)
  return (first.map (·.filling "initializer")).toList ++
    (second.map (·.filling "condition")).toList ++ (third.map (·.filling "increment")).toList

def forStatement : P Tree := do
  let start ← position
  let _ ← keyword "for"
  let _ ← Parser.optional (keyword "await")
  let _ ← punct "("
  let (kind, head) ← withGrouping true ((do
      let head ← loopHead r
      let _ ← Parser.require (← atPunct ")")
      return ("for_in_statement", head))
    <|> (do return ("for_statement", ← counterHead r)))
  let _ ← punct ")"
  let body ← r.statement
  close kind start (head ++ [body.filling "body"])

def whileStatement : P Tree := do
  let start ← position
  let _ ← keyword "while"
  let c ← condition r
  let body ← r.statement
  close "while_statement" start [c.filling "condition", body.filling "body"]

def doStatement : P Tree := do
  let start ← position
  let _ ← keyword "do"
  let body ← r.statement
  let _ ← keyword "while"
  let c ← condition r
  let _ ← Parser.optional (punct ";")
  close "do_statement" start [body.filling "body", c.filling "condition"]

def withStatement : P Tree := do
  let start ← position
  let _ ← keyword "with"
  let c ← condition r
  let body ← r.statement
  close "with_statement" start [c.filling "object", body.filling "body"]

def catchClause : P Tree := do
  let start ← position
  let _ ← keyword "catch"
  let p ← Parser.optional (do
    let _ ← punct "("
    let p ← r.pattern
    let t ← Parser.optional (typeAscription r)
    let _ ← punct ")"
    return p.filling "parameter" :: (t.map (·.filling "type")).toList)
  let body ← r.block
  close "catch_clause" start (p.getD [] ++ [body.filling "body"])

def tryStatement : P Tree := do
  let start ← position
  let _ ← keyword "try"
  let body ← r.block
  let handler ← Parser.optional (catchClause r)
  let last ← Parser.optional (do
    let clauseStart ← position
    let _ ← keyword "finally"
    let b ← r.block
    close "finally_clause" clauseStart [b.filling "body"])
  close "try_statement" start
    (body.filling "body" :: (handler.map (·.filling "handler")).toList ++
      (last.map (·.filling "finalizer")).toList)

/-- Statements up to a closing brace, or up to the next case. -/
def statements : P (List Tree) := do
  Parser.many (← remaining) r.statement

def switchCase : P Tree := do
  let start ← position
  (do
      let _ ← keyword "case"
      let v ← withGrouping true (sequence r)
      let _ ← punct ":"
      let body ← statements r
      close "switch_case" start (v.filling "value" :: body.map (·.filling "body")))
    <|> (do
      let _ ← keyword "default"
      let _ ← punct ":"
      let body ← statements r
      close "switch_default" start (body.map (·.filling "body")))

def switchStatement : P Tree := do
  let start ← position
  let _ ← keyword "switch"
  let c ← condition r
  let bodyStart ← position
  let _ ← punct "\x7b"
  let cases ← withGrouping false (do Parser.many (← remaining) (switchCase r))
  let _ ← punct "\x7d"
  let body ← close "switch_body" bodyStart cases
  close "switch_statement" start [c.filling "value", body.filling "body"]

/-- A jump, possibly to a label. -/
def jump (word kind : String) : P Tree := do
  let start ← position
  let _ ← keyword word
  let line ← afterLine
  let label ← if line then pure none else Parser.optional identifierToken
  semicolon
  close kind start
    (label.map fun t => (leaf "statement_identifier" t).filling "label").toList

/-- A keyword with the expression after it. -/
def leaving (word kind : String) : P Tree := do
  let start ← position
  let _ ← keyword word
  let line ← afterLine
  let e ← if line then pure none else Parser.optional (sequence r)
  semicolon
  close kind start e.toList

def labeledStatement : P Tree := do
  let start ← position
  let t ← identifierToken
  let _ ← punct ":"
  let body ← r.statement
  close "labeled_statement" start
    [(leaf "statement_identifier" t).filling "label", body.filling "body"]

def expressionStatement : P Tree := do
  let start ← position
  let e ← sequence r
  semicolon
  close "expression_statement" start [e]

/-! ### Blocks and files -/

/-- Statements in braces. -/
def block : P Tree := do
  let start ← position
  let _ ← punct "\x7b"
  let body ← withGrouping false (do
    let _ ← Parser.many (← remaining) pageComment
    statements r)
  let _ ← punct "\x7d"
  close "statement_block" start body

/-- The words that begin a clause of a statement around this one. -/
def atClause : P Bool := do
  return ["case", "default"].contains (← wordHere)

/-- The rest of a line that cannot be read. -/
def unread : P Tree := do
  let start ← position
  let t ← text
  Parser.require (!(t.isEmpty || t.head? = some '\x7d') && !(← atClause))
  advance (max 1 (t.takeWhile fun c => !isLineEnd c && c ≠ '\x7d').length)
  settle
  close "ERROR" start []

def statement : P Tree := do
  let _ ← Parser.many (← remaining) pageComment
  let start ← position
  Parser.firstOf
    [(do
        let _ ← punct ";"
        close "empty_statement" start []),
     r.block, typedDeclaration r, declaration r, functionDeclaration r, classDeclaration r,
     importStatement r, exportStatement r, ifStatement r, forStatement r, whileStatement r,
     doStatement r, withStatement r, tryStatement r, switchStatement r,
     jump "break" "break_statement", jump "continue" "continue_statement",
     jump "debugger" "debugger_statement", leaving r "return" "return_statement",
     leaving r "throw" "throw_statement", labeledStatement r, expressionStatement r, unread]

/-- The statements of a file; a stray closing brace is skipped. -/
def program : P Tree := do
  let items ← Parser.many (← remaining) (r.statement <|> (do
    let start ← position
    Parser.require !(← text).isEmpty
    advance 1
    settle
    close "ERROR" start []))
  close "program" 0 items

/-- The parsers one level deeper. -/
def deeper : Rules where
  flavor := r.flavor
  expression := expression r
  unary := unary r
  type := typeOf r
  pattern := pattern r
  element := element r
  statement := statement r
  block := block r
  decorator := decorator r

/-- The parsers for constructs that nest at most `n` deep. -/
def rules (flavor : Flavor) : Nat → Rules
  | 0 => ⟨flavor, failure, failure, failure, failure, failure, failure, failure, failure⟩
  | n + 1 => deeper (rules flavor n)

/-- The syntax tree of a source text. -/
def parse (flavor : Flavor) (text : List Char) : Tree :=
  let length := Text.Utf8.byteLength text
  match program (rules flavor (2 * text.length + 8)) (Input.ofText text) with
  | some (t, _) => t
  | none => named "program" 0 length []

end SourceAudit.Grammar.Ecma
