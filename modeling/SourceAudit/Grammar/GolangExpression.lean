import SourceAudit.Grammar.GolangType

/-! The expressions of Go. -/
namespace SourceAudit.Grammar.Golang

open Syntax Cursor

variable (r : Rules)

/-! ### Literals -/

/-- The kind of node for a literal token. -/
def literalKind? (t : Token) : Option String :=
  match t.kind with
  | .integer => some "int_literal"
  | .float => some "float_literal"
  | .imaginary => some "imaginary_literal"
  | .character => some "rune_literal"
  | .string => some "interpreted_string_literal"
  | .rawString => some "raw_string_literal"
  | .word => if ["nil", "true", "false", "iota"].contains t.text then some t.text else none
  | _ => none

def literal : P Tree := do
  let t ← token fun t => (literalKind? t).isSome
  return leaf ((literalKind? t).getD "") t

/-- One side of an element: a value or a nested list. -/
def literalElement : P Tree := do
  let start ← position
  let v ← r.literalValue <|> r.expression true
  close "literal_element" start [v]

/-- An element of a composite literal, with or without a key. -/
def element : P Tree := do
  let start ← position
  let first ← literalElement r
  (do
      let _ ← punct ":"
      let second ← literalElement r
      close "keyed_element" start [first.filling "key", second.filling "value"])
    <|> pure first

/-- The elements of a composite literal in braces. -/
def literalValue : P Tree := do
  let start ← position
  let _ ← punct "\x7b"
  let items ← commaList (element r)
  let _ ← punct "\x7d"
  close "literal_value" start items

def functionLiteral : P Tree := do
  let start ← position
  let _ ← keyword "func"
  let parts ← signature r
  let body ← r.block
  close "func_literal" start (parts ++ [body.filling "body"])

/-! ### Operands -/

/-- A type that is not a name, with the elements of a literal or the operand of a conversion. -/
def typedOperand : P Tree := do
  let start ← position
  let t ← Parser.firstOf
    [bracketType r, mapType r, channelType r, structType r, interfaceType r, functionType r,
     (do
        let _ ← punct "("
        let inner ← r.type
        let _ ← punct ")"
        close "parenthesized_type" start [inner])]
  (do
      let body ← r.literalValue
      close "composite_literal" start [t.filling "type", body.filling "body"])
    <|> (do
      let _ ← punct "("
      skipLines
      let operand ← r.expression true
      skipLines
      let _ ← Parser.optional (punct ",")
      skipLines
      let _ ← punct ")"
      close "type_conversion_expression" start [t.filling "type", operand.filling "operand"])

def parenthesized : P Tree := do
  let start ← position
  let _ ← punct "("
  skipLines
  let e ← r.expression true
  skipLines
  let _ ← punct ")"
  close "parenthesized_expression" start [e]

/-- An argument, possibly spread. -/
def argument : P Tree := do
  let start ← position
  let e ← r.expression true
  (do
      let _ ← punct "..."
      close "variadic_argument" start [e])
    <|> pure e

def argumentList : P Tree := do
  let start ← position
  let _ ← punct "("
  let items ← commaList (argument r)
  let _ ← punct ")"
  close "argument_list" start items

/-- The arguments of an allocation: a type, then expressions. -/
def allocationList : P Tree := do
  let start ← position
  let _ ← punct "("
  skipLines
  let t ← r.type
  let rest ← Parser.many (← remaining) (do
    skipLines
    let _ ← punct ","
    skipLines
    r.expression true)
  skipLines
  let _ ← Parser.optional (punct ",")
  skipLines
  let _ ← punct ")"
  close "argument_list" start (t :: rest)

/-- A call of `new` or `make`. -/
def allocation : P Tree := do
  let start ← position
  let callee ← keyword "new" <|> keyword "make"
  let arguments ← allocationList r
  close "call_expression" start
    [(leaf "identifier" callee).filling "function", arguments.filling "arguments"]

def operand : P Tree :=
  Parser.firstOf
    [literal, allocation r, (do return leaf "identifier" (← name)), functionLiteral r,
     parenthesized r, typedOperand r]

/-! ### What may follow an operand -/

/-- The type that an expression names, if it is a name or a name of another package. -/
def asType? (e : Tree) : Option Tree :=
  match e.kind, e.children with
  | "identifier", _ => some (e.withKind "type_identifier")
  | "selector_expression", [package, field] =>
    if package.kind = "identifier" then
      some (named "qualified_type" e.start e.stop
        [(package.withKind "package_identifier").filling "package",
         (field.withKind "type_identifier").filling "name"])
    else none
  | _, _ => none

/-- A selected field or an asserted type. -/
def selection (e : Tree) : P Tree := do
  let _ ← punct "."
  skipLines
  (do
      let field ← name
      close "selector_expression" e.start
        [e.filling "operand", (leaf "field_identifier" field).filling "field"])
    <|> (do
      let _ ← punct "("
      let t ← r.type
      let _ ← punct ")"
      close "type_assertion_expression" e.start [e.filling "operand", t.filling "type"])

/-- Whether an expression ends where a statement or the left side of an assignment does. -/
def atExpressionEnd : P Bool := do
  match ← peek? with
  | none => return true
  | some t => return t.kind = .newline ||
      (t.kind = .punct && [";", "\x7d", "=", ":="].contains t.text)

/-- A call with type arguments, a conversion to a generic type, or a literal of one. One
argument at the end of a statement makes a conversion of what could be either. -/
def instantiation (literals : Bool) (e : Tree) : P Tree := do
  let types ← typeArguments r
  let generic? := (asType? e).map fun t =>
    named "generic_type" e.start types.stop [t.filling "type", types.filling "type_arguments"]
  if ← atPunct "(" then
    let arguments ← argumentList r
    match generic?, arguments.children with
    | some generic, [x] =>
      if (← atExpressionEnd) && x.kind ≠ "variadic_argument" then
        close "type_conversion_expression" e.start [generic.filling "type", x.filling "operand"]
      else
        close "call_expression" e.start
          [e.filling "function", types.filling "type_arguments", arguments.filling "arguments"]
    | _, _ =>
      close "call_expression" e.start
        [e.filling "function", types.filling "type_arguments", arguments.filling "arguments"]
  else match generic? with
    | none => failure
    | some generic =>
      if literals && (← atPunct "\x7b") then
        let body ← r.literalValue
        close "composite_literal" e.start [generic.filling "type", body.filling "body"]
      else if 1 < types.children.length then
        close "type_instantiation_expression" e.start
          (generic.children.filterMap fun c => if c.field = some "type" then some c else none)
      else failure

/-- An element or a slice. -/
def indexing (e : Tree) : P Tree := do
  let _ ← punct "["
  skipLines
  let first ← Parser.optional (r.expression true)
  skipLines
  match ← Parser.optional (punct ":") with
  | none =>
    match first with
    | none => failure
    | some i =>
      let _ ← Parser.optional (punct ",")
      skipLines
      let _ ← punct "]"
      close "index_expression" e.start [e.filling "operand", i.filling "index"]
  | some _ =>
    let second ← Parser.optional (r.expression true)
    let third ← Parser.optional (do let _ ← punct ":"; r.expression true)
    skipLines
    let _ ← punct "]"
    close "slice_expression" e.start
      (e.filling "operand" :: (first.map (·.filling "start")).toList ++
        (second.map (·.filling "end")).toList ++ (third.map (·.filling "capacity")).toList)

def calling (e : Tree) : P Tree := do
  let arguments ← argumentList r
  close "call_expression" e.start [e.filling "function", arguments.filling "arguments"]

/-- The elements after the name of a type. -/
def compositeLiteral (literals : Bool) (e : Tree) : P Tree := do
  Parser.require literals
  match asType? e with
  | none => failure
  | some t =>
    let body ← r.literalValue
    close "composite_literal" e.start [t.filling "type", body.filling "body"]

/-- One thing that may follow an operand. -/
def suffixed (literals : Bool) (e : Tree) : P Tree :=
  Parser.firstOf
    [selection r e, instantiation r literals e, indexing r e, calling r e,
     compositeLiteral r literals e]

/-- Everything that follows an operand. -/
def suffixes (literals : Bool) : Nat → Tree → P Tree
  | 0, e => pure e
  | n + 1, e => do
    match ← Parser.optional (suffixed r literals e) with
    | some next => suffixes literals n next
    | none => pure e

def primary (literals : Bool) : P Tree := do
  let e ← operand r
  suffixes r literals (← remaining) e

/-! ### Operators -/

def unaryOperators : List String := ["+", "-", "!", "^", "*", "&", "<-"]

/-- An operand with the operators before it. -/
def unary (literals : Bool) : P Tree := do
  let operators ← Parser.many (← remaining)
    (token fun t => t.kind = .punct && unaryOperators.contains t.text)
  let e ← primary r literals
  return operators.foldr (fun op x =>
    named "unary_expression" op.start x.stop
      [mark op.text "operator" op.start op.stop, x.filling "operand"]) e

/-- The operators of two operands, from the tightest level on. -/
def binaryLevels : List (List String) :=
  [["*", "/", "%", "<<", ">>", "&", "&^"], ["+", "-", "|", "^"],
   ["==", "!=", "<", "<=", ">", ">="], ["&&"], ["||"]]

/-- Operands joined by the operators of some levels, the loosest level first. -/
def binary (literals : Bool) : List (List String) → P Tree
  | [] => unary r literals
  | level :: tighter => do
    let first ← binary literals tighter
    let rest ← Parser.many (← remaining) do
      let op ← token fun t => t.kind = .punct && level.contains t.text
      skipLines
      let x ← binary literals tighter
      return (op, x)
    return rest.foldl (fun e (op, x) =>
      named "binary_expression" e.start x.stop
        [e.filling "left", mark op.text "operator" op.start op.stop, x.filling "right"]) first

def expression (literals : Bool) : P Tree := binary r literals binaryLevels.reverse

/-- Expressions between commas. -/
def expressionList (literals : Bool) : P Tree := do
  let first ← r.expression literals
  let rest ← Parser.many (← remaining) do
    let _ ← punct ","
    skipLines
    r.expression literals
  close "expression_list" first.start (first :: rest)

end SourceAudit.Grammar.Golang
