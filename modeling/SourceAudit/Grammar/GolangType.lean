import SourceAudit.Grammar.GolangToken

/-! The types of Go.

The parsers of this language call one another through `Rules`, which `Golang.rules` ties
together level by level. -/
namespace SourceAudit.Grammar.Golang

open Syntax Cursor

/-- A parser over the tokens of Go. -/
abbrev P := Parser (Cursor Token)

/-! ### Tokens -/

def punct (text : String) : P Token := token fun t => t.kind = .punct && t.text = text

def keyword (text : String) : P Token := token fun t => t.kind = .word && t.text = text

/-- A word that is not a keyword. -/
def name : P Token := token fun t => t.kind = .word && !keywords.contains t.text

def atPunct (text : String) : P Bool := Parser.ahead (punct text)

def atKeyword (text : String) : P Bool := Parser.ahead (keyword text)

/-- Skips the ends of lines. -/
def skipLines : P Unit := do
  let _ ← Parser.many (← remaining) (token (·.kind = .newline))

def leaf (kind : String) (t : Token) : Tree := named kind t.start t.stop []

/-- Items between commas; a comma or the end of a line may stand after the last one. -/
def commaList (item : P Tree) : P (List Tree) := do
  skipLines
  match ← Parser.optional item with
  | none => return []
  | some first =>
    let rest ← Parser.many (← remaining) do
      skipLines
      let _ ← punct ","
      skipLines
      item
    skipLines
    let _ ← Parser.optional (punct ",")
    skipLines
    return first :: rest

/-- The parsers that call one another. -/
structure Rules where
  /-- An expression; the flag tells whether a literal may follow the name of a type. -/
  expression : Bool → P Tree
  type : P Tree
  statement : P Tree
  block : P Tree
  literalValue : P Tree

variable (r : Rules)

/-! ### Types -/

/-- One of the types of a type argument. -/
def typeTerm : P Tree := do
  let start ← position
  match ← Parser.optional (punct "~") with
  | some _ => do
    let t ← r.type
    close "negated_type" start [t]
  | none => r.type

/-- Types between bars. -/
def typeElement : P Tree := do
  let start ← position
  let first ← typeTerm r
  let rest ← Parser.many (← remaining) (do let _ ← punct "|"; typeTerm r)
  close "type_elem" start (first :: rest)

def typeArguments : P Tree := do
  let start ← position
  let _ ← punct "["
  let items ← commaList (typeElement r)
  Parser.require !items.isEmpty
  let _ ← punct "]"
  close "type_arguments" start items

/-- A name, possibly of another package, possibly with type arguments. -/
def namedType : P Tree := do
  let first ← name
  let base ← (do
      let _ ← punct "."
      let second ← name
      close "qualified_type" first.start
        [(leaf "package_identifier" first).filling "package",
         (leaf "type_identifier" second).filling "name"])
    <|> pure (leaf "type_identifier" first)
  (do
      let arguments ← typeArguments r
      close "generic_type" first.start
        [base.filling "type", arguments.filling "type_arguments"])
    <|> pure base

/-- A parameter with its name, or a type alone. -/
def parameter : P Tree := do
  let start ← position
  let named? := do
    let n ← name
    let dots ← Parser.optional (punct "...")
    let t ← r.type
    let after ← Parser.ahead (punct "," <|> punct ")" <|> token (·.kind = .newline))
    Parser.require after
    let kind := if dots.isSome then "variadic_parameter_declaration" else "parameter_declaration"
    close kind start [(leaf "identifier" n).filling "name", t.filling "type"]
  let unnamed := do
    let dots ← Parser.optional (punct "...")
    let t ← r.type
    let kind := if dots.isSome then "variadic_parameter_declaration" else "parameter_declaration"
    close kind start [t.filling "type"]
  named? <|> unnamed

def parameterList : P Tree := do
  let start ← position
  let _ ← punct "("
  let items ← commaList (parameter r)
  let _ ← punct ")"
  close "parameter_list" start items

/-- The parameters and the result of a function. -/
def signature : P (List Tree) := do
  let parameters ← parameterList r
  let result ← Parser.optional (parameterList r <|> r.type)
  return parameters.filling "parameters" :: (result.map (·.filling "result")).toList

/-- A field of a structure, or an embedded type, with its tag. -/
def fieldDeclaration : P Tree := do
  let start ← position
  let plain := do
    let first ← name
    let rest ← Parser.many (← remaining) (do let _ ← punct ","; name)
    let t ← r.type
    return (first :: rest).map (fun n => (leaf "field_identifier" n).filling "name") ++
      [t.filling "type"]
  let embedded := do
    let _ ← Parser.optional (punct "*")
    let t ← namedType r
    return [t.filling "type"]
  let ended := do
    let tag ← Parser.optional (token fun t => t.kind = .string || t.kind = .rawString)
    let after ← Parser.ahead
      (punct ";" <|> punct "\x7d" <|> token (·.kind = .newline))
    Parser.require after
    return (tag.map fun t => (leaf "raw_string_literal" t).filling "tag").toList
  let parts ← (do return (← plain) ++ (← ended)) <|> (do return (← embedded) ++ (← ended))
  close "field_declaration" start parts

/-- A method or a union of types in an interface. -/
def interfaceElement : P Tree := do
  let start ← position
  (do
      let n ← name
      let parts ← signature r
      close "method_elem" start ((leaf "field_identifier" n).filling "name" :: parts))
    <|> typeElement r

/-- Items that end with their lines, in braces. -/
def braced (item : P Tree) : P (List Tree) := do
  let _ ← punct "\x7b"
  let separators : P Unit := do
    let _ ← Parser.many (← remaining) (token fun t => t.kind = .newline || t.text = ";")
  separators
  let items ← Parser.many (← remaining) (do let x ← item; separators; return x)
  let _ ← punct "\x7d"
  return items

/-- A type that begins with a bracket: a slice or an array. -/
def bracketType : P Tree := do
  let start ← position
  let _ ← punct "["
  (do
      let _ ← punct "]"
      let t ← r.type
      close "slice_type" start [t.filling "element"])
    <|> (do
      let _ ← punct "..."
      let _ ← punct "]"
      let t ← r.type
      close "implicit_length_array_type" start [t.filling "element"])
    <|> (do
      let n ← r.expression true
      let _ ← punct "]"
      let t ← r.type
      close "array_type" start [n.filling "length", t.filling "element"])

def mapType : P Tree := do
  let start ← position
  let _ ← keyword "map"
  let _ ← punct "["
  let k ← r.type
  let _ ← punct "]"
  let v ← r.type
  close "map_type" start [k.filling "key", v.filling "value"]

def channelType : P Tree := do
  let start ← position
  let _ ← Parser.optional (punct "<-")
  let _ ← keyword "chan"
  let _ ← Parser.optional (punct "<-")
  let t ← r.type
  close "channel_type" start [t.filling "value"]

def structType : P Tree := do
  let start ← position
  let _ ← keyword "struct"
  let listStart ← position
  let fields ← braced (fieldDeclaration r)
  let list ← close "field_declaration_list" listStart fields
  close "struct_type" start [list]

def interfaceType : P Tree := do
  let start ← position
  let _ ← keyword "interface"
  let elements ← braced (interfaceElement r)
  close "interface_type" start elements

def functionType : P Tree := do
  let start ← position
  let _ ← keyword "func"
  let parts ← signature r
  close "function_type" start parts

/-- Any type. -/
def typeOf : P Tree := do
  let start ← position
  Parser.firstOf
    [namedType r,
     (do
        let _ ← punct "*"
        let t ← r.type
        close "pointer_type" start [t]),
     (do
        let _ ← punct "("
        let t ← r.type
        let _ ← punct ")"
        close "parenthesized_type" start [t]),
     bracketType r, mapType r, channelType r, structType r, interfaceType r, functionType r]

end SourceAudit.Grammar.Golang
