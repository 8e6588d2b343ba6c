import SourceAudit.Grammar.EcmaType

/-! The expressions of the ECMAScript family. -/
namespace SourceAudit.Grammar.Ecma

open Syntax

variable (r : Rules)

/-! ### Functions -/

/-- A function after its keyword: its name, its parameters and its body. -/
def functionTail (nameKind : String) : P (List Tree) := do
  let n ← Parser.optional word
  let signature ← callSignature r
  let body ← r.block
  return (n.map fun t => (leaf nameKind t).filling "name").toList ++ signature ++
    [body.filling "body"]

def functionExpression : P Tree := do
  let start ← position
  let _ ← Parser.optional (keyword "async")
  let _ ← keyword "function"
  let star ← Parser.optional (punct "*")
  let parts ← functionTail r "identifier"
  close (if star.isSome then "generator_function" else "function_expression") start parts

/-- The parameters of a function without a name, up to its arrow. -/
def arrowHead : P (List Tree) := do
  let single : P (List Tree) := do
    let t ← identifierToken
    let arrow ← atPunct "=>"
    Parser.require arrow
    return [(leaf "identifier" t).filling "parameter"]
  let several : P (List Tree) := do
    let types ← Parser.optional (typeParameters r)
    let parameters ← formalParameters r
    let allowed : P Bool := fun i => some (i.arrowTypes, i)
    let result ← if ← allowed then Parser.optional (resultAscription r) else pure none
    let arrow ← atPunct "=>"
    Parser.require arrow
    return (types.map (·.filling "type_parameters")).toList ++
      parameters.filling "parameters" :: (result.map (·.filling "return_type")).toList
  single <|> several

/-- A function without a name; the flag tells whether its body is a block. -/
def arrowFunction : P (Tree × Bool) := do
  let start ← position
  let asynchronous : P (List Tree) := do
    let _ ← keyword "async"
    Parser.require !(← afterLine)
    arrowHead r
  let head ← asynchronous <|> arrowHead r
  let _ ← punct "=>"
  if ← atPunct "\x7b" then
    let body ← r.block
    return (← close "arrow_function" start (head ++ [body.filling "body"]), true)
  else
    let body ← r.expression
    return (← close "arrow_function" start (head ++ [body.filling "body"]), false)

/-! ### Objects and classes -/

def methodModifiers : List String :=
  ["static", "async", "get", "set", "public", "private", "protected", "readonly", "abstract",
   "override", "declare", "accessor"]

/-- A method after the words before its name. -/
def methodTail (start : Nat) (name : Tree) : P Tree := do
  let _ ← Parser.optional (punct "?")
  let signature ← callSignature r
  (do
      let body ← r.block
      close "method_definition" start
        (name.filling "name" :: signature ++ [body.filling "body"]))
    <|> (do
      Parser.require r.flavor.hasTypes
      close "method_signature" start (name.filling "name" :: signature))

def method : P Tree := do
  let start ← position
  let _ ← Parser.many (← remaining) (modifier methodModifiers)
  let _ ← Parser.optional (punct "*")
  let n ← propertyName r
  methodTail r start n

def spreadElement : P Tree := do
  let start ← position
  let _ ← punct "..."
  let e ← r.expression
  close "spread_element" start [e]

/-- A property of an object. -/
def property : P Tree := do
  let start ← position
  Parser.firstOf
    [spreadElement r,
     (do
        let k ← propertyName r
        let _ ← punct ":"
        let v ← r.expression
        close "pair" start [k.filling "key", v.filling "value"]),
     method r,
     (do
        let t ← identifierToken
        (do
            let _ ← punct "="
            let v ← r.expression
            let p := leaf "shorthand_property_identifier_pattern" t
            close "object_assignment_pattern" start [p.filling "left", v.filling "right"])
          <|> pure (leaf "shorthand_property_identifier" t))]

def objectLiteral : P Tree := do
  let start ← position
  let _ ← punct "\x7b"
  let items ← withGrouping true (commaSeparated (property r))
  let _ ← punct "\x7d"
  close "object" start items

def arrayLiteral : P Tree := do
  let start ← position
  let _ ← punct "["
  let items ← withGrouping true (commaSeparated (spreadElement r <|> r.expression))
  let _ ← punct "]"
  close "array" start items

/-! ### Simple operands -/

/-- One expression, or several between commas. -/
def sequence : P Tree := do
  let first ← r.expression
  let rest ← Parser.many (← remaining) (do let _ ← punct ","; r.expression)
  if rest.isEmpty then return first
  else close "sequence_expression" first.start (first :: rest)

def template : P Tree := do
  let start ← position
  rawCharacter '\x60'
  let parts ← templateParts (sequence r)
  let t ← close "template_string" start parts
  settle
  return t

def parenthesized : P Tree := do
  let start ← position
  let _ ← punct "("
  let (e, t) ← withGrouping true (do
    let e ← sequence r
    let t ← Parser.optional (typeAscription r)
    return (e, t))
  let _ ← punct ")"
  close "parenthesized_expression" start (e :: t.toList)

def arguments : P Tree := do
  let start ← position
  let _ ← punct "("
  let items ← withGrouping true (commaSeparated (spreadElement r <|> r.expression))
  let _ ← punct ")"
  close "arguments" start items

/-- The words that are values. -/
def valueWords : List String := ["this", "super", "null", "true", "false"]

/-- `import.meta` and `new.target`. -/
def metaProperty : P Tree := do
  let start ← position
  (do
      let _ ← keyword "import"
      let _ ← punct "."
      let _ ← keyword "meta")
    <|> (do
      let _ ← keyword "new"
      let _ ← punct "."
      let _ ← keyword "target")
  close "meta_property" start []

/-- The class a class extends, with its type arguments, and the interfaces it has. -/
def heritage (base : P Tree) : P (List Tree) := do
  let start ← position
  let extended ← Parser.optional (do
    let _ ← keyword "extends"
    let e ← base
    let types ← Parser.optional (typeArguments r)
    let others ← Parser.many (← remaining) (do let _ ← punct ","; r.type)
    return e :: types.toList ++ others)
  let implemented ← Parser.optional (do
    let _ ← keyword "implements"
    let clauseStart ← position
    let types ← commaSeparated r.type
    close "implements_clause" clauseStart types)
  let parts := extended.getD [] ++ implemented.toList
  if parts.isEmpty then return []
  else return [← close "class_heritage" start parts]

/-- A block that runs when the class is made. -/
def staticBlock : P Tree := do
  let start ← position
  let _ ← keyword "static"
  let body ← r.block
  close "class_static_block" start [body.filling "body"]

/-- A field of a class. -/
def field : P Tree := do
  let start ← position
  let _ ← Parser.many (← remaining) (modifier methodModifiers)
  let n ← propertyName r
  let _ ← Parser.optional (punctOf ["?", "!"])
  let t ← Parser.optional (typeAscription r)
  let v ← Parser.optional (do let _ ← punct "="; withGrouping false r.expression)
  semicolon
  close (if r.flavor.hasTypes then "public_field_definition" else "field_definition") start
    (n.filling "name" :: (t.map (·.filling "type")).toList ++
      (v.map (·.filling "value")).toList)

/-- A member of a class that gives types to keys. -/
def indexSignature : P Tree := do
  Parser.require r.flavor.hasTypes
  let start ← position
  let _ ← Parser.many (← remaining) (modifier methodModifiers)
  let _ ← punct "["
  let _ ← word
  let _ ← punct ":"
  let k ← r.type
  let _ ← punct "]"
  let t ← typeAscription r
  semicolon
  close "index_signature" start [k, t]

def classBody : P Tree := do
  let start ← position
  let _ ← punct "\x7b"
  let separators : P Unit := do
    let _ ← Parser.many (← remaining) (punct ";")
  let members ← withGrouping false (do
    separators
    Parser.many (← remaining) (do
      let decorators ← Parser.many (← remaining) r.decorator
      let m ← Parser.firstOf [staticBlock r, method r, indexSignature r, field r]
      separators
      return decorators ++ [if r.flavor.hasTypes then m else m.filling "member"]))
  let _ ← punct "\x7d"
  close "class_body" start members.flatten

/-- A class after its keyword. -/
def classTail (nameKind : String) (base : P Tree) : P (List Tree) := do
  let n ← Parser.optional (do
    let w ← wordHere
    Parser.require (w ≠ "extends" && w ≠ "implements")
    word)
  let types ← Parser.optional (typeParameters r)
  let parents ← heritage r base
  let body ← classBody r
  return (n.map fun t => (leaf nameKind t).filling "name").toList ++
    (types.map (·.filling "type_parameters")).toList ++ parents ++ [body.filling "body"]

/-! ### What may follow an operand -/

/-- The name of a member after a point. -/
def memberName : P Tree :=
  privateName <|> (do return leaf "property_identifier" (← word))

/-- A member or an element of an object. -/
def access (e : Tree) : P Tree := do
  let optionalChain ← Parser.optional (do
    let t ← punct "?."
    return (leaf "optional_chain" t).filling "optional_chain")
  Parser.firstOf
    [(do
        if optionalChain.isNone then
          let _ ← punct "."
        let n ← memberName
        close "member_expression" e.start
          (e.filling "object" :: optionalChain.toList ++ [n.filling "property"])),
     (do
        let _ ← punct "["
        let i ← withGrouping true (sequence r)
        let _ ← punct "]"
        close "subscript_expression" e.start
          (e.filling "object" :: optionalChain.toList ++ [i.filling "index"]))]

/-- The arguments of a call: a list or a template. -/
def calling (e : Tree) : P Tree := do
  let optionalChain ← Parser.optional (do
    let t ← punct "?."
    return (leaf "optional_chain" t).filling "optional_chain")
  let types ← Parser.optional (typeArguments r)
  let list ← arguments r <|> template r
  close "call_expression" e.start
    (e.filling "function" :: optionalChain.toList ++
      (types.map (·.filling "type_arguments")).toList ++ [list.filling "arguments"])

/-- Type arguments without a call, where no operand follows. -/
def instantiation (e : Tree) : P Tree := do
  let types ← typeArguments r
  let t ← text
  let line ← afterLine
  Parser.require (line || t.head?.all fun c =>
    [';', ')', ']', '\x7d', ',', ':', '.', '?', '='].contains c)
  close "instantiation_expression" e.start
    [e.filling "function", types.filling "type_arguments"]

def suffixed (e : Tree) : P Tree :=
  Parser.firstOf [access r e, calling r e, instantiation r e]

/-- Everything that follows an operand, as far as `next` reads it. -/
def suffixes (next : Tree → P Tree) : Nat → Tree → P Tree
  | 0, e => pure e
  | n + 1, e => do
    match ← Parser.optional (next e) with
    | some longer => suffixes next n longer
    | none => pure e

/-! ### Operands -/

def classExpression : P Tree := do
  let start ← position
  let decorators ← Parser.many (← remaining) r.decorator
  let _ ← keyword "class"
  let parts ← classTail r "identifier" r.unary
  close "class" start (decorators ++ parts)

/-- A tag as an expression. -/
def markup : P Tree := do
  Parser.require r.flavor.hasMarkup
  Parser.require ((← text).head? = some '<')
  let e ← r.element
  settle
  return e

/-- An operand without what follows it. -/
def atom : P Tree :=
  Parser.firstOf
    [stringLiteral, numberLiteral, template r, parenthesized r, arrayLiteral r, objectLiteral r,
     functionExpression r, classExpression r,
     (do
        let t ← keywordOf valueWords
        return leaf t.text t),
     metaProperty,
     (do
        let t ← keyword "import"
        let call ← atPunct "("
        Parser.require call
        return leaf "import" t),
     identifier, regexLiteral, privateName, markup r]

/-- A constructor with its arguments. The words `new` may be repeated. -/
def newExpression : Nat → P Tree
  | 0 => failure
  | n + 1 => do
    let start ← position
    let _ ← keyword "new"
    let constructor ← (do
        let e ← metaProperty <|> newExpression n <|> atom r
        suffixes (fun e => access r e <|> (do
          let t ← template r
          close "call_expression" e.start [e.filling "function", t.filling "arguments"]))
          (← remaining) e)
    let types ← Parser.optional (typeArguments r)
    let list ← Parser.optional (arguments r)
    close "new_expression" start
      (constructor.filling "constructor" :: (types.map (·.filling "type_arguments")).toList ++
        (list.map (·.filling "arguments")).toList)

/-- An operand with what follows it. -/
def primary : P Tree := do
  let e ← metaProperty <|> newExpression r (← remaining) <|> atom r
  suffixes (suffixed r) (← remaining) e

/-! ### Operators -/

/-- A word or sign before an operand. -/
def unaryOperator : P Token :=
  punctOf ["!", "~", "-", "+"] <|> keywordOf ["typeof", "void", "delete"]

/-- What may follow an expression as a whole: the sign that it is not null, or its type. -/
def typeClaim (e : Tree) : P Tree := do
  Parser.require r.flavor.hasTypes
  Parser.require !(← lineEndsHere)
  Parser.firstOf
    [(do
        let _ ← punct "!"
        let claimed ← close "non_null_expression" e.start [e]
        suffixes (suffixed r) (← remaining) claimed),
     (do
        let _ ← keyword "as"
        let t ← (do let _ ← keyword "const"; return []) <|> (do return [← r.type])
        close "as_expression" e.start (e :: t)),
     (do
        let _ ← keyword "satisfies"
        let t ← r.type
        close "satisfies_expression" e.start [e, t])]

def claims (e : Tree) : P Tree := do
  suffixes (typeClaim r) (← remaining) e

/-- An operand with the signs behind it. -/
def postfixed (e : Tree) : P Tree := do
  (do
      Parser.require !(← lineEndsHere)
      let op ← punctOf ["++", "--"]
      close "update_expression" e.start
        [e.filling "argument", mark op.text "operator" op.start op.stop])
    <|> pure e

/-- An operand with the operators before it. -/
def unary : P Tree := do
  let start ← position
  Parser.firstOf
    [(do
        let op ← punctOf ["++", "--"]
        let e ← r.unary
        close "update_expression" start
          [mark op.text "operator" op.start op.stop, e.filling "argument"]),
     (do
        let op ← unaryOperator
        let e ← r.unary
        close "unary_expression" start
          [mark op.text "operator" op.start op.stop, e.filling "argument"]),
     (do
        let _ ← keyword "await"
        let e ← r.unary
        let e ← claims r e
        close "await_expression" start [e]),
     (do
        Parser.require (r.flavor = .typed)
        let types ← typeArguments r
        let e ← r.unary
        close "type_assertion" start [types, e]),
     (do
        let e ← primary r
        postfixed e)]

/-- The levels of operators of two operands, the loosest first. -/
def binaryLevels : List (List String) :=
  [["??"], ["||"], ["&&"], ["|"], ["^"], ["&"], ["==", "!=", "===", "!=="],
   ["<", ">", "<=", ">=", "instanceof", "in"], ["<<", ">>", ">>>"], ["+", "-"],
   ["*", "/", "%"]]

/-- An operator of some level. -/
def binaryOperator (level : List String) : P Token :=
  punctOf level <|> (do
    let w ← wordHere
    Parser.require (level.contains w)
    let joins : P Bool := fun i => some (i.joinsIn || w ≠ "in", i)
    Parser.require (← joins)
    keyword w)

/-- Two operands with the operator between them. -/
def joined (left : Tree) (op : Token) (right : Tree) : Tree :=
  named "binary_expression" left.start right.stop
    [left.filling "left", mark op.text "operator" op.start op.stop, right.filling "right"]

/-- A power; the exponent may be a power again. -/
def power (first : P Tree) : Nat → P Tree
  | 0 => first
  | n + 1 => do
    let base ← first
    (do
        let op ← punct "**"
        let exponent ← power (unary r) n
        return joined base op exponent)
      <|> pure base

/-- Operands joined by the operators of some levels; `first` reads the leftmost operand. -/
def binary (first : P Tree) : List (List String) → P Tree
  | [] => do power r first (← remaining)
  | level :: tighter => do
    let left ← binary first tighter
    let rest ← Parser.many (← remaining) do
      let op ← binaryOperator level
      let x ← binary (unary r) tighter
      return (op, x)
    return rest.foldl (fun e (op, x) => joined e op x) left

/-- Joined operands, with what is claimed about the whole of them, after which more operators
may follow. -/
def operation (first : P Tree) : P Tree := do
  let e ← binary r first binaryLevels
  suffixes (fun e => do
    let claimed ← typeClaim r e
    binary r (postfixed claimed) binaryLevels) (← remaining) e

/-! ### Assignments and choices -/

/-- A choice between two values, after its condition. A colon after parentheses could give
the result type of a function; where that fails, it parts the two values. -/
def choice (condition : Tree) : P Tree := do
  let _ ← punct "?"
  let values (first : P Tree) : P Tree := do
    let yes ← first
    let _ ← punct ":"
    let no ← r.expression
    close "ternary_expression" condition.start
      [condition.filling "condition", yes.filling "consequence", no.filling "alternative"]
  values r.expression <|> values (withoutArrowTypes r.expression)

/-- What is assigned to becomes a pattern, with everything in it. -/
def asPattern : Tree → Tree
  | .node kind field isNamed start stop children =>
    match kind with
    | "object" => .node "object_pattern" field isNamed start stop (asPatterns children)
    | "array" => .node "array_pattern" field isNamed start stop (asPatterns children)
    | "pair" => .node "pair_pattern" field isNamed start stop (asPatterns children)
    | "spread_element" => .node "rest_pattern" field isNamed start stop (asPatterns children)
    | "assignment_expression" =>
      .node "assignment_pattern" field isNamed start stop (asTarget children)
    | "shorthand_property_identifier" =>
      .node "shorthand_property_identifier_pattern" field isNamed start stop children
    | _ => .node kind field isNamed start stop children
where
  asPatterns : List Tree → List Tree
    | [] => []
    | t :: ts => asPattern t :: asPatterns ts
  /-- The first child is assigned to, the others are values. -/
  asTarget : List Tree → List Tree
    | [] => []
    | t :: ts => asPattern t :: ts

def augmentedOperators : List String :=
  ["+=", "-=", "*=", "/=", "%=", "^=", "&=", "|=", ">>=", ">>>=", "<<=", "**=", "&&=", "||=",
   "??="]

/-- The kinds of expressions that can be assigned to. -/
def assignableKinds : List String :=
  ["identifier", "undefined", "member_expression", "subscript_expression", "object", "array",
   "parenthesized_expression", "non_null_expression"]

/-- An assignment to an expression that has been read. -/
def assignmentTo (left : Tree) : P Tree := do
  Parser.require (assignableKinds.contains left.kind)
  (do
      let _ ← punct "="
      let right ← r.expression
      close "assignment_expression" left.start
        [(asPattern left).filling "left", right.filling "right"])
    <|> (do
      let op ← punctOf augmentedOperators
      let right ← r.expression
      close "augmented_assignment_expression" left.start
        [left.filling "left", mark op.text "operator" op.start op.stop, right.filling "right"])

def yieldExpression : P Tree := do
  let start ← position
  let _ ← keyword "yield"
  let star ← Parser.optional (punct "*")
  let ends ← lineEndsHere
  let e ← if ends && star.isNone then pure none else Parser.optional r.expression
  close "yield_expression" start e.toList

/-- An expression whose leftmost operand `first` reads. -/
def expressionFrom (first : P Tree) : P Tree := do
  let e ← operation r first
  Parser.firstOf [assignmentTo r e, choice r e, pure e]

/-- An expression that may stand between commas. -/
def expression : P Tree := do
  let _ ← Parser.many (← remaining) pageComment
  yieldExpression r <|> (do
    match ← Parser.optional (arrowFunction r) with
    | some (f, true) =>
      expressionFrom r (do suffixes (suffixed r) (← remaining) f)
    | some (f, false) => pure f
    | none => expressionFrom r (unary r))

/-! ### Decorators -/

/-- A note before a class, a member or a parameter. -/
def decorator : P Tree := do
  let start ← position
  let _ ← punct "@"
  let e ← (do return leaf "identifier" (← word)) <|> parenthesized r
  let e ← suffixes (fun e => do
    let _ ← punct "."
    let n ← memberName
    close "member_expression" e.start [e.filling "object", n.filling "property"])
    (← remaining) e
  let e ← (do
      let types ← Parser.optional (typeArguments r)
      let list ← arguments r
      close "call_expression" e.start
        (e.filling "function" :: (types.map (·.filling "type_arguments")).toList ++
          [list.filling "arguments"]))
    <|> pure e
  close "decorator" start [e]

end SourceAudit.Grammar.Ecma
