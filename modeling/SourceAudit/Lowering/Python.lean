import SourceAudit.Lowering.Basic

/-! Constructs of Python. -/
namespace SourceAudit.Lowering.Python

open Syntax

/-- The kinds of expressions that only wrap another one. -/
def isWrapper (kind : String) : Bool :=
  kind = "parenthesized_expression" || kind = "await"

def unwrap (t : Tree) : Tree := t.unwrap isWrapper

/-- A string with substituted parts is interpolated, any other is a literal. -/
def stringShape (t : Tree) : Shape :=
  if t.hasChild "interpolation" then .interpolated else .stringLiteral

/-- The method that formats the string it belongs to. -/
def isFormatCallee (callee : String) : Bool :=
  ".format".toList.isSuffixOf callee.toList

/-- The shape of an expression that is not wrapped. -/
def shapeOf (source : Source) (t : Tree) : Shape :=
  match t.kind with
  | "string" => stringShape t
  | "concatenated_string" =>
    if t.operands.any (stringShape · = .interpolated) then .interpolated else .stringLiteral
  | "integer" | "float" => .numberLiteral
  | "binary_operator" => .concatenation
  | "call" =>
    let callee := ((t.child? "function").map (calleeText source)).getD ""
    if isFormatCallee callee then .formatCall else .call
  | "identifier" | "attribute" | "subscript" | "list_splat" | "dictionary_splat" => .reference
  | _ => .other

def value (source : Source) (t : Tree) : Value :=
  let inner := unwrap t
  { shape := shapeOf source inner, text := source.textOf inner }

/-- An argument; one that is passed by name keeps the name. -/
def argument (source : Source) (t : Tree) : Value :=
  match t.kind, t.child? "value" with
  | "keyword_argument", some v =>
    { value source v with keyword := (t.child? "name").map source.textOf }
  | _, _ => value source t

/-- The name of the attribute that a node is. -/
def attributeName (source : Source) (t : Tree) : Option String :=
  if t.kind = "attribute" then (t.child? "attribute").map source.textOf else none

mutual
/-- The accesses along a target, the last one first: from an attribute the spine goes on
with its object, from an element with its container. -/
def spine : Tree → List Tree
  | .node k f n s e cs =>
    if k = "attribute" then .node k f n s e cs :: spineField "object" cs
    else if k = "subscript" then .node k f n s e cs :: spineField "value" cs
    else []
termination_by structural t => t

/-- The spine of the child that fills a field. -/
def spineField (name : String) : List Tree → List Tree
  | [] => []
  | c :: cs => if c.field = some name then spine c else spineField name cs
termination_by structural cs => cs
end

/-- The key that one access contributes: an attribute its name, an element its literal key. -/
def keyOf? (source : Source) (t : Tree) : Option String :=
  if t.kind = "attribute" then (t.child? "attribute").map source.textOf
  else
    let key := t.child? "subscript"
    (key.filter fun k => k.kind = "string" && stringShape k = .stringLiteral).map (keyText source)

/-- The keys along a target, the last one first. -/
def accessKeys (source : Source) (t : Tree) : List String :=
  (spine t).filterMap (keyOf? source)

/-- The values passed in a call; a generator stands for itself. -/
def arguments (source : Source) (t : Tree) : List Value :=
  match t.child? "arguments" with
  | none => []
  | some list =>
    if list.kind = "argument_list" then list.operands.map (argument source)
    else [value source list]

/-- A call of `callee`. -/
def callOf (source : Source) (t callee : Tree) : Call :=
  { callee := calleeText source callee
    property := attributeName source callee
    construct := false
    args := arguments source t
    text := source.textOf t
    site := Site.ofTree source t }

def call? (source : Source) (t : Tree) : Option Call :=
  if t.kind = "call" then (t.child? "function").map (callOf source t) else none

/-- The values on the right side; a list stands for its elements. -/
def rightValues (source : Source) (t : Tree) : List Value :=
  match t.child? "right" with
  | none => []
  | some right =>
    if right.kind = "expression_list" then right.operands.map (value source)
    else [value source right]

/-- An assignment to `left`. -/
def assignmentOf (source : Source) (t left : Tree) : Assignment :=
  { target := source.textOf left
    targetKeys := accessKeys source left
    property := attributeName source left
    values := rightValues source t
    augmented := t.kind = "augmented_assignment"
    site := Site.ofTree source t }

def assignment? (source : Source) (t : Tree) : Option Assignment :=
  if t.kind = "assignment" || t.kind = "augmented_assignment" then
    (t.child? "left").map (assignmentOf source t)
  else none

/-- The lowering of Python. -/
def lowering : Lowering := ⟨value, call?, assignment?⟩

end SourceAudit.Lowering.Python
