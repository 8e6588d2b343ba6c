import SourceAudit.Lowering.Basic

/-! Constructs of the ECMAScript family. -/
namespace SourceAudit.Lowering.Ecmascript

open Syntax

/-- The kinds of expressions that only wrap another one. -/
def isWrapper (kind : String) : Bool :=
  ["parenthesized_expression", "await_expression", "as_expression", "non_null_expression",
   "satisfies_expression"].contains kind

def unwrap (t : Tree) : Tree := t.unwrap isWrapper

/-- The functions that format a string. -/
def formatCallees : List String := ["util.format"]

/-- A template without substitutions is a plain string. -/
def isPlainTemplate (t : Tree) : Bool := !t.hasChild "template_substitution"

/-- The shape of an expression that is not wrapped. -/
def shapeOf (source : Source) (t : Tree) : Shape :=
  match t.kind with
  | "string" => .stringLiteral
  | "template_string" => if isPlainTemplate t then .stringLiteral else .interpolated
  | "number" => .numberLiteral
  | "binary_expression" => .concatenation
  | "call_expression" =>
    let callee := ((t.child? "function").map (calleeText source)).getD ""
    if formatCallees.contains callee then .formatCall else .call
  | "new_expression" => .call
  | "identifier" | "member_expression" | "subscript_expression" | "this" | "spread_element" =>
    .reference
  | _ => .other

def value (source : Source) (t : Tree) : Value :=
  let inner := unwrap t
  { shape := shapeOf source inner, text := source.textOf inner }

/-- The name of the member that a node is, under any wrappers. -/
def memberProperty (source : Source) (t : Tree) : Option String :=
  let inner := unwrap t
  if inner.kind = "member_expression" then (inner.child? "property").map source.textOf else none

def isAccess (kind : String) : Bool := kind = "member_expression" || kind = "subscript_expression"

mutual
/-- The accesses along a left side, the last one first: wrappers are peeled, and from a
member or an element the spine goes on with its object. -/
def spine : Tree → List Tree
  | .node k f n s e cs =>
    if isWrapper k then spineFirst cs
    else if isAccess k then .node k f n s e cs :: spineObject cs
    else []
termination_by structural t => t

/-- The spine of the first operand. -/
def spineFirst : List Tree → List Tree
  | [] => []
  | c :: cs => if c.isOperand then spine c else spineFirst cs
termination_by structural cs => cs

/-- The spine of the object. -/
def spineObject : List Tree → List Tree
  | [] => []
  | c :: cs => if c.field = some "object" then spine c else spineObject cs
termination_by structural cs => cs
end

/-- Whether an index is a literal key. -/
def isLiteralKey (t : Tree) : Bool :=
  t.kind = "string" || (t.kind = "template_string" && isPlainTemplate t)

/-- The key that one access contributes: a member its name, an element its literal key. -/
def keyOf? (source : Source) (t : Tree) : Option String :=
  if t.kind = "member_expression" then (t.child? "property").map source.textOf
  else
    let index := (t.child? "index").map unwrap
    (index.filter isLiteralKey).map (keyText source)

/-- The keys along a left side, the last one first. -/
def accessKeys (source : Source) (t : Tree) : List String :=
  (spine t).filterMap (keyOf? source)

/-- The values passed in a call; a template stands for itself. -/
def arguments (source : Source) (t : Tree) : List Value :=
  match t.child? "arguments" with
  | none => []
  | some list =>
    if list.kind = "arguments" then list.operands.map (value source) else [value source list]

/-- A call of `callee`. -/
def callOf (source : Source) (t callee : Tree) (construct : Bool) : Call :=
  { callee := calleeText source callee
    property := memberProperty source callee
    construct := construct
    args := arguments source t
    text := source.textOf t
    site := Site.ofTree source t }

def call? (source : Source) (t : Tree) : Option Call :=
  match t.kind with
  | "call_expression" => (t.child? "function").map (callOf source t · false)
  | "new_expression" => (t.child? "constructor").map (callOf source t · true)
  | _ => none

/-- An assignment of `right` to `left`. -/
def assignmentOf (source : Source) (t left right : Tree) : Assignment :=
  { target := source.textOf left
    targetKeys := accessKeys source left
    property := memberProperty source left
    values := [value source right]
    augmented := t.kind = "augmented_assignment_expression"
    site := Site.ofTree source t }

/-- A declaration of `name`, with or without a value. -/
def declarationOf (source : Source) (t name : Tree) : Assignment :=
  { target := source.textOf name
    targetKeys := []
    property := none
    values := (t.child? "value").toList.map (value source)
    augmented := false
    site := Site.ofTree source t }

def assignment? (source : Source) (t : Tree) : Option Assignment :=
  match t.kind with
  | "assignment_expression" | "augmented_assignment_expression" => do
    let left ← t.child? "left"
    let right ← t.child? "right"
    return assignmentOf source t left right
  | "variable_declarator" => (t.child? "name").map (declarationOf source t)
  | _ => none

/-- The lowering of the ECMAScript family. -/
def lowering : Lowering := ⟨value, call?, assignment?⟩

end SourceAudit.Lowering.Ecmascript
