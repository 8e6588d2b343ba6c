/-! Syntax trees.

A node has a kind, the field of its parent that it fills, if any, the bytes of the source
that it spans, and its children. Nodes that only carry punctuation are not named. The
operands of a node are its named children without the comments among them. -/
namespace SourceAudit.Syntax

/-- A node of a syntax tree. -/
inductive Tree where
  | node (kind : String) (field : Option String) (named : Bool) (start stop : Nat)
      (children : List Tree)
  deriving Inhabited

namespace Tree

def kind : Tree → String
  | .node k _ _ _ _ _ => k

/-- The field of the parent that a node fills. -/
def field : Tree → Option String
  | .node _ f _ _ _ _ => f

def named : Tree → Bool
  | .node _ _ n _ _ _ => n

/-- Where a node begins, in bytes. -/
def start : Tree → Nat
  | .node _ _ _ s _ _ => s

/-- Where a node ends, in bytes. -/
def stop : Tree → Nat
  | .node _ _ _ _ e _ => e

def children : Tree → List Tree
  | .node _ _ _ _ _ cs => cs

/-- The first child that fills a field. -/
def child? (name : String) (t : Tree) : Option Tree :=
  t.children.find? (·.field = some name)

def namedChildren (t : Tree) : List Tree :=
  t.children.filter (·.named)

/-- Named and not a comment. -/
def isOperand (t : Tree) : Bool := t.named && t.kind ≠ "comment"

def operands (t : Tree) : List Tree :=
  t.children.filter isOperand

/-- Whether some named child has this kind. -/
def hasChild (kind : String) (t : Tree) : Bool :=
  t.namedChildren.any (·.kind = kind)

mutual
/-- The number of nodes. -/
def size : Tree → Nat
  | .node _ _ _ _ _ cs => 1 + sizes cs
termination_by structural t => t

def sizes : List Tree → Nat
  | [] => 0
  | c :: cs => c.size + sizes cs
termination_by structural cs => cs
end

theorem sizes_append (a b : List Tree) : sizes (a ++ b) = sizes a + sizes b := by
  induction a with
  | nil => simp [sizes]
  | cons c cs ih => simp [sizes, ih, Nat.add_assoc]

theorem sizes_reverse (cs : List Tree) : sizes cs.reverse = sizes cs := by
  induction cs with
  | nil => rfl
  | cons c cs ih => simp [sizes_append, sizes, ih, Nat.add_comm]

theorem sizes_filter_le (p : Tree → Bool) (cs : List Tree) : sizes (cs.filter p) ≤ sizes cs := by
  induction cs with
  | nil => simp
  | cons c cs ih =>
    by_cases h : p c
    · simpa [List.filter_cons_of_pos h, sizes] using ih
    · simp only [List.filter_cons_of_neg h, sizes]
      omega

mutual
/-- The nodes reached through named children, each before its children. -/
def preorder : Tree → List Tree
  | .node k f n s e cs => .node k f n s e cs :: preorders cs
termination_by structural t => t

def preorders : List Tree → List Tree
  | [] => []
  | c :: cs => if c.named then preorder c ++ preorders cs else preorders cs
termination_by structural cs => cs
end

theorem sizes_namedChildren_lt (t : Tree) : sizes t.namedChildren < t.size := by
  have h := sizes_filter_le (·.named) t.children
  cases t
  simp only [namedChildren, size, children] at h ⊢
  omega

/-- Goes through the trees on a stack from its end on: the node at the end is visited and
gives way to its named children, the first of which comes to stand last. -/
def walk {σ : Type} (visit : σ → Tree → σ) (state : σ) (stack : Array Tree) : σ :=
  match _ : stack.back? with
  | none => state
  | some t => walk visit (visit state t) (stack.pop ++ t.namedChildren.reverse)
termination_by sizes stack.toList
decreasing_by
  obtain ⟨rest, rfl⟩ := Array.back?_eq_some_iff.mp ‹stack.back? = some t›
  have lt := sizes_namedChildren_lt t
  simp only [Array.pop_push, Array.toList_appendList, Array.toList_push, sizes_append,
    sizes_reverse, sizes]
  omega

/-- Every node of a tree that is reached through named children, in the order of the walk. -/
def nodes (t : Tree) : List Tree := (walk Array.push #[] #[t]).toList

mutual
/-- The node inside any number of wrappers: as long as the kind is a wrapper's, the first
operand takes the place of the node. -/
def unwrap (isWrapper : String → Bool) : Tree → Tree
  | .node k f n s e cs =>
    if isWrapper k then (unwrapFirst isWrapper cs).getD (.node k f n s e cs)
    else .node k f n s e cs
termination_by structural t => t

/-- `unwrap` of the first operand. -/
def unwrapFirst (isWrapper : String → Bool) : List Tree → Option Tree
  | [] => none
  | c :: cs => if c.isOperand then some (unwrap isWrapper c) else unwrapFirst isWrapper cs
termination_by structural cs => cs
end

/-- The tree as the filler of a field. -/
def filling (name : String) : Tree → Tree
  | .node k _ n s e cs => .node k (some name) n s e cs

/-- The tree under another kind. -/
def withKind (kind : String) : Tree → Tree
  | .node _ f n s e cs => .node kind f n s e cs

end Tree
end SourceAudit.Syntax
