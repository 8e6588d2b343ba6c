import SourceAudit.Proofs.Lowering.Faithful

/-! Comments and punctuation do not matter.

Trivia are the nodes below a root that fill no field and are either not named or comments
without children. A tree without its trivia has the same constructs as the tree itself: leaving
them out is a faithful change (`bare_faithful`), and the walk finds no construct at the nodes
that are gone. -/
namespace SourceAudit.Syntax.Tree

/-- Fills no field, and is not named or a comment without children. -/
def isTrivia (t : Tree) : Bool :=
  t.field.isNone && (!t.named || (t.kind = "comment" && t.children.isEmpty))

mutual
/-- The tree without the trivia below its root, and without all that is in them. -/
def bare : Tree → Tree
  | .node k f n s e cs => .node k f n s e (bares cs)
termination_by structural t => t

def bares : List Tree → List Tree
  | [] => []
  | c :: cs => if c.isTrivia then bares cs else c.bare :: bares cs
termination_by structural cs => cs
end

@[simp] theorem kind_bare (t : Tree) : t.bare.kind = t.kind := by cases t; rfl

@[simp] theorem field_bare (t : Tree) : t.bare.field = t.field := by cases t; rfl

@[simp] theorem named_bare (t : Tree) : t.bare.named = t.named := by cases t; rfl

@[simp] theorem start_bare (t : Tree) : t.bare.start = t.start := by cases t; rfl

@[simp] theorem stop_bare (t : Tree) : t.bare.stop = t.stop := by cases t; rfl

theorem bares_eq (cs : List Tree) : bares cs = (cs.filter (!·.isTrivia)).map bare := by
  induction cs with
  | nil => rfl
  | cons c cs ih =>
    by_cases h : c.isTrivia = true
    · rw [bares, if_pos h, List.filter_cons_of_neg (by simpa using h), ih]
    · rw [bares, if_neg h, List.filter_cons_of_pos (by simpa using h), List.map_cons, ih]

theorem children_bare (t : Tree) :
    t.bare.children = (t.children.filter (!·.isTrivia)).map bare := by
  cases t with
  | node k f n s e cs => rw [bare, children, bares_eq]; rfl

-- an operator that fills a field stays, and so does a comment that is not a leaf
example :
    (Tree.node "assignment_statement" none true 0 20
      [.node "identifier" (some "left") true 0 1 [], .node "+=" (some "operator") false 2 4 [],
       .node "comment" none true 5 11 [],
       .node "comment" none true 12 18 [.node "/*" none false 12 14 []],
       .node ";" none false 19 20 []]).bare =
      .node "assignment_statement" none true 0 20
        [.node "identifier" (some "left") true 0 1 [], .node "+=" (some "operator") false 2 4 [],
         .node "comment" none true 12 18 []] := rfl

/-! ### What is left of the children -/

theorem isTrivia_of_field {t : Tree} {name : String} (h : t.field = some name) :
    t.isTrivia = false := by
  simp [isTrivia, h]

theorem isTrivia_of_isOperand {t : Tree} (h : t.isOperand = true) : t.isTrivia = false := by
  simp only [isOperand, Bool.and_eq_true, decide_eq_true_eq] at h
  simp [isTrivia, h.1, h.2]

/-- A named node is trivia only if it is a comment on its own. -/
theorem comment_of_isTrivia {t : Tree} (named : t.named = true) (h : t.isTrivia = true) :
    t.kind = "comment" ∧ t.children = [] := by
  simp only [isTrivia, named, Bool.not_true, Bool.false_or, Bool.and_eq_true, decide_eq_true_eq,
    List.isEmpty_iff] at h
  exact h.2

theorem child?_bare (name : String) (t : Tree) : t.bare.child? name = (t.child? name).map bare := by
  unfold child?
  rw [children_bare, List.find?_map, List.find?_filter]
  congr 2
  funext c
  by_cases h : c.field = some name
  · simp [h, isTrivia_of_field h]
  · simp [h]

theorem operands_bare (t : Tree) : t.bare.operands = t.operands.map bare := by
  unfold operands
  rw [children_bare, List.filter_map, List.filter_filter]
  congr 2
  funext c
  have keeps : c.bare.isOperand = c.isOperand := by simp [isOperand]
  by_cases h : c.isOperand = true
  · simp [keeps, h, isTrivia_of_isOperand h]
  · simp [keeps, h]

theorem namedChildren_bare (t : Tree) :
    t.bare.namedChildren = (t.namedChildren.filter (!·.isTrivia)).map bare := by
  unfold namedChildren
  rw [children_bare, List.filter_map, List.filter_filter, List.filter_filter]
  congr 2
  funext c
  simp [Bool.and_comm]

theorem hasChild_bare {kind : String} (h : kind ≠ "comment") (t : Tree) :
    t.bare.hasChild kind = t.hasChild kind := by
  unfold hasChild
  rw [namedChildren_bare, List.any_map, List.any_filter, Bool.eq_iff_iff, List.any_eq_true,
    List.any_eq_true]
  refine exists_congr fun c => and_congr_right fun hc => ?_
  have named : c.named = true := (List.mem_filter.mp hc).2
  cases htrivia : c.isTrivia with
  | false => simp
  | true =>
    have hk := (comment_of_isTrivia named htrivia).1
    simp [hk, h.symm]

/-- **Leaving out the trivia is a faithful change.** -/
theorem bare_faithful (source : Source) : Faithful bare source source id where
  kind := kind_bare
  child := child?_bare
  operands := operands_bare
  hasChild _ t h := hasChild_bare h t
  text t := by rw [Source.textOf, start_bare, stop_bare, Source.textOf]
  site t := by
    rw [Site.ofTree, start_bare, Source.textOf, start_bare, stop_bare]
    rfl

/-- Elements that contribute nothing may be left out. -/
theorem flatMap_filter {α β : Type} {p : α → Bool} {g : α → List β} {l : List α}
    (h : ∀ a ∈ l, p a = false → g a = []) : (l.filter p).flatMap g = l.flatMap g := by
  induction l with
  | nil => rfl
  | cons a l ih =>
    have rest := ih fun b hb => h b (List.mem_cons_of_mem a hb)
    cases hp : p a with
    | true => rw [List.filter_cons_of_pos hp, List.flatMap_cons, List.flatMap_cons, rest]
    | false =>
      rw [List.filter_cons_of_neg (by simp [hp]), List.flatMap_cons, rest,
        h a List.mem_cons_self hp, List.nil_append]

/-- Reading a pre-order does not depend on trivia, if nothing is read of comments. -/
theorem filterMap_preorder_bare {γ : Type} {f : Tree → Option γ} (same : ∀ t, f t.bare = f t)
    (comment : ∀ t, t.kind = "comment" → f t = none) (t : Tree) :
    t.bare.preorder.filterMap f = t.preorder.filterMap f := by
  induction t using named_induction with
  | h t ih =>
    have gone : ∀ c ∈ t.namedChildren, (!c.isTrivia) = false → c.preorder.filterMap f = [] := by
      intro c hc htrivia
      obtain ⟨hk, hnone⟩ := comment_of_isTrivia (List.mem_filter.mp hc).2 (by simpa using htrivia)
      rw [filterMap_preorder, comment c hk, namedChildren, hnone]
      rfl
    rw [filterMap_preorder, filterMap_preorder f t, same, namedChildren_bare, List.flatMap_map,
      List.flatMap_congr fun c hc => ih c (List.mem_filter.mp hc).1, flatMap_filter gone]

end SourceAudit.Syntax.Tree

namespace SourceAudit
open Syntax

/-! ### Constructs -/

theorem Language.call?_comment (language : Language) (source : Source) {t : Tree}
    (h : t.kind = "comment") : language.lowering.call? source t = none := by
  cases language <;>
    simp [lowering, Lowering.Ecmascript.lowering, Lowering.Ecmascript.call?,
      Lowering.Python.lowering, Lowering.Python.call?, Lowering.Golang.lowering,
      Lowering.Golang.call?, h]

theorem Language.assignment?_comment (language : Language) (source : Source) {t : Tree}
    (h : t.kind = "comment") : language.lowering.assignment? source t = none := by
  cases language <;>
    simp [lowering, Lowering.Ecmascript.lowering, Lowering.Ecmascript.assignment?,
      Lowering.Python.lowering, Lowering.Python.assignment?, Lowering.Golang.lowering,
      Lowering.Golang.assignment?, h]

theorem Syntax.Tree.constructs_bare (t : Tree) (source : Source) (language : Language) :
    t.bare.constructs source language = t.constructs source language := by
  have calls : ∀ t : Tree, language.lowering.call? source t.bare =
      language.lowering.call? source t := by
    intro t
    rw [language.reads.call (Tree.bare_faithful source)]
    exact Option.map_id_apply
  have assignments : ∀ t : Tree, language.lowering.assignment? source t.bare =
      language.lowering.assignment? source t := by
    intro t
    rw [language.reads.assignment (Tree.bare_faithful source)]
    exact Option.map_id_apply
  unfold Tree.constructs
  rw [Lowering.constructs_eq, Lowering.constructs_eq,
    Tree.filterMap_preorder_bare calls fun _ => language.call?_comment source,
    Tree.filterMap_preorder_bare assignments fun _ => language.assignment?_comment source]

/-- **Comments and punctuation are invisible.** In every language, a tree without its trivia
has exactly the constructs of the tree, in the same order and at the same sites; so every rule
reports the same findings. -/
theorem trivia_are_invisible (t : Tree) (source : Source) (language : Language) :
    t.bare.constructs source language = t.constructs source language ∧
      ∀ (rule : StructuralRule) (file : String),
        rule.findings file language (t.bare.constructs source language) =
          rule.findings file language (t.constructs source language) := by
  refine ⟨t.constructs_bare source language, fun rule file => ?_⟩
  rw [t.constructs_bare source language]

end SourceAudit
