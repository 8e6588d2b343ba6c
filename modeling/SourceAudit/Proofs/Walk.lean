import Mathlib.Data.List.Basic
import SourceAudit.Rule.Structural

/-! The walk over a syntax tree reads it in pre-order.

The walk keeps a stack, takes nodes from its end and puts their named children back, last one
first. Whatever is on the stack, it visits the pre-order of the trees on it, from the end on
(`walk_eq_foldl`); so the constructs of a tree are those of its root followed by those of its
named children, one after the other, and the same is true of what any rule reports.

To say that every node is visited once, nodes are told apart by where they are: a position is
the list of numbers of the named children that lead to a node (`at?`). The visited positions
are all the positions there are, each once, in lexicographic order (`mem_positions`,
`positions_sorted`). -/
namespace SourceAudit.Syntax.Tree

/-- What holds of a tree if it holds of its named children holds of every tree. -/
theorem named_induction {P : Tree → Prop} (h : ∀ t, (∀ c ∈ t.namedChildren, P c) → P t)
    (t : Tree) : P t := by
  apply h
  intro c hc
  have : c.size < t.size := by
    refine Nat.lt_of_le_of_lt ?_ (sizes_namedChildren_lt t)
    obtain ⟨before, after, he⟩ := List.append_of_mem hc
    rw [he, sizes_append, sizes]
    omega
  exact named_induction h c
termination_by t.size

/-! ### The walk -/

theorem preorders_eq_flatMap (cs : List Tree) :
    preorders cs = (cs.filter (·.named)).flatMap preorder := by
  induction cs with
  | nil => rfl
  | cons c cs ih =>
    by_cases h : c.named = true
    · rw [List.filter_cons_of_pos h, List.flatMap_cons, preorders, if_pos h, ih]
    · rw [List.filter_cons_of_neg h, preorders, if_neg h, ih]

theorem preorder_eq (t : Tree) : t.preorder = t :: t.namedChildren.flatMap preorder := by
  cases t with
  | node k f n s e cs => rw [preorder, preorders_eq_flatMap]; rfl

/-- **The walk visits the trees on its stack from the end on, each in pre-order.** -/
theorem walk_eq_foldl {σ : Type} (visit : σ → Tree → σ) (state : σ) (stack : Array Tree) :
    walk visit state stack = (stack.toList.reverse.flatMap preorder).foldl visit state := by
  fun_induction walk visit state stack with
  | case1 state stack h =>
    rw [Array.back?_eq_none_iff.mp h]
    rfl
  | case2 state stack t h ih =>
    obtain ⟨rest, rfl⟩ := Array.back?_eq_some_iff.mp h
    rw [ih]
    simp only [Array.pop_push, Array.toList_appendList, Array.toList_push, List.reverse_append,
      List.reverse_reverse, List.flatMap_append, List.foldl_append, List.reverse_cons,
      List.reverse_nil, List.nil_append, List.flatMap_cons, List.flatMap_nil, List.append_nil]
    rw [preorder_eq t, List.foldl_cons]

theorem nodes_eq_preorder (t : Tree) : t.nodes = t.preorder := by
  have push : ∀ (ts : List Tree) (seen : Array Tree),
      (ts.foldl Array.push seen).toList = seen.toList ++ ts := by
    intro ts
    induction ts with
    | nil => simp
    | cons t ts ih =>
      intro seen
      rw [List.foldl_cons, ih, Array.toList_push, List.append_assoc, List.singleton_append]
  rw [nodes, walk_eq_foldl, push]
  simp

/-! ### Positions -/

/-- The node at a position. -/
def at? : List Nat → Tree → Option Tree
  | [], t => some t
  | i :: p, t => t.namedChildren[i]?.bind (at? p)

mutual
/-- Every position in a tree, that of a node before those below it. -/
def positions : Tree → List (List Nat)
  | .node _ _ _ _ _ cs => [] :: positionsFrom 0 cs
termination_by structural t => t

/-- The positions below a node whose named children are counted from `k` on. -/
def positionsFrom (k : Nat) : List Tree → List (List Nat)
  | [] => []
  | c :: cs =>
    if c.named then (positions c).map (k :: ·) ++ positionsFrom (k + 1) cs
    else positionsFrom k cs
termination_by structural cs => cs
end

theorem positionsFrom_eq (k : Nat) (cs : List Tree) :
    positionsFrom k cs =
      ((cs.filter (·.named)).zipIdx k).flatMap fun ci => ci.1.positions.map (ci.2 :: ·) := by
  induction cs generalizing k with
  | nil => rfl
  | cons c cs ih =>
    by_cases h : c.named = true
    · rw [List.filter_cons_of_pos h, List.zipIdx_cons, List.flatMap_cons, positionsFrom, if_pos h,
        ih]
    · rw [List.filter_cons_of_neg h, positionsFrom, if_neg h, ih]

theorem positions_eq (t : Tree) : t.positions =
    [] :: t.namedChildren.zipIdx.flatMap fun ci => ci.1.positions.map (ci.2 :: ·) := by
  cases t with
  | node k f n s e cs => rw [positions, positionsFrom_eq]; rfl

/-- The positions are those at which there is a node. -/
theorem mem_positions (t : Tree) (p : List Nat) : p ∈ t.positions ↔ (at? p t).isSome = true := by
  induction t using named_induction generalizing p with
  | h t ih =>
    rw [positions_eq]
    cases p with
    | nil => simp [at?]
    | cons i q =>
      simp only [List.mem_cons, List.mem_flatMap, List.mem_map, Prod.exists, reduceCtorEq, false_or,
        List.cons.injEq, at?]
      constructor
      · rintro ⟨c, j, hc, q', hq, rfl, rfl⟩
        have hi := List.mk_mem_zipIdx_iff_getElem?.mp hc
        rw [hi]
        exact (ih c (List.mem_of_getElem? hi) q').mp hq
      · intro h
        cases hi : t.namedChildren[i]? with
        | none =>
          rw [hi] at h
          cases h
        | some c =>
          rw [hi] at h
          exact ⟨c, i, List.mk_mem_zipIdx_iff_getElem?.mpr hi, q,
            (ih c (List.mem_of_getElem? hi) q).mpr h, rfl, rfl⟩

theorem zipIdx_increasing (cs : List Tree) :
    cs.zipIdx.Pairwise fun a b => a.2 < b.2 := by
  have h : (cs.zipIdx.map Prod.snd).Pairwise (· < ·) := by
    rw [List.zipIdx_map_snd]
    exact List.pairwise_lt_range'
  exact List.pairwise_map.mp h

/-- The positions stand in lexicographic order, which puts no position twice. -/
theorem positions_sorted (t : Tree) : t.positions.Pairwise (List.Lex (· < ·)) := by
  induction t using named_induction with
  | h t ih =>
    rw [positions_eq, List.pairwise_cons, List.pairwise_flatMap]
    refine ⟨?_, ?_, ?_⟩
    · intro p hp
      obtain ⟨ci, -, hp⟩ := List.mem_flatMap.mp hp
      obtain ⟨q, -, rfl⟩ := List.mem_map.mp hp
      exact .nil
    · rintro ⟨c, i⟩ hc
      have hi := List.mk_mem_zipIdx_iff_getElem?.mp hc
      exact List.pairwise_map.mpr ((ih c (List.mem_of_getElem? hi)).imp .cons)
    · refine (zipIdx_increasing t.namedChildren).imp fun hlt p hp q hq => ?_
      obtain ⟨p', -, rfl⟩ := List.mem_map.mp hp
      obtain ⟨q', -, rfl⟩ := List.mem_map.mp hq
      exact .rel hlt

/-- The pre-order of a tree are the nodes at its positions, in their order. -/
theorem preorder_at_positions (t : Tree) :
    t.preorder.map some = t.positions.map fun p => at? p t := by
  induction t using named_induction with
  | h t ih =>
    rw [preorder_eq, positions_eq, List.map_cons, List.map_cons, List.map_flatMap,
      List.map_flatMap]
    have numbered : t.namedChildren.flatMap (fun c => c.preorder.map some) =
        t.namedChildren.zipIdx.flatMap fun ci => ci.1.preorder.map some := by
      conv =>
        lhs
        rw [← List.zipIdx_map_fst 0 t.namedChildren, List.flatMap_map]
    rw [numbered]
    refine congrArg (some t :: ·) (List.flatMap_congr ?_)
    rintro ⟨c, i⟩ hc
    have hi := List.mk_mem_zipIdx_iff_getElem?.mp hc
    rw [List.map_map]
    simp only [Function.comp_def, at?, hi, Option.bind_some]
    exact ih c (List.mem_of_getElem? hi)

end SourceAudit.Syntax.Tree

/-! ### Constructs and rules -/

namespace SourceAudit
open Syntax

theorem Lowering.foldl_record (l : Lowering) (source : Source) (ts : List Tree)
    (found : Constructs) :
    ts.foldl (l.record source) found =
      ⟨found.calls ++ ts.filterMap (l.call? source),
        found.assignments ++ ts.filterMap (l.assignment? source)⟩ := by
  induction ts generalizing found with
  | nil => simp
  | cons t ts ih =>
    rw [List.foldl_cons, ih]
    cases hc : l.call? source t <;> cases ha : l.assignment? source t <;>
      simp [Lowering.record, hc, ha]

/-- The constructs of a tree are those of its nodes in pre-order. -/
theorem Lowering.constructs_eq (l : Lowering) (source : Source) (t : Tree) :
    l.constructs source t =
      ⟨t.preorder.filterMap (l.call? source), t.preorder.filterMap (l.assignment? source)⟩ := by
  rw [Lowering.constructs, Tree.walk_eq_foldl, Lowering.foldl_record]
  simp

/-- Reading a pre-order is reading the root and then the named children. -/
theorem filterMap_preorder {γ : Type} (f : Tree → Option γ) (t : Tree) :
    t.preorder.filterMap f =
      (f t).toList ++ t.namedChildren.flatMap fun c => c.preorder.filterMap f := by
  rw [Tree.preorder_eq, List.filterMap_cons, List.filterMap_flatMap]
  cases f t <;> rfl

theorem filterMap_positions {γ : Type} (f : Tree → Option γ) (t : Tree) :
    t.preorder.filterMap f = t.positions.filterMap fun p => (t.at? p).bind f := by
  have h := congrArg (List.filterMap (·.bind f)) (Tree.preorder_at_positions t)
  rw [List.filterMap_map, List.filterMap_map] at h
  exact h

theorem Syntax.Tree.calls_eq (t : Tree) (source : Source) (language : Language) :
    (t.constructs source language).calls =
      t.preorder.filterMap (language.lowering.call? source) := by
  rw [Tree.constructs, Lowering.constructs_eq]

theorem Syntax.Tree.assignments_eq (t : Tree) (source : Source) (language : Language) :
    (t.constructs source language).assignments =
      t.preorder.filterMap (language.lowering.assignment? source) := by
  rw [Tree.constructs, Lowering.constructs_eq]

/-- The construct that a node is by itself. -/
def Lowering.own (l : Lowering) (source : Source) (t : Tree) : Constructs :=
  ⟨(l.call? source t).toList, (l.assignment? source t).toList⟩

/-- The constructs of a root and of what is below it, one after the other. -/
def Constructs.followedBy (own : Constructs) (below : List Constructs) : Constructs :=
  ⟨own.calls ++ below.flatMap (·.calls), own.assignments ++ below.flatMap (·.assignments)⟩

/-- The constructs of a tree are that of its root and then those of its named children. -/
theorem Syntax.Tree.constructs_eq_followedBy (t : Tree) (source : Source) (language : Language) :
    t.constructs source language =
      (language.lowering.own source t).followedBy
        (t.namedChildren.map fun c => c.constructs source language) := by
  have calls := t.calls_eq source language
  have assignments := t.assignments_eq source language
  rw [filterMap_preorder] at calls assignments
  simp only [← Tree.calls_eq] at calls
  simp only [← Tree.assignments_eq] at assignments
  unfold Constructs.followedBy
  rw [List.flatMap_map, List.flatMap_map]
  show (⟨(t.constructs source language).calls, (t.constructs source language).assignments⟩ :
    Constructs) = _
  rw [calls, assignments]
  rfl

/-- What a rule reports on constructs it reports on their parts. -/
theorem StructuralRule.sites_followedBy (rule : StructuralRule) (language : Language)
    (own : Constructs) (below : List Constructs) :
    rule.sites language (own.followedBy below) =
      rule.sites language own ++ below.flatMap (rule.sites language) := by
  unfold StructuralRule.sites Constructs.followedBy
  cases rule.criterion <;> simp [List.filter_flatMap, List.map_flatMap]

/-- **The walk reads a tree in pre-order**, in every language. So what a rule reports on a tree, be
it one of the catalog or any other, is what it reports on the root followed by what it reports on
the named children. -/
theorem constructs_read_in_preorder (t : Tree) (source : Source) (language : Language) :
    let l := language.lowering
    (t.constructs source language).calls =
        (l.call? source t).toList ++
          t.namedChildren.flatMap (fun c => (c.constructs source language).calls) ∧
      (t.constructs source language).assignments =
        (l.assignment? source t).toList ++
          t.namedChildren.flatMap (fun c => (c.constructs source language).assignments) ∧
      t.nodes.map some = t.positions.map (fun p => t.at? p) ∧
      (t.constructs source language).calls =
        t.positions.filterMap (fun p => (t.at? p).bind (l.call? source)) ∧
      (t.constructs source language).assignments =
        t.positions.filterMap (fun p => (t.at? p).bind (l.assignment? source)) ∧
      (∀ p, p ∈ t.positions ↔ (t.at? p).isSome = true) ∧
      t.positions.Pairwise (List.Lex (· < ·)) ∧
      ∀ rule : StructuralRule,
        rule.sites language (t.constructs source language) =
          rule.sites language (l.own source t) ++
            t.namedChildren.flatMap (fun c => rule.sites language (c.constructs source language)) := by
  intro l
  have split := t.constructs_eq_followedBy source language
  refine ⟨?_, ?_, ?_, ?_, ?_, t.mem_positions, t.positions_sorted, fun rule => ?_⟩
  · rw [split, Constructs.followedBy, List.flatMap_map]
    rfl
  · rw [split, Constructs.followedBy, List.flatMap_map, List.flatMap_map]
    rfl
  · rw [t.nodes_eq_preorder, t.preorder_at_positions]
  · rw [t.calls_eq, filterMap_positions]
  · rw [t.assignments_eq, filterMap_positions]
  · rw [split, rule.sites_followedBy, List.flatMap_map]

end SourceAudit
