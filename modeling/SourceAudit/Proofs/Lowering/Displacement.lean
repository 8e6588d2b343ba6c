import SourceAudit.Proofs.Lowering.Faithful
import SourceAudit.Proofs.Position

/-! Findings move with the code.

Whole lines put in front of a source move every node of its tree by as many bytes as they have. No
text changes, since a node spans the same bytes as before; a line number grows by the number of
lines, and a column stays, since columns are counted from the last line feed and the lines in front
end in one. So the displacement is a faithful change (`displaced_faithful`), and the constructs of
the displaced tree are those of the tree, moved down. No rule of the catalog looks at the site of a
construct (`StructuralRule.catalog_blindToSites`); so the rules report the same constructs, further
down. -/
namespace SourceAudit
open Syntax

/-! ### Displaced trees -/

namespace Syntax.Tree

mutual
/-- The tree with every node `n` bytes further on. -/
def displaced (n : Nat) : Tree → Tree
  | .node k f named s e cs => .node k f named (n + s) (n + e) (displacedAll n cs)
termination_by structural t => t

def displacedAll (n : Nat) : List Tree → List Tree
  | [] => []
  | c :: cs => c.displaced n :: displacedAll n cs
termination_by structural cs => cs
end

section Displaced
variable (n : Nat) (t : Tree)

@[simp] theorem kind_displaced : (t.displaced n).kind = t.kind := by cases t; rfl

@[simp] theorem field_displaced : (t.displaced n).field = t.field := by cases t; rfl

@[simp] theorem named_displaced : (t.displaced n).named = t.named := by cases t; rfl

@[simp] theorem start_displaced : (t.displaced n).start = n + t.start := by cases t; rfl

@[simp] theorem stop_displaced : (t.displaced n).stop = n + t.stop := by cases t; rfl

theorem displacedAll_eq (cs : List Tree) : displacedAll n cs = cs.map (displaced n) := by
  induction cs with
  | nil => rfl
  | cons c cs ih => rw [displacedAll, ih, List.map_cons]

theorem children_displaced : (t.displaced n).children = t.children.map (displaced n) := by
  cases t with
  | node k f named s e cs => exact displacedAll_eq n cs

theorem child?_displaced (name : String) :
    (t.displaced n).child? name = (t.child? name).map (displaced n) := by
  unfold child?
  rw [children_displaced, List.find?_map]
  simp only [Function.comp_def, field_displaced]

/-- A test that a displacement does not change selects the same children. -/
theorem filter_children_displaced {p : Tree → Bool} (h : ∀ c, p (c.displaced n) = p c) :
    (t.displaced n).children.filter p = (t.children.filter p).map (displaced n) := by
  rw [children_displaced, List.filter_map, Function.comp_def]
  simp only [h]

theorem operands_displaced : (t.displaced n).operands = t.operands.map (displaced n) :=
  filter_children_displaced n t fun c => by simp [isOperand]

theorem namedChildren_displaced :
    (t.displaced n).namedChildren = t.namedChildren.map (displaced n) :=
  filter_children_displaced n t (named_displaced n)

theorem hasChild_displaced (kind : String) : (t.displaced n).hasChild kind = t.hasChild kind := by
  unfold hasChild
  rw [namedChildren_displaced, List.any_map]
  simp only [Function.comp_def, kind_displaced]

/-- The nodes of the displaced tree are the displaced nodes. -/
theorem preorder_displaced : (t.displaced n).preorder = t.preorder.map (displaced n) := by
  induction t using named_induction with
  | h t ih =>
    rw [preorder_eq, preorder_eq t, namedChildren_displaced, List.flatMap_map, List.map_cons,
      List.map_flatMap]
    exact congrArg (t.displaced n :: ·) (List.flatMap_congr ih)

end Displaced
end Syntax.Tree

/-! ### Sources with lines in front -/

/-- The site `n` lines further down. -/
def Site.movedDown (n : Nat) (s : Site) : Site := { s with line := s.line + n }

namespace Syntax.Source

/-- The source with some bytes in front. -/
def behind (front : List UInt8) (s : Source) : Source := ⟨front ++ s.bytes⟩

variable (front : List UInt8) (s : Source)

theorem slice_behind (start stop : Nat) :
    (s.behind front).slice (front.length + start) (front.length + stop) = s.slice start stop := by
  unfold slice behind
  rw [← List.drop_drop, List.drop_left, Nat.add_sub_add_left]

theorem textOf_behind (t : Tree) :
    (s.behind front).textOf (t.displaced front.length) = s.textOf t := by
  unfold textOf
  rw [Tree.start_displaced, Tree.stop_displaced, slice_behind]

theorem lineOf_behind (offset : Nat) :
    (s.behind front).lineOf (front.length + offset) = s.lineOf offset + front.count 10 := by
  rw [behind, lineOf_append, Nat.add_comm]

variable {front} (whole : front = [] ∨ front.getLast? = some 10)
include whole

theorem columnOf_behind (offset : Nat) :
    (s.behind front).columnOf (front.length + offset) = s.columnOf offset := by
  rcases whole with rfl | newline
  · rw [List.length_nil, Nat.zero_add]
    rfl
  · -- the line feed at the end of `front` is where the first line of `s` begins
    obtain ⟨before, rfl⟩ := List.getLast?_eq_some_iff.mp newline
    rw [behind, List.append_assoc, List.singleton_append, List.length_append, List.length_singleton,
      Nat.add_assoc, Nat.add_comm 1, columnOf_append_newline]

theorem site_behind (t : Tree) :
    Site.ofTree (s.behind front) (t.displaced front.length) =
      (Site.ofTree s t).movedDown (front.count 10) := by
  unfold Site.ofTree
  rw [Tree.start_displaced, lineOf_behind, columnOf_behind s whole, textOf_behind]
  rfl

/-- **Putting whole lines in front is a faithful change** that moves every site down. -/
theorem displaced_faithful :
    Faithful (Tree.displaced front.length) s (s.behind front)
      (Site.movedDown (front.count 10)) where
  kind := Tree.kind_displaced front.length
  child name t := Tree.child?_displaced front.length t name
  operands := Tree.operands_displaced front.length
  hasChild kind t _ := Tree.hasChild_displaced front.length t kind
  text := textOf_behind front s
  site := site_behind s whole

end Syntax.Source

/-! ### Moved constructs -/

/-- The constructs with every site moved. -/
def Constructs.moved (move : Site → Site) (c : Constructs) : Constructs :=
  ⟨c.calls.map (Call.moved move), c.assignments.map (Assignment.moved move)⟩

/-- What is read of nodes after a change is what was read before it, moved. -/
theorem filterMap_map_of_moves {γ : Type} {change : Tree → Tree} {read read' : Tree → Option γ}
    {move : γ → γ} (h : ∀ t, read' (change t) = (read t).map move) (ts : List Tree) :
    (ts.map change).filterMap read' = (ts.filterMap read).map move := by
  rw [List.filterMap_map, List.map_filterMap]
  exact List.filterMap_congr fun t _ => h t

theorem Syntax.Tree.constructs_displaced (t : Tree) (source : Source) (language : Language)
    {front : List UInt8} (whole : front = [] ∨ front.getLast? = some 10) :
    (t.displaced front.length).constructs (source.behind front) language =
      (t.constructs source language).moved (Site.movedDown (front.count 10)) := by
  have faithful := Source.displaced_faithful source whole
  unfold Tree.constructs
  rw [Lowering.constructs_eq, Lowering.constructs_eq, Tree.preorder_displaced,
    filterMap_map_of_moves (language.reads.call faithful),
    filterMap_map_of_moves (language.reads.assignment faithful)]
  rfl

/-! ### Rules do not look at sites -/

/-- Whether a construct is reported does not depend on where it stands. -/
def Criterion.BlindToSites : Criterion → Prop
  | .calls test => ∀ language move call, test language (Call.moved move call) = test language call
  | .assignments test => ∀ language move a, test language (Assignment.moved move a) = test language a

namespace StructuralRule

theorem catalog_blindToSites {rule : StructuralRule} (h : rule ∈ catalog) :
    rule.criterion.BlindToSites := by
  simp only [catalog, List.mem_cons, List.not_mem_nil, or_false] at h
  rcases h with rfl | rfl | rfl | rfl | rfl | rfl | rfl | rfl <;> exact fun _ _ _ => rfl

/-- Selecting among moved constructs is moving the selected ones, if the test is blind to sites. -/
theorem map_filter_moved {γ : Type} {moved : γ → γ} {site : γ → Site} {move : Site → Site}
    {test : γ → Bool} (blind : ∀ c, test (moved c) = test c)
    (moves : ∀ c, site (moved c) = move (site c)) (cs : List γ) :
    ((cs.map moved).filter test).map site = ((cs.filter test).map site).map move := by
  have same : test ∘ moved = test := funext blind
  rw [List.filter_map, same, List.map_map, List.map_map]
  exact List.map_congr_left fun c _ => moves c

theorem sites_moved {rule : StructuralRule} (blind : rule.criterion.BlindToSites)
    (language : Language) (move : Site → Site) (c : Constructs) :
    rule.sites language (c.moved move) = (rule.sites language c).map move := by
  unfold sites
  cases hc : rule.criterion with
  | calls test =>
    rw [hc] at blind
    exact map_filter_moved (blind language move) (fun _ => rfl) c.calls
  | assignments test =>
    rw [hc] at blind
    exact map_filter_moved (blind language move) (fun _ => rfl) c.assignments

theorem findings_moved {rule : StructuralRule} (blind : rule.criterion.BlindToSites)
    (file : String) (language : Language) (n : Nat) (c : Constructs) :
    rule.findings file language (c.moved (Site.movedDown n)) =
      (rule.findings file language c).map (Finding.movedDown n) := by
  unfold findings
  rw [sites_moved blind, List.map_map, List.map_map]
  rfl

end StructuralRule

/-- **Findings move with the code.** Whole lines in front of a source change nothing about what is
found in it but the numbers of the lines. -/
theorem findings_move_with_code (t : Tree) (source : Source) (language : Language)
    {front : List UInt8} (whole : front = [] ∨ front.getLast? = some 10) :
    let down := front.count 10
    let before := t.constructs source language
    let after := (t.displaced front.length).constructs (source.behind front) language
    after.calls = before.calls.map (Call.moved (Site.movedDown down)) ∧
      after.assignments = before.assignments.map (Assignment.moved (Site.movedDown down)) ∧
      ∀ file : String,
        (∀ rule ∈ StructuralRule.catalog, rule.findings file language after =
          (rule.findings file language before).map (Finding.movedDown down)) ∧
        StructuralRule.allFindings file language after =
          (StructuralRule.allFindings file language before).map (Finding.movedDown down) := by
  intro down before after
  have moved : after = before.moved (Site.movedDown down) :=
    t.constructs_displaced source language whole
  have findings (file : String) : ∀ rule ∈ StructuralRule.catalog,
      rule.findings file language after =
        (rule.findings file language before).map (Finding.movedDown down) := by
    intro rule mem
    rw [moved]
    exact StructuralRule.findings_moved (StructuralRule.catalog_blindToSites mem) file language down
      before
  refine ⟨congrArg Constructs.calls moved, congrArg Constructs.assignments moved,
    fun file => ⟨findings file, ?_⟩⟩
  unfold StructuralRule.allFindings
  rw [List.map_flatMap]
  exact List.flatMap_congr (findings file)

/-- A call on the first line whose text is torn, behind two lines that are torn themselves. -/
theorem findings_move_with_code_torn :
    let source : Source := ⟨Text.Utf8.encode "eval(".toList ++ [0xFF, 41]⟩
    let t : Tree := .node "program" none true 0 7
      [.node "call_expression" none true 0 7
        [.node "identifier" (some "function") true 0 4 [],
         .node "arguments" (some "arguments") true 4 7 []]]
    let front : List UInt8 := [0xE2, 0x82, 10, 13, 10]
    let before := t.constructs source .javascript
    let after := (t.displaced front.length).constructs (source.behind front) .javascript
    let found := StructuralRule.evaluation.findings "a.js" .javascript
    (front = [] ∨ front.getLast? = some 10) ∧
      (found before).map (fun f => (f.line, f.column, f.snippet)) = [(1, some 1, "")] ∧
      found after = (found before).map (Finding.movedDown 2) := by
  intro source t front before after found
  have whole : front = [] ∨ front.getLast? = some 10 := .inr rfl
  have moved := (findings_move_with_code t source .javascript whole).2.2 "a.js"
  exact ⟨whole, by decide +kernel, moved.1 _ List.mem_cons_self⟩

end SourceAudit
