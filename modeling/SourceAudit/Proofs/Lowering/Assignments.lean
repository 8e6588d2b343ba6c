import Mathlib.Data.List.Nodup
import SourceAudit.Proofs.Lowering.Wrappers

/-! The forms of declarations and assignments.

Each grammar has a few kinds of nodes that declare something or assign to it, and they differ in how
they name the target and in where the values stand. A form says this for one kind of node; the forms
of a language are a table (`Language.forms`), and its lowering reads a node by the form of its kind:
it takes the target from where the form says (`Form.Targets`) and as values what the form gives
(`Form.Gives`). This is proved once for each language and put together in `Language.assigns`. -/
namespace SourceAudit
open Syntax

/-- Where the node of an assignment holds its target. -/
inductive Form.Target where
  /-- The child that fills a field. -/
  | side (field : String)
  /-- All operands of a kind. -/
  | names (kind : String)

/-- How one kind of node declares something or assigns to it. -/
structure Form where
  kind : String
  target : Form.Target
  /-- The field of what is assigned. -/
  value : String
  /-- The kinds of nodes that list several values. -/
  lists : List String := []

/-- The forms of declarations and assignments in a language. -/
def Language.forms : Language → List Form
  | .javascript | .typescript =>
    [{ kind := "assignment_expression", target := .side "left", value := "right" },
     { kind := "augmented_assignment_expression", target := .side "left", value := "right" },
     { kind := "variable_declarator", target := .side "name", value := "value" }]
  | .python =>
    [{ kind := "assignment", target := .side "left", value := "right",
       lists := ["expression_list"] },
     { kind := "augmented_assignment", target := .side "left", value := "right",
       lists := ["expression_list"] }]
  | .go =>
    [{ kind := "short_var_declaration", target := .side "left", value := "right",
       lists := ["expression_list"] },
     { kind := "assignment_statement", target := .side "left", value := "right",
       lists := ["expression_list"] },
     { kind := "var_spec", target := .names "identifier", value := "value",
       lists := ["expression_list"] },
     { kind := "const_spec", target := .names "identifier", value := "value",
       lists := ["expression_list"] }]

namespace Form
variable {form : Form} {source : Source} {t : Tree}

/-- The text of the target: that of one side, or the names with commas between them. -/
inductive Targets (form : Form) (source : Source) (t : Tree) : String → Prop
  | side {field : String} {left : Tree} (h : form.target = .side field)
      (child : t.child? field = some left) : Targets form source t (source.textOf left)
  | names {kind : String} {names : List Tree} (h : form.target = .names kind)
      (listed : t.operands.filter (·.kind = kind) = names) (some : names ≠ []) :
      Targets form source t (", ".intercalate (names.map source.textOf))

/-- One of the values on the other side: an element of a list, without the comments in it, or else
the one value that stands there. -/
inductive Gives (form : Form) (t : Tree) : Tree → Prop
  | alone {x : Tree} (h : t.child? form.value = some x) (single : x.kind ∉ form.lists) :
      Gives form t x
  | listed {list x : Tree} (h : t.child? form.value = some list) (isList : list.kind ∈ form.lists)
      (item : x ∈ list.operands) : Gives form t x

theorem Targets.unique {target target' : String} (h : form.Targets source t target)
    (h' : form.Targets source t target') : target = target' := by
  cases h with
  | side side left =>
    cases h' with
    | side side' left' =>
      cases side.symm.trans side'
      cases left.symm.trans left'
      rfl
    | names side' => cases side.symm.trans side'
  | names side listed =>
    cases h' with
    | side side' => cases side.symm.trans side'
    | names side' listed' =>
      cases side.symm.trans side'
      cases listed.symm.trans listed'
      rfl

/-- The values that are read off the node in the field of the values. -/
theorem mem_values_iff {read : Tree → Value} {values : List Value}
    (bare : t.child? form.value = none → values = [])
    (alone : ∀ x, t.child? form.value = some x → x.kind ∉ form.lists → values = [read x])
    (listed : ∀ list, t.child? form.value = some list → list.kind ∈ form.lists →
      values = list.operands.map read) {value : Value} :
    value ∈ values ↔ ∃ x, form.Gives t x ∧ read x = value := by
  constructor
  · intro mem
    cases child : t.child? form.value with
    | none =>
      rw [bare child] at mem
      cases mem
    | some x =>
      by_cases isList : x.kind ∈ form.lists
      · rw [listed x child isList] at mem
        obtain ⟨item, hitem, rfl⟩ := List.mem_map.mp mem
        exact ⟨item, .listed child isList hitem, rfl⟩
      · rw [alone x child isList, List.mem_singleton] at mem
        exact ⟨x, .alone child isList, mem.symm⟩
  · intro h
    obtain ⟨x, gives, rfl⟩ := h
    cases gives with
    | alone child single =>
      rw [alone x child single]
      exact List.mem_singleton_self _
    | listed child isList item =>
      rw [listed _ child isList]
      exact List.mem_map_of_mem item

theorem Targets.exists_side {target field : String} (h : form.Targets source t target)
    (side : form.target = .side field) : ∃ left, t.child? field = some left := by
  cases h with
  | side side' child =>
    cases side.symm.trans side'
    exact ⟨_, child⟩
  | names other => cases side.symm.trans other

theorem Targets.exists_name {target kind : String} (h : form.Targets source t target)
    (names : form.target = .names kind) : t.operands.filter (·.kind = kind) ≠ [] := by
  cases h with
  | side other => cases names.symm.trans other
  | names names' listed some =>
    cases names.symm.trans names'
    rw [listed]
    exact some

theorem Gives.exists_child {x : Tree} (h : form.Gives t x) :
    ∃ c, t.child? form.value = some c := by
  cases h with
  | alone child => exact ⟨_, child⟩
  | listed child => exact ⟨_, child⟩

end Form

/-! ### Reading assignments -/

namespace Lowering

/-- An assignment has the target and the values that a form finds at its node. -/
structure ReadsAs (l : Lowering) (source : Source) (form : Form) (t : Tree) (a : Assignment) :
    Prop where
  target : form.Targets source t a.target
  values : ∀ {value}, value ∈ a.values ↔ ∃ x, form.Gives t x ∧ l.value source x = value

/-- What a lowering takes for assignments are nodes of some forms, and it takes for one every node
of a form to which something is assigned. -/
structure Assigns (l : Lowering) (forms : List Form) : Prop where
  reads : ∀ {source t a}, l.assignment? source t = some a →
    ∃ form ∈ forms, t.kind = form.kind ∧ l.ReadsAs source form t a
  found : ∀ {source form t target x}, form ∈ forms → t.kind = form.kind →
    form.Targets source t target → form.Gives t x → ∃ a, l.assignment? source t = some a

namespace Ecmascript
variable {source : Source} {t : Tree} {a : Assignment}

/-- A plain or augmented assignment with both sides. -/
structure IsAssignment (t left right : Tree) : Prop where
  kind : t.kind ∈ ["assignment_expression", "augmented_assignment_expression"]
  left : t.child? "left" = some left
  right : t.child? "right" = some right

/-- A node is an assignment with both sides, or a declaration of a name. -/
theorem assignment?_eq_some_iff :
    assignment? source t = some a ↔
      (∃ left right, IsAssignment t left right ∧ a = assignmentOf source t left right) ∨
        ∃ name, t.kind = "variable_declarator" ∧ t.child? "name" = some name ∧
          a = declarationOf source t name := by
  constructor
  · intro h
    unfold assignment? at h
    split at h
    · rename_i kind
      obtain ⟨left, hleft, h⟩ := Option.bind_eq_some_iff.mp h
      obtain ⟨right, hright, h⟩ := Option.bind_eq_some_iff.mp h
      cases h
      exact .inl ⟨left, right, ⟨by simp [kind], hleft, hright⟩, rfl⟩
    · rename_i kind
      obtain ⟨left, hleft, h⟩ := Option.bind_eq_some_iff.mp h
      obtain ⟨right, hright, h⟩ := Option.bind_eq_some_iff.mp h
      cases h
      exact .inl ⟨left, right, ⟨by simp [kind], hleft, hright⟩, rfl⟩
    · rename_i kind
      obtain ⟨name, hname, rfl⟩ := Option.map_eq_some_iff.mp h
      exact .inr ⟨name, kind, hname, rfl⟩
    · cases h
  · intro h
    rcases h with ⟨left, right, sides, rfl⟩ | ⟨name, kind, hname, rfl⟩
    · rcases List.mem_pair.mp sides.kind with kind | kind
      · simp [assignment?, kind, sides.left, sides.right]
      · simp [assignment?, kind, sides.left, sides.right]
    · simp [assignment?, kind, hname]

/-- What no declaration passes is a test of the two sides of an assignment. -/
theorem any_assignment?_iff {test : Assignment → Bool}
    (never : ∀ name, test (declarationOf source t name) = false) :
    (assignment? source t).any test = true ↔
      ∃ left right, IsAssignment t left right ∧ test (assignmentOf source t left right) = true := by
  rw [Option.any_eq_true]
  constructor
  · intro h
    obtain ⟨a, ha, accepted⟩ := h
    rcases assignment?_eq_some_iff.mp ha with ⟨left, right, sides, rfl⟩ | ⟨name, -, -, rfl⟩
    · exact ⟨left, right, sides, accepted⟩
    · cases (never name).symm.trans accepted
  · intro h
    obtain ⟨left, right, sides, accepted⟩ := h
    exact ⟨_, assignment?_eq_some_iff.mpr (.inl ⟨left, right, sides, rfl⟩), accepted⟩

theorem readsAs_assignmentOf {form : Form} {left right : Tree} (target : form.target = .side "left")
    (value : form.value = "right") (lists : form.lists = []) (sides : IsAssignment t left right) :
    lowering.ReadsAs source form t (assignmentOf source t left right) where
  target := .side target sides.left
  values := by
    apply Form.mem_values_iff
    · intro bare
      rw [value] at bare
      cases bare.symm.trans sides.right
    · intro x child _
      rw [value] at child
      cases child.symm.trans sides.right
      rfl
    · intro list _ isList
      rw [lists] at isList
      cases isList

theorem readsAs_declarationOf {form : Form} {name : Tree} (target : form.target = .side "name")
    (value : form.value = "value") (lists : form.lists = []) (named : t.child? "name" = some name) :
    lowering.ReadsAs source form t (declarationOf source t name) where
  target := .side target named
  values := by
    apply Form.mem_values_iff
    · intro bare
      rw [value] at bare
      simp only [declarationOf, bare, Option.toList_none, List.map_nil]
    · intro x child _
      rw [value] at child
      simp only [declarationOf, child, Option.toList_some, List.map_cons, List.map_nil]
      rfl
    · intro list _ isList
      rw [lists] at isList
      cases isList

theorem assigns : lowering.Assigns Language.javascript.forms where
  reads := by
    intro source t a h
    rcases assignment?_eq_some_iff.mp h with ⟨left, right, sides, rfl⟩ | ⟨name, kind, named, rfl⟩
    · rcases List.mem_pair.mp sides.kind with kind | kind
      · exact ⟨_, .head _, kind, readsAs_assignmentOf rfl rfl rfl sides⟩
      · exact ⟨_, .tail _ (.head _), kind, readsAs_assignmentOf rfl rfl rfl sides⟩
    · exact ⟨_, .tail _ (.tail _ (.head _)), kind, readsAs_declarationOf rfl rfl rfl named⟩
  found := by
    intro source form t target x mem kind targets gives
    have sides (kind : t.kind ∈ ["assignment_expression", "augmented_assignment_expression"])
        (left : ∃ left, t.child? "left" = some left)
        (right : ∃ right, t.child? "right" = some right) :
        ∃ a, assignment? source t = some a := by
      obtain ⟨left, hleft⟩ := left
      obtain ⟨right, hright⟩ := right
      exact ⟨_, assignment?_eq_some_iff.mpr (.inl ⟨left, right, ⟨kind, hleft, hright⟩, rfl⟩)⟩
    simp only [Language.forms, List.mem_cons, List.not_mem_nil, or_false] at mem
    rcases mem with rfl | rfl | rfl
    · exact sides (by simp [kind]) (targets.exists_side rfl) gives.exists_child
    · exact sides (by simp [kind]) (targets.exists_side rfl) gives.exists_child
    · obtain ⟨name, named⟩ := targets.exists_side rfl
      exact ⟨_, assignment?_eq_some_iff.mpr (.inr ⟨name, kind, named, rfl⟩)⟩

end Ecmascript

namespace Python
variable {source : Source} {t : Tree} {a : Assignment}

theorem assignment?_eq_some_iff :
    assignment? source t = some a ↔
      t.kind ∈ ["assignment", "augmented_assignment"] ∧
        ∃ left, t.child? "left" = some left ∧ a = assignmentOf source t left := by
  unfold assignment?
  constructor
  · intro h
    split at h
    · rename_i kind
      obtain ⟨left, hleft, rfl⟩ := Option.map_eq_some_iff.mp h
      exact ⟨by simpa using kind, left, hleft, rfl⟩
    · cases h
  · intro h
    obtain ⟨kind, left, hleft, rfl⟩ := h
    rw [if_pos (by simpa using kind), hleft]
    rfl

theorem readsAs_assignmentOf {form : Form} {left : Tree} (target : form.target = .side "left")
    (value : form.value = "right") (lists : form.lists = ["expression_list"])
    (child : t.child? "left" = some left) :
    lowering.ReadsAs source form t (assignmentOf source t left) where
  target := .side target child
  values := by
    apply Form.mem_values_iff
    · intro bare
      rw [value] at bare
      simp only [assignmentOf, rightValues, bare]
    · intro x child single
      rw [value] at child
      rw [lists, List.mem_singleton] at single
      simp only [assignmentOf, rightValues, child, if_neg single]
      rfl
    · intro list child isList
      rw [value] at child
      rw [lists, List.mem_singleton] at isList
      simp only [assignmentOf, rightValues, child, if_pos isList]
      rfl

theorem assigns : lowering.Assigns Language.python.forms where
  reads := by
    intro source t a h
    obtain ⟨kind, left, child, rfl⟩ := assignment?_eq_some_iff.mp h
    rcases List.mem_pair.mp kind with kind | kind
    · exact ⟨_, .head _, kind, readsAs_assignmentOf rfl rfl rfl child⟩
    · exact ⟨_, .tail _ (.head _), kind, readsAs_assignmentOf rfl rfl rfl child⟩
  found := by
    intro source form t target x mem kind targets _
    have side (kind : t.kind ∈ ["assignment", "augmented_assignment"])
        (left : ∃ left, t.child? "left" = some left) : ∃ a, assignment? source t = some a := by
      obtain ⟨left, child⟩ := left
      exact ⟨_, assignment?_eq_some_iff.mpr ⟨kind, left, child, rfl⟩⟩
    simp only [Language.forms, List.mem_cons, List.not_mem_nil, or_false] at mem
    rcases mem with rfl | rfl
    · exact side (by simp [kind]) (targets.exists_side rfl)
    · exact side (by simp [kind]) (targets.exists_side rfl)

end Python

namespace Golang
variable {source : Source} {t : Tree} {a : Assignment}

theorem readsAs_assignmentOf {form : Form} {target : String} {augmented : Bool}
    (targets : form.Targets source t target) (lists : form.lists = ["expression_list"]) :
    lowering.ReadsAs source form t (assignmentOf source t target form.value augmented) where
  target := targets
  values := by
    apply Form.mem_values_iff
    · intro bare
      simp only [assignmentOf, bare, valuesOf]
    · intro x child single
      rw [lists, List.mem_singleton] at single
      simp only [assignmentOf, child, valuesOf, if_neg single]
      rfl
    · intro list child isList
      rw [lists, List.mem_singleton] at isList
      simp only [assignmentOf, child, valuesOf, if_pos isList]
      rfl

theorem targets_specNames {form : Form} (names : form.target = .names "identifier")
    (some : specNames source t ≠ []) :
    form.Targets source t (", ".intercalate (specNames source t)) :=
  .names names rfl (mt (congrArg (List.map source.textOf)) some)

theorem assigns : lowering.Assigns Language.go.forms where
  reads := by
    intro source t a h
    change assignment? source t = some a at h
    unfold assignment? at h
    split at h
    · rename_i kind
      obtain ⟨left, child, rfl⟩ := Option.map_eq_some_iff.mp h
      exact ⟨_, .head _, kind, readsAs_assignmentOf (.side rfl child) rfl⟩
    · rename_i kind
      obtain ⟨left, child, rfl⟩ := Option.map_eq_some_iff.mp h
      exact ⟨_, .tail _ (.head _), kind, readsAs_assignmentOf (.side rfl child) rfl⟩
    · rename_i kind
      split at h
      · cases h
      · rename_i some
        cases h
        exact ⟨_, .tail _ (.tail _ (.head _)), kind,
          readsAs_assignmentOf (targets_specNames rfl some) rfl⟩
    · rename_i kind
      split at h
      · cases h
      · rename_i some
        cases h
        exact ⟨_, .tail _ (.tail _ (.tail _ (.head _))), kind,
          readsAs_assignmentOf (targets_specNames rfl some) rfl⟩
    · cases h
  found := by
    intro source form t target x mem kind targets _
    change ∃ a, assignment? source t = some a
    have specified (names : form.target = .names "identifier") : specNames source t ≠ [] := by
      have some := targets.exists_name names
      simpa [specNames] using some
    unfold assignment?
    simp only [Language.forms, List.mem_cons, List.not_mem_nil, or_false] at mem
    rcases mem with rfl | rfl | rfl | rfl
    · obtain ⟨left, child⟩ := targets.exists_side rfl
      simp [kind, child]
    · obtain ⟨left, child⟩ := targets.exists_side rfl
      simp [kind, child]
    · cases names : specNames source t with
      | nil => exact absurd names (specified rfl)
      | cons => simp [kind]
    · cases names : specNames source t with
      | nil => exact absurd names (specified rfl)
      | cons => simp [kind]

end Golang
end Lowering

/-- A rule of the ECMAScript family that no declaration passes looks at the two sides of an
assignment. -/
theorem Language.any_assignment?_iff (language : Language) {source : Source} {t : Tree}
    {test : Assignment → Bool}
    (never : ∀ name, test (Lowering.Ecmascript.declarationOf source t name) = false) :
    (language.lowering.assignment? source t).any (fun a => language.isEcmascript && test a) = true ↔
      language.isEcmascript = true ∧ ∃ left right,
        Lowering.Ecmascript.IsAssignment t left right ∧
          test (Lowering.Ecmascript.assignmentOf source t left right) = true := by
  have family : (Lowering.Ecmascript.assignment? source t).any (fun a => true && test a) = true ↔
      true = true ∧ ∃ left right, Lowering.Ecmascript.IsAssignment t left right ∧
        test (Lowering.Ecmascript.assignmentOf source t left right) = true := by
    simp only [Bool.true_and, true_and]
    exact Lowering.Ecmascript.any_assignment?_iff never
  cases language with
  | javascript => exact family
  | typescript => exact family
  | python => simp [isEcmascript]
  | go => simp [isEcmascript]

theorem Language.assigns (language : Language) : language.lowering.Assigns language.forms := by
  cases language with
  | javascript => exact Lowering.Ecmascript.assigns
  | typescript => exact Lowering.Ecmascript.assigns
  | python => exact Lowering.Python.assigns
  | go => exact Lowering.Golang.assigns

theorem Language.kinds_distinct (language : Language) : (language.forms.map (·.kind)).Nodup := by
  cases language <;> decide

/-- **A lowering reads the nodes of a form as the form says**, if something is assigned there. -/
theorem Language.exists_assignment (language : Language) {source : Source} {form : Form}
    {t x : Tree} {target : String} (mem : form ∈ language.forms) (kind : t.kind = form.kind)
    (targets : form.Targets source t target) (gives : form.Gives t x) :
    ∃ a, language.lowering.assignment? source t = some a ∧
      language.lowering.ReadsAs source form t a := by
  obtain ⟨a, ha⟩ := language.assigns.found mem kind targets gives
  obtain ⟨other, mem', kind', reads⟩ := language.assigns.reads ha
  have same : form = other :=
    List.inj_on_of_nodup_map language.kinds_distinct mem mem' (kind.symm.trans kind')
  exact ⟨a, ha, same ▸ reads⟩

end SourceAudit
