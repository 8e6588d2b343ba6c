import Mathlib.Tactic.MkIffOfInductiveProp
import Mathlib.Tactic.Simps.Basic
import SourceAudit.Proofs.Lowering.Faithful

/-! The grammars of all languages in one vocabulary.

A grammar has its own kinds of nodes for the same few things: wrappers, strings, operators, calls,
references, lists of arguments. A vocabulary lists them, and what an expression is can then be said
once for every language: what stands inside its wrappers (`Peels`), whether that is a plain string
(`IsPlain`), may vary (`IsDynamic`) or is a string put together at run time (`IsBuilt`), what a call
passes at a place (`Passes`) and which member it names (`Names`). Each lowering reads its grammar
as its vocabulary says (`Language.follows`). -/
namespace SourceAudit
open Syntax

/-- The kinds of nodes of a grammar, by what they stand for. -/
structure Vocabulary where
  /-- Expressions that only wrap another one. -/
  wrappers : List String
  /-- Strings that hold nothing substituted. -/
  strings : List String := []
  /-- Strings that may hold substituted parts, each with the kind of such a part. -/
  templates : List (String × String) := []
  /-- Strings written one after another, with the kind of a part substituted in one of them. -/
  runs : List (String × String) := []
  /-- An operator with two operands. -/
  operation : String
  /-- A call; what is called fills the field `function`. -/
  call : String
  constructions : List String := []
  /-- Names, members, elements and spreads. -/
  references : List String
  /-- The callees that format a string. -/
  formats : String → Prop
  /-- A member, and the field of its name. -/
  member : String × String
  /-- Whether a called member may stand inside wrappers. -/
  wrapsMembers : Bool := false
  /-- A list of arguments, where something else than a list may be passed, too. -/
  argumentList : Option String := none
  /-- An argument passed by name; its value fills the field `value`. -/
  keyword : Option String := none

namespace Vocabulary
variable (v : Vocabulary)

/-- What stands inside any number of wrappers, each of which stands for its first operand. -/
inductive Peels : Tree → Tree → Prop
  | bare {t : Tree} (h : t.kind ∉ v.wrappers) : Peels t t
  | hollow {t : Tree} (h : t.kind ∈ v.wrappers) (empty : t.operands = []) : Peels t t
  | wrapped {t c inner : Tree} {rest : List Tree} (h : t.kind ∈ v.wrappers)
      (first : t.operands = c :: rest) (inside : Peels c inner) : Peels t inner

def HasPart (part : String) (t : Tree) : Prop := ∃ c ∈ t.namedChildren, c.kind = part

/-- A string without any substituted part. -/
@[mk_iff]
inductive IsPlain (t : Tree) : Prop
  | string (h : t.kind ∈ v.strings)
  | template {part : String} (h : (t.kind, part) ∈ v.templates)
      (plain : ¬HasPart part t)
  | run {part : String} (h : (t.kind, part) ∈ v.runs)
      (plain : ∀ s ∈ t.operands, ¬HasPart part s)

/-- A string with a substituted part. -/
@[mk_iff]
inductive IsInterpolated (t : Tree) : Prop
  | template {part : String} (h : (t.kind, part) ∈ v.templates)
      (some : HasPart part t)
  | run {part : String} (h : (t.kind, part) ∈ v.runs)
      (some : ∃ s ∈ t.operands, HasPart part s)

/-- A call of `callee`. -/
def Calls (t callee : Tree) : Prop :=
  t.kind = v.call ∧ t.child? "function" = some callee

/-- A call that formats a string. -/
def IsFormat (source : Source) (t : Tree) : Prop :=
  ∃ callee, v.Calls t callee ∧ v.formats (Lowering.calleeText source callee)

/-- An expression that may vary at run time. -/
@[mk_iff]
inductive IsDynamic (t : Tree) : Prop
  | interpolated (h : v.IsInterpolated t)
  | operation (h : t.kind = v.operation)
  | call (h : t.kind = v.call)
  | construction (h : t.kind ∈ v.constructions)
  | reference (h : t.kind ∈ v.references)

/-- A string that is put together at run time. -/
@[mk_iff]
inductive IsBuilt (source : Source) (t : Tree) : Prop
  | interpolated (h : v.IsInterpolated t)
  | operation (h : t.kind = v.operation)
  | format (h : v.IsFormat source t)

/-- What an argument stands for: if it is passed by name, its value, or else itself. -/
inductive StandsFor (arg : Tree) : Tree → Prop
  | value {x : Tree} (h : v.keyword = some arg.kind) (value : arg.child? "value" = some x) :
      StandsFor arg x
  | itself (h : v.keyword = some arg.kind → arg.child? "value" = none) : StandsFor arg arg

def IsList (t : Tree) : Prop := ∀ kind, v.argumentList = some kind → t.kind = kind

/-- What a call passes at a place, counted from zero. -/
inductive Passes (t : Tree) : Nat → Tree → Prop
  | listed {list arg x : Tree} {i : Nat} (h : t.child? "arguments" = some list)
      (isList : v.IsList list) (item : list.operands[i]? = some arg) (stands : v.StandsFor arg x) :
      Passes t i x
  | alone {arg : Tree} (h : t.child? "arguments" = some arg) (single : ¬v.IsList arg) :
      Passes t 0 arg

/-- The name of the member that is called. -/
inductive Names (source : Source) (callee : Tree) : String → Prop
  | intro {t name : Tree} (peeled : if v.wrapsMembers then v.Peels callee t else t = callee)
      (member : t.kind = v.member.1) (named : t.child? v.member.2 = some name) :
      Names source callee (source.textOf name)

end Vocabulary

/-! ### The vocabularies -/

@[simps]
def Vocabulary.ecmascript : Vocabulary where
  wrappers := ["parenthesized_expression", "await_expression", "as_expression",
    "non_null_expression", "satisfies_expression"]
  strings := ["string"]
  templates := [("template_string", "template_substitution")]
  operation := "binary_expression"
  call := "call_expression"
  constructions := ["new_expression"]
  references := ["identifier", "member_expression", "subscript_expression", "this",
    "spread_element"]
  formats callee := callee = "util.format"
  member := ("member_expression", "property")
  wrapsMembers := true
  argumentList := some "arguments"

@[simps]
def Vocabulary.python : Vocabulary where
  wrappers := ["parenthesized_expression", "await"]
  templates := [("string", "interpolation")]
  runs := [("concatenated_string", "interpolation")]
  operation := "binary_operator"
  call := "call"
  references := ["identifier", "attribute", "subscript", "list_splat", "dictionary_splat"]
  formats callee := ".format".toList <:+ callee.toList
  member := ("attribute", "attribute")
  argumentList := some "argument_list"
  keyword := some "keyword_argument"

@[simps]
def Vocabulary.golang : Vocabulary where
  wrappers := ["parenthesized_expression"]
  strings := ["interpreted_string_literal", "raw_string_literal"]
  operation := "binary_expression"
  call := "call_expression"
  references := ["identifier", "selector_expression", "index_expression", "variadic_argument"]
  formats callee := callee ∈ ["fmt.Sprintf", "fmt.Sprint", "fmt.Sprintln"]
  member := ("selector_expression", "field")

def Language.vocabulary : Language → Vocabulary
  | .javascript | .typescript => .ecmascript
  | .python => .python
  | .go => .golang

/-! ### Wrappers -/

namespace Vocabulary

theorem peels_iff {v : Vocabulary} {isWrapper : String → Bool}
    (same : ∀ kind, isWrapper kind = true ↔ kind ∈ v.wrappers) {t inner : Tree} :
    v.Peels t inner ↔ t.unwrap isWrapper = inner := by
  constructor
  · intro h
    induction h with
    | bare h =>
      rw [Tree.unwrap_eq, if_neg (mt (same _).mp h)]
    | hollow h empty =>
      rw [Tree.unwrap_eq, if_pos ((same _).mpr h), empty]
      rfl
    | wrapped h first _ ih =>
      rw [Tree.unwrap_eq, if_pos ((same _).mpr h), first]
      exact ih
  · induction t using Tree.child_induction generalizing inner with
    | h t ih =>
      intro h
      rw [Tree.unwrap_eq] at h
      by_cases wraps : isWrapper t.kind = true
      · rw [if_pos wraps] at h
        cases operands : t.operands with
        | nil =>
          rw [operands] at h
          cases h
          exact .hollow ((same _).mp wraps) operands
        | cons c rest =>
          rw [operands] at h
          have child : c ∈ t.children :=
            Tree.mem_children_of_mem_operands (operands ▸ List.mem_cons_self)
          exact .wrapped ((same _).mp wraps) operands (ih c child h)
      · rw [if_neg wraps] at h
        cases h
        exact .bare (mt (same _).mpr wraps)

/-! ### Shapes -/

/-- A shape says of an expression what the vocabulary does. -/
@[mk_iff]
structure Describes (v : Vocabulary) (source : Source) (t : Tree) (s : Shape) : Prop where
  plain : s.isStringLiteral = true ↔ v.IsPlain t
  dynamic : s.isDynamic = true ↔ v.IsDynamic t
  built : s.isBuiltString = true ↔ v.IsBuilt source t

theorem hasChild_iff {part : String} {t : Tree} : t.hasChild part = true ↔ HasPart part t := by
  simp [Tree.hasChild, HasPart]

theorem isFormat_iff {v : Vocabulary} {test : String → Bool}
    (same : ∀ callee, test callee = true ↔ v.formats callee) (empty : test "" = false)
    {source : Source} {t : Tree} (h : t.kind = v.call) :
    test (((t.child? "function").map (Lowering.calleeText source)).getD "") = true ↔
      v.IsFormat source t := by
  unfold IsFormat Calls
  cases function : t.child? "function" with
  | none => simp [empty]
  | some callee => simp [h, same]

theorem isFormat_call {v : Vocabulary} {source : Source} {t : Tree} (h : v.IsFormat source t) :
    t.kind = v.call := by
  obtain ⟨callee, ⟨kind, -⟩, -⟩ := h
  exact kind

end Vocabulary

attribute [simp] Shape.isStringLiteral Shape.isDynamic Shape.isBuiltString

namespace Lowering
open Vocabulary

namespace Ecmascript

theorem isWrapper_iff (kind : String) : isWrapper kind = true ↔ kind ∈ ecmascript.wrappers :=
  List.contains_iff_mem

theorem formatCallees_iff (callee : String) :
    formatCallees.contains callee = true ↔ ecmascript.formats callee := by
  simp [formatCallees]

theorem isPlainTemplate_iff (t : Tree) :
    isPlainTemplate t = true ↔ ¬HasPart "template_substitution" t := by
  rw [isPlainTemplate, Bool.not_eq_true', ← Bool.not_eq_true, hasChild_iff]

theorem describes_shapeOf (source : Source) (t : Tree) :
    ecmascript.Describes source t (shapeOf source t) := by
  have others : t.kind ≠ "call_expression" → ¬ecmascript.IsFormat source t := mt isFormat_call
  rw [describes_iff, isPlain_iff, isDynamic_iff, isBuilt_iff, isInterpolated_iff]
  fun_cases shapeOf source t with
  | case2 kind plain =>
    rw [isPlainTemplate_iff] at plain
    simp_all
  | case3 kind plain =>
    rw [isPlainTemplate_iff] at plain
    simp_all
  | case6 kind callee format =>
    rw [isFormat_iff formatCallees_iff rfl kind] at format
    simp [kind, format]
  | case7 kind callee format =>
    rw [isFormat_iff formatCallees_iff rfl kind] at format
    simp [kind, format]
  | _ => simp_all

end Ecmascript

namespace Python

theorem isWrapper_iff (kind : String) : isWrapper kind = true ↔ kind ∈ python.wrappers := by
  simp [isWrapper]

theorem isFormatCallee_iff (callee : String) :
    isFormatCallee callee = true ↔ python.formats callee :=
  List.isSuffixOf_iff_suffix

theorem stringShape_iff (t : Tree) :
    stringShape t = .interpolated ↔ HasPart "interpolation" t := by
  rw [← hasChild_iff, stringShape]
  split <;> simp_all

theorem stringShape_plain {t : Tree} (h : ¬HasPart "interpolation" t) :
    stringShape t = .stringLiteral :=
  if_neg (mt hasChild_iff.mp h)

theorem describes_shapeOf (source : Source) (t : Tree) :
    python.Describes source t (shapeOf source t) := by
  have others : t.kind ≠ "call" → ¬python.IsFormat source t := mt isFormat_call
  rw [describes_iff, isPlain_iff, isDynamic_iff, isBuilt_iff, isInterpolated_iff]
  fun_cases shapeOf source t with
  | case1 kind =>
    by_cases part : HasPart "interpolation" t
    · rw [(stringShape_iff t).mpr part]
      simp_all
    · rw [stringShape_plain part]
      simp_all
  | case2 kind parts =>
    simp only [List.any_eq_true, decide_eq_true_eq, stringShape_iff] at parts
    simp_all
  | case3 kind parts =>
    simp only [List.any_eq_true, decide_eq_true_eq, stringShape_iff] at parts
    simp_all
  | case7 kind callee format =>
    rw [isFormat_iff isFormatCallee_iff rfl kind] at format
    simp [kind, format]
  | case8 kind callee format =>
    rw [isFormat_iff isFormatCallee_iff rfl kind] at format
    simp [kind, format]
  | _ => simp_all

end Python

namespace Golang

theorem isWrapper_iff (kind : String) : isWrapper kind = true ↔ kind ∈ golang.wrappers := by
  simp [isWrapper]

theorem formatCallees_iff (callee : String) :
    formatCallees.contains callee = true ↔ golang.formats callee :=
  List.contains_iff_mem

theorem describes_shapeOf (source : Source) (t : Tree) :
    golang.Describes source t (shapeOf source t) := by
  have others : t.kind ≠ "call_expression" → ¬golang.IsFormat source t := mt isFormat_call
  rw [describes_iff, isPlain_iff, isDynamic_iff, isBuilt_iff, isInterpolated_iff]
  fun_cases shapeOf source t with
  | case8 kind callee format =>
    rw [isFormat_iff formatCallees_iff (by decide) kind] at format
    simp [kind, format]
  | case9 kind callee format =>
    rw [isFormat_iff formatCallees_iff (by decide) kind] at format
    simp [kind, format]
  | _ => simp_all

end Golang

/-! ### Calls -/

/-- A call is what the vocabulary says of its node, and so are the values passed in it. -/
structure Reads (l : Lowering) (v : Vocabulary) (source : Source) (t callee : Tree) (c : Call) :
    Prop where
  call : c.construct = false
  callee_eq : c.callee = calleeText source callee
  property : ∀ {name}, c.property = some name ↔ v.Names source callee name
  args : ∀ {i shape}, (c.args[i]?).map (·.shape) = some shape ↔
    ∃ a, v.Passes t i a ∧ (l.value source a).shape = shape

/-- A lowering tells expressions and calls apart as a vocabulary does. -/
structure Follows (l : Lowering) (v : Vocabulary) : Prop where
  peels : ∀ t, ∃ inner, v.Peels t inner
  describes : ∀ {t inner}, v.Peels t inner → ∀ source,
    v.Describes source inner (l.value source t).shape
  reads : ∀ {t callee}, v.Calls t callee → ∀ source,
    ∃ c, l.call? source t = some c ∧ l.Reads v source t callee c
  calls : ∀ {source t c}, l.call? source t = some c → c.construct = false →
    ∃ callee, v.Calls t callee

section Parts
variable {l : Lowering} {v : Vocabulary} {source : Source} {t : Tree}

theorem names_iff {callee inner : Tree} {name : String}
    (peeled : ∀ t, (if v.wrapsMembers then v.Peels callee t else t = callee) ↔ inner = t) :
    (if inner.kind = v.member.1 then (inner.child? v.member.2).map source.textOf else none) =
      some name ↔ v.Names source callee name := by
  constructor
  · intro h
    by_cases member : inner.kind = v.member.1
    · rw [if_pos member] at h
      obtain ⟨x, named, rfl⟩ := Option.map_eq_some_iff.mp h
      exact .intro ((peeled inner).mpr rfl) member named
    · rw [if_neg member] at h
      cases h
  · intro h
    cases h with
    | intro inside member named =>
      cases (peeled _).mp inside
      rw [if_pos member, named]
      rfl

theorem isList_iff {kind : String} (h : v.argumentList = some kind) :
    v.IsList t ↔ t.kind = kind := by
  unfold IsList
  rw [h]
  exact ⟨fun all => all kind rfl, fun same _ h => Option.some.inj h ▸ same⟩

theorem standsFor_self (h : v.keyword = none) : v.StandsFor t t := by
  apply StandsFor.itself
  rw [h]
  intro absurd
  cases absurd

theorem standsFor_unique {arg x y : Tree} (hx : v.StandsFor arg x) (hy : v.StandsFor arg y) :
    x = y := by
  cases hx with
  | value h value =>
    cases hy with
    | value _ value' => exact Option.some.inj (value.symm.trans value')
    | itself h' => cases value.symm.trans (h' h)
  | itself h =>
    cases hy with
    | value h' value => cases value.symm.trans (h h')
    | itself => rfl

/-- The values of a call that takes its arguments from a list, or else passes one thing alone. -/
theorem args_iff {args : List Value} (read : Tree → Value)
    (bare : t.child? "arguments" = none → args = [])
    (listed : ∀ list, t.child? "arguments" = some list → v.IsList list →
      args = list.operands.map read)
    (alone : ∀ arg, t.child? "arguments" = some arg → ¬v.IsList arg → args = [l.value source arg])
    (stands : ∀ arg, ∃ x, v.StandsFor arg x ∧ (read arg).shape = (l.value source x).shape)
    {i : Nat} {shape : Shape} :
    (args[i]?).map (·.shape) = some shape ↔
      ∃ a, v.Passes t i a ∧ (l.value source a).shape = shape := by
  constructor
  · intro h
    obtain ⟨x, item, rfl⟩ := Option.map_eq_some_iff.mp h
    cases passed : t.child? "arguments" with
    | none =>
      rw [bare passed] at item
      cases item
    | some list =>
      by_cases isList : v.IsList list
      · rw [listed list passed isList, List.getElem?_map] at item
        obtain ⟨arg, harg, rfl⟩ := Option.map_eq_some_iff.mp item
        obtain ⟨a, standing, same⟩ := stands arg
        exact ⟨a, .listed passed isList harg standing, same.symm⟩
      · rw [alone list passed isList] at item
        cases i with
        | zero =>
          cases item
          exact ⟨list, .alone passed isList, rfl⟩
        | succ i => cases item
  · intro h
    obtain ⟨a, passed, rfl⟩ := h
    cases passed with
    | listed passed isList harg standing =>
      rename_i list arg
      obtain ⟨b, standing', same⟩ := stands arg
      rw [listed list passed isList, List.getElem?_map, harg, standsFor_unique standing standing']
      exact congrArg some same
    | alone passed single =>
      rw [alone a passed single]
      rfl

/-- A lowering follows a vocabulary if it classifies what stands inside wrappers, and what it reads as
calls, constructions apart, are the calls of the vocabulary. -/
theorem follows_of_calls {isWrapper : String → Bool} {shapeOf : Source → Tree → Shape}
    {callOf : Source → Tree → Tree → Call}
    (same : ∀ kind, isWrapper kind = true ↔ kind ∈ v.wrappers)
    (inside : ∀ source t, (l.value source t).shape = shapeOf source (t.unwrap isWrapper))
    (shape : ∀ source t, v.Describes source t (shapeOf source t))
    (reads : ∀ source t callee, l.Reads v source t callee (callOf source t callee))
    (called : ∀ source t, t.kind = v.call →
      l.call? source t = (t.child? "function").map (callOf source t))
    (other : ∀ source t c, t.kind ≠ v.call → l.call? source t = some c → c.construct = true) :
    l.Follows v where
  peels t := ⟨_, (peels_iff same).mpr rfl⟩
  describes := by
    intro t inner h source
    rw [inside, (peels_iff same).mp h]
    exact shape source inner
  reads := by
    intro t callee h source
    obtain ⟨kind, function⟩ := h
    refine ⟨callOf source t callee, ?_, reads source t callee⟩
    rw [called source t kind, function]
    rfl
  calls := by
    intro source t c h call
    by_cases kind : t.kind = v.call
    · rw [called source t kind] at h
      obtain ⟨callee, function, -⟩ := Option.map_eq_some_iff.mp h
      exact ⟨callee, kind, function⟩
    · cases call.symm.trans (other source t c kind h)

end Parts

namespace Ecmascript

theorem reads_callOf (source : Source) (t callee : Tree) :
    lowering.Reads ecmascript source t callee (callOf source t callee false) where
  call := rfl
  callee_eq := rfl
  property := names_iff (v := ecmascript) fun _ => peels_iff isWrapper_iff
  args := by
    apply args_iff (value source)
    · intro bare
      simp only [callOf, arguments, bare]
    · intro list passed isList
      have kind := (isList_iff rfl).mp isList
      simp only [callOf, arguments, passed, if_pos kind]
    · intro arg passed single
      have kind := mt (isList_iff rfl).mpr single
      simp only [callOf, arguments, passed, if_neg kind]
      rfl
    · intro arg
      exact ⟨arg, standsFor_self rfl, rfl⟩

theorem follows : lowering.Follows ecmascript := by
  apply follows_of_calls isWrapper_iff (fun _ _ => rfl) describes_shapeOf reads_callOf
  · intro source t kind
    show call? source t = _
    rw [call?, show t.kind = "call_expression" from kind]
    rfl
  · intro source t c kind h
    change call? source t = some c at h
    unfold call? at h
    split at h
    · rename_i call
      exact absurd call kind
    · obtain ⟨callee, -, rfl⟩ := Option.map_eq_some_iff.mp h
      rfl
    · cases h

end Ecmascript

namespace Python

theorem argument_shape (source : Source) (arg : Tree) :
    ∃ x, python.StandsFor arg x ∧ (argument source arg).shape = (value source x).shape := by
  unfold argument
  split
  · rename_i x kind hx
    exact ⟨x, .value (congrArg some kind.symm) hx, rfl⟩
  · rename_i other
    refine ⟨arg, .itself fun kind => ?_, rfl⟩
    cases hx : arg.child? "value" with
    | none => rfl
    | some x => exact absurd hx (other x (Option.some.inj kind).symm)

theorem reads_callOf (source : Source) (t callee : Tree) :
    lowering.Reads python source t callee (callOf source t callee) where
  call := rfl
  callee_eq := rfl
  property := names_iff (v := python) fun _ => eq_comm
  args := by
    apply args_iff (argument source)
    · intro bare
      simp only [callOf, arguments, bare]
    · intro list passed isList
      have kind := (isList_iff rfl).mp isList
      simp only [callOf, arguments, passed, if_pos kind]
    · intro arg passed single
      have kind := mt (isList_iff rfl).mpr single
      simp only [callOf, arguments, passed, if_neg kind]
      rfl
    · exact argument_shape source

theorem follows : lowering.Follows python := by
  apply follows_of_calls isWrapper_iff (fun _ _ => rfl) describes_shapeOf reads_callOf
  · intro source t kind
    exact if_pos kind
  · intro source t c kind h
    cases (if_neg kind).symm.trans h

end Python

namespace Golang

theorem reads_callOf (source : Source) (t callee : Tree) :
    lowering.Reads golang source t callee (callOf source t callee) where
  call := rfl
  callee_eq := rfl
  property := names_iff (v := golang) fun _ => eq_comm
  args := by
    have any (list : Tree) : golang.IsList list := fun _ h => nomatch h
    apply args_iff (value source)
    · intro bare
      simp only [callOf, arguments, bare]
    · intro list passed _
      simp only [callOf, arguments, passed]
    · intro arg _ single
      exact absurd (any arg) single
    · intro arg
      exact ⟨arg, standsFor_self rfl, rfl⟩

theorem follows : lowering.Follows golang := by
  apply follows_of_calls isWrapper_iff (fun _ _ => rfl) describes_shapeOf reads_callOf
  · intro source t kind
    exact if_pos kind
  · intro source t c kind h
    cases (if_neg kind).symm.trans h

end Golang
end Lowering

/-- **Every lowering reads its grammar as the vocabulary of its language says.** -/
theorem Language.follows (language : Language) : language.lowering.Follows language.vocabulary := by
  cases language with
  | javascript => exact Lowering.Ecmascript.follows
  | typescript => exact Lowering.Ecmascript.follows
  | python => exact Lowering.Python.follows
  | go => exact Lowering.Golang.follows

end SourceAudit
