import Mathlib.Logic.Relation
import SourceAudit.Proofs.Lowering.Vocabulary

/-! Wrappers hide nothing.

Wrappers come off one at a time: the first named child that is no comment takes the place of the
wrapper around it (`Vocabulary.Wraps`). Every round makes the tree smaller, so the rounds come to an
end, and they end where `Peels` says. An expression is classified by what stands there
(`Language.value_of_peels`), and in the ECMAScript family the name of a member and the keys along a
left side are read from there, too; so none of these sees how many wrappers there are, which ones,
or what else is in them. -/
namespace SourceAudit
open Syntax

namespace Vocabulary
variable {v : Vocabulary} {t c x inner : Tree}

/-- A wrapper around `c`: nothing stands before `c` but comments and nodes without a name, and
anything may stand behind it. -/
structure Wraps (v : Vocabulary) (t c : Tree) : Prop where
  wrapper : t.kind ∈ v.wrappers
  named : c.named = true
  expression : c.kind ≠ "comment"
  first : ∃ before after, t.children = before ++ c :: after ∧
    ∀ b ∈ before, b.named = true → b.kind = "comment"

/-- Any number of wrappers around `x`, one inside the other. -/
def Chain (v : Vocabulary) : Tree → Tree → Prop := Relation.ReflTransGen v.Wraps

theorem isOperand_iff : c.isOperand = true ↔ c.named = true ∧ c.kind ≠ "comment" := by
  simp [Tree.isOperand]

theorem wraps_iff : v.Wraps t c ↔ t.kind ∈ v.wrappers ∧ ∃ rest, t.operands = c :: rest := by
  constructor
  · intro h
    obtain ⟨before, after, split, comments⟩ := h.first
    have skipped : before.filter Tree.isOperand = [] := by
      refine List.filter_eq_nil_iff.mpr fun b hb operand => ?_
      obtain ⟨named, expression⟩ := isOperand_iff.mp operand
      exact expression (comments b hb named)
    have operand : c.isOperand = true := isOperand_iff.mpr ⟨h.named, h.expression⟩
    refine ⟨h.wrapper, after.filter Tree.isOperand, ?_⟩
    rw [Tree.operands, split, List.filter_append, skipped, List.filter_cons_of_pos operand,
      List.nil_append]
  · intro h
    obtain ⟨wrapper, rest, operands⟩ := h
    obtain ⟨before, after, split, skipped, operand, -⟩ := List.filter_eq_cons_iff.mp operands
    obtain ⟨named, expression⟩ := isOperand_iff.mp operand
    refine ⟨wrapper, named, expression, before, after, split, fun b hb hn => ?_⟩
    by_contra other
    exact skipped b hb (isOperand_iff.mpr ⟨hn, other⟩)

theorem Wraps.size_lt (h : v.Wraps t c) : c.size < t.size := by
  obtain ⟨-, rest, operands⟩ := wraps_iff.mp h
  have mem : c ∈ t.operands := operands ▸ List.mem_cons_self
  exact Tree.size_lt_of_mem_children (Tree.mem_children_of_mem_operands mem)

/-- Nobody takes wrappers off without end. -/
theorem not_endless (run : Nat → Tree) : ¬∀ n, v.Wraps (run n) (run (n + 1)) := by
  intro rounds
  have shrinks : ∀ n, (run n).size + n ≤ (run 0).size := by
    intro n
    induction n with
    | zero => exact Nat.le_refl _
    | succ n ih =>
      have := (rounds n).size_lt
      omega
  have last := shrinks ((run 0).size + 1)
  omega

/-! ### Where the rounds end -/

/-- Taking a wrapper off does not change what stands inside. -/
theorem Wraps.peels (h : v.Wraps t c) (inside : v.Peels c inner) : v.Peels t inner := by
  obtain ⟨wrapper, rest, operands⟩ := wraps_iff.mp h
  exact .wrapped wrapper operands inside

theorem Chain.peels (h : v.Chain t x) (inside : v.Peels x inner) : v.Peels t inner := by
  induction h using Relation.ReflTransGen.head_induction_on with
  | refl => exact inside
  | head wraps _ ih => exact wraps.peels ih

theorem Peels.chain (h : v.Peels t inner) : v.Chain t inner := by
  induction h with
  | bare => exact .refl
  | hollow => exact .refl
  | wrapped wrapper first _ ih => exact .head (wraps_iff.mpr ⟨wrapper, _, first⟩) ih

/-- What stands inside wraps nothing. -/
theorem Peels.settled (h : v.Peels t inner) : ¬v.Wraps inner c := by
  induction h with
  | bare plain => exact fun wraps => plain wraps.wrapper
  | hollow _ empty =>
    intro wraps
    obtain ⟨-, rest, operands⟩ := wraps_iff.mp wraps
    cases empty.symm.trans operands
  | wrapped _ _ _ ih => exact ih

theorem Peels.self (h : v.Peels t inner) : v.Peels inner inner := by
  induction h with
  | bare plain => exact .bare plain
  | hollow wrapper empty => exact .hollow wrapper empty
  | wrapped _ _ _ ih => exact ih

/-- What is read off the node inside is the same along a chain. -/
theorem Chain.reads {γ : Type} {read : Tree → γ} (total : ∀ t, ∃ inner, v.Peels t inner)
    (inside : ∀ {t inner}, v.Peels t inner → read t = read inner) (h : v.Chain t x) :
    read t = read x := by
  obtain ⟨inner, peels⟩ := total x
  exact (inside (h.peels peels)).trans (inside peels).symm

end Vocabulary

/-! ### What is read through wrappers -/

/-- The node that a lowering classifies in place of an expression. -/
def Language.unwrap : Language → Tree → Tree
  | .javascript | .typescript => Lowering.Ecmascript.unwrap
  | .python => Lowering.Python.unwrap
  | .go => Lowering.Golang.unwrap

theorem Language.peels_iff (language : Language) {t inner : Tree} :
    language.vocabulary.Peels t inner ↔ language.unwrap t = inner := by
  cases language with
  | javascript => exact Vocabulary.peels_iff Lowering.Ecmascript.isWrapper_iff
  | typescript => exact Vocabulary.peels_iff Lowering.Ecmascript.isWrapper_iff
  | python => exact Vocabulary.peels_iff Lowering.Python.isWrapper_iff
  | go => exact Vocabulary.peels_iff Lowering.Golang.isWrapper_iff

theorem Language.peels_unwrap (language : Language) (t : Tree) :
    language.vocabulary.Peels t (language.unwrap t) :=
  language.peels_iff.mpr rfl

section Reading
variable {language : Language} {source : Source} {t inner : Tree}

/-- A value is the shape and the text of the node inside. -/
theorem Language.value_eq (language : Language) (source : Source) :
    ∃ shapeOf : Tree → Shape, ∀ t, language.lowering.value source t =
      { shape := shapeOf (language.unwrap t), text := source.textOf (language.unwrap t) } := by
  cases language with
  | javascript => exact ⟨Lowering.Ecmascript.shapeOf source, fun _ => rfl⟩
  | typescript => exact ⟨Lowering.Ecmascript.shapeOf source, fun _ => rfl⟩
  | python => exact ⟨Lowering.Python.shapeOf source, fun _ => rfl⟩
  | go => exact ⟨Lowering.Golang.shapeOf source, fun _ => rfl⟩

theorem Language.text_of_peels (h : language.vocabulary.Peels t inner) :
    (language.lowering.value source t).text = source.textOf inner := by
  obtain ⟨shapeOf, value⟩ := language.value_eq source
  rw [value, language.peels_iff.mp h]

theorem Language.value_of_peels (h : language.vocabulary.Peels t inner) :
    language.lowering.value source t = language.lowering.value source inner := by
  obtain ⟨shapeOf, value⟩ := language.value_eq source
  rw [value, value, language.peels_iff.mp h, language.peels_iff.mp h.self]

end Reading

namespace Lowering.Ecmascript
open Vocabulary
variable {source : Source} {t inner : Tree}

theorem unwrap_of_peels (h : ecmascript.Peels t inner) : unwrap t = inner :=
  (Vocabulary.peels_iff isWrapper_iff).mp h

theorem memberProperty_of_peels (h : ecmascript.Peels t inner) :
    memberProperty source t = memberProperty source inner := by
  unfold memberProperty
  rw [unwrap_of_peels h, unwrap_of_peels h.self]

theorem spine_of_peels (h : ecmascript.Peels t inner) : spine t = spine inner := by
  induction h with
  | bare => rfl
  | hollow => rfl
  | wrapped wrapper first _ ih =>
    rw [spine_eq, if_pos ((isWrapper_iff _).mpr wrapper), first]
    exact ih

theorem accessKeys_of_peels (h : ecmascript.Peels t inner) :
    accessKeys source t = accessKeys source inner := by
  rw [accessKeys, spine_of_peels h, accessKeys]

end Lowering.Ecmascript

/-- **Wrappers hide nothing**, however many there are and whatever comments stand in them. Wrappers
cannot be taken off without end, so there is one node that is classified. -/
theorem wrappers_hide_nothing (language : Language) (source : Source) :
    let v := language.vocabulary
    let value := language.lowering.value source
    (∀ t x, v.Chain t x → value t = value x) ∧
      (∀ run : Nat → Tree, ¬∀ n, v.Wraps (run n) (run (n + 1))) ∧
      (∀ t, v.Chain t (language.unwrap t) ∧ (∀ c, ¬v.Wraps (language.unwrap t) c) ∧
        (value t).text = source.textOf (language.unwrap t)) ∧
      (language.isEcmascript = true → ∀ t x, v.Chain t x →
        Lowering.Ecmascript.memberProperty source t = Lowering.Ecmascript.memberProperty source x ∧
          Lowering.Ecmascript.accessKeys source t = Lowering.Ecmascript.accessKeys source x) := by
  intro v value
  have total : ∀ t, ∃ inner, v.Peels t inner := fun t => ⟨_, language.peels_unwrap t⟩
  refine ⟨fun t x chain => ?_, Vocabulary.not_endless, fun t => ?_, fun family t x chain => ?_⟩
  · exact chain.reads total Language.value_of_peels
  · have peels := language.peels_unwrap t
    exact ⟨peels.chain, fun c => peels.settled, Language.text_of_peels peels⟩
  · have same : v = .ecmascript := by
      cases language with
      | javascript => rfl
      | typescript => rfl
      | python => cases family
      | go => cases family
    rw [same] at total chain
    exact ⟨chain.reads total Lowering.Ecmascript.memberProperty_of_peels,
      chain.reads total Lowering.Ecmascript.accessKeys_of_peels⟩

/-- A member behind a comment and inside two wrappers of different kinds. -/
theorem wrappers_hide_nothing_behind_comment :
    let source := Source.ofText "(/**/el.x! as T)".toList
    let member : Tree := .node "member_expression" none true 5 9
      [.node "identifier" (some "object") true 5 7 [],
       .node "property_identifier" (some "property") true 8 9 []]
    let assured : Tree := .node "non_null_expression" none true 5 10 [member]
    let cast : Tree := .node "as_expression" none true 5 15
      [assured, .node "type_identifier" none true 14 15 []]
    let whole : Tree := .node "parenthesized_expression" none true 0 16
      [.node "(" none false 0 1 [], .node "comment" none true 1 5 [], cast,
       .node ")" none false 15 16 []]
    let value := Language.typescript.lowering.value source
    Vocabulary.ecmascript.Chain whole member ∧ value whole = value member ∧
      value whole = { shape := .reference, text := "el.x" } ∧
      Lowering.Ecmascript.accessKeys source whole = ["x"] := by
  intro source member assured cast whole value
  have comment :
      ∀ b ∈ ([.node "(" none false 0 1 [], .node "comment" none true 1 5 []] : List Tree),
        b.named = true → b.kind = "comment" := by
    decide
  have outer : Vocabulary.ecmascript.Wraps whole cast :=
    ⟨by decide, rfl, by decide, _, _, rfl, comment⟩
  have middle : Vocabulary.ecmascript.Wraps cast assured :=
    ⟨by decide, rfl, by decide, [], _, rfl, by decide⟩
  have inner : Vocabulary.ecmascript.Wraps assured member :=
    ⟨by decide, rfl, by decide, [], _, rfl, by decide⟩
  have chain : Vocabulary.ecmascript.Chain whole member :=
    .head outer (.head middle (.single inner))
  obtain ⟨values, -, -, keys⟩ := wrappers_hide_nothing .typescript source
  have same := values whole member chain
  refine ⟨chain, same, same.trans (by decide +kernel), ?_⟩
  exact (keys rfl whole member chain).2.trans (by decide +kernel)

end SourceAudit
