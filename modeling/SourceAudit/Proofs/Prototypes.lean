import SourceAudit.Proofs.Lowering.Assignments
import SourceAudit.Proofs.Lowering.Sites

/-! Writes that go through a prototype.

The left side of an assignment is a chain of accesses: under its wrappers a member or an element,
whose object, again under wrappers, is the next access (`IsSpine`). Every left side has exactly one
such chain, because each access is a smaller tree than the one before. The keys along it are the
names of the members and the written-out keys of the elements, with one pair of quotes taken off;
an element with any other index adds no key and does not end the chain (`Keys`). The search for keys
takes one access in each round (`spine_goes`), so what it collects in the end are the keys along the
chain (`IsSpine.keys_iff`).

`prototype_writes_reported_exactly`: an assignment is reported exactly if one of these keys leads to
a prototype. -/
namespace SourceAudit
open Syntax

/-! ### Quotes -/

/-- A text without the blanks around it and without one pair of equal quotes, if it has any. -/
inductive Unquotes (text : List Char) : List Char → Prop
  | quoted {quote : Char} {key : List Char} (mark : quote ∈ ['"', '\x27', '\x60'])
      (h : Text.trim text = quote :: (key ++ [quote])) : Unquotes text key
  | plain (h : ∀ quote ∈ ['"', '\x27', '\x60'], ∀ key,
      Text.trim text ≠ quote :: (key ++ [quote])) : Unquotes text (Text.trim text)

theorem isQuote_iff (c : Char) : Lowering.isQuote c = true ↔ c ∈ ['"', '\x27', '\x60'] := by
  simp [Lowering.isQuote, or_assoc]

/-- A text of at least two characters that begins and ends with the same one. -/
theorem exists_between {text : List Char} {c : Char} (first : text.head? = some c)
    (last : text.getLast? = some c) (two : 2 ≤ text.length) : ∃ key, text = c :: (key ++ [c]) := by
  cases text with
  | nil => cases first
  | cons d rest =>
    obtain rfl : d = c := Option.some.inj first
    rcases List.eq_nil_or_concat rest with rfl | ⟨key, e, rfl⟩
    · exact absurd two (by simp)
    · rw [List.concat_eq_append] at last ⊢
      rw [← List.cons_append, List.getLast?_concat] at last
      exact ⟨key, by rw [Option.some.inj last]⟩

theorem unquote_of_quotes {text key : List Char} {quote : Char}
    (mark : quote ∈ ['"', '\x27', '\x60']) (h : Text.trim text = quote :: (key ++ [quote])) :
    Lowering.unquote text = key := by
  have last : (quote :: (key ++ [quote])).getLast? = some quote := by
    rw [← List.cons_append, List.getLast?_concat]
  have long : 2 ≤ (quote :: (key ++ [quote])).length := by simp
  unfold Lowering.unquote
  simp only [h, List.head?_cons, last, (isQuote_iff quote).mpr mark, Bool.true_and, decide_true,
    long, if_true, List.drop_succ_cons, List.drop_zero, List.dropLast_concat]

theorem unquote_of_plain {text : List Char}
    (h : ∀ quote ∈ ['"', '\x27', '\x60'], ∀ key, Text.trim text ≠ quote :: (key ++ [quote])) :
    Lowering.unquote text = Text.trim text := by
  unfold Lowering.unquote
  dsimp only
  split
  · rename_i a b first last
    split
    · rename_i quotes
      simp only [Bool.and_eq_true, decide_eq_true_eq] at quotes
      obtain ⟨⟨mark, rfl⟩, two⟩ := quotes
      obtain ⟨key, between⟩ := exists_between first last two
      exact absurd between (h a ((isQuote_iff a).mp mark) key)
    · rfl
  · rfl

theorem unquotes_iff {text key : List Char} :
    Unquotes text key ↔ Lowering.unquote text = key := by
  constructor
  · intro h
    cases h with
    | quoted mark between => exact unquote_of_quotes mark between
    | plain none => exact unquote_of_plain none
  · intro h
    by_cases quotes : ∃ quote ∈ ['"', '\x27', '\x60'], ∃ key,
        Text.trim text = quote :: (key ++ [quote])
    · obtain ⟨quote, mark, inside, between⟩ := quotes
      rw [← h, unquote_of_quotes mark between]
      exact .quoted mark between
    · have none : ∀ quote ∈ ['"', '\x27', '\x60'], ∀ key,
          Text.trim text ≠ quote :: (key ++ [quote]) :=
        fun quote mark key between => quotes ⟨quote, mark, key, between⟩
      rw [← h, unquote_of_plain none]
      exact .plain none

namespace Lowering.Ecmascript
open Vocabulary
variable {source : Source} {t inner : Tree}

/-! ### Chains of accesses -/

/-- A member or an element of something. -/
def IsAccess (t : Tree) : Prop := t.kind ∈ ["member_expression", "subscript_expression"]

/-- The accesses along a left side, the outermost first: inside wrappers stands an access, and
inside those of its object the next one, as long as there is an object and it is an access. -/
inductive IsSpine : Tree → List Tree → Prop
  | ends {t inner : Tree} (peels : ecmascript.Peels t inner) (other : ¬IsAccess inner) :
      IsSpine t []
  | last {t inner : Tree} (peels : ecmascript.Peels t inner) (access : IsAccess inner)
      (bare : inner.child? "object" = none) : IsSpine t [inner]
  | goes {t inner object : Tree} {rest : List Tree} (peels : ecmascript.Peels t inner)
      (access : IsAccess inner) (child : inner.child? "object" = some object)
      (onward : IsSpine object rest) : IsSpine t (inner :: rest)

/-- The key that an access contributes: a member its name, an element its index if that is a plain
string inside wrappers. -/
inductive IsKey (source : Source) (t : Tree) : String → Prop
  | member {name : Tree} (kind : t.kind = "member_expression")
      (named : t.child? "property" = some name) : IsKey source t (source.textOf name)
  | element {index inner : Tree} {key : List Char} (kind : t.kind = "subscript_expression")
      (indexed : t.child? "index" = some index) (peels : ecmascript.Peels index inner)
      (plain : ecmascript.IsPlain inner) (unquotes : Unquotes (source.textOf inner).toList key) :
      IsKey source t (String.ofList key)

/-- The keys along a list of accesses, without those that contribute none. -/
inductive Keys (source : Source) : List Tree → List String → Prop
  | nil : Keys source [] []
  | key {t : Tree} {key : String} {ts : List Tree} {keys : List String} (h : IsKey source t key)
      (rest : Keys source ts keys) : Keys source (t :: ts) (key :: keys)
  | silent {t : Tree} {ts : List Tree} {keys : List String} (h : ∀ key, ¬IsKey source t key)
      (rest : Keys source ts keys) : Keys source (t :: ts) keys

theorem isAccess_iff (t : Tree) : isAccess t.kind = true ↔ IsAccess t := by
  simp [isAccess, IsAccess]

theorem not_isWrapper_of_isAccess (h : IsAccess t) : isWrapper t.kind = false := by
  rcases List.mem_pair.mp h with kind | kind
  · rw [kind]
    rfl
  · rw [kind]
    rfl

/-- The spine of something else than an access has ended. -/
theorem spine_ends (peels : ecmascript.Peels t inner) (other : ¬IsAccess inner) : spine t = [] := by
  rw [spine_of_peels peels, spine_eq]
  cases peels.self with
  | bare plain =>
    rw [if_neg (mt (isWrapper_iff _).mp plain), if_neg (mt (isAccess_iff inner).mp other)]
  | hollow wrapper empty =>
    rw [if_pos ((isWrapper_iff _).mpr wrapper), empty]
    rfl
  | wrapped wrapper first =>
    exact absurd (wraps_iff.mpr ⟨wrapper, _, first⟩) peels.settled

/-- One round along the spine takes an access and goes on with its object. -/
theorem spine_goes (peels : ecmascript.Peels t inner) (access : IsAccess inner) :
    spine t = inner :: ((inner.child? "object").map spine).getD [] := by
  rw [spine_of_peels peels, spine_eq, not_isWrapper_of_isAccess access,
    if_neg Bool.false_ne_true, if_pos ((isAccess_iff inner).mpr access)]

theorem IsSpine.eq_spine {ts : List Tree} (h : IsSpine t ts) : ts = spine t := by
  induction h with
  | ends peels other => exact (spine_ends peels other).symm
  | last peels access bare =>
    rw [spine_goes peels access, bare]
    rfl
  | goes peels access child _ ih =>
    rw [spine_goes peels access, child, ih]
    rfl

theorem IsSpine.isAccess {ts : List Tree} (h : IsSpine t ts) : ∀ n ∈ ts, IsAccess n := by
  induction h with
  | ends => exact List.forall_mem_nil _
  | last _ access => exact List.forall_mem_singleton.mpr access
  | goes _ access _ _ ih => exact List.forall_mem_cons.mpr ⟨access, ih⟩

/-- A wrapper has the spine of what it wraps. -/
theorem IsSpine.wrapped {c : Tree} {ts : List Tree} (wraps : ecmascript.Wraps t c)
    (h : IsSpine c ts) : IsSpine t ts := by
  cases h with
  | ends peels other => exact .ends (wraps.peels peels) other
  | last peels access bare => exact .last (wraps.peels peels) access bare
  | goes peels access child onward => exact .goes (wraps.peels peels) access child onward

/-- Every left side has a spine. -/
theorem exists_isSpine (t : Tree) : ∃ ts, IsSpine t ts := by
  induction t using Tree.child_induction with
  | h t ih =>
    have here (peels : ecmascript.Peels t t) : ∃ ts, IsSpine t ts := by
      by_cases access : IsAccess t
      · cases child : t.child? "object" with
        | none => exact ⟨_, .last peels access child⟩
        | some object =>
          obtain ⟨ts, onward⟩ := ih object (Tree.mem_children_of_child? child)
          exact ⟨_, .goes peels access child onward⟩
      · exact ⟨_, .ends peels access⟩
    obtain ⟨inner, peels⟩ := follows.peels t
    cases peels with
    | bare plain => exact here (.bare plain)
    | hollow wrapper empty => exact here (.hollow wrapper empty)
    | @wrapped _ c _ rest wrapper first _ =>
      have mem : c ∈ t.operands := first ▸ List.mem_cons_self
      obtain ⟨ts, inside⟩ := ih c (Tree.mem_children_of_mem_operands mem)
      exact ⟨ts, inside.wrapped (wraps_iff.mpr ⟨wrapper, rest, first⟩)⟩

theorem isSpine_iff {ts : List Tree} : IsSpine t ts ↔ ts = spine t := by
  constructor
  · exact IsSpine.eq_spine
  · intro h
    obtain ⟨ts', spine⟩ := exists_isSpine t
    rw [h, ← spine.eq_spine]
    exact spine

/-! ### Keys -/

theorem isLiteralKey_iff (t : Tree) : isLiteralKey t = true ↔ ecmascript.IsPlain t := by
  simp only [isLiteralKey, Bool.or_eq_true, Bool.and_eq_true, decide_eq_true_eq,
    isPlainTemplate_iff, isPlain_iff]
  simp

theorem keyOf?_eq_some_iff (access : IsAccess t) {key : String} :
    keyOf? source t = some key ↔ IsKey source t key := by
  unfold keyOf?
  constructor
  · intro h
    by_cases member : t.kind = "member_expression"
    · rw [if_pos member] at h
      obtain ⟨name, named, rfl⟩ := Option.map_eq_some_iff.mp h
      exact .member member named
    · rw [if_neg member] at h
      have element : t.kind = "subscript_expression" :=
        (List.mem_pair.mp access).resolve_left member
      obtain ⟨inner, literal, rfl⟩ := Option.map_eq_some_iff.mp h
      obtain ⟨unwrapped, literal⟩ := Option.filter_eq_some_iff.mp literal
      obtain ⟨index, indexed, rfl⟩ := Option.map_eq_some_iff.mp unwrapped
      exact .element element indexed ((peels_iff isWrapper_iff).mpr rfl)
        ((isLiteralKey_iff _).mp literal) (unquotes_iff.mpr rfl)
  · intro h
    cases h with
    | member kind named => rw [if_pos kind, named, Option.map_some]
    | element kind indexed peels plain unquotes =>
      have literal := (isLiteralKey_iff _).mpr plain
      rw [if_neg (by rw [kind]; decide), indexed]
      simp only [Option.map_some, unwrap_of_peels peels, Option.filter_some, literal, if_true,
        keyText, unquotes_iff.mp unquotes]

theorem keys_iff {ts : List Tree} (accesses : ∀ t ∈ ts, IsAccess t) {keys : List String} :
    Keys source ts keys ↔ ts.filterMap (keyOf? source) = keys := by
  induction ts generalizing keys with
  | nil =>
    constructor
    · intro h
      cases h
      rfl
    · intro h
      rw [← h]
      exact .nil
  | cons t ts ih =>
    obtain ⟨access, accesses⟩ := List.forall_mem_cons.mp accesses
    constructor
    · intro h
      cases h with
      | key isKey rest =>
        rw [List.filterMap_cons_some ((keyOf?_eq_some_iff access).mpr isKey), (ih accesses).mp rest]
      | silent silent rest =>
        have none : keyOf? source t = none :=
          Option.eq_none_iff_forall_ne_some.mpr fun key h =>
            silent key ((keyOf?_eq_some_iff access).mp h)
        rw [List.filterMap_cons_none none, (ih accesses).mp rest]
    · intro h
      rw [← h]
      cases key : keyOf? source t with
      | none =>
        rw [List.filterMap_cons_none key]
        refine .silent (fun other h => ?_) ((ih accesses).mpr rfl)
        cases key.symm.trans ((keyOf?_eq_some_iff access).mpr h)
      | some key' =>
        rw [List.filterMap_cons_some key]
        exact .key ((keyOf?_eq_some_iff access).mp key) ((ih accesses).mpr rfl)

/-- The search collects the keys along the spine. -/
theorem IsSpine.keys_iff {ts : List Tree} (h : IsSpine t ts) {keys : List String} :
    Keys source ts keys ↔ accessKeys source t = keys := by
  rw [Ecmascript.keys_iff h.isAccess, accessKeys, ← h.eq_spine]

end Lowering.Ecmascript

/-! ### Prototypes -/

open Lowering.Ecmascript (IsAssignment IsSpine Keys)

/-- An assignment with both sides that goes through a prototype on its left side. -/
def WritesPrototype (language : Language) (source : Source) (t : Tree) : Prop :=
  language.isEcmascript = true ∧ ∃ left right, IsAssignment t left right ∧
    ∃ ts keys, IsSpine left ts ∧ Keys source ts keys ∧
      ∃ key ∈ keys, key ∈ ["__proto__", "constructor"]

theorem reports_iff_writesPrototype {language : Language} {source : Source} {t : Tree} :
    StructuralRule.prototypeWrite.reports source language t = true ↔
      WritesPrototype language source t := by
  show ((language.lowering.assignment? source t).any fun a => language.isEcmascript &&
    a.targetKeys.any StructuralRule.prototypeKeys.contains) = true ↔ _
  rw [language.any_assignment?_iff fun _ => rfl]
  refine and_congr_right fun _ => exists_congr fun left => exists_congr fun right =>
    and_congr_right fun _ => ?_
  simp only [Lowering.Ecmascript.assignmentOf, List.any_eq_true, List.contains_iff_mem]
  constructor
  · intro h
    obtain ⟨ts, spine⟩ := Lowering.Ecmascript.exists_isSpine left
    exact ⟨ts, _, spine, spine.keys_iff.mpr rfl, h⟩
  · intro h
    obtain ⟨ts, keys, spine, along, key⟩ := h
    rw [spine.keys_iff.mp along]
    exact key

instance (language : Language) (source : Source) :
    DecidablePred (WritesPrototype language source) :=
  fun _ => decidable_of_iff _ reports_iff_writesPrototype

/-- **Writes through prototypes are reported exactly.** Which keys lead to a prototype is decided
along the whole chain of accesses, not only at its end. -/
theorem prototype_writes_reported_exactly (language : Language) (source : Source) (t : Tree)
    (file : String) :
    let rule := StructuralRule.prototypeWrite
    (∀ left, ∃ ts, (∀ ts', IsSpine left ts' ↔ ts' = ts) ∧ ∀ keys, Keys source ts keys ↔
        Lowering.Ecmascript.accessKeys source left = keys) ∧
      rule.findings file language (t.constructs source language) =
        (t.preorder.filter fun n => WritesPrototype language source n).map (fun n =>
          Finding.ofSite rule.info file language (Site.ofTree source n)) ∧
      rule.findings file .python (t.constructs source .python) = [] ∧
      rule.findings file .go (t.constructs source .go) = [] := by
  intro rule
  have exactly (language : Language) :
      rule.findings file language (t.constructs source language) =
        (t.preorder.filter fun n => WritesPrototype language source n).map fun n =>
          Finding.ofSite rule.info file language (Site.ofTree source n) :=
    StructuralRule.findings_eq_filter (fun _ => reports_iff_writesPrototype) t file
  have never {language : Language} (other : language.isEcmascript = false) :
      rule.findings file language (t.constructs source language) = [] := by
    rw [exactly, List.map_eq_nil_iff, List.filter_eq_nil_iff]
    intro n _ writes
    cases other.symm.trans (of_decide_eq_true writes).1
  refine ⟨fun left => ?_, exactly language, never rfl, never rfl⟩
  obtain ⟨ts, spine⟩ := Lowering.Ecmascript.exists_isSpine left
  refine ⟨ts, fun ts' => ?_, fun keys => spine.keys_iff⟩
  rw [Lowering.Ecmascript.isSpine_iff, spine.eq_spine]

-- an index that is no string adds no key, and the search goes on behind it
example :
    WritesPrototype .typescript (Source.ofText "(a.__proto__ as T)[k].x += 1".toList)
      (.node "augmented_assignment_expression" none true 0 28
        [.node "member_expression" (some "left") true 0 23
          [.node "subscript_expression" (some "object") true 0 21
            [.node "parenthesized_expression" (some "object") true 0 18
              [.node "as_expression" none true 1 17
                [.node "member_expression" none true 1 12
                  [.node "identifier" (some "object") true 1 2 [],
                   .node "property_identifier" (some "property") true 3 12 []],
                 .node "type_identifier" none true 16 17 []]],
             .node "identifier" (some "index") true 19 20 []],
           .node "property_identifier" (some "property") true 22 23 []],
         .node "number" (some "right") true 27 28 []]) := by
  decide +kernel

end SourceAudit
