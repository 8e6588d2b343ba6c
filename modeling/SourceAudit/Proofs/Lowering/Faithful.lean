import SourceAudit.Proofs.Walk

/-! What a lowering reads of a tree.

The lowerings look at a node in a few ways only: its kind, the child that fills a field, its
operands, whether some child has a kind, its text and its site. A change of trees, perhaps
together with their source, is faithful if it keeps all of these, but for moving the sites;
so a faithful change moves the sites of the constructs and changes nothing else about them.
This is proved once for each language (`Ecmascript.reads`, `Python.reads`, `Golang.reads`). -/
namespace SourceAudit.Syntax.Tree

theorem size_lt_of_mem_children {c t : Tree} (h : c ∈ t.children) : c.size < t.size := by
  cases t with
  | node k f n s e cs =>
    obtain ⟨before, after, rfl⟩ := List.append_of_mem h
    rw [size, sizes_append, sizes]
    omega

/-- What holds of a tree if it holds of its children holds of every tree. -/
theorem child_induction {P : Tree → Prop} (h : ∀ t, (∀ c ∈ t.children, P c) → P t)
    (t : Tree) : P t := by
  apply h
  intro c hc
  have := size_lt_of_mem_children hc
  exact child_induction h c
termination_by t.size

theorem mem_children_of_mem_operands {c t : Tree} (h : c ∈ t.operands) : c ∈ t.children :=
  (List.mem_filter.mp h).1

theorem mem_children_of_child? {name : String} {c t : Tree} (h : t.child? name = some c) :
    c ∈ t.children :=
  List.mem_of_find?_eq_some h

/-! ### Wrappers -/

theorem unwrapFirst_eq (isWrapper : String → Bool) (cs : List Tree) :
    unwrapFirst isWrapper cs = (cs.filter isOperand).head?.map (unwrap isWrapper) := by
  induction cs with
  | nil => rfl
  | cons c cs ih =>
    by_cases h : c.isOperand = true
    · rw [unwrapFirst, if_pos h, List.filter_cons_of_pos h]
      rfl
    · rw [unwrapFirst, if_neg h, List.filter_cons_of_neg h, ih]

/-- A wrapper stands for its first operand, if it has one. -/
theorem unwrap_eq (isWrapper : String → Bool) (t : Tree) :
    t.unwrap isWrapper =
      if isWrapper t.kind then (t.operands.head?.map (unwrap isWrapper)).getD t else t := by
  cases t with
  | node k f n s e cs => rw [unwrap, unwrapFirst_eq]; rfl

end SourceAudit.Syntax.Tree

namespace SourceAudit
open Syntax

/-! ### Spines -/

namespace Lowering.Ecmascript

theorem spineFirst_eq (cs : List Tree) :
    spineFirst cs = ((cs.filter Tree.isOperand).head?.map spine).getD [] := by
  induction cs with
  | nil => rfl
  | cons c cs ih =>
    by_cases h : c.isOperand = true
    · rw [spineFirst, if_pos h, List.filter_cons_of_pos h]
      rfl
    · rw [spineFirst, if_neg h, List.filter_cons_of_neg h, ih]

theorem spineObject_eq (cs : List Tree) :
    spineObject cs = ((cs.find? (·.field = some "object")).map spine).getD [] := by
  induction cs with
  | nil => rfl
  | cons c cs ih =>
    by_cases h : c.field = some "object"
    · rw [spineObject, if_pos h, List.find?_cons_of_pos (by simpa using h)]
      rfl
    · rw [spineObject, if_neg h, List.find?_cons_of_neg (by simpa using h), ih]

theorem spine_eq (t : Tree) :
    spine t =
      if isWrapper t.kind then (t.operands.head?.map spine).getD []
      else if isAccess t.kind then t :: ((t.child? "object").map spine).getD []
      else [] := by
  cases t with
  | node k f n s e cs => rw [spine, spineFirst_eq, spineObject_eq]; rfl

end Lowering.Ecmascript

namespace Lowering.Python

theorem spineField_eq (name : String) (cs : List Tree) :
    spineField name cs = ((cs.find? (·.field = some name)).map spine).getD [] := by
  induction cs with
  | nil => rfl
  | cons c cs ih =>
    by_cases h : c.field = some name
    · rw [spineField, if_pos h, List.find?_cons_of_pos (by simpa using h)]
      rfl
    · rw [spineField, if_neg h, List.find?_cons_of_neg (by simpa using h), ih]

theorem spine_eq (t : Tree) :
    spine t =
      if t.kind = "attribute" then t :: ((t.child? "object").map spine).getD []
      else if t.kind = "subscript" then t :: ((t.child? "value").map spine).getD []
      else [] := by
  cases t with
  | node k f n s e cs => rw [spine, spineField_eq, spineField_eq]; rfl

end Lowering.Python

/-! ### Faithful changes -/

def Call.moved (move : Site → Site) (c : Call) : Call := { c with site := move c.site }

def Assignment.moved (move : Site → Site) (a : Assignment) : Assignment :=
  { a with site := move a.site }

/-- The change of trees `change`, with `source` becoming `source'`, keeps what lowerings read
of a node, and moves its site by `move`. -/
structure Syntax.Faithful (change : Tree → Tree) (source source' : Source) (move : Site → Site) :
    Prop where
  kind : ∀ t, (change t).kind = t.kind
  child : ∀ name t, (change t).child? name = (t.child? name).map change
  operands : ∀ t, (change t).operands = t.operands.map change
  hasChild : ∀ kind t, kind ≠ "comment" → (change t).hasChild kind = t.hasChild kind
  text : ∀ t, source'.textOf (change t) = source.textOf t
  site : ∀ t, Site.ofTree source' (change t) = move (Site.ofTree source t)

/-- A lowering reads the same of a node before and after every faithful change. -/
structure Lowering.ReadsFaithfully (l : Lowering) : Prop where
  value : ∀ {change source source' move}, Faithful change source source' move →
    ∀ t, l.value source' (change t) = l.value source t
  call : ∀ {change source source' move}, Faithful change source source' move →
    ∀ t, l.call? source' (change t) = (l.call? source t).map (Call.moved move)
  assignment : ∀ {change source source' move}, Faithful change source source' move →
    ∀ t, l.assignment? source' (change t) = (l.assignment? source t).map (Assignment.moved move)

section Shared
variable {change : Tree → Tree} {source source' : Source} {move : Site → Site}
  (h : Faithful change source source' move)
include h

theorem Syntax.Faithful.unwrap (isWrapper : String → Bool) (t : Tree) :
    (change t).unwrap isWrapper = change (t.unwrap isWrapper) := by
  induction t using Tree.child_induction with
  | h t ih =>
    rw [Tree.unwrap_eq, Tree.unwrap_eq isWrapper t, h.kind, h.operands]
    by_cases hw : isWrapper t.kind = true
    · rw [if_pos hw, if_pos hw]
      cases ho : t.operands with
      | nil => rfl
      | cons c cs =>
        have hc : c ∈ t.operands := by rw [ho]; exact List.mem_cons_self
        exact ih c (Tree.mem_children_of_mem_operands hc)
    · rw [if_neg hw, if_neg hw]

theorem Syntax.Faithful.calleeText (t : Tree) :
    Lowering.calleeText source' (change t) = Lowering.calleeText source t := by
  rw [Lowering.calleeText, h.text, Lowering.calleeText]

theorem Syntax.Faithful.keyText (t : Tree) :
    Lowering.keyText source' (change t) = Lowering.keyText source t := by
  rw [Lowering.keyText, h.text, Lowering.keyText]

/-- What is read of the child that fills a field. -/
theorem Syntax.Faithful.map_child {γ : Type} {f g : Tree → γ} (hf : ∀ t, f (change t) = g t)
    (name : String) (t : Tree) : ((change t).child? name).map f = (t.child? name).map g := by
  rw [h.child, Option.map_map]
  exact congrArg (Option.map · (t.child? name)) (funext hf)

/-- What is read of the operands. -/
theorem Syntax.Faithful.map_operands {γ : Type} {f g : Tree → γ} (hf : ∀ t, f (change t) = g t)
    (t : Tree) : (change t).operands.map f = t.operands.map g := by
  rw [h.operands, List.map_map]
  exact congrArg (List.map · t.operands) (funext hf)

end Shared

/-! ### The ECMAScript family -/

namespace Lowering.Ecmascript

section Reading
variable {change : Tree → Tree} {source source' : Source} {move : Site → Site}
  (h : Faithful change source source' move)
include h

theorem isPlainTemplate_change (t : Tree) : isPlainTemplate (change t) = isPlainTemplate t := by
  rw [isPlainTemplate, h.hasChild _ t (by decide), isPlainTemplate]

theorem shapeOf_change (t : Tree) : shapeOf source' (change t) = shapeOf source t := by
  unfold shapeOf
  rw [h.kind, isPlainTemplate_change h, h.map_child h.calleeText]

theorem value_change (t : Tree) : value source' (change t) = value source t := by
  simp only [value, unwrap, h.unwrap, shapeOf_change h, h.text]

theorem memberProperty_change (t : Tree) :
    memberProperty source' (change t) = memberProperty source t := by
  unfold memberProperty unwrap
  dsimp only
  rw [h.unwrap, h.kind, h.map_child h.text]

theorem spine_change (t : Tree) : spine (change t) = (spine t).map change := by
  induction t using Tree.child_induction with
  | h t ih =>
    rw [spine_eq, spine_eq t, h.kind, h.operands, h.child]
    by_cases hw : isWrapper t.kind = true
    · rw [if_pos hw, if_pos hw]
      cases ho : t.operands with
      | nil => rfl
      | cons c cs =>
        have hc : c ∈ t.operands := by rw [ho]; exact List.mem_cons_self
        exact ih c (Tree.mem_children_of_mem_operands hc)
    · rw [if_neg hw, if_neg hw]
      by_cases ha : isAccess t.kind = true
      · rw [if_pos ha, if_pos ha, List.map_cons]
        cases hc : t.child? "object" with
        | none => rfl
        | some c => exact congrArg (change t :: ·) (ih c (Tree.mem_children_of_child? hc))
      · rw [if_neg ha, if_neg ha]
        rfl

theorem isLiteralKey_change (t : Tree) : isLiteralKey (change t) = isLiteralKey t := by
  rw [isLiteralKey, h.kind, isPlainTemplate_change h, isLiteralKey]

theorem keyOf?_change (t : Tree) : keyOf? source' (change t) = keyOf? source t := by
  unfold keyOf?
  rw [h.kind, h.map_child h.text "property", h.child "index"]
  cases t.child? "index" with
  | none => simp only [Option.map_none, Option.filter_none]
  | some index =>
    simp only [Option.map_some, unwrap, h.unwrap, Option.filter_some, isLiteralKey_change h]
    by_cases hk : isLiteralKey (index.unwrap isWrapper) = true
    · simp only [if_pos hk, Option.map_some, h.keyText]
    · simp only [if_neg hk, Option.map_none]

theorem accessKeys_change (t : Tree) : accessKeys source' (change t) = accessKeys source t := by
  rw [accessKeys, spine_change h, List.filterMap_map, accessKeys]
  exact congrArg (List.filterMap · (spine t)) (funext (keyOf?_change h))

theorem arguments_change (t : Tree) : arguments source' (change t) = arguments source t := by
  unfold arguments
  rw [h.child]
  cases t.child? "arguments" with
  | none => rfl
  | some list =>
    simp only [Option.map_some, h.kind, h.map_operands (value_change h), value_change h]

theorem callOf_change (t callee : Tree) (construct : Bool) :
    callOf source' (change t) (change callee) construct =
      (callOf source t callee construct).moved move := by
  simp only [callOf, Call.moved, h.calleeText, memberProperty_change h, arguments_change h,
    h.text, h.site]

theorem call?_change (t : Tree) :
    call? source' (change t) = (call? source t).map (Call.moved move) := by
  unfold call?
  rw [h.kind]
  split
  · rw [h.child, Option.map_map, Option.map_map]
    exact congrArg (Option.map · _) (funext fun callee => callOf_change h t callee false)
  · rw [h.child, Option.map_map, Option.map_map]
    exact congrArg (Option.map · _) (funext fun callee => callOf_change h t callee true)
  · rfl

theorem assignmentOf_change (t left right : Tree) :
    assignmentOf source' (change t) (change left) (change right) =
      (assignmentOf source t left right).moved move := by
  simp only [assignmentOf, Assignment.moved, h.text, accessKeys_change h, memberProperty_change h,
    value_change h, h.kind, h.site]

theorem declarationOf_change (t name : Tree) :
    declarationOf source' (change t) (change name) =
      (declarationOf source t name).moved move := by
  have hv : ((change t).child? "value").toList.map (value source') =
      (t.child? "value").toList.map (value source) := by
    rw [← Option.toList_map, ← Option.toList_map, h.map_child (value_change h)]
  simp only [declarationOf, Assignment.moved, h.text, hv, h.site]

theorem assignment?_change (t : Tree) :
    assignment? source' (change t) = (assignment? source t).map (Assignment.moved move) := by
  have sides : (do
      let left ← (change t).child? "left"
      let right ← (change t).child? "right"
      return assignmentOf source' (change t) left right) =
      Option.map (Assignment.moved move) (do
        let left ← t.child? "left"
        let right ← t.child? "right"
        return assignmentOf source t left right) := by
    rw [h.child, h.child]
    cases t.child? "left" with
    | none => rfl
    | some left =>
      cases t.child? "right" with
      | none => rfl
      | some right => exact congrArg some (assignmentOf_change h t left right)
  unfold assignment?
  rw [h.kind]
  split
  · exact sides
  · exact sides
  · rw [h.child, Option.map_map, Option.map_map]
    exact congrArg (Option.map · _) (funext fun name => declarationOf_change h t name)
  · rfl

end Reading

theorem reads : lowering.ReadsFaithfully := ⟨value_change, call?_change, assignment?_change⟩

end Lowering.Ecmascript

/-! ### Python -/

namespace Lowering.Python

/-- An argument passed by name stands for its value. -/
theorem argument_eq (source : Source) (t : Tree) :
    argument source t =
      if t.kind = "keyword_argument" then
        ((t.child? "value").map fun v =>
          { value source v with keyword := (t.child? "name").map source.textOf }).getD
          (value source t)
      else value source t := by
  unfold argument
  by_cases hk : t.kind = "keyword_argument"
  · rw [if_pos hk, hk]
    cases t.child? "value" <;> rfl
  · rw [if_neg hk]
    split
    · contradiction
    · rfl

section Reading
variable {change : Tree → Tree} {source source' : Source} {move : Site → Site}
  (h : Faithful change source source' move)
include h

theorem stringShape_change (t : Tree) : stringShape (change t) = stringShape t := by
  rw [stringShape, h.hasChild _ t (by decide), stringShape]

theorem shapeOf_change (t : Tree) : shapeOf source' (change t) = shapeOf source t := by
  have parts : (change t).operands.any (stringShape · = .interpolated) =
      t.operands.any (stringShape · = .interpolated) := by
    rw [h.operands, List.any_map]
    exact congrArg (List.any t.operands ·) (funext fun part => by
      rw [Function.comp_apply, stringShape_change h])
  unfold shapeOf
  rw [h.kind, stringShape_change h, parts, h.map_child h.calleeText]

theorem value_change (t : Tree) : value source' (change t) = value source t := by
  simp only [value, unwrap, h.unwrap, shapeOf_change h, h.text]

theorem argument_change (t : Tree) : argument source' (change t) = argument source t := by
  rw [argument_eq, argument_eq source t, h.kind, value_change h, h.map_child h.text "name",
    h.child "value", Option.map_map]
  simp only [Function.comp_def, value_change h]

theorem attributeName_change (t : Tree) :
    attributeName source' (change t) = attributeName source t := by
  unfold attributeName
  rw [h.kind, h.map_child h.text]

theorem spine_change (t : Tree) : spine (change t) = (spine t).map change := by
  induction t using Tree.child_induction with
  | h t ih =>
    have onward (name : String) :
        change t :: ((t.child? name).map change |>.map spine).getD [] =
          (t :: ((t.child? name).map spine).getD []).map change := by
      rw [List.map_cons]
      cases hc : t.child? name with
      | none => rfl
      | some c => exact congrArg (change t :: ·) (ih c (Tree.mem_children_of_child? hc))
    rw [spine_eq, spine_eq t, h.kind, h.child, h.child, onward, onward]
    split
    · rfl
    · split <;> rfl

theorem keyOf?_change (t : Tree) : keyOf? source' (change t) = keyOf? source t := by
  unfold keyOf?
  rw [h.kind, h.map_child h.text "attribute", h.child "subscript"]
  cases t.child? "subscript" with
  | none => simp only [Option.map_none, Option.filter_none]
  | some key =>
    simp only [Option.map_some, Option.filter_some, h.kind, stringShape_change h]
    split
    · rfl
    · split
      · simp only [Option.map_some, h.keyText]
      · simp only [Option.map_none]

theorem accessKeys_change (t : Tree) : accessKeys source' (change t) = accessKeys source t := by
  rw [accessKeys, spine_change h, List.filterMap_map, accessKeys]
  exact congrArg (List.filterMap · (spine t)) (funext (keyOf?_change h))

theorem arguments_change (t : Tree) : arguments source' (change t) = arguments source t := by
  unfold arguments
  rw [h.child]
  cases t.child? "arguments" with
  | none => rfl
  | some list =>
    simp only [Option.map_some, h.kind, h.map_operands (argument_change h), value_change h]

theorem callOf_change (t callee : Tree) :
    callOf source' (change t) (change callee) = (callOf source t callee).moved move := by
  simp only [callOf, Call.moved, h.calleeText, attributeName_change h, arguments_change h,
    h.text, h.site]

theorem call?_change (t : Tree) :
    call? source' (change t) = (call? source t).map (Call.moved move) := by
  unfold call?
  rw [h.kind]
  split
  · rw [h.child, Option.map_map, Option.map_map]
    exact congrArg (Option.map · _) (funext fun callee => callOf_change h t callee)
  · rfl

theorem rightValues_change (t : Tree) : rightValues source' (change t) = rightValues source t := by
  unfold rightValues
  rw [h.child]
  cases t.child? "right" with
  | none => rfl
  | some right =>
    simp only [Option.map_some, h.kind, h.map_operands (value_change h), value_change h]

theorem assignmentOf_change (t left : Tree) :
    assignmentOf source' (change t) (change left) = (assignmentOf source t left).moved move := by
  simp only [assignmentOf, Assignment.moved, h.text, accessKeys_change h, attributeName_change h,
    rightValues_change h, h.kind, h.site]

theorem assignment?_change (t : Tree) :
    assignment? source' (change t) = (assignment? source t).map (Assignment.moved move) := by
  unfold assignment?
  rw [h.kind]
  split
  · rw [h.child, Option.map_map, Option.map_map]
    exact congrArg (Option.map · _) (funext fun left => assignmentOf_change h t left)
  · rfl

end Reading

theorem reads : lowering.ReadsFaithfully := ⟨value_change, call?_change, assignment?_change⟩

end Lowering.Python

/-! ### Go -/

namespace Lowering.Golang

section Reading
variable {change : Tree → Tree} {source source' : Source} {move : Site → Site}
  (h : Faithful change source source' move)
include h

theorem shapeOf_change (t : Tree) : shapeOf source' (change t) = shapeOf source t := by
  unfold shapeOf
  rw [h.kind, h.map_child h.calleeText]

theorem value_change (t : Tree) : value source' (change t) = value source t := by
  simp only [value, unwrap, h.unwrap, shapeOf_change h, h.text]

theorem selectedName_change (t : Tree) :
    selectedName source' (change t) = selectedName source t := by
  unfold selectedName
  rw [h.kind, h.map_child h.text]

theorem arguments_change (t : Tree) : arguments source' (change t) = arguments source t := by
  unfold arguments
  rw [h.child]
  cases t.child? "arguments" with
  | none => rfl
  | some list => exact h.map_operands (value_change h) list

theorem callOf_change (t callee : Tree) :
    callOf source' (change t) (change callee) = (callOf source t callee).moved move := by
  simp only [callOf, Call.moved, h.calleeText, selectedName_change h, arguments_change h,
    h.text, h.site]

theorem call?_change (t : Tree) :
    call? source' (change t) = (call? source t).map (Call.moved move) := by
  unfold call?
  rw [h.kind]
  split
  · rw [h.child, Option.map_map, Option.map_map]
    exact congrArg (Option.map · _) (funext fun callee => callOf_change h t callee)
  · rfl

theorem valuesOf_change (t : Option Tree) :
    valuesOf source' (t.map change) = valuesOf source t := by
  cases t with
  | none => rfl
  | some t =>
    simp only [Option.map_some, valuesOf, h.kind, h.map_operands (value_change h), value_change h]

theorem assignmentOf_change (t : Tree) (target field : String) (augmented : Bool) :
    assignmentOf source' (change t) target field augmented =
      (assignmentOf source t target field augmented).moved move := by
  simp only [assignmentOf, Assignment.moved, h.child, valuesOf_change h, h.site]

theorem isAugmented_change (t : Tree) : isAugmented source' (change t) = isAugmented source t := by
  unfold isAugmented
  rw [h.child]
  cases t.child? "operator" with
  | none => rfl
  | some operator => simp only [Option.map_some, h.text]

theorem specNames_change (t : Tree) : specNames source' (change t) = specNames source t := by
  unfold specNames
  rw [h.operands, List.filter_map, List.map_map]
  simp only [Function.comp_def, h.kind, h.text]

theorem assignment?_change (t : Tree) :
    assignment? source' (change t) = (assignment? source t).map (Assignment.moved move) := by
  unfold assignment?
  rw [h.kind, specNames_change h, isAugmented_change h, h.child]
  split
  · cases t.child? "left" with
    | none => rfl
    | some left => simp only [Option.map_some, assignmentOf_change h, h.text]
  · cases t.child? "left" with
    | none => rfl
    | some left => simp only [Option.map_some, assignmentOf_change h, h.text]
  · cases specNames source t with
    | nil => rfl
    | cons => simp only [Option.map_some, assignmentOf_change h]
  · cases specNames source t with
    | nil => rfl
    | cons => simp only [Option.map_some, assignmentOf_change h]
  · rfl

end Reading

theorem reads : lowering.ReadsFaithfully := ⟨value_change, call?_change, assignment?_change⟩

end Lowering.Golang

theorem Language.reads (language : Language) : language.lowering.ReadsFaithfully := by
  cases language with
  | javascript => exact Lowering.Ecmascript.reads
  | typescript => exact Lowering.Ecmascript.reads
  | python => exact Lowering.Python.reads
  | go => exact Lowering.Golang.reads

end SourceAudit
