import Mathlib.Data.List.Forall2
import Mathlib.Data.List.Nodup
import SourceAudit.Proofs.Engine
import SourceAudit.Proofs.Report.ReadBack
import SourceAudit.Report.Sarif

/-! What the interchange document says.

Results are written finding by finding, rules are gathered by a pass of its own that keeps the
first finding of each kind in the order of the kinds. `find?_firstOfKind` says what that pass
keeps and `firstOfKind_sorted` in which order; everything about the rules follows from these two.

`sarif_lists_findings`: the text, read as JSON, has a result for each finding in its place and a
rule for each kind, in the order of code points, so that each result names one rule. If a kind
stands for one message, severity and weakness, as it does in every scan, then a result is as
grave as its rule, and the order of the findings decides the languages of the rules and nothing
else about them. -/
namespace SourceAudit

/-! ### Parts of a JSON value -/

namespace Json

/-- A step into an object or a list. -/
inductive Step where
  | name (s : String)
  | index (i : Nat)

instance : Coe String Step := ⟨.name⟩

instance (n : Nat) : OfNat Step n := ⟨.index n⟩

def step? : Json → Step → Option Json
  | .obj fields, .name s => fields.lookup s
  | .arr items, .index i => items[i]?
  | _, _ => none

/-- The part that a path leads to. -/
def at? (j : Json) (path : List Step) : Option Json := path.foldlM step? j

/-- The items of the list that a path leads to. -/
def itemsAt? (j : Json) (path : List Step) : Option (List Json) :=
  match j.at? path with
  | some (.arr items) => some items
  | _ => none

/-- Changes the part that a path leads to. -/
def modify (change : Json → Json) : List Step → Json → Json
  | [], j => change j
  | .name s :: path, .obj fields =>
    .obj (fields.map fun f => if f.1 = s then (s, modify change path f.2) else f)
  | .index i :: path, .arr items => .arr (items.modify i (modify change path))
  | _, j => j

end Json

namespace Report.Sarif

/-! ### The first finding of each kind -/

theorem ne_of_compare_lt {a b : String} (h : compare a b = .lt) : a ≠ b := by
  intro same
  rw [Std.LawfulEqOrd.compare_eq_iff_eq.mpr same] at h
  cases h

/-- Kinds increase from finding to finding. -/
def Sorted (fs : List Finding) : Prop :=
  fs.Pairwise fun f g => compare f.kind g.kind = .lt

/-- A kind before the first one is before all of them. -/
theorem Sorted.lt_of_mem {first g : Finding} {rest : List Finding} {k : String}
    (h : Sorted (first :: rest)) (lt : compare k first.kind = .lt) (mem : g ∈ first :: rest) :
    compare k g.kind = .lt := by
  rcases List.mem_cons.mp mem with rfl | mem
  · exact lt
  · exact Std.TransCmp.lt_trans lt ((List.pairwise_cons.mp h).1 g mem)

theorem mem_insertKind {f g : Finding} {fs : List Finding} (h : g ∈ insertKind f fs) :
    g = f ∨ g ∈ fs := by
  induction fs with
  | nil => exact .inl (List.mem_singleton.mp h)
  | cons first rest ih =>
    rw [insertKind] at h
    split at h
    · exact List.mem_cons.mp h
    · exact .inr h
    · rcases List.mem_cons.mp h with rfl | h
      · exact .inr List.mem_cons_self
      · exact (ih h).imp_right (List.mem_cons_of_mem first)

theorem insertKind_sorted (f : Finding) {fs : List Finding} (h : Sorted fs) :
    Sorted (insertKind f fs) := by
  induction fs with
  | nil => exact List.pairwise_singleton _ f
  | cons first rest ih =>
    have ⟨before, sorted⟩ := List.pairwise_cons.mp h
    rw [insertKind]
    split
    next lt => exact List.pairwise_cons.mpr ⟨fun g hg => h.lt_of_mem lt hg, h⟩
    next => exact h
    next gt =>
      refine List.pairwise_cons.mpr ⟨fun g hg => ?_, ih sorted⟩
      rcases mem_insertKind hg with rfl | hg
      · exact Std.OrientedCmp.gt_iff_lt.mp gt
      · exact before g hg

theorem find?_of_sorted {f : Finding} {fs : List Finding} (h : Sorted fs) (mem : f ∈ fs) :
    fs.find? (·.kind = f.kind) = some f := by
  induction fs with
  | nil => cases mem
  | cons first rest ih =>
    have ⟨before, sorted⟩ := List.pairwise_cons.mp h
    rcases List.mem_cons.mp mem with rfl | mem
    · simp
    · have differ : first.kind ≠ f.kind := ne_of_compare_lt (before f mem)
      simp [differ, ih sorted mem]

/-- Inserting a finding changes what is found for its kind only, and only if that was nothing. -/
theorem find?_insertKind (f : Finding) {fs : List Finding} (h : Sorted fs) (k : String) :
    (insertKind f fs).find? (·.kind = k) = (fs.find? (·.kind = k)).or ([f].find? (·.kind = k)) := by
  induction fs with
  | nil => rfl
  | cons first rest ih =>
    rw [insertKind]
    split
    next lt =>
      by_cases own : f.kind = k
      · -- no later kind is that of `f`
        have absent : (first :: rest).find? (·.kind = k) = none := by
          rw [List.find?_eq_none]
          intro g hg
          have differ : g.kind ≠ k := own ▸ (ne_of_compare_lt (h.lt_of_mem lt hg)).symm
          simpa using differ
        simp [absent, own]
      · simp [own]
    next eq =>
      have same : f.kind = first.kind := Std.LawfulEqCmp.compare_eq_iff_eq.mp eq
      by_cases own : first.kind = k
      · simp [own]
      · simp [same, own]
    next => by_cases own : first.kind = k <;> simp [own, ih h.of_cons]

theorem foldl_insertKind (fs : List Finding) {found : List Finding} (h : Sorted found) :
    Sorted (fs.foldl (fun found f => insertKind f found) found) ∧
      ∀ k, (fs.foldl (fun found f => insertKind f found) found).find? (·.kind = k) =
        (found.find? (·.kind = k)).or (fs.find? (·.kind = k)) := by
  induction fs generalizing found with
  | nil => exact ⟨h, fun k => by simp⟩
  | cons f fs ih =>
    obtain ⟨sorted, found_eq⟩ := ih (insertKind_sorted f h)
    refine ⟨sorted, fun k => ?_⟩
    rw [List.foldl_cons, found_eq, find?_insertKind f h, Option.or_assoc, ← List.find?_append]
    rfl

theorem firstOfKind_sorted (fs : List Finding) : Sorted (firstOfKind fs) :=
  (foldl_insertKind fs .nil).1

/-- For each kind, the pass keeps the first finding of that kind. -/
theorem find?_firstOfKind (fs : List Finding) (k : String) :
    (firstOfKind fs).find? (·.kind = k) = fs.find? (·.kind = k) :=
  (foldl_insertKind fs .nil).2 k

theorem mem_firstOfKind {f : Finding} {fs : List Finding} :
    f ∈ firstOfKind fs ↔ fs.find? (·.kind = f.kind) = some f := by
  rw [← find?_firstOfKind]
  exact ⟨find?_of_sorted (firstOfKind_sorted fs), List.mem_of_find?_eq_some⟩

theorem mem_of_mem_firstOfKind {f : Finding} {fs : List Finding} (h : f ∈ firstOfKind fs) :
    f ∈ fs :=
  List.mem_of_find?_eq_some (mem_firstOfKind.mp h)

theorem exists_mem_firstOfKind {f : Finding} {fs : List Finding} (h : f ∈ fs) :
    ∃ g ∈ firstOfKind fs, g.kind = f.kind := by
  have found : (fs.find? (·.kind = f.kind)).isSome = true := by
    rw [List.find?_isSome]
    exact ⟨f, h, by simp⟩
  obtain ⟨g, hg⟩ := Option.isSome_iff_exists.mp found
  rw [← find?_firstOfKind] at hg
  exact ⟨g, List.mem_of_find?_eq_some hg, by simpa using List.find?_some hg⟩

/-! ### The parts of the document -/

/-- What a document says in the result of a finding. The column is there only if it is known. -/
structure IsResult (f : Finding) (result : Json) : Prop where
  rule : result.at? ["ruleId"] = some (.str f.kind)
  level : result.at? ["level"] = some (.str (level f.severity))
  message : result.at? ["message", "text"] = some (.str (f.message ++ ": " ++ f.snippet))
  id : result.at? ["partialFingerprints", "securescanId/v1"] = some (.str f.id)
  file : result.at? ["locations", 0, "physicalLocation", "artifactLocation", "uri"] =
    some (.str f.file)
  line : result.at? ["locations", 0, "physicalLocation", "region", "startLine"] =
    some (.ofNat f.line)
  column : result.at? ["locations", 0, "physicalLocation", "region", "startColumn"] =
    f.column.map Json.ofNat

/-- What a document says in the rule that a finding is the first one of. -/
structure IsRule (f : Finding) (rule : Json) : Prop where
  id : rule.at? ["id"] = some (.str f.kind)
  name : rule.at? ["name"] = some (.str f.kind)
  level : rule.at? ["defaultConfiguration", "level"] = some (.str (level f.severity))
  message : rule.at? ["shortDescription", "text"] = some (.str f.message)
  help : rule.at? ["helpUri"] = (helpUri? f.cwe).map Json.str
  tags : rule.itemsAt? ["properties", "tags"] =
    some [.str "security", .str f.cwe, .str f.language.tag]

theorem resultJson_isResult (f : Finding) : IsResult f (resultJson f) := by
  refine ⟨rfl, rfl, rfl, rfl, rfl, ?_, ?_⟩ <;> cases h : f.column <;>
    simp [Json.at?, Json.step?, Json.lookup_cons, resultJson, regionJson, h]

theorem ruleJson_isRule (f : Finding) : IsRule f (ruleJson f) := by
  constructor <;> cases h : helpUri? f.cwe <;>
    simp [Json.at?, Json.itemsAt?, Json.step?, Json.lookup_cons, ruleJson, text, h]

/-- The results in a document. -/
def results? (text : String) : Option (List Json) :=
  (Json.ofText? text.toList).bind (·.itemsAt? ["runs", 0, "results"])

/-- The rules in a document. -/
def rules? (text : String) : Option (List Json) :=
  (Json.ofText? text.toList).bind (·.itemsAt? ["runs", 0, "tool", "driver", "rules"])

theorem resultJson_integral {f : Finding} (h : f.Fits) : (resultJson f).Integral := by
  have line := h.line
  have column := h.column
  cases hc : f.column with
  | none => simp [resultJson, regionJson, text, hc, line]
  | some c => simp [resultJson, regionJson, text, hc, line, column c hc]

theorem ruleJson_integral (f : Finding) : (ruleJson f).Integral := by
  cases h : helpUri? f.cwe <;> simp [ruleJson, text, h]

theorem toJson_integral {fs : List Finding} (fits : ∀ f ∈ fs, f.Fits) (project : String) :
    (toJson fs project).Integral := by
  have results : ∀ f ∈ fs, (resultJson f).Integral := fun f hf => resultJson_integral (fits f hf)
  simp [toJson, toolJson, rulesJson, Json.ofList, ruleJson_integral]
  exact results

/-- The text is read back as the document that it was written from. -/
theorem ofText?_render {fs : List Finding} (fits : ∀ f ∈ fs, f.Fits) (project : String) :
    Json.ofText? (render fs project).toList = some (toJson fs project) :=
  Json.ofText?_pretty (toJson_integral fits project)

theorem results?_render {fs : List Finding} (fits : ∀ f ∈ fs, f.Fits) (project : String) :
    results? (render fs project) = some (fs.map resultJson) := by
  rw [results?, ofText?_render fits]
  rfl

theorem rules?_render {fs : List Finding} (fits : ∀ f ∈ fs, f.Fits) (project : String) :
    rules? (render fs project) = some ((firstOfKind fs).map ruleJson) := by
  rw [rules?, ofText?_render fits]
  rfl

/-! ### Results and their rules -/

/-- The order of texts by the code points of their characters. -/
def Before (a b : String) : Prop :=
  List.Lex (fun c d : Char => c.toNat < d.toNat) a.toList b.toList

theorem before_of_compare {a b : String} (h : compare a b = .lt) : Before a b :=
  compareOfLessAndEq_eq_lt.mp h

theorem kinds_before (fs : List Finding) : ((firstOfKind fs).map (·.kind)).Pairwise Before :=
  List.pairwise_map.mpr ((firstOfKind_sorted fs).imp before_of_compare)

theorem mem_kinds {fs : List Finding} {k : String} :
    k ∈ (firstOfKind fs).map (·.kind) ↔ ∃ f ∈ fs, f.kind = k := by
  constructor
  · intro h
    obtain ⟨f, hf, rfl⟩ := List.mem_map.mp h
    exact ⟨f, mem_of_mem_firstOfKind hf, rfl⟩
  · rintro ⟨f, hf, rfl⟩
    obtain ⟨g, hg, same⟩ := exists_mem_firstOfKind hf
    exact List.mem_map.mpr ⟨g, hg, same⟩

theorem kinds_nodup (fs : List Finding) : ((firstOfKind fs).map (·.kind)).Nodup :=
  List.pairwise_map.mpr ((firstOfKind_sorted fs).imp ne_of_compare_lt)

/-- What the results and rules of a document say about the findings. -/
structure Describes (fs : List Finding) (results rules : List Json) : Prop where
  /-- There is a result for each finding, in its place. -/
  listed : List.Forall₂ IsResult fs results
  /-- The rules are in order, and there is one for each kind. -/
  sorted : ∃ ids : List String,
    List.Forall₂ (fun id rule => rule.at? ["id"] = some (.str id)) ids rules ∧
      ids.Pairwise Before ∧ ∀ k, k ∈ ids ↔ ∃ f ∈ fs, f.kind = k
  /-- Each result names one rule. -/
  named : ∀ result ∈ results,
    ∃! i : Fin rules.length, (rules.get i).at? ["id"] = result.at? ["ruleId"]
  /-- Each rule tells about the first finding of its kind. -/
  first : ∀ rule ∈ rules, ∃ f, fs.find? (·.kind = f.kind) = some f ∧ IsRule f rule

theorem id_get (fs : List Finding) (i : Fin ((firstOfKind fs).map ruleJson).length) :
    (((firstOfKind fs).map ruleJson).get i).at? ["id"] =
      some (.str (((firstOfKind fs).map (·.kind)).get (i.cast (by simp)))) := by
  simp [(ruleJson_isRule _).id]

theorem existsUnique_rule {fs : List Finding} {f : Finding} (hf : f ∈ fs) :
    ∃! i : Fin ((firstOfKind fs).map ruleJson).length,
      (((firstOfKind fs).map ruleJson).get i).at? ["id"] = some (.str f.kind) := by
  have mem : f.kind ∈ (firstOfKind fs).map (·.kind) := mem_kinds.mpr ⟨f, hf, rfl⟩
  obtain ⟨i, hi⟩ := List.mem_iff_get.mp mem
  simp only [id_get, Option.some.injEq, Json.str.injEq]
  refine ⟨i.cast (by simp), hi, fun j hj => ?_⟩
  have same : j.val = i.val := Fin.ext_iff.mp ((kinds_nodup fs).injective_get (hj.trans hi.symm))
  exact Fin.ext same

theorem describes (fs : List Finding) :
    Describes fs (fs.map resultJson) ((firstOfKind fs).map ruleJson) where
  listed := by
    rw [List.forall₂_map_right_iff, List.forall₂_same]
    exact fun f _ => resultJson_isResult f
  sorted := by
    refine ⟨(firstOfKind fs).map (·.kind), ?_, kinds_before fs, fun k => mem_kinds⟩
    rw [List.forall₂_map_left_iff, List.forall₂_map_right_iff, List.forall₂_same]
    exact fun f _ => (ruleJson_isRule f).id
  named := by
    intro result mem
    obtain ⟨f, hf, rfl⟩ := List.mem_map.mp mem
    rw [(resultJson_isResult f).rule]
    exact existsUnique_rule hf
  first := by
    intro rule mem
    obtain ⟨f, hf, rfl⟩ := List.mem_map.mp mem
    exact ⟨f, mem_firstOfKind.mp hf, ruleJson_isRule f⟩

/-! ### Kinds that stand for one rule -/

/-- A kind stands for one message, one severity and one weakness. -/
def Determined (fs : List Finding) : Prop :=
  ∀ f ∈ fs, ∀ g ∈ fs, f.kind = g.kind →
    f.message = g.message ∧ f.severity = g.severity ∧ f.cwe = g.cwe

theorem determined_of_made {fs : List Finding}
    (made : ∀ f ∈ fs, ∃ read path language content,
      f ∈ (Engine.withReader read).run path language content) : Determined fs := by
  intro f hf g hg same
  obtain ⟨_, _, _, _, run_f⟩ := made f hf
  obtain ⟨_, _, _, _, run_g⟩ := made g hg
  obtain ⟨i, hi, _, rfl⟩ := Engine.mem_run run_f
  obtain ⟨j, hj, _, rfl⟩ := Engine.mem_run run_g
  obtain rfl : i = j := Engine.eq_of_kind_eq hi hj same
  exact ⟨rfl, rfl, rfl⟩

theorem level_eq_of_named {fs : List Finding} (determined : Determined fs) {result rule : Json}
    (hresult : result ∈ fs.map resultJson) (hrule : rule ∈ (firstOfKind fs).map ruleJson)
    (named : rule.at? ["id"] = result.at? ["ruleId"]) :
    rule.at? ["defaultConfiguration", "level"] = result.at? ["level"] := by
  obtain ⟨f, hf, rfl⟩ := List.mem_map.mp hresult
  obtain ⟨g, hg, rfl⟩ := List.mem_map.mp hrule
  rw [(ruleJson_isRule g).id, (resultJson_isResult f).rule, Option.some.injEq,
    Json.str.injEq] at named
  obtain ⟨-, severity, -⟩ := determined g (mem_of_mem_firstOfKind hg) f hf named
  rw [(ruleJson_isRule g).level, (resultJson_isResult f).level, severity]

/-- A rule with the language among its tags blotted out. -/
def withoutLanguage : Json → Json := Json.modify (fun _ => .null) ["properties", "tags", 2]

theorem withoutLanguage_ruleJson {f g : Finding} (kind : f.kind = g.kind)
    (message : f.message = g.message) (severity : f.severity = g.severity) (cwe : f.cwe = g.cwe) :
    withoutLanguage (ruleJson f) = withoutLanguage (ruleJson g) := by
  cases h : helpUri? g.cwe <;>
    simp [withoutLanguage, Json.modify, ruleJson, kind, message, severity, cwe, h]

theorem kinds_perm {fs gs : List Finding} (perm : fs.Perm gs) :
    (firstOfKind fs).map (·.kind) = (firstOfKind gs).map (·.kind) := by
  have members : ((firstOfKind fs).map (·.kind)).Perm ((firstOfKind gs).map (·.kind)) := by
    rw [List.perm_ext_iff_of_nodup (kinds_nodup fs) (kinds_nodup gs)]
    intro k
    simp only [mem_kinds, perm.mem_iff]
  have sorted : ∀ hs, ((firstOfKind hs).map (·.kind)).Pairwise fun a b => compare a b = .lt :=
    fun hs => List.pairwise_map.mpr (firstOfKind_sorted hs)
  refine members.eq_of_pairwise ?_ (sorted fs) (sorted gs)
  intro a b _ _ hab hba
  rw [Std.OrientedCmp.gt_iff_lt.mpr hab] at hba
  cases hba

theorem map_eq_of_kinds {α : Type} {view : Finding → α} {fs gs : List Finding}
    (kinds : fs.map (·.kind) = gs.map (·.kind))
    (h : ∀ f ∈ fs, ∀ g ∈ gs, f.kind = g.kind → view f = view g) : fs.map view = gs.map view := by
  induction fs generalizing gs with
  | nil =>
    rw [List.map_nil, eq_comm, List.map_eq_nil_iff] at kinds
    rw [kinds]
  | cons f fs ih =>
    cases gs with
    | nil => cases kinds
    | cons g gs =>
      obtain ⟨first, others⟩ := List.cons.inj kinds
      rw [List.map_cons, List.map_cons, h f List.mem_cons_self g List.mem_cons_self first,
        ih others fun x hx y hy => h x (List.mem_cons_of_mem f hx) y (List.mem_cons_of_mem g hy)]

theorem rules_perm {fs gs : List Finding} (determined : Determined fs) (perm : fs.Perm gs) :
    ((firstOfKind gs).map ruleJson).map withoutLanguage =
      ((firstOfKind fs).map ruleJson).map withoutLanguage := by
  rw [List.map_map, List.map_map]
  refine map_eq_of_kinds (kinds_perm perm).symm fun g hg f hf same => ?_
  have mem_g : g ∈ fs := perm.mem_iff.mpr (mem_of_mem_firstOfKind hg)
  obtain ⟨message, severity, cwe⟩ := determined g mem_g f (mem_of_mem_firstOfKind hf) same
  exact withoutLanguage_ruleJson same message severity cwe

/-- **What the interchange document tells.** A rule is described by the first finding of its kind,
which is why results agree with their rules only if each kind stands for one message, severity and
weakness; the findings of the engine are such, whatever reads the trees. -/
theorem sarif_lists_findings (fs : List Finding) (project : String) (fits : ∀ f ∈ fs, f.Fits) :
    ∃ results rules, results? (render fs project) = some results ∧
      rules? (render fs project) = some rules ∧ Describes fs results rules ∧
      (Determined fs →
        (∀ result ∈ results, ∀ rule ∈ rules, rule.at? ["id"] = result.at? ["ruleId"] →
          rule.at? ["defaultConfiguration", "level"] = result.at? ["level"]) ∧
        ∀ gs, fs.Perm gs → ∃ rules', rules? (render gs project) = some rules' ∧
          rules'.map withoutLanguage = rules.map withoutLanguage) ∧
      ((∀ f ∈ fs, ∃ read path language content,
          f ∈ (Engine.withReader read).run path language content) → Determined fs) := by
  refine ⟨_, _, results?_render fits project, rules?_render fits project, describes fs, ?_,
    determined_of_made⟩
  intro determined
  refine ⟨fun result hresult rule hrule => level_eq_of_named determined hresult hrule, ?_⟩
  intro gs perm
  have fits_gs : ∀ g ∈ gs, g.Fits := fun g hg => fits g (perm.mem_iff.mpr hg)
  exact ⟨_, rules?_render fits_gs project, rules_perm determined perm⟩

/-- Two kinds in turn; the findings of one differ in language and in whether a column is known. -/
def interleaved : List Finding :=
  [{ id := "1", kind := "xss", severity := .high, file := "a.js", line := 1, column := some 4,
     snippet := "\"x\"", message := "m", cwe := "CWE-79", language := .javascript },
   { id := "2", kind := "eval", severity := .critical, file := "a.js", line := 2, column := none,
     snippet := "eval(x)", message := "n", cwe := "", language := .javascript },
   { id := "3", kind := "xss", severity := .high, file := "b.ts", line := 1, column := none,
     snippet := "y", message := "m", cwe := "CWE-79", language := .typescript }]

theorem interleaved_fits : ∀ f ∈ interleaved, f.Fits := by
  intro f hf
  simp only [interleaved, List.mem_cons, List.not_mem_nil, or_false] at hf
  rcases hf with rfl | rfl | rfl <;> exact ⟨by decide, by decide⟩

theorem interleaved_determined : Determined interleaved := by
  unfold Determined
  decide

theorem sarif_lists_findings_interleaved :
    ∃ results rules, results? (render interleaved "p") = some results ∧
      rules? (render interleaved "p") = some rules ∧ Describes interleaved results rules ∧
      ∃ rules', rules? (render interleaved.reverse "p") = some rules' ∧
        rules'.map withoutLanguage = rules.map withoutLanguage := by
  obtain ⟨results, rules, hresults, hrules, describes, determined, -⟩ :=
    sarif_lists_findings interleaved "p" interleaved_fits
  have permuted := (determined interleaved_determined).2 interleaved.reverse
    (List.reverse_perm interleaved).symm
  exact ⟨results, rules, hresults, hrules, describes, permuted⟩

end Report.Sarif
end SourceAudit
