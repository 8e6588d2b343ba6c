import Mathlib.Data.List.Nodup
import SourceAudit.Detector
import SourceAudit.Proofs.Excerpt
import SourceAudit.Proofs.Line.Reports
import SourceAudit.Proofs.Lowering.Sites

/-! Findings come from rules.

An engine runs its detectors one after the other, and each of them its rules; so the findings in a
file stand rule by rule, in the order of the catalog, and each is a rule at the site of a text
(`Engine.run_grouped`). The rules of a scan have kinds of their own, whatever reads the trees, and
the kind of a finding therefore tells its rule (`Engine.eq_of_kind_eq`).

`findings_follow_catalog`: every finding says what its entry in the catalog says, and none stands
before one of an earlier entry. -/
namespace SourceAudit

/-! ### Findings rule by rule -/

/-- Findings in a file that stand rule by rule, each at the site of a text. -/
inductive Grouped (path : Path) (language : Language) : List RuleInfo → List Finding → Prop where
  | nil : Grouped path language [] []
  | cons {info : RuleInfo} {infos : List RuleInfo} {block rest : List Finding}
      (own : ∀ f ∈ block, ∃ line column text,
        f = Finding.ofSite info path.display language (Site.ofText line column text))
      (later : Grouped path language infos rest) :
      Grouped path language (info :: infos) (block ++ rest)

namespace Grouped
variable {path : Path} {language : Language}

theorem append {infos infos' : List RuleInfo} {found found' : List Finding}
    (h : Grouped path language infos found) (h' : Grouped path language infos' found') :
    Grouped path language (infos ++ infos') (found ++ found') := by
  induction h with
  | nil => exact h'
  | cons own _ ih =>
    rw [List.cons_append, List.append_assoc]
    exact .cons own ih

theorem flatMap {ι : Type} {parts : List ι} {infos : ι → List RuleInfo} {found : ι → List Finding}
    (h : ∀ i ∈ parts, Grouped path language (infos i) (found i)) :
    Grouped path language (parts.flatMap infos) (parts.flatMap found) := by
  induction parts with
  | nil => exact .nil
  | cons i parts ih =>
    rw [List.flatMap_cons, List.flatMap_cons]
    have rest := ih fun j hj => h j (List.mem_cons_of_mem i hj)
    exact (h i List.mem_cons_self).append rest

theorem single {info : RuleInfo} {sites : List Site}
    (h : ∀ site ∈ sites, ∃ line column text, site = Site.ofText line column text) :
    Grouped path language [info] (sites.map (Finding.ofSite info path.display language)) := by
  rw [← List.append_nil (sites.map _)]
  refine .cons (fun f hf => ?_) .nil
  obtain ⟨site, hs, rfl⟩ := List.mem_map.mp hf
  obtain ⟨line, column, text, rfl⟩ := h site hs
  exact ⟨line, column, text, rfl⟩

theorem exists_of_mem {infos : List RuleInfo} {found : List Finding}
    (h : Grouped path language infos found) {f : Finding} (hf : f ∈ found) :
    ∃ info ∈ infos, ∃ line column text,
      f = Finding.ofSite info path.display language (Site.ofText line column text) := by
  induction h with
  | nil => cases hf
  | @cons info infos block rest own _ ih =>
    rcases List.mem_append.mp hf with hb | hr
    · exact ⟨info, List.mem_cons_self, own f hb⟩
    · obtain ⟨other, mem, made⟩ := ih hr
      exact ⟨other, List.mem_cons_of_mem info mem, made⟩

/-- If every rule has a kind of its own, no finding stands before one of an earlier rule. -/
theorem ordered {infos : List RuleInfo} {found : List Finding}
    (h : Grouped path language infos found) (distinct : (infos.map (·.kind)).Nodup) :
    found.Pairwise fun f g =>
      (infos.map (·.kind)).idxOf f.kind ≤ (infos.map (·.kind)).idxOf g.kind := by
  induction h with
  | nil => exact .nil
  | @cons info infos block rest own later ih =>
    obtain ⟨fresh, distinct⟩ := List.nodup_cons.mp distinct
    have first : ∀ f ∈ block, (info.kind :: infos.map (·.kind)).idxOf f.kind = 0 := by
      intro f hf
      obtain ⟨line, column, text, rfl⟩ := own f hf
      exact List.idxOf_cons_self
    have after : ∀ g ∈ rest, (info.kind :: infos.map (·.kind)).idxOf g.kind =
        (infos.map (·.kind)).idxOf g.kind + 1 := by
      intro g hg
      obtain ⟨other, mem, line, column, text, rfl⟩ := later.exists_of_mem hg
      refine List.idxOf_cons_ne _ fun same => fresh ?_
      show info.kind ∈ infos.map (·.kind)
      rw [same]
      exact List.mem_map_of_mem mem
    rw [List.map_cons, List.pairwise_append]
    refine ⟨?_, ?_, fun f hf g _ => ?_⟩
    · refine List.pairwise_of_forall_mem_list fun f hf g hg => ?_
      rw [first f hf]
      exact Nat.zero_le _
    · refine (ih distinct).imp_of_mem fun {f g} hf hg le => ?_
      rw [after f hf, after g hg]
      exact Nat.succ_le_succ le
    · rw [first f hf]
      exact Nat.zero_le _

end Grouped

theorem LineRule.exists_text_of_mem {p : Pattern} {first : Nat} {lines : List (List Char)}
    {site : Site} (h : site ∈ sitesFrom p first lines) :
    ∃ line column text, site = Site.ofText line column text := by
  obtain ⟨n, line, -, found⟩ := mem_sitesFrom.mp h
  obtain ⟨offset, -, rfl⟩ := Option.map_eq_some_iff.mp found
  exact ⟨_, _, _, rfl⟩

theorem StructuralRule.allFindings_grouped (path : Path) (language : Language)
    (t : Syntax.Tree) (source : Syntax.Source) :
    Grouped path language (catalog.map (·.info))
      (allFindings path.display language (t.constructs source language)) := by
  rw [List.map_eq_flatMap]
  refine Grouped.flatMap fun rule _ => Grouped.single fun site hs => ?_
  obtain ⟨n, -, rfl⟩ := exists_node_of_mem_sites hs
  exact ⟨_, _, _, rfl⟩

/-! ### The rules of a scan -/

namespace Engine

theorem rules_withReader (read : Detector.TreeReader) :
    (withReader read).rules = standard.rules := rfl

/-- **The findings in a file stand rule by rule**, whatever reads the trees. -/
theorem run_grouped (read : Detector.TreeReader) (path : Path) (language : Language)
    (content : List UInt8) :
    Grouped path language standard.rules ((withReader read).run path language content) := by
  rw [← rules_withReader read]
  refine Grouped.flatMap fun d hd => ?_
  rcases List.mem_append.mp hd with line | tree
  · obtain ⟨rule, -, rfl⟩ := List.mem_map.mp line
    exact Grouped.single fun site => LineRule.exists_text_of_mem
  · rw [List.mem_singleton.mp tree]
    exact StructuralRule.allFindings_grouped path language _ _

/-- A finding of a scan is one of the standard rules at a site of the file. -/
theorem mem_run {read : Detector.TreeReader} {path : Path} {language : Language}
    {content : List UInt8} {f : Finding} (h : f ∈ (withReader read).run path language content) :
    ∃ info ∈ standard.rules, ∃ site, f = Finding.ofSite info path.display language site := by
  obtain ⟨info, mem, line, column, text, made⟩ :=
    (run_grouped read path language content).exists_of_mem h
  exact ⟨info, mem, Site.ofText line column text, made⟩

theorem kinds_nodup : (standard.rules.map (·.kind)).Nodup := by decide

/-- A rule is told by its kind. -/
theorem eq_of_kind_eq {i j : RuleInfo} (hi : i ∈ standard.rules) (hj : j ∈ standard.rules)
    (h : i.kind = j.kind) : i = j :=
  List.inj_on_of_nodup_map kinds_nodup hi hj h

theorem filter_kind_eq {info : RuleInfo} (mem : info ∈ standard.rules) :
    standard.rules.filter (fun rule => rule.kind = info.kind) = [info] := by
  have same : ∀ rule ∈ standard.rules, decide (rule.kind = info.kind) = (rule == info) := by
    intro rule hrule
    rw [Bool.eq_iff_iff, decide_eq_true_iff, beq_iff_eq]
    exact ⟨eq_of_kind_eq hrule mem, congrArg RuleInfo.kind⟩
  have distinct : standard.rules.Nodup := kinds_nodup.of_map
  rw [List.filter_congr same, List.filter_beq, List.count_eq_one_of_mem distinct mem]
  rfl

end Engine

/-! ### What a finding owes to the catalog -/

/-- A finding in a file as the catalog of rules wants it. -/
structure Finding.Conforms (rules : List RuleInfo) (path : Path) (language : Language)
    (f : Finding) : Prop where
  /-- One entry has the finding's kind, and the finding says what it says. -/
  entry : ∃ info, rules.filter (fun rule => rule.kind = f.kind) = [info] ∧
    f.severity = info.severity ∧ f.cwe = info.cwe ∧ f.message = info.message
  file : f.file = path.display
  language : f.language = language
  id : f.id = Finding.idOf f.file f.kind f.line
  column : f.column.isSome = true
  short : f.snippet.toList.length ≤ 123
  trimmed : Text.IsTrimmed f.snippet.toList

/-- **Findings follow the catalog**, whatever the content of a file and whatever tree it is read
into. An excerpt has at most 120 characters and three dots. -/
theorem findings_follow_catalog (read : Detector.TreeReader) (path : Path) (language : Language)
    (content : List UInt8) :
    let engine := Engine.withReader read
    let found := engine.run path language content
    let kinds := engine.rules.map (·.kind)
    (∀ f ∈ found, f.Conforms engine.rules path language) ∧
      found.Pairwise fun f g => kinds.idxOf f.kind ≤ kinds.idxOf g.kind := by
  intro engine found kinds
  have grouped : Grouped path language engine.rules found :=
    Engine.run_grouped read path language content
  refine ⟨fun f hf => ?_, grouped.ordered Engine.kinds_nodup⟩
  obtain ⟨info, mem, line, column, text, rfl⟩ := grouped.exists_of_mem hf
  exact
    { entry := ⟨info, Engine.filter_kind_eq mem, rfl, rfl, rfl⟩
      file := rfl
      language := rfl
      id := rfl
      column := rfl
      short := Site.ofText_snippet_length line column text
      trimmed := Site.ofText_snippet_isTrimmed line column text }

/-- Reads a call on the second line of a file. -/
def secondLineReader : Detector.TreeReader := fun _ _ _ =>
  .node "program" none true 0 22
    [.node "call_expression" none true 15 22
      [.node "identifier" (some "function") true 15 19 [],
       .node "arguments" (some "arguments") true 19 22 [.node "identifier" none true 20 21 []]]]

/-- A file with a finding of a line rule and, below it, one of a structural rule. -/
theorem findings_follow_catalog_two_lines :
    let engine := Engine.withReader secondLineReader
    let path := Path.ofString "a.js"
    let content := Text.Utf8.encode "a.innerHTML =b\neval(c)".toList
    let found := engine.run path .javascript content
    let kinds := engine.rules.map (·.kind)
    found.map (·.kind) = ["xss", "eval_injection"] ∧
      (∃ f ∈ found, f.kind = "eval_injection" ∧ f.Conforms engine.rules path .javascript) ∧
      found.Pairwise fun f g => kinds.idxOf f.kind ≤ kinds.idxOf g.kind := by
  intro engine path content found kinds
  have reported : found.map (·.kind) = ["xss", "eval_injection"] := by decide +kernel
  have mem : "eval_injection" ∈ found.map (·.kind) := by
    rw [reported]
    exact List.mem_cons_of_mem _ List.mem_cons_self
  obtain ⟨f, hf, hk⟩ := List.mem_map.mp mem
  obtain ⟨conforms, ordered⟩ := findings_follow_catalog secondLineReader path .javascript content
  exact ⟨reported, ⟨f, hf, hk, conforms f hf⟩, ordered⟩

end SourceAudit
