import SourceAudit.Proofs.Walk

/-! A rule reports nodes of the tree.

A construct has the site of the node that it is read off, in every language
(`Language.standsAtNodes`). So what a rule reports can be said of the tree alone: the nodes that
pass the rule's test, in pre-order, each with its site (`StructuralRule.sites_eq`). -/
namespace SourceAudit
open Syntax

/-- Constructs have the sites of their nodes. -/
structure Lowering.StandsAtNodes (l : Lowering) : Prop where
  call : ∀ {source t c}, l.call? source t = some c → c.site = Site.ofTree source t
  assignment : ∀ {source t a}, l.assignment? source t = some a → a.site = Site.ofTree source t

namespace Lowering

theorem Ecmascript.standsAtNodes : Ecmascript.lowering.StandsAtNodes where
  call := by
    intro source t c h
    simp only [lowering, call?] at h
    split at h
    · obtain ⟨callee, -, rfl⟩ := Option.map_eq_some_iff.mp h
      rfl
    · obtain ⟨callee, -, rfl⟩ := Option.map_eq_some_iff.mp h
      rfl
    · cases h
  assignment := by
    intro source t a h
    simp only [lowering, assignment?] at h
    split at h
    · obtain ⟨left, -, h⟩ := Option.bind_eq_some_iff.mp h
      obtain ⟨right, -, h⟩ := Option.bind_eq_some_iff.mp h
      cases h
      rfl
    · obtain ⟨left, -, h⟩ := Option.bind_eq_some_iff.mp h
      obtain ⟨right, -, h⟩ := Option.bind_eq_some_iff.mp h
      cases h
      rfl
    · obtain ⟨name, -, rfl⟩ := Option.map_eq_some_iff.mp h
      rfl
    · cases h

theorem Python.standsAtNodes : Python.lowering.StandsAtNodes where
  call := by
    intro source t c h
    simp only [lowering, call?] at h
    split at h
    · obtain ⟨callee, -, rfl⟩ := Option.map_eq_some_iff.mp h
      rfl
    · cases h
  assignment := by
    intro source t a h
    simp only [lowering, assignment?] at h
    split at h
    · obtain ⟨left, -, rfl⟩ := Option.map_eq_some_iff.mp h
      rfl
    · cases h

theorem Golang.standsAtNodes : Golang.lowering.StandsAtNodes where
  call := by
    intro source t c h
    simp only [lowering, call?] at h
    split at h
    · obtain ⟨callee, -, rfl⟩ := Option.map_eq_some_iff.mp h
      rfl
    · cases h
  assignment := by
    intro source t a h
    simp only [lowering, assignment?] at h
    split at h
    · obtain ⟨left, -, rfl⟩ := Option.map_eq_some_iff.mp h
      rfl
    · obtain ⟨left, -, rfl⟩ := Option.map_eq_some_iff.mp h
      rfl
    · split at h
      · cases h
      · cases h
        rfl
    · split at h
      · cases h
      · cases h
        rfl
    · cases h

end Lowering

theorem Language.standsAtNodes (language : Language) : language.lowering.StandsAtNodes := by
  cases language with
  | javascript => exact Lowering.Ecmascript.standsAtNodes
  | typescript => exact Lowering.Ecmascript.standsAtNodes
  | python => exact Lowering.Python.standsAtNodes
  | go => exact Lowering.Golang.standsAtNodes

/-! ### Reported nodes -/

namespace StructuralRule

/-- Whether a rule reports the construct that a node is. -/
def reports (rule : StructuralRule) (source : Source) (language : Language) (t : Tree) : Bool :=
  match rule.criterion with
  | .calls test => (language.lowering.call? source t).any (test language)
  | .assignments test => (language.lowering.assignment? source t).any (test language)

/-- Selecting among what was read off some nodes is selecting among the nodes. -/
theorem map_filter_filterMap {γ : Type} {read : Tree → Option γ} {site : γ → Site}
    {source : Source} (stands : ∀ t c, read t = some c → site c = Site.ofTree source t)
    (test : γ → Bool) (ts : List Tree) :
    ((ts.filterMap read).filter test).map site =
      (ts.filter fun t => (read t).any test).map (Site.ofTree source) := by
  induction ts with
  | nil => rfl
  | cons t ts ih =>
    cases hr : read t with
    | none =>
      rw [List.filterMap_cons_none hr, ih, List.filter_cons_of_neg (by simp [hr])]
    | some c =>
      rw [List.filterMap_cons_some hr]
      by_cases hc : test c = true
      · rw [List.filter_cons_of_pos hc, List.filter_cons_of_pos (by simpa [hr] using hc),
          List.map_cons, List.map_cons, ih, stands t c hr]
      · rw [List.filter_cons_of_neg hc, List.filter_cons_of_neg (by simpa [hr] using hc), ih]

/-- **A rule reports the nodes that pass its test**, in pre-order. -/
theorem sites_eq (rule : StructuralRule) (t : Tree) (source : Source) (language : Language) :
    rule.sites language (t.constructs source language) =
      (t.preorder.filter (rule.reports source language)).map (Site.ofTree source) := by
  have stands := language.standsAtNodes
  unfold sites reports
  cases rule.criterion with
  | calls test =>
    rw [t.calls_eq]
    exact map_filter_filterMap (fun _ _ => stands.call) (test language) t.preorder
  | assignments test =>
    rw [t.assignments_eq]
    exact map_filter_filterMap (fun _ _ => stands.assignment) (test language) t.preorder

/-- If a predicate says which nodes pass a rule's test, the findings are those at its nodes. -/
theorem findings_eq_filter {rule : StructuralRule} {source : Source} {language : Language}
    {P : Tree → Prop} [DecidablePred P] (h : ∀ n, rule.reports source language n = true ↔ P n)
    (t : Tree) (file : String) :
    rule.findings file language (t.constructs source language) =
      (t.preorder.filter fun n => P n).map fun n =>
        Finding.ofSite rule.info file language (Site.ofTree source n) := by
  have same : rule.reports source language = fun n => decide (P n) := by
    funext n
    rw [Bool.eq_iff_iff, decide_eq_true_iff, h]
  rw [findings, sites_eq, same, List.map_map]
  rfl

theorem map_filter_toList {γ : Type} {read : Option γ} {test : γ → Bool} (site : γ → Site)
    (h : read.any test = false) : (read.toList.filter test).map site = [] := by
  cases read with
  | none => rfl
  | some c => exact congrArg (List.map site) (List.filter_cons_of_neg (Bool.not_eq_true _ ▸ h))

/-- A node that fails a rule's test adds nothing to what the rule reports. -/
theorem sites_own_eq_nil {rule : StructuralRule} {source : Source} {language : Language} {t : Tree}
    (h : rule.reports source language t = false) :
    rule.sites language (language.lowering.own source t) = [] := by
  unfold reports at h
  unfold sites
  cases criterion : rule.criterion with
  | calls test =>
    rw [criterion] at h
    exact map_filter_toList _ h
  | assignments test =>
    rw [criterion] at h
    exact map_filter_toList _ h

theorem exists_node_of_mem_sites {rule : StructuralRule} {t : Tree} {source : Source}
    {language : Language} {site : Site}
    (h : site ∈ rule.sites language (t.constructs source language)) :
    ∃ n ∈ t.preorder, site = Site.ofTree source n := by
  rw [sites_eq] at h
  obtain ⟨n, hn, rfl⟩ := List.mem_map.mp h
  exact ⟨n, (List.mem_filter.mp hn).1, rfl⟩

end StructuralRule
end SourceAudit
