import Mathlib.Data.List.Basic
import SourceAudit.Proofs.StableSort
import SourceAudit.Proofs.Tally
import SourceAudit.Report.Console

/-! The report does not depend on the order in which files were scanned.

Files come to a tally in the order in which the workers finish. Numbers and verdicts do not
see that order. The two sorted lists, the canonical one and the one on the console, could see
it, because neither order tells all findings apart: findings of one kind on one line tie. But
both orders look at the file first or before the end, so findings that tie are findings of one
file, and these always come in the order in which the file was scanned. -/
namespace SourceAudit
open StableSort

/-! ### Comparisons -/

section Comparison
variable {α : Type} {cmp : α → α → Ordering}

theorem isLE_trans [Std.TransCmp cmp] (a b c : α) (hab : (cmp a b).isLE = true)
    (hbc : (cmp b c).isLE = true) : (cmp a c).isLE = true :=
  Std.TransCmp.isLE_trans hab hbc

theorem isLE_total [Std.OrientedCmp cmp] (a b : α) :
    ((cmp a b).isLE || (cmp b a).isLE) = true := by
  have swap : cmp b a = (cmp a b).swap := Std.OrientedCmp.eq_swap
  rw [swap]
  cases cmp a b <;> rfl

theorem eq_of_tied [Std.OrientedCmp cmp] {a b : α}
    (h : tied (fun x y => (cmp x y).isLE) a b = true) : cmp a b = .eq := by
  obtain ⟨hab, hba⟩ := tied_iff.mp h
  have swap : cmp b a = (cmp a b).swap := Std.OrientedCmp.eq_swap
  simp only [swap] at hba
  cases hc : cmp a b with
  | lt =>
    rw [hc] at hba
    cases hba
  | eq => rfl
  | gt =>
    rw [hc] at hab
    cases hab

end Comparison

/-- How findings stand to each other in the canonical order. -/
def Report.order : Finding → Finding → Ordering :=
  compareLex (compareOn Finding.file) (compareLex (compareOn Finding.line)
    (compareLex (compareOn Finding.kind) (compareOn Finding.id)))

instance : Std.TransCmp Report.order := by
  unfold Report.order
  infer_instance

theorem Report.precedes_eq : Report.precedes = fun a b => (Report.order a b).isLE := by
  funext a b
  simp only [Report.precedes, Report.order, compareLex, compareOn]
  cases compare a.file b.file <;> cases compare a.line b.line <;>
    cases compare a.kind b.kind <;> rfl

theorem Report.canonicalFindings_perm (r : Report) : r.canonicalFindings.Perm r.findings :=
  List.mergeSort_perm _ _

theorem Report.file_eq_of_order {a b : Finding} (h : Report.order a b = .eq) : a.file = b.file := by
  simp only [Report.order, compareLex, compareOn] at h
  exact Std.LawfulEqOrd.compare_eq_iff_eq.mp (Ordering.then_eq_eq.mp h).1

/-- How findings stand to each other on the console. -/
def Report.Console.order : Finding → Finding → Ordering :=
  compareLex (fun a b => compareOn (·.severity.rank) b a)
    (compareLex (compareOn Finding.file) (compareOn Finding.line))

instance : Std.TransCmp Report.Console.order := by
  unfold Report.Console.order
  infer_instance

theorem Report.Console.precedes_eq :
    Report.Console.precedes = fun a b => (Report.Console.order a b).isLE := by
  funext a b
  simp only [Report.Console.precedes, Report.Console.order, compareLex, compareOn]
  have lt_iff : ∀ s t : Severity, s < t ↔ s.rank < t.rank := fun _ _ => Iff.rfl
  simp only [lt_iff]
  rcases Nat.lt_trichotomy a.severity.rank b.severity.rank with h | h | h
  · rw [if_neg (Nat.lt_asymm h), if_pos h, Nat.compare_eq_gt.mpr h]
    rfl
  · rw [h, if_neg (Nat.lt_irrefl _), if_neg (Nat.lt_irrefl _), Nat.compare_eq_eq.mpr rfl]
    cases compare a.file b.file with
    | lt => rfl
    | eq =>
      show decide (a.line ≤ b.line) = (compare a.line b.line).isLE
      rw [Bool.eq_iff_iff, decide_eq_true_iff, Nat.isLE_compare]
    | gt => rfl
  · rw [if_pos h, Nat.compare_eq_lt.mpr h]
    rfl

theorem Report.Console.file_eq_of_order {a b : Finding} (h : Report.Console.order a b = .eq) :
    a.file = b.file := by
  simp only [Report.Console.order, compareLex, compareOn] at h
  exact Std.LawfulEqOrd.compare_eq_iff_eq.mp (Ordering.then_eq_eq.mp (Ordering.then_eq_eq.mp h).2).1

/-! ### Sorting blocks of findings -/

/-- The files of a list of outcomes have names of their own, and their findings carry them. -/
structure Attributed (os : List FileOutcome) : Prop where
  distinct : (os.map fun o => o.path.display).Nodup
  own : ∀ o ∈ os, ∀ f ∈ o.findings, f.file = o.path.display

theorem mem_counted {least : Severity} {o : FileOutcome} {f : Finding}
    (h : f ∈ Tally.counted least o) : f ∈ o.findings := by
  unfold Tally.counted at h
  split at h
  · cases h
  · exact (List.mem_filter.mp h).1

/-- **Files in any order give the same sorted findings**, for every order that tells the
findings of different files apart. -/
theorem sorted_counted_eq {cmp : Finding → Finding → Ordering} [Std.TransCmp cmp]
    (file_eq : ∀ {a b : Finding}, cmp a b = .eq → a.file = b.file) (least : Severity)
    {os₁ os₂ : List FileOutcome} (perm : os₁.Perm os₂) (h : Attributed os₁) :
    (os₁.flatMap (Tally.counted least)).mergeSort (fun a b => (cmp a b).isLE) =
      (os₂.flatMap (Tally.counted least)).mergeSort (fun a b => (cmp a b).isLE) := by
  refine mergeSort_eq_of_ties isLE_trans isLE_total fun a => ?_
  rw [List.filter_flatMap, List.filter_flatMap]
  -- what ties with `a` stands in the block of the file of `a`
  refine flatMap_eq_of_perm perm h.distinct (n := a.file) fun o ho hne => ?_
  refine List.filter_eq_nil_iff.mpr fun f hf htie => hne ?_
  rw [file_eq (eq_of_tied htie), h.own o ho f (mem_counted hf)]

/-! ### Numbers and verdicts -/

theorem Severity.max_comm (a b : Severity) : a.max b = b.max a := by
  cases a <;> cases b <;> rfl

theorem Severity.max_left_comm (a b c : Severity) : a.max (b.max c) = b.max (a.max c) := by
  cases a <;> cases b <;> cases c <;> rfl

theorem Policy.highest_perm {fs₁ fs₂ : List Finding} (perm : fs₁.Perm fs₂) :
    Policy.highest fs₁ = Policy.highest fs₂ := by
  induction perm with
  | nil => rfl
  | cons f _ ih => rw [Policy.highest, Policy.highest, ih]
  | swap f g l =>
    simp only [Policy.highest]
    cases Policy.highest l with
    | none => exact congrArg some (Severity.max_comm _ _)
    | some s => exact congrArg some (Severity.max_left_comm _ _ _)
  | trans _ _ ih₁ ih₂ => exact ih₁.trans ih₂

theorem Policy.evaluate_perm (policy : Policy) {fs₁ fs₂ : List Finding} (perm : fs₁.Perm fs₂) :
    policy.evaluate fs₁ = policy.evaluate fs₂ := by
  unfold Policy.evaluate
  rw [perm.any_eq, perm.length_eq, Policy.highest_perm perm]

theorem findings_perm (least : Severity) {os₁ os₂ : List FileOutcome} (perm : os₁.Perm os₂) :
    (Tally.ofOutcomes least os₁).findings.Perm (Tally.ofOutcomes least os₂).findings := by
  rw [Tally.ofOutcomes_findings, Tally.ofOutcomes_findings]
  exact perm.flatMap_right _

theorem counts_perm (least : Severity) {os₁ os₂ : List FileOutcome} (perm : os₁.Perm os₂) :
    (Tally.ofOutcomes least os₁).counts = (Tally.ofOutcomes least os₂).counts := by
  apply Counts.ext_get
  intro s
  rw [Tally.ofOutcomes_counts, Tally.ofOutcomes_counts, (findings_perm least perm).countP_eq]

theorem files_length_perm (least : Severity) {os₁ os₂ : List FileOutcome}
    (perm : os₁.Perm os₂) :
    (Tally.ofOutcomes least os₁).files.length = (Tally.ofOutcomes least os₂).files.length := by
  rw [Tally.ofOutcomes_files, Tally.ofOutcomes_files]
  exact (perm.filter _).length_eq

/-- **The report does not depend on the order in which files were scanned.** Findings may tie in both
orders, and nothing is asked of their identifiers. -/
theorem report_independent_of_order (least : Severity) (policy : Policy) (stamp : Stamp)
    (project : String) (truncated : Bool) {os₁ os₂ : List FileOutcome} (perm : os₁.Perm os₂)
    (h : Attributed os₁) :
    let r₁ := (Tally.ofOutcomes least os₁).finish stamp project truncated
    let r₂ := (Tally.ofOutcomes least os₂).finish stamp project truncated
    r₁.summary = r₂.summary ∧
      policy.evaluate r₁.findings = policy.evaluate r₂.findings ∧
      r₁.canonicalFindings = r₂.canonicalFindings ∧
      r₁.canonicalFindings.Perm r₁.findings ∧
      Report.Console.render r₁ (policy.evaluate r₁.findings) =
        Report.Console.render r₂ (policy.evaluate r₂.findings) := by
  intro r₁ r₂
  have findings₁ : r₁.findings = os₁.flatMap (Tally.counted least) :=
    Tally.ofOutcomes_findings least os₁
  have findings₂ : r₂.findings = os₂.flatMap (Tally.counted least) :=
    Tally.ofOutcomes_findings least os₂
  have findings : r₁.findings.Perm r₂.findings := findings_perm least perm
  have summary : r₁.summary = r₂.summary := by
    simp only [r₁, r₂, Tally.finish]
    rw [files_length_perm least perm, (findings_perm least perm).length_eq, counts_perm least perm]
  have verdict := policy.evaluate_perm findings
  have canonical : r₁.canonicalFindings = r₂.canonicalFindings := by
    rw [Report.canonicalFindings, Report.canonicalFindings, findings₁, findings₂,
      Report.precedes_eq]
    exact sorted_counted_eq Report.file_eq_of_order least perm h
  have console : r₁.findings.mergeSort Report.Console.precedes =
      r₂.findings.mergeSort Report.Console.precedes := by
    rw [findings₁, findings₂, Report.Console.precedes_eq]
    exact sorted_counted_eq Report.Console.file_eq_of_order least perm h
  have text : Report.Console.findingsText r₁.findings = Report.Console.findingsText r₂.findings := by
    unfold Report.Console.findingsText
    rw [console, findings.isEmpty_eq]
  refine ⟨summary, verdict, canonical, r₁.canonicalFindings_perm, ?_⟩
  unfold Report.Console.render
  rw [summary, text, verdict]
  rfl

/-- A finding on the first line of a file. -/
def firstLineFinding (file : String) (column : Nat) : Finding :=
  .ofSite ⟨"eval_injection", "Eval Injection", .critical, "CWE-95", "eval", "structural"⟩ file
    .python ⟨1, column, "eval(x)"⟩

/-- The outcome of a file with two findings that tie in both orders. -/
def tiedOutcome (name : String) : FileOutcome :=
  { path := .ofString name
    language := .python
    lines := 1
    findings := [firstLineFinding (Path.ofString name).display 1,
      firstLineFinding (Path.ofString name).display 9]
    error := none }

theorem attributed_two_files : Attributed [tiedOutcome "a.py", tiedOutcome "b.py"] := by
  refine ⟨by decide, fun o ho f hf => ?_⟩
  rcases List.mem_pair.mp ho with rfl | rfl <;> rcases List.mem_pair.mp hf with rfl | rfl <;> rfl

theorem report_independent_of_order_two_files :
    ((Tally.ofOutcomes .info [tiedOutcome "a.py", tiedOutcome "b.py"]).finish ⟨"", ""⟩ "p"
        false).canonicalFindings =
      ((Tally.ofOutcomes .info [tiedOutcome "b.py", tiedOutcome "a.py"]).finish ⟨"", ""⟩ "p"
        false).canonicalFindings :=
  (report_independent_of_order .info {} ⟨"", ""⟩ "p" false (.swap _ _ []) attributed_two_files).2.2.1

end SourceAudit
