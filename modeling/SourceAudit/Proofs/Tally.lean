import SourceAudit.Report

/-! What a tally holds.

A tally takes outcomes one by one; at any point it holds the outcomes without an error in the
order in which they came, the findings of these that are grave enough, and the number of those
of each severity (`ofOutcomes_files`, `ofOutcomes_findings`, `ofOutcomes_counts`). `Holds` says
so in one place, together with what follows for the sums; it is true after each outcome and of
the finished report (`holds_after_each_outcome`). -/
namespace SourceAudit

namespace Counts

theorem get_record (c : Counts) (s t : Severity) :
    (c.record s).get t = c.get t + if s = t then 1 else 0 := by
  cases s <;> cases t <;> rfl

theorem ext_get {c d : Counts} (h : ∀ s, c.get s = d.get s) : c = d := by
  cases c
  cases d
  simp only [Counts.mk.injEq]
  exact ⟨h .critical, h .high, h .medium, h .low, h .info⟩

theorem get_foldl_record (c : Counts) (fs : List Finding) (s : Severity) :
    (fs.foldl (fun c f => c.record f.severity) c).get s =
      c.get s + fs.countP (fun f => f.severity = s) := by
  induction fs generalizing c with
  | nil => rfl
  | cons f fs ih =>
    rw [List.foldl_cons, ih, get_record, List.countP_cons]
    simp only [decide_eq_true_eq]
    omega

/-- Every finding has one of the five severities. -/
theorem total_eq_length {c : Counts} {fs : List Finding}
    (h : ∀ s, c.get s = fs.countP fun f => f.severity = s) : c.total = fs.length := by
  have sum : c.total =
      c.get .critical + c.get .high + c.get .medium + c.get .low + c.get .info := rfl
  rw [sum, h, h, h, h, h]
  clear sum h
  induction fs with
  | nil => rfl
  | cons f fs ih =>
    simp only [List.countP_cons, List.length_cons, decide_eq_true_eq]
    cases f.severity <;> simp <;> omega

end Counts

namespace Tally

/-- The findings of an outcome that a tally counts. -/
def counted (least : Severity) (o : FileOutcome) : List Finding :=
  if o.error.isSome then [] else o.findings.filter fun f => least ≤ f.severity

theorem foldl_addFinding (t : Tally) (fs : List Finding) :
    fs.foldl addFinding t =
      { t with
        findings := t.findings ++ fs.filter fun f => t.least ≤ f.severity
        counts := (fs.filter fun f => t.least ≤ f.severity).foldl
          (fun c f => c.record f.severity) t.counts } := by
  induction fs generalizing t with
  | nil => simp
  | cons f fs ih =>
    rw [List.foldl_cons, ih]
    by_cases h : t.least ≤ f.severity
    · simp [addFinding, h]
    · simp [addFinding, h]

/-- Adding an outcome, as one step. -/
theorem add_eq (t : Tally) (o : FileOutcome) :
    t.add o =
      { least := t.least
        files := t.files ++ if o.error.isSome then [] else [o]
        findings := t.findings ++ counted t.least o
        counts := (counted t.least o).foldl (fun c f => c.record f.severity) t.counts } := by
  unfold add counted
  split
  · simp
  · rw [foldl_addFinding]

theorem foldl_add (t : Tally) (os : List FileOutcome) :
    os.foldl add t =
      { least := t.least
        files := t.files ++ os.filter fun o => o.error.isNone
        findings := t.findings ++ os.flatMap (counted t.least)
        counts := (os.flatMap (counted t.least)).foldl (fun c f => c.record f.severity) t.counts } := by
  induction os generalizing t with
  | nil => simp
  | cons o os ih =>
    rw [List.foldl_cons, ih, add_eq]
    cases h : o.error <;> simp [h]

theorem ofOutcomes_files (least : Severity) (os : List FileOutcome) :
    (ofOutcomes least os).files = os.filter fun o => o.error.isNone := by
  rw [ofOutcomes, foldl_add]
  rfl

theorem ofOutcomes_findings (least : Severity) (os : List FileOutcome) :
    (ofOutcomes least os).findings = os.flatMap (counted least) := by
  rw [ofOutcomes, foldl_add]
  rfl

theorem ofOutcomes_counts (least : Severity) (os : List FileOutcome) (s : Severity) :
    (ofOutcomes least os).counts.get s =
      (ofOutcomes least os).findings.countP (fun f => f.severity = s) := by
  rw [ofOutcomes_findings, ofOutcomes, foldl_add, Counts.get_foldl_record]
  cases s <;> exact Nat.zero_add _

/-! ### What holds after each outcome -/

/-- What files, findings and counts are after some outcomes came in. -/
structure Holds (least : Severity) (os : List FileOutcome) (files : List FileOutcome)
    (findings : List Finding) (counts : Counts) : Prop where
  /-- The files are the outcomes without an error, with all their findings. -/
  files_eq : files = os.filter fun o => o.error.isNone
  /-- The findings are those of the files that are grave enough. -/
  findings_eq : findings = files.flatMap fun o => o.findings.filter fun f => least ≤ f.severity
  get_eq : ∀ s, counts.get s = findings.countP fun f => f.severity = s
  get_below : ∀ s, s < least → counts.get s = 0
  total_eq : counts.total = findings.length

theorem flatMap_counted (least : Severity) (os : List FileOutcome) :
    os.flatMap (counted least) =
      (os.filter fun o => o.error.isNone).flatMap fun o =>
        o.findings.filter fun f => least ≤ f.severity := by
  induction os with
  | nil => rfl
  | cons o os ih =>
    cases h : o.error <;> simp [counted, h, ih]

theorem le_of_mem_findings {least : Severity} {os : List FileOutcome} {f : Finding}
    (h : f ∈ (ofOutcomes least os).findings) : least ≤ f.severity := by
  rw [ofOutcomes_findings, flatMap_counted] at h
  obtain ⟨o, -, hf⟩ := List.mem_flatMap.mp h
  simpa using (List.mem_filter.mp hf).2

theorem ofOutcomes_holds (least : Severity) (os : List FileOutcome) :
    Holds least os (ofOutcomes least os).files (ofOutcomes least os).findings
      (ofOutcomes least os).counts where
  files_eq := ofOutcomes_files least os
  findings_eq := by rw [ofOutcomes_files, ofOutcomes_findings, flatMap_counted]
  get_eq := ofOutcomes_counts least os
  get_below := by
    intro s below
    rw [ofOutcomes_counts, List.countP_eq_zero]
    intro f hf
    have grave : least ≤ f.severity := le_of_mem_findings hf
    have differ : f.severity ≠ s := fun h => Nat.not_le.mpr below (h ▸ grave)
    simpa using differ
  total_eq := Counts.total_eq_length (ofOutcomes_counts least os)

theorem ofOutcomes_snoc (least : Severity) (os : List FileOutcome) (o : FileOutcome) :
    ofOutcomes least (os ++ [o]) = (ofOutcomes least os).add o := by
  simp [ofOutcomes]

theorem add_of_error (t : Tally) {o : FileOutcome} (h : o.error.isSome = true) : t.add o = t :=
  if_pos h

/-- **What a tally holds after each outcome, and what its report holds.** An outcome with an error
changes no tally, whatever findings it carries. -/
theorem holds_after_each_outcome (least : Severity) (os : List FileOutcome) (stamp : Stamp)
    (project : String) (truncated : Bool) :
    let after (n : Nat) := ofOutcomes least (os.take n)
    let report := (ofOutcomes least os).finish stamp project truncated
    (∀ n, Holds least (os.take n) (after n).files (after n).findings (after n).counts) ∧
      after 0 = { least } ∧
      (∀ n o, os[n]? = some o → after (n + 1) = (after n).add o) ∧
      Holds least os report.files report.findings report.summary.bySeverity ∧
      report.summary.bySeverity.total = report.summary.totalFindings ∧
      report.summary.totalFindings = report.findings.length ∧
      report.summary.totalFiles = report.files.length ∧
      ∀ (t : Tally) (o : FileOutcome), o.error.isSome = true → t.add o = t := by
  intro after report
  have steps : ∀ n o, os[n]? = some o → after (n + 1) = (after n).add o := by
    intro n o next
    show ofOutcomes least (os.take (n + 1)) = _
    rw [List.take_add_one, next]
    exact ofOutcomes_snoc least (os.take n) o
  refine ⟨fun n => ofOutcomes_holds least (os.take n), rfl, steps, ofOutcomes_holds least os,
    (ofOutcomes_holds least os).total_eq, rfl, rfl, fun t o h => add_of_error t h⟩

end Tally
end SourceAudit
