import SourceAudit.Proofs.Report.Sarif
import SourceAudit.Proofs.ReportOrder
import SourceAudit.Report.Format

/-! What the text of a report shows.

In JSON the report is read back from its text, and in the interchange format the results and rules
describe its findings. The console is for people: its text is a page of lines with the numbers, the
findings from the gravest on and the verdict (`Console.Shows`). `render_displays` says for each format
what a text tells about the report that it was made from. -/
namespace SourceAudit.Report

/-! ### The console -/

namespace Console

/-- The text of some lines. -/
def page (lines : List String) : String := String.join (lines.map (· ++ "\n"))

/-- The lines above the findings. -/
def heading (r : Report) : List String :=
  let number (s : Severity) : String := s.tag ++ ": " ++ toString (r.summary.bySeverity.get s)
  ["", "  " ++ programName ++ ": " ++ r.project,
    "  Files scanned: " ++ toString r.summary.totalFiles] ++
  (if r.truncated then ["  Scan cancelled: results are partial."] else []) ++
  ["  Findings: " ++ toString r.summary.totalFindings ++ " (" ++ number .critical ++ ", " ++
      number .high ++ ", " ++ number .medium ++ ", " ++ number .low ++ ", " ++ number .info ++ ")", ""]

/-- The lines of a finding: what and how grave it is, where, and in which text. -/
def findingLines (f : Finding) : List String :=
  ["  " ++ label f.severity ++ " " ++ f.kind ++ " " ++ f.message ++ " (" ++ f.cwe ++ ")",
    "           at " ++ f.file ++ ":" ++ toString f.line, "           " ++ f.snippet, ""]

/-- The lines of some findings in their order. -/
def body (listed : List Finding) : List String :=
  if listed = [] then ["  No security findings detected.", ""] else listed.flatMap findingLines

/-- The lines below the findings. -/
def closing (v : Verdict) : List String :=
  ["  Result: " ++ (if v.pass then "PASS" else "FAIL") ++ " (threshold: " ++
    severityText v.threshold ++ ", highest: " ++ severityText v.highest ++ ")", ""]

/-- A page with the findings of a report, the gravest first. -/
def Shows (r : Report) (v : Verdict) (text : String) : Prop :=
  ∃ listed : List Finding, listed.Perm r.findings ∧
    listed.Pairwise (fun f g => (order f g).isLE = true) ∧
    text = page (heading r ++ body listed ++ closing v)

theorem page_nil : page [] = "" := rfl

theorem page_cons (line : String) (lines : List String) :
    page (line :: lines) = line ++ ("\n" ++ page lines) := by
  rw [page, List.map_cons, String.join_cons, String.append_assoc]
  rfl

theorem page_append (a b : List String) : page (a ++ b) = page a ++ page b := by
  rw [page, List.map_append, String.join_append]
  rfl

theorem bracket_newline : ")\n" = ")" ++ "\n" := by simp only [String.reduceAppend]

theorem two_newlines : "\n\n" = "\n" ++ "\n" := by simp only [String.reduceAppend]

theorem findingText_eq (f : Finding) : findingText f = page (findingLines f) := by
  unfold findingText findingLines
  simp only [page_cons, page_nil, String.append_assoc, String.empty_append, String.append_empty]
  simp only [bracket_newline, two_newlines, String.append_assoc]

theorem findingsText_eq (findings : List Finding) :
    findingsText findings = "\n" ++ page (body (findings.mergeSort precedes)) := by
  unfold findingsText body
  cases findings with
  | nil =>
    rw [List.mergeSort_nil, if_pos rfl]
    decide
  | cons f fs =>
    have listed : (f :: fs).mergeSort precedes ≠ [] := by
      rw [← List.length_pos_iff, List.length_mergeSort]
      exact Nat.succ_pos _
    rw [if_neg (by simp), if_neg listed]
    congr 1
    induction (f :: fs).mergeSort precedes with
    | nil => rfl
    | cons g listed ih =>
      rw [List.map_cons, String.join_cons, List.flatMap_cons, page_append, findingText_eq, ih]

theorem verdictText_eq (v : Verdict) : verdictText v = page (closing v) := by
  have ending : ")\n\n" = ")" ++ ("\n" ++ "\n") := by simp only [String.reduceAppend]
  unfold verdictText closing
  simp only [page_cons, page_nil, String.append_assoc, String.empty_append, String.append_empty]
  simp only [ending]

theorem countsText_eq (c : Counts) :
    countsText c =
      Severity.critical.tag ++ ": " ++ toString (c.get .critical) ++ ", " ++
      (Severity.high.tag ++ ": " ++ toString (c.get .high)) ++ ", " ++
      (Severity.medium.tag ++ ": " ++ toString (c.get .medium)) ++ ", " ++
      (Severity.low.tag ++ ": " ++ toString (c.get .low)) ++ ", " ++
      (Severity.info.tag ++ ": " ++ toString (c.get .info)) := rfl

/-- The text above the findings, but for the empty line after it. -/
theorem page_heading (r : Report) :
    "\n  " ++ programName ++ ": " ++ r.project ++ "\n" ++
      "  Files scanned: " ++ toString r.summary.totalFiles ++ "\n" ++
      (if r.truncated then "  Scan cancelled: results are partial.\n" else "") ++
      "  Findings: " ++ toString r.summary.totalFindings ++ " (" ++
      countsText r.summary.bySeverity ++ ")\n" ++ "\n" = page (heading r) := by
  have indent : "\n  " = "\n" ++ "  " := by simp only [String.reduceAppend]
  have cancelled : "  Scan cancelled: results are partial.\n" =
      "  Scan cancelled: results are partial." ++ "\n" := by simp only [String.reduceAppend]
  rw [countsText_eq]
  unfold heading
  cases r.truncated with
  | false =>
    simp only [page_cons, page_nil, String.append_assoc, String.empty_append, String.append_empty,
      List.cons_append, List.nil_append, Bool.false_eq_true, ↓reduceIte]
    simp only [indent, bracket_newline, String.append_assoc]
  | true =>
    simp only [page_cons, page_nil, String.append_assoc, String.empty_append, String.append_empty,
      List.cons_append, List.nil_append, ↓reduceIte]
    simp only [indent, cancelled, bracket_newline, String.append_assoc]

theorem render_shows (r : Report) (v : Verdict) : Shows r v (render r v) := by
  refine ⟨r.findings.mergeSort precedes, List.mergeSort_perm _ _, ?_, ?_⟩
  · rw [precedes_eq]
    exact List.pairwise_mergeSort isLE_trans isLE_total r.findings
  · unfold render
    simp only [page_append, findingsText_eq, verdictText_eq]
    rw [← page_heading, ← String.append_assoc]

end Console

/-! ### All formats -/

/-- What a text tells about a report and the verdict on it, by format. Numbers are read back if they
have at most 64 bits. -/
def Displays (r : Report) (v : Verdict) (text : String) : Format → Prop
  | .console => Console.Shows r v text
  | .json => r.Fits → ofText? text = some { r with files := [] }
  | .sarif => (∀ f ∈ r.findings, f.Fits) →
      ∃ results rules, Sarif.results? text = some results ∧ Sarif.rules? text = some rules ∧
        Sarif.Describes r.findings results rules

/-- **In each format, the text of a report shows the report.** -/
theorem render_displays (r : Report) (v : Verdict) (format : Format) :
    r.Displays v (r.render v format) format := by
  cases format with
  | console => exact Console.render_shows r v
  | json =>
    intro fits
    show ofText? r.toText = _
    rw [ofText?, ofText?_toText fits, Option.bind_some, ofJson?_toJson fits]
  | sarif =>
    intro fits
    exact ⟨_, _, Sarif.results?_render fits r.project, Sarif.rules?_render fits r.project,
      Sarif.describes r.findings⟩

end SourceAudit.Report
