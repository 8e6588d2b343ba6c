import SourceAudit.Proofs.Pipeline.Accounting
import SourceAudit.Proofs.Pipeline.Progress
import SourceAudit.Proofs.ReportOrder

/-! A scan that nobody cancels.

Whichever way the workers take turns, at the end of a run that was not cancelled every file has been
scanned once (`collected_perm`). So all reports that a scan may give agree, up to the order of what
they list, with the report of a scan that takes one file after the other (`MayReport.agrees`). -/
namespace SourceAudit.Scan

/-! ### Runs without a cancellation -/

namespace Pipeline
variable {α β : Type} {scan : α → β} {key : β → α} {capacity : Nat} {jobs : List α}
  {s t : State α β}

theorem event_cancelled (h : Event scan capacity s t) : t.cancelled = s.cancelled := by
  cases h <;> rfl

theorem runFor_cancelled (n : Nat) (s : State α β) :
    (runFor scan capacity n s).cancelled = s.cancelled := by
  induction n generalizing s with
  | zero => rfl
  | succ n ih =>
    unfold runFor
    split
    next t ht => rw [ih, event_cancelled (move_event (advance_move ht))]
    next => rfl

/-- **A run that was not cancelled ends with one result for every item.** -/
theorem collected_perm [DecidableEq α] (hs : Sound scan key jobs s) (hf : s.isFinal = true)
    (hc : s.cancelled = false) : s.collected.Perm (jobs.map scan) := by
  have stopped := hs.calm hc
  have results : (s.collected.map key).map scan = s.collected := by
    rw [List.map_map]
    nth_rewrite 2 [← List.map_id s.collected]
    exact List.map_congr_left fun r hr => hs.genuine r (.inr (.inl hr))
  have items : (s.collected.map key).Perm jobs := by
    rw [List.perm_iff_count]
    intro x
    have held := final_held hs hf x
    rw [final_items hs hf stopped, List.count_nil, Nat.zero_add] at held
    rw [← held, hs.complete stopped x]
  rw [← results]
  exact items.map scan

end Pipeline

/-! ### The reports of a scan -/

/-- The same report, but for the stamp and the order of what it lists. -/
structure Agrees (r s : Report) : Prop where
  project : r.project = s.project
  summary : r.summary = s.summary
  truncated : r.truncated = s.truncated
  findings : r.findings.Perm s.findings
  files : r.files.Perm s.files

theorem agrees_of_perm (least : Severity) (stamp : Stamp) (project : String) (truncated : Bool)
    {os₁ os₂ : List FileOutcome} (perm : os₁.Perm os₂) :
    Agrees ((Tally.ofOutcomes least os₁).finish stamp project truncated)
      ((Tally.ofOutcomes least os₂).finish stamp project truncated) where
  project := rfl
  summary := by
    unfold Tally.finish
    rw [files_length_perm least perm, (findings_perm least perm).length_eq, counts_perm least perm]
  truncated := rfl
  findings := findings_perm least perm
  files := by
    show (Tally.ofOutcomes least os₁).files.Perm (Tally.ofOutcomes least os₂).files
    rw [Tally.ofOutcomes_files, Tally.ofOutcomes_files]
    exact perm.filter _

/-- What a scan looks at and how, with nothing left to defaults. -/
@[ext]
structure Plan where
  languages : List Language
  excluded : List String
  workers : Nat
  least : Severity
  failOn : Option Severity
  deriving DecidableEq

namespace Plan
variable (plan : Plan) (engine : Engine) (host : Host) (root : Path)

def jobs : List Job := discover host.fs root plan.languages plan.excluded

/-- The report of a scan that takes one file after the other. -/
def fileByFile : Report :=
  (Tally.ofOutcomes plan.least ((plan.jobs host root).map (scanFile engine host.fs))).finish
    host.stamp (projectName host.fs root) false

/-- The verdict on that report. -/
def verdict : Verdict := Policy.evaluate ⟨plan.failOn⟩ (plan.fileByFile engine host root).findings

/-- A report that the workers of a scan may come to, whichever way they take turns, as long as
nobody cancels it. -/
inductive MayReport : Report → Prop
  | intro {last : Pipeline.State Job FileOutcome}
      (reached : Pipeline.Reaches (scanFile engine host.fs) (2 * plan.workers)
        (.initial (plan.jobs host root) plan.workers false) last)
      (final : last.isFinal = true) (calm : last.cancelled = false) :
      MayReport ((Tally.ofOutcomes plan.least last.collected).finish host.stamp
        (projectName host.fs root) last.stopped)

variable {plan engine host root}

/-- **However its workers take turns, a scan comes to the report of taking one file after the
other.** -/
theorem MayReport.agrees {report : Report} (workers : 1 ≤ plan.workers)
    (h : plan.MayReport engine host root report) :
    Agrees report (plan.fileByFile engine host root) := by
  cases h with
  | @intro last reached final calm =>
    have sound : Pipeline.Sound (scanFile engine host.fs) jobOf (plan.jobs host root) last :=
      Pipeline.sound_reaches (jobOf_scanFile engine host.fs)
        (Pipeline.sound_initial _ workers false) reached
    rw [sound.calm calm]
    exact agrees_of_perm _ _ _ _ (Pipeline.collected_perm sound final calm)

/-- The plan that settings and a threshold come to. -/
def ofSettings (settings : Settings) (failOn : Option Severity) (processors : Nat) : Plan :=
  let resolved := settings.resolve processors
  ⟨resolved.languages, resolved.exclude, resolved.workers, resolved.least, failOn⟩

theorem mayReport_outcome (settings : Settings) (failOn : Option Severity) :
    (ofSettings settings failOn host.processors).MayReport engine host root
      (reportOn host root settings (outcome engine host root settings false)) := by
  have workers := one_le_workers settings host.processors
  have capacity : 0 < 2 * (settings.resolve host.processors).workers := by omega
  let last := outcome engine host root settings false
  have ends : Pipeline.Reaches (scanFile engine host.fs) _ _ last ∧ last.isFinal = true :=
    Pipeline.run_reaches_final capacity _
  exact .intro ends.1 ends.2 (Pipeline.runFor_cancelled _ _)

end Plan
end SourceAudit.Scan
