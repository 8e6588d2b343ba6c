import SourceAudit.Proofs.Tally

/-! When a scan fails.

A finding is looked at twice on its way to the verdict: the tally leaves it out if it is below
the least severity, and the policy then holds it against the threshold. The verdict gives the
gravest severity beside the decision, and finds it on a way of its own.

`verdict_fails_iff`: a scan fails exactly if a file that was read has a finding that passes both
bounds, which is the case exactly if the gravest severity reaches the threshold. So a higher
bound of either kind never makes a scan fail that passed, and the lower of the two does not
count if it is the least severity. -/
namespace SourceAudit

namespace Severity

theorem le_trans {a b c : Severity} (hab : a ≤ b) (hbc : b ≤ c) : a ≤ c :=
  Nat.le_trans hab hbc

theorem le_antisymm {a b : Severity} (hab : a ≤ b) (hba : b ≤ a) : a = b := by
  have rank_eq : a.rank = b.rank := Nat.le_antisymm hab hba
  cases a <;> cases b <;> first | rfl | cases rank_eq

theorem le_total (a b : Severity) : a ≤ b ∨ b ≤ a :=
  Nat.le_total a.rank b.rank

theorem max_le_iff {a b c : Severity} : a.max b ≤ c ↔ a ≤ c ∧ b ≤ c := by
  unfold max
  split
  next hab => exact ⟨fun h => ⟨le_trans hab h, h⟩, fun h => h.2⟩
  next hab =>
    have hba : b ≤ a := (le_total a b).resolve_left hab
    exact ⟨fun h => ⟨h, le_trans hba h⟩, fun h => h.1⟩

theorem max_cases (a b : Severity) : a.max b = a ∨ a.max b = b := by
  unfold max
  split
  · exact .inr rfl
  · exact .inl rfl

end Severity

/-! ### The gravest finding -/

/-- A severity that some finding has and none exceeds. -/
structure Policy.IsHighest (fs : List Finding) (s : Severity) : Prop where
  reached : ∃ f ∈ fs, f.severity = s
  bound : ∀ f ∈ fs, f.severity ≤ s

namespace Policy

theorem IsHighest.unique {fs : List Finding} {s t : Severity} (hs : IsHighest fs s)
    (ht : IsHighest fs t) : s = t := by
  obtain ⟨f, hf, rfl⟩ := hs.reached
  obtain ⟨g, hg, rfl⟩ := ht.reached
  exact Severity.le_antisymm (ht.bound f hf) (hs.bound g hg)

theorem isHighest_cons {f : Finding} {fs : List Finding} {s : Severity} (h : IsHighest fs s) :
    IsHighest (f :: fs) (f.severity.max s) := by
  have bounds := Severity.max_le_iff.mp (Nat.le_refl (f.severity.max s).rank)
  refine ⟨?_, fun g hg => ?_⟩
  · rcases Severity.max_cases f.severity s with first | later
    · exact ⟨f, List.mem_cons_self, first.symm⟩
    · obtain ⟨g, hg, hs⟩ := h.reached
      exact ⟨g, List.mem_cons_of_mem f hg, hs.trans later.symm⟩
  · rcases List.mem_cons.mp hg with rfl | hg
    · exact bounds.1
    · exact Severity.le_trans (h.bound g hg) bounds.2

theorem highest_eq_none_iff (fs : List Finding) : highest fs = none ↔ fs = [] := by
  cases fs with
  | nil => simp [highest]
  | cons f fs => cases h : highest fs <;> simp [highest, h]

theorem isHighest_of_highest {fs : List Finding} {s : Severity} (h : highest fs = some s) :
    IsHighest fs s := by
  induction fs generalizing s with
  | nil => cases h
  | cons f fs ih =>
    rw [highest] at h
    cases rest : highest fs with
    | none =>
      rw [rest] at h
      cases h
      obtain rfl := (highest_eq_none_iff fs).mp rest
      exact ⟨⟨f, List.mem_singleton_self f, rfl⟩, fun g hg => by
        rw [List.mem_singleton.mp hg]
        exact Nat.le_refl _⟩
    | some t =>
      rw [rest] at h
      cases h
      exact isHighest_cons (ih rest)

theorem highest_eq_some_iff (fs : List Finding) (s : Severity) :
    highest fs = some s ↔ IsHighest fs s := by
  refine ⟨isHighest_of_highest, fun h => ?_⟩
  cases found : highest fs with
  | none =>
    obtain ⟨f, hf, -⟩ := h.reached
    rw [(highest_eq_none_iff fs).mp found] at hf
    cases hf
  | some t => rw [(isHighest_of_highest found).unique h]

/-! ### The decision -/

theorem pass_eq_false_iff (p : Policy) (fs : List Finding) :
    (p.evaluate fs).pass = false ↔ ∃ t ∈ p.failOn, ∃ f ∈ fs, t ≤ f.severity := by
  cases h : p.failOn with
  | none => simp [evaluate, rejects, h]
  | some t => simp [evaluate, rejects, h]

theorem pass_eq_false_iff_highest (p : Policy) (fs : List Finding) :
    (p.evaluate fs).pass = false ↔
      ∃ s ∈ (p.evaluate fs).highest, ∃ t ∈ p.failOn, t ≤ s := by
  rw [pass_eq_false_iff]
  constructor
  · rintro ⟨t, ht, f, hf, le⟩
    cases found : highest fs with
    | none =>
      rw [(highest_eq_none_iff fs).mp found] at hf
      cases hf
    | some s =>
      have bound := (isHighest_of_highest found).bound f hf
      exact ⟨s, found, t, ht, Severity.le_trans le bound⟩
  · rintro ⟨s, found, t, ht, le⟩
    obtain ⟨f, hf, rfl⟩ := (isHighest_of_highest found).reached
    exact ⟨t, ht, f, hf, le⟩

end Policy

/-! ### The verdict on outcomes -/

theorem Tally.mem_findings {least : Severity} {os : List FileOutcome} {f : Finding} :
    f ∈ (ofOutcomes least os).findings ↔
      ∃ o ∈ os, o.error = none ∧ f ∈ o.findings ∧ least ≤ f.severity := by
  rw [ofOutcomes_findings, flatMap_counted]
  simp [and_assoc]

theorem pass_eq_false_iff_outcome (least : Severity) (failOn : Option Severity)
    (os : List FileOutcome) :
    ((Policy.mk failOn).evaluate (Tally.ofOutcomes least os).findings).pass = false ↔
      ∃ t ∈ failOn, ∃ o ∈ os, o.error = none ∧ ∃ f ∈ o.findings, least.max t ≤ f.severity := by
  rw [Policy.pass_eq_false_iff]
  constructor
  · rintro ⟨t, ht, f, hf, le⟩
    obtain ⟨o, ho, read, hfo, grave⟩ := Tally.mem_findings.mp hf
    exact ⟨t, ht, o, ho, read, f, hfo, Severity.max_le_iff.mpr ⟨grave, le⟩⟩
  · rintro ⟨t, ht, o, ho, read, f, hfo, le⟩
    obtain ⟨grave, le⟩ := Severity.max_le_iff.mp le
    exact ⟨t, ht, f, Tally.mem_findings.mpr ⟨o, ho, read, hfo, grave⟩, le⟩

/-- What reaches the higher bounds reaches the lower ones. -/
theorem fails_of_raised {least least' : Severity} {failOn failOn' : Option Severity}
    {os : List FileOutcome} (raise_least : least ≤ least')
    (raise_threshold : ∀ t' ∈ failOn', ∃ t ∈ failOn, t ≤ t')
    (failed : ((Policy.mk failOn').evaluate (Tally.ofOutcomes least' os).findings).pass = false) :
    ((Policy.mk failOn).evaluate (Tally.ofOutcomes least os).findings).pass = false := by
  obtain ⟨t', ht', o, ho, read, f, hf, le⟩ := (pass_eq_false_iff_outcome _ _ os).mp failed
  obtain ⟨t, ht, lower⟩ := raise_threshold t' ht'
  obtain ⟨grave, le⟩ := Severity.max_le_iff.mp le
  have reaches : least.max t ≤ f.severity := Severity.max_le_iff.mpr
    ⟨Severity.le_trans raise_least grave, Severity.le_trans lower le⟩
  exact (pass_eq_false_iff_outcome _ _ os).mpr ⟨t, ht, o, ho, read, f, hf, reaches⟩

/-- A least severity up to the threshold leaves out nothing that could fail the scan. -/
theorem fails_iff_of_le {least t : Severity} (os : List FileOutcome) (h : least ≤ t) :
    ((Policy.mk (some t)).evaluate (Tally.ofOutcomes least os).findings).pass = false ↔
      ∃ o ∈ os, o.error = none ∧ ∃ f ∈ o.findings, t ≤ f.severity := by
  have absorbed : ∀ f : Finding, least.max t ≤ f.severity ↔ t ≤ f.severity := by
    intro f
    rw [Severity.max_le_iff]
    exact ⟨fun le => le.2, fun le => ⟨Severity.le_trans h le, le⟩⟩
  rw [pass_eq_false_iff_outcome]
  simp [absorbed]

/-- **When a scan fails.** Raising a bound, or giving up the threshold, never turns a pass into a
failure, and a least severity up to the threshold makes no difference. -/
theorem verdict_fails_iff (os : List FileOutcome) (stamp : Stamp) (project : String)
    (truncated : Bool) :
    let reported (m : Severity) := ((Tally.ofOutcomes m os).finish stamp project truncated).findings
    let verdict (m : Severity) (t : Option Severity) := (Policy.mk t).evaluate (reported m)
    (∀ m t, (verdict m t).pass = false ↔
      ∃ s ∈ t, ∃ o ∈ os, o.error = none ∧ ∃ f ∈ o.findings, m.max s ≤ f.severity) ∧
    (∀ m t, (verdict m t).pass = false ↔ ∃ h ∈ (verdict m t).highest, ∃ s ∈ t, s ≤ h) ∧
    (∀ m t, (verdict m t).highest = none ↔ reported m = []) ∧
    (∀ m t h, (verdict m t).highest = some h ↔ Policy.IsHighest (reported m) h) ∧
    (∀ m m' t t', m ≤ m' → (∀ s' ∈ t', ∃ s ∈ t, s ≤ s') →
      (verdict m t).pass = true → (verdict m' t').pass = true) ∧
    ∀ m m' s, m ≤ s → m' ≤ s → (verdict m (some s)).pass = (verdict m' (some s)).pass := by
  intro reported verdict
  refine ⟨fun m t => pass_eq_false_iff_outcome m t os,
    fun m t => Policy.pass_eq_false_iff_highest _ _, fun m t => Policy.highest_eq_none_iff _,
    fun m t h => Policy.highest_eq_some_iff _ h, ?_, ?_⟩
  · intro m m' t t' raise_least raise_threshold pass
    cases raised : (verdict m' t').pass with
    | true => rfl
    | false =>
      have failed : (verdict m t).pass = false := fails_of_raised raise_least raise_threshold raised
      rw [failed] at pass
      cases pass
  · intro m m' s hm hm'
    have same : (verdict m (some s)).pass = false ↔ (verdict m' (some s)).pass = false :=
      (fails_iff_of_le os hm).trans (fails_iff_of_le os hm').symm
    have eq_of_iff : ∀ a b : Bool, (a = false ↔ b = false) → a = b := by decide
    exact eq_of_iff _ _ same

/-- A file with a finding of low and one of high severity. -/
def mixedOutcome : FileOutcome :=
  { path := .ofString "a.py"
    language := .python
    lines := 2
    findings :=
      [{ id := "", kind := "low", severity := .low, file := "a.py", line := 1, column := none,
         snippet := "", message := "", cwe := "", language := .python },
       { id := "", kind := "high", severity := .high, file := "a.py", line := 2, column := none,
         snippet := "", message := "", cwe := "", language := .python }]
    error := none }

/-- The file fails a scan at the threshold `high`, whichever least severity up to it is asked for,
and passes at `critical`, also if less is reported. -/
theorem verdict_fails_iff_mixed :
    let reported (m : Severity) :=
      ((Tally.ofOutcomes m [mixedOutcome]).finish ⟨"", ""⟩ "p" false).findings
    let verdict (m : Severity) (t : Option Severity) := (Policy.mk t).evaluate (reported m)
    (verdict .low (some .high)).pass = false ∧
      (verdict .low (some .high)).pass = (verdict .high (some .high)).pass ∧
      (verdict .low (some .critical)).pass = true ∧
      (verdict .critical (some .critical)).pass = true := by
  intro reported verdict
  obtain ⟨fails, -, -, -, raised, absorbed⟩ := verdict_fails_iff [mixedOutcome] ⟨"", ""⟩ "p" false
  refine ⟨(fails _ _).mpr ?_, absorbed .low .high .high (by decide) (by decide), by decide,
    raised .low .critical (some .critical) (some .critical) (by decide) ?_ (by decide)⟩
  · refine ⟨.high, rfl, mixedOutcome, List.mem_singleton_self _, rfl, ?_⟩
    exact ⟨_, List.mem_cons_of_mem _ (List.mem_singleton_self _), by decide⟩
  · intro s hs
    exact ⟨s, hs, Nat.le_refl _⟩

end SourceAudit
