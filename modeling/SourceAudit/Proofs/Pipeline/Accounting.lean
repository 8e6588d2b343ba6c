import Mathlib.Data.List.Basic
import SourceAudit.Proofs.Pipeline.Events
import SourceAudit.Scan

/-! What becomes of every item.

An item that enters a pipeline is, at any moment, still with the producer, in the queue of
items, with a worker, or behind a result in the other queue or with the collector; `held`
counts how often it is in any of these places. Events move items from place to place and lose
them in four ways only (`event_balance`). The invariant `Sound` says that nothing is lost while
the flag of given up work is down, that something is lost once it is up, and that the two
losses which do not raise it cannot come first: a worker leaves an open queue only after
raising the flag, and the collector never leaves before the last worker.

A result has to tell which item it came from, so everything is relative to a function `key`
that takes the result of scanning an item back to the item. -/
namespace SourceAudit.Scan.Pipeline

variable {α β : Type} [DecidableEq α] {scan : α → β} {key : β → α} {capacity : Nat}
  {jobs : List α} {s t : State α β}

/-! ### Counting -/

/-- The items that a producer has still to hand over. -/
def Producer.rest : Producer α → List α
  | .idle rest => rest
  | .sending item rest => item :: rest
  | .gone => []

/-- How often an item is with a worker. -/
def Worker.load (key : β → α) (x : α) : Worker α β → Nat
  | .waiting => 0
  | .holding item => [item].count x
  | .sending result => [key result].count x
  | .gone => 0

/-- How often an item is somewhere in the pipeline. -/
def State.held (key : β → α) (x : α) (s : State α β) : Nat :=
  s.producer.rest.count x + s.items.count x + s.overWorkers (·.load key x) +
    (s.results.map key).count x + (s.collected.map key).count x

theorem count_item (x item : α) (rest : List α) :
    (item :: rest).count x = [item].count x + rest.count x := by
  rw [← List.singleton_append, List.count_append]

theorem count_self_pos (item : α) : 0 < [item].count item := by simp

/-! ### What an event loses -/

/-- The outcome of an event for the items: all are kept, or at least one is given up and the
flag is raised, or some are lost to a closed queue. -/
inductive Balance (key : β → α) (s t : State α β) : Prop where
  | kept (h : ∀ x, t.held key x = s.held key x) (hs : t.stopped = s.stopped)
  | flagged {lost : α} (h : ∀ x, t.held key x + [lost].count x ≤ s.held key x)
      (hs : t.stopped = true)
  | refused (h : ∀ x, t.held key x ≤ s.held key x) (hp : s.producer.isGone = false)
      (hc : s.closed = true) (hs : t.stopped = s.stopped)
  | dropped {r : β} (hw : .sending r ∈ s.workers) (hc : s.collector = .gone)

/-- **An event keeps every item, or it loses one in a way that is accounted for.** -/
theorem event_balance (hkey : ∀ a, key (scan a) = a) (h : Event scan capacity s t) :
    Balance key s t := by
  cases h with
  | ended h =>
    refine .kept (fun x => ?_) rfl
    simp only [State.held, State.overWorkers, h, Producer.rest]
  | @halted item rest h _ =>
    refine @Balance.flagged _ _ _ key s _ item (fun x => ?_) rfl
    simp only [State.held, State.overWorkers, h, Producer.rest, count_item x item rest,
      List.count_nil]
    omega
  | fetched h =>
    refine .kept (fun x => ?_) rfl
    simp only [State.held, State.overWorkers, h, Producer.rest]
  | refused h hc =>
    refine .refused (fun x => ?_) (by rw [h]; rfl) hc rfl
    simp only [State.held, State.overWorkers, h, Producer.rest, List.count_nil]
    omega
  | @queued item rest h _ =>
    refine .kept (fun x => ?_) rfl
    simp only [State.held, State.overWorkers, h, Producer.rest, count_item x item rest,
      List.count_append]
    omega
  | @taken i item rest h hi =>
    refine .kept (fun x => ?_) rfl
    have hl := overWorkers_set (·.load key x) s
      { s with items := rest, workers := s.workers.set i (.holding item) } (.holding item) h rfl
    simp only [State.held, hi, Worker.load, count_item x item rest] at hl ⊢
    omega
  | @dismissed i h _ =>
    refine .kept (fun x => ?_) rfl
    have hl := overWorkers_set (·.load key x) s { s with workers := s.workers.set i .gone }
      .gone h rfl
    simp only [State.held, Worker.load] at hl ⊢
    omega
  | @abandoned i item h _ =>
    refine @Balance.flagged _ _ _ key s _ item (fun x => ?_) rfl
    have hl := overWorkers_set (·.load key x) s
      { s with stopped := true, workers := s.workers.set i .gone } .gone h rfl
    simp only [State.held, Worker.load] at hl ⊢
    omega
  | @scanned i item h =>
    refine .kept (fun x => ?_) rfl
    have hl := overWorkers_set (·.load key x) s
      { s with workers := s.workers.set i (.sending (scan item)) } (.sending (scan item)) h rfl
    simp only [State.held, Worker.load, hkey] at hl ⊢
    omega
  | dropped h hc => exact .dropped (List.mem_of_getElem? h) hc
  | @delivered i result h _ _ =>
    refine .kept (fun x => ?_) rfl
    have hl := overWorkers_set (·.load key x) s
      { s with results := s.results ++ [result], workers := s.workers.set i .waiting } .waiting h rfl
    simp only [State.held, Worker.load, List.map_append, List.map_cons, List.map_nil,
      List.count_append] at hl ⊢
    omega
  | launched _ => exact .kept (fun x => rfl) rfl
  | @collected result rest _ hr =>
    refine .kept (fun x => ?_) rfl
    simp only [State.held, State.overWorkers, hr, List.map_append, List.map_cons, List.map_nil,
      List.count_append, count_item x (key result) (rest.map key)]
    omega
  | finished _ _ _ => exact .kept (fun x => rfl) rfl

/-! ### The invariant -/

/-- What holds at every moment of a run over `jobs`. -/
structure Sound (scan : α → β) (key : β → α) (jobs : List α) (s : State α β) : Prop where
  crew : s.workers ≠ []
  /-- Only a cancelled run gives anything up. -/
  calm : s.cancelled = false → s.stopped = false
  /-- As long as nothing was given up, a worker leaves only when all items were taken. -/
  departed : s.stopped = false → .gone ∈ s.workers → s.producer = .gone ∧ s.items = []
  /-- The collector is the last to leave the queue of results. -/
  attended : s.collector = .gone → s.deserted = true ∧ s.results = []
  /-- Results are results of scanning. -/
  genuine : ∀ r, r ∈ s.results ∨ r ∈ s.collected ∨ .sending r ∈ s.workers → scan (key r) = r
  bounded : ∀ x, s.held key x ≤ jobs.count x
  complete : s.stopped = false → ∀ x, s.held key x = jobs.count x
  short : s.stopped = true → ∃ x, s.held key x < jobs.count x

theorem sound_initial (jobs : List α) {n : Nat} (hn : 1 ≤ n) (c : Bool) :
    Sound scan key jobs (State.initial jobs n c : State α β) := by
  have held : ∀ x, (State.initial jobs n c : State α β).held key x = jobs.count x := by
    intro x
    unfold State.held
    rw [initial_overWorkers]
    simp [State.initial, Producer.rest, Worker.load]
  refine ⟨?_, fun _ => rfl, ?_, ?_, ?_, fun x => Nat.le_of_eq (held x), fun _ => held, ?_⟩
  · simp only [State.initial, ne_eq, List.replicate_eq_nil_iff]
    omega
  · intro _ hg
    simp [State.initial] at hg
  · simp [State.initial]
  · simp [State.initial]
  · simp [State.initial]

theorem crew_event (hs : Sound scan key jobs s) (h : Event scan capacity s t) :
    t.workers ≠ [] := by
  have hc := hs.crew
  cases h <;> simpa using hc

theorem calm_event (hs : Sound scan key jobs s) (h : Event scan capacity s t)
    (hc : t.cancelled = false) : t.stopped = false := by
  cases h with
  | halted _ hc' => exact absurd (hc'.symm.trans hc) (by decide)
  | abandoned _ hc' => exact absurd (hc'.symm.trans hc) (by decide)
  | _ => exact hs.calm hc

/-- A worker that leaves without raising the flag found everything taken. -/
theorem departed_event (hs : Sound scan key jobs s) (h : Event scan capacity s t)
    (hf : t.stopped = false) (hg : .gone ∈ t.workers) : t.producer = .gone ∧ t.items = [] := by
  -- with a worker gone and the flag down, the producer has no event any more
  have active : ∀ {p : Producer α}, s.producer = p → p.isGone = false → s.stopped = false →
      .gone ∈ s.workers → False := by
    intro p hp hgone hf hg
    rw [← hp, (hs.departed hf hg).1] at hgone
    cases hgone
  cases h with
  | ended h => exact (active h rfl hf hg).elim
  | halted _ _ => cases hf
  | fetched h => exact (active h rfl hf hg).elim
  | refused h _ => exact (active h rfl hf hg).elim
  | queued h _ => exact (active h rfl hf hg).elim
  | taken _ hi =>
    have he := (hs.departed hf (gone_mem_of_set hg rfl)).2
    rw [hi] at he
    cases he
  | dismissed _ hd => exact drained_iff.mp hd
  | abandoned _ _ => cases hf
  | scanned _ => exact hs.departed hf (gone_mem_of_set hg rfl)
  | dropped h hc =>
    exact absurd (hs.attended hc).1 (not_deserted (List.mem_of_getElem? h) rfl)
  | delivered _ _ _ => exact hs.departed hf (gone_mem_of_set hg rfl)
  | launched _ => exact hs.departed hf hg
  | collected _ _ => exact hs.departed hf hg
  | finished _ _ _ => exact hs.departed hf hg

/-- Once the collector is gone, so is every worker, and no worker has an event any more. -/
theorem attended_event (hs : Sound scan key jobs s) (h : Event scan capacity s t)
    (hc : t.collector = .gone) : t.deserted = true ∧ t.results = [] := by
  have busy : ∀ {i : Nat} {w : Worker α β}, s.workers[i]? = some w → w.isGone = false →
      s.collector = .gone → False :=
    fun hi hw hc => not_deserted (List.mem_of_getElem? hi) hw (hs.attended hc).1
  cases h with
  | ended _ => exact hs.attended hc
  | halted _ _ => exact hs.attended hc
  | fetched _ => exact hs.attended hc
  | refused _ _ => exact hs.attended hc
  | queued _ _ => exact hs.attended hc
  | taken h _ => exact (busy h rfl hc).elim
  | dismissed h _ => exact (busy h rfl hc).elim
  | abandoned h _ => exact (busy h rfl hc).elim
  | scanned h => exact (busy h rfl hc).elim
  | dropped h _ => exact (busy h rfl hc).elim
  | delivered h _ _ => exact (busy h rfl hc).elim
  | launched _ => cases hc
  | collected h _ => exact absurd (h.symm.trans hc) (by decide)
  | finished _ hr hd => exact ⟨hd, hr⟩

theorem genuine_event (hkey : ∀ a, key (scan a) = a) (hs : Sound scan key jobs s)
    (h : Event scan capacity s t) (r : β)
    (hr : r ∈ t.results ∨ r ∈ t.collected ∨ .sending r ∈ t.workers) : scan (key r) = r := by
  -- a worker that does not send cannot have brought in a result
  have still : ∀ {i : Nat} {v : Worker α β},
      r ∈ s.results ∨ r ∈ s.collected ∨ .sending r ∈ s.workers.set i v → v ≠ .sending r →
      scan (key r) = r :=
    fun hr hv => hs.genuine r (hr.imp id (Or.imp id fun hw =>
      (List.mem_or_eq_of_mem_set hw).resolve_right (Ne.symm hv)))
  cases h with
  | taken _ _ => exact still hr (by simp)
  | dismissed _ _ => exact still hr (by simp)
  | abandoned _ _ => exact still hr (by simp)
  | dropped _ _ => exact still hr (by simp)
  | @scanned i item h =>
    by_cases he : scan item = r
    · rw [← he, hkey]
    · exact still hr (fun e => he (Worker.sending.inj e))
  | @delivered i result h _ _ =>
    have hw : .sending result ∈ s.workers := List.mem_of_getElem? h
    rcases hr with hr | hr
    · rcases List.mem_append.mp hr with hr | hr
      · exact hs.genuine r (.inl hr)
      · rw [List.mem_singleton.mp hr]
        exact hs.genuine result (.inr (.inr hw))
    · exact still (.inr hr) (by simp)
  | @collected result rest _ hl =>
    have hmem : ∀ q ∈ result :: rest, scan (key q) = q := by
      intro q hq
      rw [← hl] at hq
      exact hs.genuine q (.inl hq)
    rcases hr with hr | hr | hr
    · exact hmem r (List.mem_cons_of_mem result hr)
    · rcases List.mem_append.mp hr with hr | hr
      · exact hs.genuine r (.inr (.inl hr))
      · rw [List.mem_singleton.mp hr]
        exact hmem result List.mem_cons_self
    · exact hs.genuine r (.inr (.inr hr))
  | _ => exact hs.genuine r hr

/-- The three statements about numbers follow from the balance of an event: a loss that does
not raise the flag finds it raised, or cannot happen. -/
theorem counts_event (hs : Sound scan key jobs s) (h : Balance key s t) :
    (∀ x, t.held key x ≤ jobs.count x) ∧
      (t.stopped = false → ∀ x, t.held key x = jobs.count x) ∧
      (t.stopped = true → ∃ x, t.held key x < jobs.count x) := by
  cases h with
  | kept h hf =>
    rw [hf]
    simp only [h]
    exact ⟨hs.bounded, hs.complete, hs.short⟩
  | @flagged lost h hf =>
    have hpos := count_self_pos lost
    refine ⟨fun x => ?_, fun hf' => absurd (hf.symm.trans hf') (by decide), fun _ => ⟨lost, ?_⟩⟩
    · have hx := h x
      have hb := hs.bounded x
      omega
    · have hx := h lost
      have hb := hs.bounded lost
      omega
  | refused h hp hc hf =>
    have hdown : s.stopped = true := by
      cases hstop : s.stopped with
      | true => rfl
      | false =>
        have hd := (closed_iff.mp hc).1
        rw [(hs.departed hstop (gone_mem hs.crew hd)).1] at hp
        cases hp
    refine ⟨fun x => Nat.le_trans (h x) (hs.bounded x),
      fun hf' => absurd (hdown.symm.trans (hf.symm.trans hf')) (by decide), fun _ => ?_⟩
    obtain ⟨x, hx⟩ := hs.short hdown
    exact ⟨x, Nat.lt_of_le_of_lt (h x) hx⟩
  | dropped hw hc =>
    exact absurd (hs.attended hc).1 (not_deserted hw rfl)

theorem sound_event (hkey : ∀ a, key (scan a) = a) (hs : Sound scan key jobs s)
    (h : Event scan capacity s t) : Sound scan key jobs t := by
  obtain ⟨hb, hc, hl⟩ := counts_event hs (event_balance hkey h)
  exact ⟨crew_event hs h, calm_event hs h, departed_event hs h, attended_event hs h,
    genuine_event hkey hs h, hb, hc, hl⟩

theorem sound_step (hkey : ∀ a, key (scan a) = a) (hs : Sound scan key jobs s)
    (h : Step scan capacity s t) : Sound scan key jobs t := by
  cases h with
  | move h => exact sound_event hkey hs (move_event h)
  | cancel =>
    exact ⟨hs.crew, fun h => Bool.noConfusion h, hs.departed, hs.attended, hs.genuine, hs.bounded,
      hs.complete, hs.short⟩

theorem sound_reaches (hkey : ∀ a, key (scan a) = a) (hs : Sound scan key jobs s)
    (h : Reaches scan capacity s t) : Sound scan key jobs t := by
  induction h with
  | refl => exact hs
  | tail _ h ih => exact sound_step hkey ih h

/-! ### The end of a run -/

/-- At the end an item is held exactly where it was collected or still stands in the queue. -/
theorem final_held (hs : Sound scan key jobs s) (hf : s.isFinal = true) (x : α) :
    s.held key x = s.items.count x + (s.collected.map key).count x := by
  obtain ⟨hp, hd, hc⟩ := isFinal_iff.mp hf
  have hw : s.overWorkers (·.load key x) = 0 :=
    overWorkers_eq_zero fun w hw => by rw [deserted_iff.mp hd w hw]; rfl
  have hr := (hs.attended hc).2
  simp only [State.held, hp, Producer.rest, hw, hr, List.map_nil, List.count_nil]
  omega

/-- Without the flag, the queue of items is empty at the end. -/
theorem final_items (hs : Sound scan key jobs s) (hf : s.isFinal = true)
    (hstop : s.stopped = false) : s.items = [] :=
  (hs.departed hstop (gone_mem hs.crew (isFinal_iff.mp hf).2.1)).2

end SourceAudit.Scan.Pipeline

/-! ### Scans -/

namespace SourceAudit.Scan
open Pipeline

/-- The job that an outcome belongs to. -/
def jobOf (o : FileOutcome) : Job := ⟨o.path, o.language⟩

theorem jobOf_scanFile (engine : Engine) (fs : FileSystem) (job : Job) :
    jobOf (scanFile engine fs job) = job := by
  unfold scanFile
  split <;> rfl

/-- The jobs whose outcomes were added up, in that order. -/
def aggregated (s : Pipeline.State Job FileOutcome) : List Job := s.collected.map jobOf

/-- **A scan is truncated exactly if it missed a file**, however the producer, the workers and the
collector take turns and whenever it is cancelled. The flag is never taken back, so if it is down at
the end it was never set. -/
theorem truncated_iff_missed (engine : Engine) (host : Host) (root : Path) (settings : Settings)
    (jobs : List Job) {workers : Nat} (hw : 1 ≤ workers) (cancelled : Bool)
    {s : Pipeline.State Job FileOutcome}
    (hr : Reaches (scanFile engine host.fs) (2 * workers) (.initial jobs workers cancelled) s)
    (hf : s.isFinal = true) :
    s.collected = (aggregated s).map (scanFile engine host.fs) ∧
      reportOn host root settings s =
        (((aggregated s).map (scanFile engine host.fs)).foldl Tally.add
          { least := (settings.resolve host.processors).least }).finish host.stamp
          (projectName host.fs root) s.stopped ∧
      (∀ job, (aggregated s).count job ≤ jobs.count job) ∧
      (jobs.Nodup → (aggregated s).Nodup) ∧
      ((reportOn host root settings s).truncated = true ↔
        ∃ job ∈ jobs, (aggregated s).count job < jobs.count job) ∧
      (s.cancelled = false →
        (reportOn host root settings s).truncated = false ∧ (aggregated s).Perm jobs) := by
  have hs : Sound (scanFile engine host.fs) jobOf jobs s :=
    sound_reaches (jobOf_scanFile engine host.fs) (sound_initial jobs hw cancelled) hr
  have held := final_held hs hf
  have atMost : ∀ job, (aggregated s).count job ≤ jobs.count job := by
    intro job
    have hb := hs.bounded job
    rw [held job] at hb
    exact Nat.le_trans (Nat.le_add_left _ _) hb
  have allOf : s.stopped = false → ∀ job, (aggregated s).count job = jobs.count job := by
    intro hstop job
    rw [← hs.complete hstop job, held job, final_items hs hf hstop, List.count_nil, Nat.zero_add]
    rfl
  have collected : s.collected = (aggregated s).map (scanFile engine host.fs) := by
    unfold aggregated
    rw [List.map_map]
    nth_rewrite 1 [← List.map_id s.collected]
    exact List.map_congr_left fun o ho => (hs.genuine o (.inr (.inl ho))).symm
  refine ⟨collected, ?_, atMost, ?_, ⟨?_, ?_⟩, ?_⟩
  · rw [← collected]
    rfl
  · intro hn
    rw [List.nodup_iff_count] at hn ⊢
    exact fun job => Nat.le_trans (atMost job) (hn job)
  · intro hstop
    obtain ⟨job, hlt⟩ := hs.short hstop
    rw [held job] at hlt
    exact ⟨job, List.count_pos_iff.mp (by omega), Nat.lt_of_le_of_lt (Nat.le_add_left _ _) hlt⟩
  · rintro ⟨job, -, hlt⟩
    cases hstop : s.stopped with
    | true => exact hstop
    | false => exact absurd (allOf hstop job) (Nat.ne_of_lt hlt)
  · intro hc
    exact ⟨hs.calm hc, List.perm_iff_count.mpr (allOf (hs.calm hc))⟩

/-- A machine without files. -/
def bareHost : Host := ⟨⟨[], []⟩, 1, ⟨"", ""⟩⟩

def firstJob : Job := ⟨.ofString "a.py", .python⟩

def secondJob : Job := ⟨.ofString "b.go", .go⟩

/-- The end of a scan of two files by one worker that is cancelled after the first of them. -/
def halfway : Pipeline.State Job FileOutcome :=
  { producer := .gone
    items := []
    workers := [.gone]
    results := []
    collector := .gone
    collected := [scanFile [] bareHost.fs firstJob]
    stopped := true
    cancelled := true }

theorem reaches_halfway : Reaches (scanFile [] bareHost.fs) (2 * 1)
    (.initial [firstJob, secondJob] 1 false) halfway := by
  -- the first job goes all the way to the collector
  refine .head (.move (.producer rfl)) (.head (.move (.producer rfl)) ?_)
  refine .head (.move (.worker 0 rfl)) (.head (.move (.worker 0 rfl)) ?_)
  refine .head (.move (.worker 0 rfl)) (.head (.move (.collector rfl)) ?_)
  refine .head (.move (.collector rfl)) (.head .cancel ?_)
  -- the producer gives up the second one, and everybody leaves
  refine .head (.move (.producer rfl)) (.head (.move (.worker 0 rfl)) ?_)
  exact .single (.move (.collector rfl))

theorem truncated_iff_missed_halfway :
    halfway.isFinal = true ∧ aggregated halfway = [firstJob] ∧
      ((reportOn bareHost ⟨[]⟩ {} halfway).truncated = true ↔
        ∃ job ∈ [firstJob, secondJob],
          (aggregated halfway).count job < [firstJob, secondJob].count job) := by
  refine ⟨rfl, ?_, ?_⟩
  · show [jobOf (scanFile [] bareHost.fs firstJob)] = [firstJob]
    rw [jobOf_scanFile]
  · exact (truncated_iff_missed [] bareHost ⟨[]⟩ {} _ (Nat.le_refl 1) false reaches_halfway
      rfl).2.2.2.2.1

end SourceAudit.Scan
