import Mathlib.Logic.Relation
import SourceAudit.Scan.Pipeline

/-! What can happen in a pipeline.

A move is one of fourteen events, and each says which phase its party was in, what allowed it
and what it changed (`move_event`). Everything that is proved about runs is proved event by
event. The workers enter such proofs only as a sum over all of them, of which an event
changes one term (`overWorkers_set`). -/
namespace SourceAudit.Scan.Pipeline

variable {α β : Type} {scan : α → β} {capacity : Nat} {s t : State α β}

/-- A state that a run can come to. -/
abbrev Reaches (scan : α → β) (capacity : Nat) : State α β → State α β → Prop :=
  Relation.ReflTransGen (Step scan capacity)

/-! ### Sums over the workers -/

private theorem foldr_set (f : Worker α β → Nat) (v w : Worker α β) (ws : List (Worker α β))
    (i : Nat) (h : ws[i]? = some w) :
    (ws.set i v).foldr (fun w n => f w + n) 0 + f w = ws.foldr (fun w n => f w + n) 0 + f v := by
  induction ws generalizing i with
  | nil => simp at h
  | cons u us ih =>
    cases i with
    | zero =>
      obtain rfl : u = w := by simpa using h
      simp only [List.set_cons_zero, List.foldr_cons]
      omega
    | succ i =>
      have hus := ih i (by simpa using h)
      simp only [List.set_cons_succ, List.foldr_cons]
      omega

/-- When one worker goes from one phase to another, only its own term changes. -/
theorem overWorkers_set (f : Worker α β → Nat) (s t : State α β) {i : Nat} {w : Worker α β}
    (v : Worker α β) (h : s.workers[i]? = some w) (ht : t.workers = s.workers.set i v) :
    t.overWorkers f + f w = s.overWorkers f + f v := by
  unfold State.overWorkers
  rw [ht]
  exact foldr_set f v w s.workers i h

theorem overWorkers_eq_zero {f : Worker α β → Nat} (h : ∀ w ∈ s.workers, f w = 0) :
    s.overWorkers f = 0 := by
  unfold State.overWorkers
  generalize s.workers = ws at h
  induction ws with
  | nil => rfl
  | cons w ws ih =>
    rw [List.foldr_cons, h w List.mem_cons_self, ih fun v hv => h v (List.mem_cons_of_mem w hv)]

theorem initial_overWorkers (f : Worker α β → Nat) (jobs : List α) (n : Nat) (c : Bool) :
    (State.initial jobs n c).overWorkers f = n * f .waiting := by
  simp only [State.initial, State.overWorkers]
  induction n with
  | zero => simp
  | succ n ih => rw [List.replicate_succ, List.foldr_cons, ih, Nat.succ_mul, Nat.add_comm]

/-! ### Who is gone -/

theorem isGone_iff {w : Worker α β} : w.isGone = true ↔ w = .gone := by
  cases w <;> simp [Worker.isGone]

theorem producer_isGone_iff {p : Producer α} : p.isGone = true ↔ p = .gone := by
  cases p <;> simp [Producer.isGone]

theorem deserted_iff : s.deserted = true ↔ ∀ w ∈ s.workers, w = .gone := by
  simp [State.deserted, isGone_iff]

theorem not_deserted {w : Worker α β} (h : w ∈ s.workers) (hw : w.isGone = false) :
    s.deserted ≠ true := by
  intro hd
  rw [deserted_iff.mp hd w h] at hw
  cases hw

/-- A worker that goes on leaves nobody else. -/
theorem gone_mem_of_set {ws : List (Worker α β)} {i : Nat} {v : Worker α β}
    (h : .gone ∈ ws.set i v) (hv : v.isGone = false) : .gone ∈ ws := by
  rcases List.mem_or_eq_of_mem_set h with h | h
  · exact h
  · rw [← h] at hv
    cases hv

/-- Someone is gone once everyone is. -/
theorem gone_mem (hc : s.workers ≠ []) (hd : s.deserted = true) : .gone ∈ s.workers := by
  obtain ⟨w, hw⟩ := List.exists_mem_of_ne_nil s.workers hc
  have hg := deserted_iff.mp hd w hw
  rw [hg] at hw
  exact hw

theorem closed_iff : s.closed = true ↔ s.deserted = true ∧ s.collector ≠ .launching := by
  simp [State.closed]

theorem drained_iff : s.drained = true ↔ s.producer = .gone ∧ s.items = [] := by
  simp [State.drained, producer_isGone_iff]

theorem isFinal_iff : s.isFinal = true ↔
    s.producer = .gone ∧ s.deserted = true ∧ s.collector = .gone := by
  simp [State.isFinal, producer_isGone_iff, and_assoc]

/-! ### Events -/

/-- The events of a pipeline. -/
inductive Event (scan : α → β) (capacity : Nat) (s : State α β) : State α β → Prop where
  /-- The producer has no item left. -/
  | ended (h : s.producer = .idle []) : Event scan capacity s { s with producer := .gone }
  /-- The producer gives up the rest of the items. -/
  | halted {item : α} {rest : List α} (h : s.producer = .idle (item :: rest))
      (hc : s.cancelled = true) :
      Event scan capacity s { s with producer := .gone, stopped := true }
  | fetched {item : α} {rest : List α} (h : s.producer = .idle (item :: rest)) :
      Event scan capacity s { s with producer := .sending item rest }
  /-- The producer finds nobody to send to. -/
  | refused {item : α} {rest : List α} (h : s.producer = .sending item rest)
      (hc : s.closed = true) : Event scan capacity s { s with producer := .gone }
  | queued {item : α} {rest : List α} (h : s.producer = .sending item rest)
      (hl : s.items.length < capacity) :
      Event scan capacity s { s with producer := .idle rest, items := s.items ++ [item] }
  | taken {i : Nat} {item : α} {rest : List α} (h : s.workers[i]? = some .waiting)
      (hi : s.items = item :: rest) :
      Event scan capacity s
        { s with items := rest, workers := s.workers.set i (.holding item) }
  /-- A worker learns that no item will come. -/
  | dismissed {i : Nat} (h : s.workers[i]? = some .waiting) (hd : s.drained = true) :
      Event scan capacity s { s with workers := s.workers.set i .gone }
  /-- A worker gives up the item it holds. -/
  | abandoned {i : Nat} {item : α} (h : s.workers[i]? = some (.holding item))
      (hc : s.cancelled = true) :
      Event scan capacity s { s with stopped := true, workers := s.workers.set i .gone }
  | scanned {i : Nat} {item : α} (h : s.workers[i]? = some (.holding item)) :
      Event scan capacity s { s with workers := s.workers.set i (.sending (scan item)) }
  /-- A worker finds nobody to send its result to. -/
  | dropped {i : Nat} {result : β} (h : s.workers[i]? = some (.sending result))
      (hc : s.collector = .gone) :
      Event scan capacity s { s with workers := s.workers.set i .gone }
  | delivered {i : Nat} {result : β} (h : s.workers[i]? = some (.sending result))
      (hl : s.results.length < capacity) (hc : s.collector ≠ .gone) :
      Event scan capacity s
        { s with results := s.results ++ [result], workers := s.workers.set i .waiting }
  | launched (h : s.collector = .launching) :
      Event scan capacity s { s with collector := .taking }
  | collected {result : β} {rest : List β} (h : s.collector = .taking)
      (hr : s.results = result :: rest) :
      Event scan capacity s { s with results := rest, collected := s.collected ++ [result] }
  | finished (h : s.collector = .taking) (hr : s.results = []) (hd : s.deserted = true) :
      Event scan capacity s { s with collector := .gone }

theorem produce_event (h : produce? capacity s = some t) : Event scan capacity s t := by
  unfold produce? at h
  split at h
  next hp =>
    cases h
    exact .ended hp
  next item rest hp =>
    split at h
    next hc =>
      cases h
      exact .halted hp hc
    next =>
      cases h
      exact .fetched hp
  next item rest hp =>
    split at h
    next hc =>
      cases h
      exact .refused hp hc
    next =>
      split at h
      next hl =>
        cases h
        exact .queued hp hl
      next => cases h
  next => cases h

/-- The step of a worker, as an event of the pipeline it is the `i`-th worker of. -/
theorem work_event {i : Nat} {w v : Worker α β} (hw : s.workers[i]? = some w)
    (h : work? scan capacity s w = some (v, t)) :
    Event scan capacity s { t with workers := s.workers.set i v } := by
  cases w with
  | waiting =>
    simp only [work?] at h
    split at h
    next item items hi =>
      cases h
      exact .taken hw hi
    next =>
      split at h
      next hd =>
        cases h
        exact .dismissed hw hd
      next => cases h
  | holding item =>
    simp only [work?] at h
    split at h
    next hc =>
      cases h
      exact .abandoned hw hc
    next =>
      cases h
      exact .scanned hw
  | sending result =>
    simp only [work?] at h
    split at h
    next hc =>
      cases h
      exact .dropped hw hc
    next hc =>
      split at h
      next hl =>
        cases h
        exact .delivered hw hl hc
      next => cases h
  | gone => cases h

theorem workAt_eq_some {i : Nat} (h : workAt? scan capacity s i = some t) :
    ∃ w v u, s.workers[i]? = some w ∧ work? scan capacity s w = some (v, u) ∧
      t = { u with workers := s.workers.set i v } := by
  unfold workAt? at h
  obtain ⟨w, hw, h⟩ := Option.bind_eq_some_iff.mp h
  obtain ⟨⟨v, u⟩, hv, h⟩ := Option.bind_eq_some_iff.mp h
  exact ⟨w, v, u, hw, hv, (Option.some.inj h).symm⟩

theorem collect_event (h : collect? s = some t) : Event scan capacity s t := by
  unfold collect? at h
  split at h
  next hc =>
    cases h
    exact .launched hc
  next result rest hc hr =>
    cases h
    exact .collected hc hr
  next hc hr =>
    split at h
    next hd =>
      cases h
      exact .finished hc hr hd
    next => cases h
  next => cases h

/-- **Every move is one of the events.** -/
theorem move_event (h : Move scan capacity s t) : Event scan capacity s t := by
  cases h with
  | producer h => exact produce_event h
  | worker i h =>
    obtain ⟨w, v, u, hw, hv, rfl⟩ := workAt_eq_some h
    exact work_event hw hv
  | collector h => exact collect_event h

end SourceAudit.Scan.Pipeline
