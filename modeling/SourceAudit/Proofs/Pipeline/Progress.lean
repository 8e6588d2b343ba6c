import Mathlib.Data.Set.Card
import Mathlib.Order.Interval.Finset.Nat
import SourceAudit.Proofs.Pipeline.Events
import SourceAudit.Scan

/-! A pipeline never hangs.

Two things are shown. If the queues hold anything at all, a state in which nobody can move is
the end of a run (`stuck_final`): a full queue has someone to empty it, an empty one has
someone to fill it or is closed. And every move lowers the weight of the state
(`event_weight`), so a run has no more moves than the weight it begins with, whatever happens
to the flag in between. The run that a scan takes is therefore a run to the end. -/
namespace SourceAudit.Scan.Pipeline

variable {α β : Type} {scan : α → β} {capacity : Nat} {s t : State α β}

/-! ### Nobody waits for nothing -/

theorem stuck_producer (h : produce? capacity s = none) :
    s.producer = .gone ∨ s.closed = false ∧ capacity ≤ s.items.length := by
  unfold produce? at h
  split at h
  next => cases h
  next => split at h <;> cases h
  next =>
    split at h
    next => cases h
    next hc =>
      split at h
      next => cases h
      next hl => exact .inr ⟨by simpa using hc, Nat.le_of_not_lt hl⟩
  next hp => exact .inl hp

theorem stuck_worker {i : Nat} {w : Worker α β} (hw : s.workers[i]? = some w)
    (h : workAt? scan capacity s i = none) :
    w = .gone ∨ w = .waiting ∧ s.items = [] ∧ s.drained = false ∨
      s.collector ≠ .gone ∧ capacity ≤ s.results.length := by
  have hn : work? scan capacity s w = none := by
    cases hv : work? scan capacity s w with
    | none => rfl
    | some v =>
      unfold workAt? at h
      rw [hw] at h
      simp [hv] at h
  cases w with
  | waiting =>
    simp only [work?] at hn
    split at hn
    next => cases hn
    next hi =>
      split at hn
      next => cases hn
      next hd => exact .inr (.inl ⟨rfl, hi, by simpa using hd⟩)
  | holding item =>
    simp only [work?] at hn
    split at hn <;> cases hn
  | sending result =>
    simp only [work?] at hn
    split at hn
    next => cases hn
    next hc =>
      split at hn
      next => cases hn
      next hl => exact .inr (.inr ⟨hc, Nat.le_of_not_lt hl⟩)
  | gone => exact .inl rfl

theorem stuck_collector (h : collect? s = none) :
    s.collector = .gone ∨ s.collector = .taking ∧ s.results = [] ∧ s.deserted = false := by
  unfold collect? at h
  split at h
  next => cases h
  next => cases h
  next hc hr =>
    split at h
    next => cases h
    next hd => exact .inr ⟨hc, hr, by simpa using hd⟩
  next hc => exact .inl hc

/-- **Where nobody can move, the run is over.** -/
theorem stuck_final (scan : α → β) (hcap : 0 < capacity) (hp : produce? capacity s = none)
    (hw : ∀ i, workAt? scan capacity s i = none) (hc : collect? s = none) : s.isFinal = true := by
  -- a worker that waits for an item would wait for a producer that waits for it
  have waiting : ∀ w ∈ s.workers, w = .gone ∨
      s.collector ≠ .gone ∧ capacity ≤ s.results.length := by
    intro w hmem
    obtain ⟨i, hi⟩ := List.mem_iff_getElem?.mp hmem
    rcases stuck_worker hi (hw i) with hg | ⟨-, he, hd⟩ | hs
    · exact .inl hg
    · rcases stuck_producer hp with hg | ⟨-, hl⟩
      · rw [drained_iff.mpr ⟨hg, he⟩] at hd
        cases hd
      · rw [he] at hl
        exact absurd hl (Nat.not_le_of_lt hcap)
    · exact .inr hs
  rcases stuck_collector hc with hg | ⟨-, hr, hd⟩
  · have hdes : s.deserted = true :=
      deserted_iff.mpr fun w hmem => (waiting w hmem).resolve_right fun h => h.1 hg
    rcases stuck_producer hp with hgone | ⟨hcl, -⟩
    · exact isFinal_iff.mpr ⟨hgone, hdes, hg⟩
    · rw [closed_iff.mpr ⟨hdes, by rw [hg]; decide⟩] at hcl
      cases hcl
  · have hdes : s.deserted = true := by
      refine deserted_iff.mpr fun w hmem => (waiting w hmem).resolve_right fun h => ?_
      rw [hr] at h
      exact absurd h.2 (Nat.not_le_of_lt hcap)
    rw [hdes] at hd
    cases hd

/-- A run that is not over can go on. -/
theorem exists_move (scan : α → β) (hcap : 0 < capacity) (hf : s.isFinal = false) :
    ∃ t, Move scan capacity s t := by
  by_contra hno
  have none_of : ∀ o : Option (State α β), (∀ t, o = some t → Move scan capacity s t) →
      o = none := by
    intro o ho
    cases o with
    | none => rfl
    | some t => exact absurd ⟨t, ho t rfl⟩ hno
  have := stuck_final scan hcap (none_of _ fun t => .producer) (fun i => none_of _ fun t => .worker i)
    (none_of _ fun t => .collector)
  rw [hf] at this
  cases this

/-! ### Every move counts -/

theorem event_weight (h : Event scan capacity s t) : t.weight < s.weight := by
  cases h with
  | ended h =>
    simp only [State.weight, State.overWorkers, h, Producer.weight, List.length_nil]
    omega
  | halted h _ =>
    simp only [State.weight, State.overWorkers, h, Producer.weight]
    omega
  | fetched h =>
    simp only [State.weight, State.overWorkers, h, Producer.weight, List.length_cons]
    omega
  | refused h _ =>
    simp only [State.weight, State.overWorkers, h, Producer.weight]
    omega
  | queued h _ =>
    simp only [State.weight, State.overWorkers, h, Producer.weight, List.length_append,
      List.length_singleton]
    omega
  | @taken i item rest h hi =>
    have hl := overWorkers_set (·.weight) s
      { s with items := rest, workers := s.workers.set i (.holding item) } (.holding item) h rfl
    simp only [State.weight, Worker.weight, hi, List.length_cons] at hl ⊢
    omega
  | @dismissed i h _ =>
    have hl := overWorkers_set (·.weight) s { s with workers := s.workers.set i .gone } .gone h rfl
    simp only [State.weight, Worker.weight] at hl ⊢
    omega
  | @abandoned i item h _ =>
    have hl := overWorkers_set (·.weight) s
      { s with stopped := true, workers := s.workers.set i .gone } .gone h rfl
    simp only [State.weight, Worker.weight] at hl ⊢
    omega
  | @scanned i item h =>
    have hl := overWorkers_set (·.weight) s
      { s with workers := s.workers.set i (.sending (scan item)) } (.sending (scan item)) h rfl
    simp only [State.weight, Worker.weight] at hl ⊢
    omega
  | @dropped i result h _ =>
    have hl := overWorkers_set (·.weight) s { s with workers := s.workers.set i .gone } .gone h rfl
    simp only [State.weight, Worker.weight] at hl ⊢
    omega
  | @delivered i result h _ _ =>
    have hl := overWorkers_set (·.weight) s
      { s with results := s.results ++ [result], workers := s.workers.set i .waiting } .waiting h rfl
    simp only [State.weight, Worker.weight, List.length_append, List.length_singleton] at hl ⊢
    omega
  | launched h =>
    simp only [State.weight, State.overWorkers, h, Collector.weight]
    omega
  | collected h hr =>
    simp only [State.weight, State.overWorkers, hr, List.length_cons]
    omega
  | finished h hr _ =>
    simp only [State.weight, State.overWorkers, h, Collector.weight]
    omega

theorem move_weight (h : Move scan capacity s t) : t.weight < s.weight :=
  event_weight (move_event h)

theorem step_weight (h : Step scan capacity s t) : t.weight ≤ s.weight := by
  cases h with
  | move h => exact Nat.le_of_lt (move_weight h)
  | cancel => exact Nat.le_refl _

theorem weight_initial (jobs : List α) (n : Nat) (c : Bool) :
    (State.initial jobs n c : State α β).weight = 6 * jobs.length + n + 3 := by
  unfold State.weight
  rw [initial_overWorkers]
  simp only [State.initial, Producer.weight, Worker.weight, Collector.weight, List.length_nil]
  omega

/-! ### Runs -/

theorem run_weight_le {r : Nat → State α β} (hr : ∀ k, Step scan capacity (r k) (r (k + 1)))
    {k l : Nat} (h : k ≤ l) : (r l).weight ≤ (r k).weight := by
  induction h with
  | refl => exact Nat.le_refl _
  | step _ ih => exact Nat.le_trans (step_weight (hr _)) ih

/-- **A run has no more moves than its weight at the beginning.** The weight at a move tells
the move from all others, because it is lower ever after. -/
theorem moves_le_weight {r : Nat → State α β} (hr : ∀ k, Step scan capacity (r k) (r (k + 1))) :
    {k | Move scan capacity (r k) (r (k + 1))}.encard ≤ (r 0).weight := by
  have later : ∀ {k l : Nat}, Move scan capacity (r k) (r (k + 1)) → k < l →
      (r l).weight < (r k).weight :=
    fun hk hl => Nat.lt_of_le_of_lt (run_weight_le hr hl) (move_weight hk)
  have inj : Set.InjOn (fun k => (r k).weight) {k | Move scan capacity (r k) (r (k + 1))} := by
    intro k hk l hl he
    rcases Nat.lt_trichotomy k l with h | h | h
    · exact absurd he (Nat.ne_of_gt (later hk h))
    · exact h
    · exact absurd he (Nat.ne_of_lt (later hl h))
  have sub : (fun k => (r k).weight) '' {k | Move scan capacity (r k) (r (k + 1))} ⊆
      (Finset.Ioc 0 (r 0).weight : Set Nat) := by
    rintro _ ⟨k, hk, rfl⟩
    have hpos := move_weight hk
    have hle := run_weight_le hr (Nat.zero_le k)
    simp only [Finset.coe_Ioc, Set.mem_Ioc]
    omega
  calc {k | Move scan capacity (r k) (r (k + 1))}.encard
      = ((fun k => (r k).weight) '' {k | Move scan capacity (r k) (r (k + 1))}).encard :=
        inj.encard_image.symm
    _ ≤ (Finset.Ioc 0 (r 0).weight : Set Nat).encard := Set.encard_le_encard sub
    _ = (r 0).weight := by rw [Set.encard_coe_eq_coe_finsetCard, Nat.card_Ioc, Nat.sub_zero]

/-! ### The run of a scan -/

theorem advance_move (h : advance? scan capacity s = some t) : Move scan capacity s t := by
  unfold advance? at h
  rcases Option.or_eq_some_iff.mp h with h | ⟨-, h⟩
  · exact .collector h
  · rcases Option.or_eq_some_iff.mp h with h | ⟨-, h⟩
    · obtain ⟨i, -, h⟩ := List.exists_of_findSome?_eq_some h
      exact .worker i h
    · exact .producer h

theorem advance_none (hcap : 0 < capacity) (h : advance? scan capacity s = none) :
    s.isFinal = true := by
  unfold advance? at h
  obtain ⟨hc, h⟩ := Option.or_eq_none_iff.mp h
  obtain ⟨hw, hp⟩ := Option.or_eq_none_iff.mp h
  refine stuck_final scan hcap hp (fun i => ?_) hc
  by_cases hi : i < s.workers.length
  · exact List.findSome?_eq_none_iff.mp hw i (List.mem_range.mpr hi)
  · unfold workAt?
    rw [List.getElem?_eq_none (Nat.le_of_not_lt hi)]
    rfl

theorem runFor_reaches_final (hcap : 0 < capacity) (n : Nat) (s : State α β) (h : s.weight ≤ n) :
    Reaches scan capacity s (runFor scan capacity n s) ∧
      (runFor scan capacity n s).isFinal = true := by
  induction n generalizing s with
  | zero =>
    refine ⟨.refl, ?_⟩
    cases hf : s.isFinal with
    | true => exact hf
    | false =>
      obtain ⟨t, ht⟩ := exists_move scan hcap hf
      exact absurd (move_weight ht) (by omega)
  | succ n ih =>
    unfold runFor
    split
    next t ht =>
      have hm := advance_move ht
      have hlt := move_weight hm
      obtain ⟨hr, hf⟩ := ih t (by omega)
      exact ⟨.head (.move hm) hr, hf⟩
    next hn => exact ⟨.refl, advance_none hcap hn⟩

/-- Running the pipeline is one of its runs, and it comes to the end. -/
theorem run_reaches_final (hcap : 0 < capacity) (s : State α β) :
    Reaches scan capacity s (run scan capacity s) ∧ (run scan capacity s).isFinal = true :=
  runFor_reaches_final hcap s.weight s (Nat.le_refl _)

end SourceAudit.Scan.Pipeline

namespace SourceAudit.Scan
open Pipeline

/-- Whatever number of workers is asked for, there is at least one. -/
theorem one_le_workers (settings : Settings) (processors : Nat) :
    1 ≤ (settings.resolve processors).workers := by
  simp only [Settings.resolve, Settings.workers]
  split
  · exact Nat.le_add_left 1 _
  · exact Nat.le_trans (by decide) (Nat.le_max_right processors 2)

/-- **A scan never hangs**, however its threads take turns and whenever it is cancelled. Even a scan
that is observed for ever has at most six moves for each file, one for each worker and three more;
so the run that `outcome` takes has come to its end. -/
theorem scan_never_hangs (engine : Engine) (host : Host) (root : Path) (settings : Settings)
    (jobs : List Job) (cancelled : Bool) :
    let resolved := settings.resolve host.processors
    let scan := scanFile engine host.fs
    let capacity := 2 * resolved.workers
    1 ≤ resolved.workers ∧
      (∀ s, Reaches scan capacity (.initial jobs resolved.workers cancelled) s →
        s.isFinal = false → ∃ t, Move scan capacity s t) ∧
      (∀ r : Nat → Pipeline.State Job FileOutcome,
        r 0 = .initial jobs resolved.workers cancelled →
        (∀ k, Step scan capacity (r k) (r (k + 1))) →
        {k | Move scan capacity (r k) (r (k + 1))}.encard ≤
          (6 * jobs.length + resolved.workers + 3 : Nat)) ∧
      Reaches scan capacity
        (.initial (discover host.fs root resolved.languages resolved.exclude) resolved.workers
          cancelled)
        (outcome engine host root settings cancelled) ∧
      (outcome engine host root settings cancelled).isFinal = true := by
  intro resolved scan capacity
  have hw : 1 ≤ resolved.workers := one_le_workers settings host.processors
  have hcap : 0 < capacity := Nat.mul_pos Nat.two_pos hw
  refine ⟨hw, fun s _ hf => exists_move scan hcap hf, fun r h0 hr => ?_, run_reaches_final hcap _⟩
  have hle := moves_le_weight hr
  rw [h0, weight_initial] at hle
  exact hle

end SourceAudit.Scan
