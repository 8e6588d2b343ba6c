/-! The scan as a pipeline.

A producer feeds the items to workers through a queue, the workers put their results into
another queue, and a collector takes them from there. Both queues hold a bounded number of
elements, and a queue is closed once nobody is left at one of its ends: who puts something in
then loses it and leaves. The collector launches the others and keeps an end of each queue
open until it begins to take results. A flag that anyone may set at any time cancels the
work: the producer stops before the next item, and a worker stops when it next takes one. -/
namespace SourceAudit.Scan.Pipeline

variable {α β : Type}

/-- The producer: between two items, about to hand one over, or gone. -/
inductive Producer (α : Type) where
  | idle (rest : List α)
  | sending (item : α) (rest : List α)
  | gone
  deriving DecidableEq

def Producer.isGone : Producer α → Bool
  | .gone => true
  | _ => false

/-- A worker: waiting for an item, holding one, holding its result, or gone. -/
inductive Worker (α β : Type) where
  | waiting
  | holding (item : α)
  | sending (result : β)
  | gone
  deriving DecidableEq

def Worker.isGone : Worker α β → Bool
  | .gone => true
  | _ => false

/-- The collector: launching the others, taking their results, or gone. -/
inductive Collector where
  | launching
  | taking
  | gone
  deriving DecidableEq

/-- The whole pipeline at one moment. -/
structure State (α β : Type) where
  producer : Producer α
  /-- The queue of items. -/
  items : List α
  workers : List (Worker α β)
  /-- The queue of results. -/
  results : List β
  collector : Collector
  /-- What the collector has taken, in order. -/
  collected : List β
  /-- Whether some item was given up. -/
  stopped : Bool
  cancelled : Bool
  deriving DecidableEq

namespace State

/-- The beginning of a run of some workers over a list of items. -/
def initial (rest : List α) (workers : Nat) (cancelled : Bool) : State α β :=
  { producer := .idle rest
    items := []
    workers := List.replicate workers .waiting
    results := []
    collector := .launching
    collected := []
    stopped := false
    cancelled }

/-- Whether every worker is gone. -/
def deserted (s : State α β) : Bool := s.workers.all (·.isGone)

/-- Whether nobody is left to take an item. -/
def closed (s : State α β) : Bool := s.deserted && s.collector ≠ .launching

/-- Whether no more items can come. -/
def drained (s : State α β) : Bool := s.producer.isGone && s.items.isEmpty

/-- Whether the run is over: everyone is gone. -/
def isFinal (s : State α β) : Bool := s.producer.isGone && s.deserted && s.collector = .gone

/-- The sum of a number over all workers. -/
def overWorkers (f : Worker α β → Nat) (s : State α β) : Nat :=
  s.workers.foldr (fun w n => f w + n) 0

end State

/-! ### Steps -/

section Steps

variable (scan : α → β) (capacity : Nat)

/-- The step of the producer, if it can take one. -/
def produce? (s : State α β) : Option (State α β) :=
  match s.producer with
  | .idle [] => some { s with producer := .gone }
  | .idle (item :: rest) =>
    if s.cancelled then some { s with producer := .gone, stopped := true }
    else some { s with producer := .sending item rest }
  | .sending item rest =>
    if s.closed then some { s with producer := .gone }
    else if s.items.length < capacity then
      some { s with producer := .idle rest, items := s.items ++ [item] }
    else none
  | .gone => none

/-- The step of a worker: its next phase and the pipeline around it. -/
def work? (s : State α β) : Worker α β → Option (Worker α β × State α β)
  | .waiting =>
    match s.items with
    | item :: items => some (.holding item, { s with items })
    | [] => if s.drained then some (.gone, s) else none
  | .holding item =>
    if s.cancelled then some (.gone, { s with stopped := true })
    else some (.sending (scan item), s)
  | .sending result =>
    if s.collector = .gone then some (.gone, s)
    else if s.results.length < capacity then
      some (.waiting, { s with results := s.results ++ [result] })
    else none
  | .gone => none

/-- The step of the worker with this number. -/
def workAt? (s : State α β) (i : Nat) : Option (State α β) := do
  let w ← s.workers[i]?
  let (next, t) ← work? scan capacity s w
  return { t with workers := s.workers.set i next }

/-- The step of the collector. -/
def collect? (s : State α β) : Option (State α β) :=
  match s.collector, s.results with
  | .launching, _ => some { s with collector := .taking }
  | .taking, result :: results => some { s with results, collected := s.collected ++ [result] }
  | .taking, [] => if s.deserted then some { s with collector := .gone } else none
  | .gone, _ => none

/-- A move: a step of the producer, of a worker or of the collector. -/
inductive Move : State α β → State α β → Prop where
  | producer {s t : State α β} : produce? capacity s = some t → Move s t
  | worker {s t : State α β} (i : Nat) : workAt? scan capacity s i = some t → Move s t
  | collector {s t : State α β} : collect? s = some t → Move s t

/-- One step of the pipeline: a move, or the setting of the flag. -/
inductive Step : State α β → State α β → Prop where
  | move {s t : State α β} : Move scan capacity s t → Step s t
  | cancel {s : State α β} : Step s { s with cancelled := true }

/-! ### A run -/

/-- The step of the first worker that can take one. -/
def workFirst? (s : State α β) : Option (State α β) :=
  (List.range s.workers.length).findSome? (workAt? scan capacity s)

/-- A step that the pipeline can take: results are collected first, then items are worked on,
then new ones are fetched. -/
def advance? (s : State α β) : Option (State α β) :=
  (collect? s).or ((workFirst? scan capacity s).or (produce? capacity s))

/-- A bound on the steps of the producer and on those that its items still need. -/
def Producer.weight : Producer α → Nat
  | .idle rest => 6 * rest.length + 1
  | .sending _ rest => 6 * rest.length + 6
  | .gone => 0

/-- A bound on the steps of a worker and on those that its result still needs. -/
def Worker.weight : Worker α β → Nat
  | .waiting => 1
  | .holding _ => 4
  | .sending _ => 3
  | .gone => 0

/-- A bound on the steps of the collector, apart from taking results. -/
def Collector.weight : Collector → Nat
  | .launching => 2
  | .taking => 1
  | .gone => 0

/-- A bound on the number of steps that are left. -/
def State.weight (s : State α β) : Nat :=
  s.producer.weight + 4 * s.items.length + s.overWorkers (·.weight) + s.results.length +
    s.collector.weight

/-- Takes steps as long as there are any, at most `n`. -/
def runFor : Nat → State α β → State α β
  | 0, s => s
  | n + 1, s =>
    match advance? scan capacity s with
    | some t => runFor n t
    | none => s

/-- Runs the pipeline to its end. -/
def run (s : State α β) : State α β := runFor scan capacity s.weight s

end Steps
end SourceAudit.Scan.Pipeline
