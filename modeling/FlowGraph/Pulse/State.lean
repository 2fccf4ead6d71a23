import FlowGraph.Report.Basic
import FlowGraph.World

/-!
# The state of a pulse

A pulse keeps what flow-driven nodes have published in it, the *memo* of the values that pure nodes
have computed in it, and its counters. None of it is visible to another pulse, and all of it is gone
when the pulse ends, except for what the report tells.

A published value replaces the one before. A memoised value stays as it was first written until it is
evicted because something it derives from is published.
-/

namespace FlowGraph

structure Pulse where
  id : PulseId
  root : NodeId
  token : TokenId
  startedAt : Nat
  published : Table Port Value := ∅
  memo : Table Port Value := ∅
  activations : Array NodeId := #[]
  activationCount : Nat := 0
  evaluations : Nat := 0
  memoHits : Nat := 0
  invalidations : Nat := 0
  suppressed : Nat := 0

namespace Pulse

/-- Publishes a value and evicts the memo of the nodes that derive from it. Every evicted value counts
as an invalidation. -/
def publish (p : Pulse) (output : Port) (v : Value) (dependents : List NodeId) : Pulse :=
  let memo := p.memo.filterKeys fun port => !dependents.contains port.node
  { p with
    published := p.published.insert output v
    memo
    invalidations := p.invalidations + (p.memo.size - memo.size) }

/-- Memoises a value unless its output has one. -/
def memoize (p : Pulse) (output : Port) (v : Value) : Pulse :=
  { p with memo := p.memo.insertNew output v }

/-- Counts the computation of a node, and gives the outputs that it left unwritten their resting
values. -/
def completeEvaluation (p : Pulse) (resting : List (Port × Value)) : Pulse :=
  resting.foldl (fun p (output, v) => p.memoize output v) { p with evaluations := p.evaluations + 1 }

/-- Counts an activation and, if wanted, lists it. -/
def begin (p : Pulse) (n : NodeId) (list : Bool) : Pulse :=
  { p with
    activationCount := p.activationCount + 1
    activations := if list then p.activations.push n else p.activations }

/-- What the pulse reports if it ends in a given world. -/
def report (p : Pulse) (w : World) : Report where
  pulse := p.id
  root := p.root
  activations := p.activations.toList
  activationCount := p.activationCount
  evaluations := p.evaluations
  memoHits := p.memoHits
  invalidations := p.invalidations
  suppressed := p.suppressed
  cancelled := w.isCancelled p.token
  startedAt := .ofMillis p.startedAt
  finishedAt := .ofMillis w.now

end Pulse

/-- Starts counting a pulse: gives it the next id. -/
def World.beginPulse (w : World) (root : NodeId) (token : TokenId) : World × Pulse :=
  ({ w with pulses := w.pulses + 1 }, { id := ⟨w.pulses + 1⟩, root, token, startedAt := w.now })

end FlowGraph
