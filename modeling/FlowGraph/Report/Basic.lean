import FlowGraph.Port
import FlowGraph.Time.Timestamp

/-!
# Reports

What a pulse did: which nodes it activated, in order, how often it computed or found a value, and
whether it was cancelled by the time it ended.
-/

namespace FlowGraph

structure Report where
  pulse : PulseId
  root : NodeId
  /-- The activated nodes in order, or nothing if activations are not listed. -/
  activations : List NodeId
  activationCount : Nat
  /-- How often a pure node was computed. -/
  evaluations : Nat
  /-- How often a value of a pure node was found already computed. -/
  memoHits : Nat
  /-- How many computed values were dropped because something they derive from was published. -/
  invalidations : Nat
  /-- How many activations were held back because no reactive input had changed. -/
  suppressed : Nat
  cancelled : Bool
  startedAt : Timestamp
  finishedAt : Timestamp
deriving DecidableEq, Inhabited

namespace Report

/-- Whether the pulse activated anything. -/
def fired (r : Report) : Bool :=
  0 < r.activationCount

/-- How often a node is listed among the activations. -/
def activationsOf (r : Report) (n : NodeId) : Nat :=
  r.activations.count n

/-- How long the pulse took, in whole milliseconds. -/
def duration (r : Report) : Int :=
  r.finishedAt.millisSince r.startedAt

end Report

end FlowGraph
