import FlowGraph.Pulse.State

/-!
# Actions

The single steps by which a pulse looks at or changes its own state and the world. Each is carried out
at once and replied to; a pulse has no other way to see or do anything. The list of the actions of a
pulse, in order, is therefore a full account of it.
-/

namespace FlowGraph

inductive Action where
  | isCancelled
  /-- Whether the next wait has to be left to another turn. -/
  | isTurnFull
  | endWait
  | pulseId
  /-- The value last published at an output. -/
  | published (output : Port)
  /-- The memoised value of an output. -/
  | memoized (output : Port)
  | countHit
  | publish (output : Port) (value : Value) (dependents : List NodeId)
  | memoize (output : Port) (value : Value)
  | completeEvaluation (resting : List (Port × Value))
  /-- Compares an input with its last observation; the reply tells whether it has changed. -/
  | observe (input : Port) (type : ValueType) (value : Value)
  | countSuppression
  | begin (node : NodeId) (list : Bool)
  | remembered (node : NodeId) (type : ValueType)
  | remember (node : NodeId) (value : Value)
  | update (node : NodeId) (type : ValueType) (f : type.Carrier → type.Carrier)
  | push (sink : SinkId) (value : Value)
  | cell (name : String)
  | setCell (name : String) (datum : Datum)
  | cancel
  | shutDown
  | reset (resets : List (NodeId × Reset))

namespace Action

/-- What each action is replied with. -/
@[reducible] def Reply : Action → Type
  | .isCancelled | .isTurnFull | .observe .. => Bool
  | .pulseId => PulseId
  | .published _ | .memoized _ => Option Value
  | .cell _ => Option Datum
  | .remembered _ type | .update _ type _ => type.Carrier
  | .countHit | .publish .. | .memoize .. | .completeEvaluation _ | .countSuppression | .begin ..
  | .remember .. | .push .. | .setCell .. | .endWait | .cancel | .shutDown | .reset _ => Unit

/-- Carries out an action. -/
def perform (w : World) (p : Pulse) : (a : Action) → a.Reply × World × Pulse
  | .isCancelled => (w.isCancelled p.token, w, p)
  | .isTurnFull => (w.isTurnFull, w, p)
  | .endWait => ((), w.endWait, p)
  | .pulseId => (p.id, w, p)
  | .published output => (p.published.get? output, w, p)
  | .memoized output => (p.memo.get? output, w, p)
  | .countHit => ((), w, { p with memoHits := p.memoHits + 1 })
  | .publish output value dependents => ((), w, p.publish output value dependents)
  | .memoize output value => ((), w, p.memoize output value)
  | .completeEvaluation resting => ((), w, p.completeEvaluation resting)
  | .observe input type value =>
    let (w, changed) := w.observe input type value
    (changed, w, p)
  | .countSuppression => ((), w, { p with suppressed := p.suppressed + 1 })
  | .begin node list => ((), w, p.begin node list)
  | .remembered node type => ((w.store node type).read, w, p)
  | .remember node value => ((), w.remember node value, p)
  | .update node type f =>
    let w := w.update node type f
    ((w.store node type).read, w, p)
  | .push sink value => ((), w.push sink value, p)
  | .cell name => (w.cells.get? name, w, p)
  | .setCell name datum => ((), w.setCell name datum, p)
  | .cancel => ((), w.cancel p.token, p)
  | .shutDown => ((), w.shutDown, p)
  | .reset resets => ((), w.reset resets, p)

end Action

end FlowGraph
