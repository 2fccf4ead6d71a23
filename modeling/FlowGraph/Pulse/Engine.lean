import FlowGraph.Graph.Dependents
import FlowGraph.Program
import FlowGraph.Pulse.Action

/-!
# How a pulse runs nodes

The rules of activation, firing and reading, as programs over what a pulse can do. A pulse does single
actions, and it can enter another node: `activate` pushes flow into a node, `evaluate` computes a pure
node. Entering is a request like any other, so these rules do not call each other; the machine that
runs them keeps the way back.

An activation of a cancelled pulse does nothing. Otherwise a node with reactive inputs is let through
only if one of them has changed, then its guard is asked, then the activation is counted and the
node's process runs. Reading an output of a pure node computes the node unless the memo has the value;
any other output has the value last published, or its resting value.
-/

namespace FlowGraph

inductive EngineRequest where
  | act (action : Action)
  /-- Computes a pure node. -/
  | evaluate (node : NodeId) (depth : Nat)
  /-- Lets flow into a node. -/
  | activate (node : NodeId) (depth : Nat)
  /-- Waits until some time has passed or the pulse is cancelled. -/
  | sleep (milliseconds : Nat)
  /-- Lets other pulses run that are ready to. -/
  | rest
  /-- Starts the process of the current node over. -/
  | restart
  | abort (cause : NodeError)
  /-- Runs another pulse to its end. -/
  | pulse (root : NodeId)

@[reducible] def EngineRequest.Reply : EngineRequest → Type
  | .act action => action.Reply
  | .evaluate .. | .activate .. | .sleep _ | .rest => Unit
  | .restart | .abort _ => Empty
  | .pulse _ => Except PulseError Report

abbrev Engine (α : Type) :=
  Program EngineRequest.Reply α

/-- The node that a program runs for, and how many flow connections lie between it and the root. -/
structure Scope where
  node : NodeId
  depth : Nat
deriving DecidableEq, Repr

namespace Engine

def act (a : Action) : Engine a.Reply :=
  .ask (.act a) .done

def isCancelled : Engine Bool :=
  act .isCancelled

def abort {α : Type} (cause : NodeError) : Engine α :=
  .ask (.abort cause) Empty.elim

variable (g : Graph)

/-- The member with an id. -/
def member (n : NodeId) : Engine Member :=
  match g.member? n with
  | some m => pure m
  | none => abort (.unknownNode n)

/-- The resting values of a node's outputs. -/
def restingOutputs (n : NodeId) (m : Member) : List (Port × Value) :=
  m.descriptor.outputs.zipIdx.map fun (o, i) => (⟨n, i⟩, o.resting)

/-- The value of an output, computed if need be. -/
def resolve (depth : Nat) (output : Port) : Engine Value := do
  let m ← member g output.node
  match m.descriptor.outputs[output.index]? with
  | none => abort (.unknownPort m.name output.index)
  | some o =>
    if m.node.isPure then
      match ← act (.memoized output) with
      | some v =>
        act .countHit
        pure v
      | none =>
        .ask (.evaluate output.node depth) .done
        act (.completeEvaluation (restingOutputs output.node m))
        return (← act (.memoized output)).getD o.resting
    else return (← act (.published output)).getD o.resting

/-- The values of some outputs, one after the other. -/
def resolveAll (depth : Nat) : List Port → Engine (List Value)
  | [] => pure []
  | output :: outputs => do
    let v ← resolve g depth output
    return v :: (← resolveAll depth outputs)

/-- The declaration of an input of the current node. -/
def declaredInput (s : Scope) (index : Nat) : Engine Input := do
  let m ← member g s.node
  match m.descriptor.inputs[index]? with
  | some i => pure i
  | none => abort (.unknownPort m.descriptor.name index)

/-- The value of an input: that of its first connection, or its resting value. -/
def inputValue (s : Scope) (index : Nat) : Engine (Option Value) := do
  let i ← declaredInput g s index
  match g.sources ⟨s.node, index⟩ with
  | source :: _ => return some (← resolve g s.depth source)
  | [] => pure i.resting?

/-- A value read at an input, as one of the type that the reader expects. -/
def expect (s : Scope) (index : Nat) (t : ValueType) (v : Option Value) : Engine t.Carrier :=
  match v.bind (·.as? t) with
  | some c => pure c
  | none => abort (.typeMismatch s.node index t)

/-- The values of everything connected to an input, as values of one type. All of them are resolved
before the first is looked at. -/
def inputValues (s : Scope) (index : Nat) (t : ValueType) : Engine (List t.Carrier) := do
  let _ ← declaredInput g s index
  let values ← resolveAll g s.depth (g.sources ⟨s.node, index⟩)
  values.mapM fun v => expect s index t (some v)

/-- Observes the inputs from one place on, reactive ones only, without stopping at the first that has
changed. -/
def observeFrom (s : Scope) : (index : Nat) → List Input → Engine Bool
  | _, [] => pure false
  | index, i :: rest =>
    if i.isReactive then do
      let changed ←
        match ← inputValue g s index with
        | some v => act (.observe ⟨s.node, index⟩ i.type v)
        | none => pure false
      let later ← observeFrom s (index + 1) rest
      pure (changed || later)
    else observeFrom s (index + 1) rest

/-- Activates nodes one after the other until the pulse is cancelled. -/
def activateAll (depth : Nat) : List NodeId → Engine Unit
  | [] => pure ()
  | n :: rest => do
    if ← isCancelled then pure ()
    else
      .ask (.activate n depth) .done
      activateAll depth rest

/-- Fires a flow output. A connection would lead one step deeper, so firing counts against the depth
limit whether or not there is one. -/
def fire (s : Scope) (index : Nat) : Engine Unit := do
  let m ← member g s.node
  match m.descriptor.flows[index]? with
  | none =>
    abort (.invariantViolation m.name s!"flow output {Text.decimal index} is not declared")
  | some _ =>
    if ← isCancelled then pure ()
    else if g.config.maxFlowDepth < s.depth + 1 then
      abort (.flowDepthExceeded m.name g.config.maxFlowDepth)
    else activateAll (s.depth + 1) (g.targets ⟨s.node, index⟩)

/-- Gives an output a value: the memo keeps it for a pure node, and it is published otherwise. -/
def publish (s : Scope) (index : Nat) (v : Value) : Engine Unit :=
  let output : Port := ⟨s.node, index⟩
  if g.isPure s.node then act (.memoize output v) else act (.publish output v (g.dependents output))

/-- Waits unless the pulse is cancelled. No time at all passes at once, but not in a turn that is
full. -/
def delay (milliseconds : Nat) : Engine Bool := do
  if ← act .isTurnFull then .ask .rest .done
  if ← isCancelled then return false
  if milliseconds ≠ 0 then .ask (.sleep milliseconds) .done
  if ← isCancelled then return false
  act .endWait
  return true

/-- Runs another pulse from a named node. -/
def pulse (name : String) : Engine (Except PulseError PulseId) :=
  match g.named name with
  | .error e => pure (.error e)
  | .ok n =>
    match g.root n with
    | .error e => pure (.error e)
    | .ok _ => do
      let result ← (.ask (.pulse n) .done : Engine (Except PulseError Report))
      pure (result.map (·.pulse))

/-- What each request of a node's program means. -/
def answer (s : Scope) : (r : NodeRequest) → Engine r.Reply
  | .input index t => do expect s index t (← inputValue g s index)
  | .inputs index t => inputValues g s index t
  | .publish output v => publish g s output v
  | .fire flow => fire g s flow
  | .remembered t => act (.remembered s.node t)
  | .remember v => act (.remember s.node v)
  | .update t f => act (.update s.node t f)
  | .push sink v => act (.push (sink.resolve s.node) v)
  | .isCancelled => isCancelled
  | .delay milliseconds => delay milliseconds
  | .rest => .ask .rest .done
  | .again => .ask .restart .done
  | .refuse message => do
    let m ← member g s.node
    abort (.invariantViolation m.name message)
  | .location => do
    let id ← act .pulseId
    pure ⟨s.node, s.depth, id⟩
  | .cancel => act .cancel
  | .shutDown => act .shutDown
  | .resetState => act (.reset g.resets)
  | .pulse root => pulse g root
  | .cell name => act (.cell name)
  | .setCell name d => act (.setCell name d)

/-- A program of the current node, in terms of what the pulse does. -/
def run {α : Type} (s : Scope) (p : NodeProgram α) : Engine α :=
  p.interpret (answer g s)

/-- The process of the current node. -/
def process (s : Scope) : Engine Unit := do
  let m ← member g s.node
  run g s m.node.process

/-- The computation of a pure node. -/
def evaluation (s : Scope) : Engine Unit := do
  let m ← member g s.node
  if ← run g s m.node.guard then run g s m.node.process else pure ()

/-- What follows when an activation has passed the gate of the reactive inputs. -/
def admitted (s : Scope) (m : Member) : Engine Unit := do
  if ← run g s m.node.guard then
    act (.begin s.node g.config.recordActivations)
    run g s m.node.process
  else pure ()

/-- The activation of a node. -/
def activation (s : Scope) : Engine Unit := do
  let m ← member g s.node
  if ← isCancelled then pure ()
  else if m.descriptor.hasReactiveInput then
    if ← observeFrom g s 0 m.descriptor.inputs then admitted g s m else act .countSuppression
  else admitted g s m

end Engine

end FlowGraph
