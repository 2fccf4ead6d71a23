import FlowGraph.Graph.Peel
import FlowGraph.Registry

/-!
# Blueprints

A blueprint collects nodes and connections by name; building it resolves the names and checks the
result. A node that cannot be added is left out and the first such failure is what building reports.
Otherwise building checks, in this order: each value connection as it was made, each flow connection,
each required input, and that no value depends on itself.
-/

namespace FlowGraph

/-- A value connection by name, from an output to an input. -/
structure ValueWish where
  source : String
  sourcePort : String
  target : String
  targetPort : String
deriving DecidableEq, Repr

/-- A flow connection by name, from a flow output to a node. -/
structure FlowWish where
  source : String
  flow : String
  target : String
deriving DecidableEq, Repr

structure Blueprint where
  name : String
  config : Config := {}
  members : List Member := []
  valueWishes : List ValueWish := []
  flowWishes : List FlowWish := []
  failure : Option BuildError := none

namespace Blueprint

/-- Records a failure unless there is an earlier one. -/
def fail (b : Blueprint) (e : BuildError) : Blueprint :=
  { b with failure := b.failure.or (some e) }

/-- Adds a node under a name that is not taken. -/
def add (b : Blueprint) (name : String) (node : Node) : Blueprint :=
  if b.members.any (·.name == name) then b.fail (.duplicateNode name)
  else { b with members := b.members ++ [⟨name, node⟩] }

/-- Adds a node of a registered type. -/
def addRegistered (b : Blueprint) (r : Registry) (name nodeType : String)
    (arg : Option ValueType) : Blueprint :=
  match r.create nodeType arg with
  | .ok node => b.add name node
  | .error e => b.fail e

def connectValue (b : Blueprint) (source sourcePort target targetPort : String) : Blueprint :=
  { b with valueWishes := b.valueWishes ++ [⟨source, sourcePort, target, targetPort⟩] }

def connectFlow (b : Blueprint) (source flow target : String) : Blueprint :=
  { b with flowWishes := b.flowWishes ++ [⟨source, flow, target⟩] }

/-- The member with a name, and its id. -/
def find (b : Blueprint) (name : String) : Except BuildError (NodeId × Member) :=
  match b.members.findIdx? (·.name == name) with
  | none => .error (.nodeNotFound name)
  | some i =>
    match b.members[i]? with
    | none => .error (.nodeNotFound name)
    | some m => .ok (⟨i⟩, m)

/-- The output of a member with a name, and its place. -/
def findOutput (m : Member) (node port : String) : Except BuildError (Nat × Output) :=
  match m.descriptor.outputIndex? port with
  | none => .error (.unknownPort node port)
  | some i =>
    match m.descriptor.outputs[i]? with
    | none => .error (.unknownPort node port)
    | some o => .ok (i, o)

/-- The input of a member with a name, and its place. -/
def findInput (m : Member) (node port : String) : Except BuildError (Nat × Input) :=
  match m.descriptor.inputIndex? port with
  | none => .error (.unknownPort node port)
  | some i =>
    match m.descriptor.inputs[i]? with
    | none => .error (.unknownPort node port)
    | some input => .ok (i, input)

/-- Resolves a value connection, given those resolved before it. -/
def resolveValue (b : Blueprint) (edges : List ValueEdge) (w : ValueWish) :
    Except BuildError (List ValueEdge) := do
  let (source, sourceMember) ← b.find w.source
  let (target, targetMember) ← b.find w.target
  let (sourceIndex, output) ← findOutput sourceMember w.source w.sourcePort
  let (targetIndex, input) ← findInput targetMember w.target w.targetPort
  let edge : ValueEdge := ⟨⟨source, sourceIndex⟩, ⟨target, targetIndex⟩⟩
  if output.type ≠ input.type then
    .error (.typeMismatch w.source w.sourcePort w.target w.targetPort input.type output.type)
  else if !input.isList && edges.any (·.target = edge.target) then
    .error (.inputAlreadyConnected w.target w.targetPort)
  else .ok (edges ++ [edge])

/-- Resolves a flow connection. -/
def resolveFlow (b : Blueprint) (w : FlowWish) : Except BuildError FlowEdge := do
  let (source, sourceMember) ← b.find w.source
  let (target, targetMember) ← b.find w.target
  match sourceMember.descriptor.flowIndex? w.flow with
  | none => .error (.unknownFlow w.source w.flow)
  | some flow =>
    if targetMember.descriptor.flowInput then .ok ⟨⟨source, flow⟩, target⟩
    else .error (.notFlowInput w.target)

/-- The first required input without a connection, by node and then by place. -/
def missingInput? (b : Blueprint) (edges : List ValueEdge) : Option BuildError :=
  b.members.zipIdx.findSome? fun (m, node) =>
    m.descriptor.inputs.zipIdx.findSome? fun (input, index) =>
      if input.isRequired && !edges.any (·.target = ⟨⟨node⟩, index⟩) then
        some (.requiredInputUnconnected m.name input.name)
      else none

/-- The first node that the value connections leave without a place in any order of evaluation. -/
def cycle? (b : Blueprint) (edges : List ValueEdge) : Option BuildError := do
  let stuck ← Peel.stuck? b.members.length (edges.map (·.dependency))
  let m ← b.members[stuck]?
  some (.valueCycle m.name)

/-- The graph that a blueprint describes, or the first thing wrong with it. -/
def build (b : Blueprint) : Except BuildError Graph := do
  match b.failure with
  | some e => .error e
  | none =>
    let valueEdges ← b.valueWishes.foldlM b.resolveValue []
    let flowEdges ← b.flowWishes.mapM b.resolveFlow
    match b.missingInput? valueEdges with
    | some e => .error e
    | none =>
      match b.cycle? valueEdges with
      | some e => .error e
      | none => .ok { name := b.name, config := b.config, members := b.members, valueEdges, flowEdges }

end Blueprint

end FlowGraph
