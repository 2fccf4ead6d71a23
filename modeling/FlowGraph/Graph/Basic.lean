import FlowGraph.Config
import FlowGraph.Node

/-!
# Graphs

A graph is a list of named nodes with two kinds of connection between them, kept in the order in which
they were made. A value connection leads from an output to an input; a flow connection leads from a
flow output to a node. Everything a graph is asked for is read off these lists: the sources of an input
and the targets of a flow output keep the order of the connections.
-/

namespace FlowGraph

/-- A node together with its name in a graph. -/
structure Member where
  name : String
  node : Node

structure ValueEdge where
  source : Port
  target : Port
deriving DecidableEq, Repr

structure FlowEdge where
  source : Port
  target : NodeId
deriving DecidableEq, Repr

structure Graph where
  name : String
  config : Config
  members : List Member
  valueEdges : List ValueEdge
  flowEdges : List FlowEdge

namespace Member

def descriptor (m : Member) : Descriptor :=
  m.node.descriptor

end Member

namespace Graph

/-- The member with an id. -/
def member? (g : Graph) (n : NodeId) : Option Member :=
  g.members[n.index]?

def size (g : Graph) : Nat :=
  g.members.length

/-- All ids, in order. -/
def ids (g : Graph) : List NodeId :=
  (List.range g.size).map NodeId.mk

/-- The id of the node with a name. -/
def id? (g : Graph) (name : String) : Option NodeId :=
  (g.members.findIdx? (·.name == name)).map NodeId.mk

/-- Whether an id belongs to a pure node. -/
def isPure (g : Graph) (n : NodeId) : Bool :=
  (g.member? n).any (·.node.isPure)

/-- The outputs connected to an input, in the order of their connections. -/
def sources (g : Graph) (input : Port) : List Port :=
  (g.valueEdges.filter (·.target = input)).map (·.source)

/-- The nodes connected to a flow output, in the order of their connections. -/
def targets (g : Graph) (flow : Port) : List NodeId :=
  (g.flowEdges.filter (·.source = flow)).map (·.target)

/-- The nodes with an input connected to an output. -/
def consumers (g : Graph) (output : Port) : List NodeId :=
  (g.valueEdges.filter (·.source = output)).map (·.target.node)

/-- The outputs that a node declares. -/
def outputs (g : Graph) (n : NodeId) : List Port :=
  match g.member? n with
  | some m => (List.range m.descriptor.outputs.length).map (Port.mk n)
  | none => []

/-- The nodes that start flows of their own when a reactive input changes, in order. -/
def updateNodes (g : Graph) : List NodeId :=
  g.ids.filter fun n => (g.member? n).any (·.descriptor.isUpdate)

/-- What resetting the members does, one after the other, each with the id of its member. -/
def resets (g : Graph) : List (NodeId × Reset) :=
  g.members.zipIdx.flatMap fun (m, i) => m.node.reset.map (NodeId.mk i, ·)

/-- Why a node cannot start a pulse; the node, if it can. -/
def root (g : Graph) (n : NodeId) : Except PulseError Member :=
  match g.member? n with
  | none => .error (.nodeNotFound n)
  | some m => if m.node.isPure then .error (.notTriggerable m.name) else .ok m

/-- The id of a named node, for starting a pulse from it. -/
def named (g : Graph) (name : String) : Except PulseError NodeId :=
  match g.id? name with
  | none => .error (.unknownNodeName name)
  | some n => .ok n

/-- The number of inputs with at least one connection. -/
def connectedInputs (g : Graph) : Nat :=
  (g.valueEdges.map (·.target)).eraseDups.length

/-- The number of flow outputs with at least one connection. -/
def connectedFlows (g : Graph) : Nat :=
  (g.flowEdges.map (·.source)).eraseDups.length

/-- The graph's description for a developer. -/
def summary (g : Graph) (isShutDown : Bool) : String :=
  "Graph \x7b name: " ++ Text.quoted g.name ++ ", nodes: " ++ Text.decimal g.size ++
    ", value_edges: " ++ Text.decimal g.connectedInputs ++
    ", flow_edges: " ++ Text.decimal g.connectedFlows ++
    ", shut_down: " ++ ValueType.bool.shown isShutDown ++ " \x7d"

end Graph

end FlowGraph
