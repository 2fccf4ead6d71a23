import FlowGraph.Port
import FlowGraph.Value.Basic

/-!
# What can go wrong

Three kinds of error. A `BuildError` says why a graph or a node cannot be made; a `NodeError` says why
a pulse had to be aborted; a `PulseError` is what the host is told about a pulse that gave no report.
Each kind has one function that words it.
-/

namespace FlowGraph

inductive BuildError where
  | duplicateNode (name : String)
  | nodeNotFound (name : String)
  | unknownPort (node port : String)
  | unknownFlow (node flow : String)
  | notFlowInput (node : String)
  | typeMismatch (source sourcePort target targetPort : String) (expected found : ValueType)
  | inputAlreadyConnected (node port : String)
  | requiredInputUnconnected (node port : String)
  | valueCycle (node : String)
  | unknownNodeType (nodeType : String)
  | typeNotInFilter (nodeType : String) (type : ValueType)
  | missingTypeArgument (nodeType : String)
  | unexpectedTypeArgument (nodeType : String)
deriving DecidableEq, Repr

def BuildError.message : BuildError → String
  | .duplicateNode name => s!"Node name '{name}' is used more than once"
  | .nodeNotFound name => s!"Node '{name}' not found"
  | .unknownPort node port => s!"Node '{node}' has no value port named '{port}'"
  | .unknownFlow node flow => s!"Node '{node}' has no flow output named '{flow}'"
  | .notFlowInput node => s!"Node '{node}' does not accept a flow input"
  | .typeMismatch source sourcePort target targetPort expected found =>
    s!"Cannot connect {source}.{sourcePort} ({found.label}) to {target}.{targetPort} ({expected.label})"
  | .inputAlreadyConnected node port => s!"Input {node}.{port} already has an upstream connection"
  | .requiredInputUnconnected node port => s!"Required input {node}.{port} is not connected"
  | .valueCycle node => s!"Value connections form a cycle through node '{node}'"
  | .unknownNodeType nodeType => s!"Node type '{nodeType}' is not registered"
  | .typeNotInFilter nodeType type =>
    s!"Node type '{nodeType}' is not instantiated for type '{type.name}'"
  | .missingTypeArgument nodeType => s!"Generic node type '{nodeType}' requires a type argument"
  | .unexpectedTypeArgument nodeType => s!"Node type '{nodeType}' is not generic"

inductive NodeError where
  | unknownNode (node : NodeId)
  | unknownPort (node : String) (port : Nat)
  | typeMismatch (node : NodeId) (port : Nat) (expected : ValueType)
  | flowDepthExceeded (node : String) (limit : Nat)
  | invariantViolation (node message : String)
deriving DecidableEq, Repr

def NodeError.message : NodeError → String
  | .unknownNode node => s!"Node {node.text} does not exist in this graph"
  | .unknownPort node port => s!"Node '{node}' has no port at index {Text.decimal port}"
  | .typeMismatch node port expected =>
    s!"Value on input {Text.decimal port} of node {node.text} is not a {expected.label}"
  | .flowDepthExceeded node limit =>
    s!"Flow depth limit {Text.decimal limit} exceeded at node '{node}'"
  | .invariantViolation node message => s!"Invariant violated in node '{node}': {message}"

inductive PulseError where
  | nodeNotFound (node : NodeId)
  | unknownNodeName (name : String)
  | notTriggerable (name : String)
  | aborted (pulse : PulseId) (cause : NodeError)
deriving DecidableEq, Repr

def PulseError.message : PulseError → String
  | .nodeNotFound node => s!"Node {node.text} does not exist in this graph"
  | .unknownNodeName name => s!"No node named '{name}' in this graph"
  | .notTriggerable name => s!"Node '{name}' is a pure value node and cannot start a pulse"
  | .aborted pulse cause => s!"{pulse.text} aborted: {cause.message}"

end FlowGraph
