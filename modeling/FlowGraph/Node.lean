import FlowGraph.Descriptor
import FlowGraph.Error
import FlowGraph.Program
import FlowGraph.Value.Datum

/-!
# Nodes

A node is a descriptor and two programs. The *guard* decides whether an activation goes ahead, and the
*process* is what the activation does. Both talk to the pulse that runs them through the requests
below and through nothing else: they read inputs, publish outputs, fire flow outputs, use the node's
own store, wait, and ask about cancellation. A request that has no reply ends the program: `refuse`
aborts the pulse, and `again` starts the process over within the same activation, which is how a loop
without an end is written.
-/

namespace FlowGraph

/-- Where a node sends the values that it logs: to a sink of its own or to one shared by name. -/
inductive SinkRef where
  | own
  | named (name : String)
deriving DecidableEq, Repr

/-- Something that a node does when it is reset. -/
inductive Reset where
  /-- Forgets what is in the node's store, which keeps values of the given type. -/
  | store (type : ValueType)
  /-- Puts something into a named cell. -/
  | setCell (name : String) (datum : Datum)

/-- Where a program runs. -/
structure Location where
  node : NodeId
  depth : Nat
  pulse : PulseId
deriving DecidableEq, Repr

inductive NodeRequest where
  /-- The value of a single input, as one of the given type. -/
  | input (index : Nat) (type : ValueType)
  /-- The values of everything connected to an input, as values of the given type. -/
  | inputs (index : Nat) (type : ValueType)
  /-- Gives an output its value for the current pulse. -/
  | publish (output : Nat) (value : Value)
  /-- Activates everything connected to a flow output, one after the other. -/
  | fire (flow : Nat)
  /-- The value in the node's store, the type's zero if there is none. -/
  | remembered (type : ValueType)
  /-- Puts a value into the node's store. -/
  | remember (value : Value)
  /-- Replaces the value in the node's store by a function of it, and reads the new one. -/
  | update (type : ValueType) (f : type.Carrier → type.Carrier)
  /-- Appends a value to a sink. -/
  | push (sink : SinkRef) (value : Value)
  | isCancelled
  /-- Waits; the reply tells whether the time passed without the pulse being cancelled. -/
  | delay (milliseconds : Nat)
  /-- Lets other pulses run that are ready to. -/
  | rest
  /-- Starts the node's process over. -/
  | again
  /-- Aborts the pulse with a message. -/
  | refuse (message : String)
  | location
  /-- Cancels the pulse that runs the program. -/
  | cancel
  /-- Cancels every pulse of the graph, present and future. -/
  | shutDown
  /-- Forgets what the graph keeps between pulses. -/
  | resetState
  /-- Runs another pulse from a named node to its end. -/
  | pulse (root : String)
  /-- What a named cell holds, if there is one. -/
  | cell (name : String)
  /-- Puts something into a named cell. -/
  | setCell (name : String) (datum : Datum)

/-- What each request is replied with. -/
@[reducible] def NodeRequest.Reply : NodeRequest → Type
  | .input _ type => type.Carrier
  | .inputs _ type => List type.Carrier
  | .remembered type | .update type _ => type.Carrier
  | .isCancelled | .delay _ => Bool
  | .again | .refuse _ => Empty
  | .location => Location
  | .pulse _ => Except PulseError PulseId
  | .cell _ => Option Datum
  | .publish .. | .fire _ | .remember _ | .push .. | .rest | .cancel | .shutDown | .resetState
  | .setCell .. => Unit

/-- A program of a node. -/
abbrev NodeProgram (α : Type) :=
  Program NodeRequest.Reply α

namespace NodeProgram

def input (index : Nat) (type : ValueType) : NodeProgram type.Carrier :=
  .ask (.input index type) .done

def inputs (index : Nat) (type : ValueType) : NodeProgram (List type.Carrier) :=
  .ask (.inputs index type) .done

def publish (output : Nat) (value : Value) : NodeProgram Unit :=
  .ask (.publish output value) .done

def fire (flow : Nat) : NodeProgram Unit :=
  .ask (.fire flow) .done

def remembered (type : ValueType) : NodeProgram type.Carrier :=
  .ask (.remembered type) .done

def remember (value : Value) : NodeProgram Unit :=
  .ask (.remember value) .done

def update (type : ValueType) (f : type.Carrier → type.Carrier) : NodeProgram type.Carrier :=
  .ask (.update type f) .done

def push (sink : SinkRef) (value : Value) : NodeProgram Unit :=
  .ask (.push sink value) .done

def isCancelled : NodeProgram Bool :=
  .ask .isCancelled .done

def delay (milliseconds : Nat) : NodeProgram Bool :=
  .ask (.delay milliseconds) .done

def rest : NodeProgram Unit :=
  .ask .rest .done

def again {α : Type} : NodeProgram α :=
  .ask .again Empty.elim

def refuse {α : Type} (message : String) : NodeProgram α :=
  .ask (.refuse message) Empty.elim

def location : NodeProgram Location :=
  .ask .location .done

def cancel : NodeProgram Unit :=
  .ask .cancel .done

def shutDown : NodeProgram Unit :=
  .ask .shutDown .done

def resetState : NodeProgram Unit :=
  .ask .resetState .done

def pulse (root : String) : NodeProgram (Except PulseError PulseId) :=
  .ask (.pulse root) .done

def cell (name : String) : NodeProgram (Option Datum) :=
  .ask (.cell name) .done

def setCell (name : String) (datum : Datum) : NodeProgram Unit :=
  .ask (.setCell name datum) .done

end NodeProgram

/-- What a host can ask of a node besides its descriptor. -/
inductive Facet where
  | plain
  | constant (value : Value)
  | counter
  | edgeMemory
  | log (type : ValueType) (sink : SinkRef)
deriving DecidableEq

structure Node where
  descriptor : Descriptor
  guard : NodeProgram Bool := pure true
  process : NodeProgram Unit
  /-- What the node does when it is reset, in order. -/
  reset : List Reset := []
  facet : Facet := .plain

namespace Node

def isPure (n : Node) : Bool :=
  n.descriptor.isPure

end Node

end FlowGraph
