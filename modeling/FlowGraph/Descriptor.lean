import FlowGraph.Value.Basic

/-!
# Descriptors

A descriptor is what a node shows to the outside: its name and editor category, whether flow can enter
it, and its value inputs, value outputs and flow outputs in the order of their declaration. Ports are
declared one after another, and each declaration is told the place of its port in the list it joins.
Declaring never moves a port that is already there, so that place stays right.

A node without any flow port is *pure*: it computes values and does nothing else.
-/

namespace FlowGraph

/-- What an input of a type accepts: one connection, with the value it has while unconnected, or any
number of connections in order. -/
inductive Arity (t : ValueType) where
  | single (resting : t.Carrier) (required reactive : Bool)
  | list

structure Input where
  name : String
  type : ValueType
  arity : Arity type

structure Output where
  name : String
  type : ValueType
deriving DecidableEq, Repr

/-- A flow output; `isLoop` tells that it may be fired many times in one activation. -/
structure Flow where
  name : String
  isLoop : Bool
deriving DecidableEq, Repr

namespace Input

def isList (i : Input) : Bool :=
  match i.arity with
  | .single .. => false
  | .list => true

/-- A graph with this input unconnected cannot be built. -/
def isRequired (i : Input) : Bool :=
  match i.arity with
  | .single _ required _ => required
  | .list => false

/-- A change of this input lets the node's activation pass. -/
def isReactive (i : Input) : Bool :=
  match i.arity with
  | .single _ _ reactive => reactive
  | .list => false

theorem isList_of_isReactive {i : Input} (h : i.isReactive = true) : i.isList = false := by
  obtain ⟨name, type, arity⟩ := i
  cases arity with
  | single => rfl
  | list => cases h

/-- The value of the input while nothing is connected to it. A list input then holds an empty list,
which is no value of any type. -/
def resting? (i : Input) : Option Value :=
  match i.arity with
  | .single resting _ _ => some (.of i.type resting)
  | .list => none

end Input

/-- The value of an output that has not been written. -/
def Output.resting (o : Output) : Value :=
  .zero o.type

structure Descriptor where
  name : String
  category : String
  flowInput : Bool := false
  collapsed : Bool := false
  inputs : List Input := []
  outputs : List Output := []
  flows : List Flow := []

/-- One step in declaring the ports of a node. -/
inductive Declaration where
  | flowInput
  | collapsed
  | input (name : String) (type : ValueType)
  | defaulted (name : String) (type : ValueType) (resting : type.Carrier)
  | required (name : String) (type : ValueType)
  | reactive (name : String) (type : ValueType)
  | list (name : String) (type : ValueType)
  | output (name : String) (type : ValueType)
  | continuation (name : String)
  | call (name : String)

namespace Descriptor

/-- A pure node has no flow port at all. -/
def isPure (d : Descriptor) : Bool :=
  !d.flowInput && d.flows.isEmpty

def hasReactiveInput (d : Descriptor) : Bool :=
  d.inputs.any (·.isReactive)

/-- An update node starts flows of its own when a reactive input changes; no flow enters it. -/
def isUpdate (d : Descriptor) : Bool :=
  !d.flowInput && !d.flows.isEmpty && d.hasReactiveInput

/-- The place of the first input with a name. -/
def inputIndex? (d : Descriptor) (name : String) : Option Nat :=
  d.inputs.findIdx? (·.name == name)

/-- The place of the first output with a name. -/
def outputIndex? (d : Descriptor) (name : String) : Option Nat :=
  d.outputs.findIdx? (·.name == name)

/-- The place of the first flow output with a name. -/
def flowIndex? (d : Descriptor) (name : String) : Option Nat :=
  d.flows.findIdx? (·.name == name)

/-- Adds an input and returns its place. -/
def addInput (d : Descriptor) (i : Input) : Descriptor × Option Nat :=
  ({ d with inputs := d.inputs ++ [i] }, some d.inputs.length)

/-- Adds an output and returns its place. -/
def addOutput (d : Descriptor) (o : Output) : Descriptor × Option Nat :=
  ({ d with outputs := d.outputs ++ [o] }, some d.outputs.length)

/-- Adds a flow output and returns its place. -/
def addFlow (d : Descriptor) (f : Flow) : Descriptor × Option Nat :=
  ({ d with flows := d.flows ++ [f] }, some d.flows.length)

/-- Carries out a declaration and returns the place of its port, if it declares one. -/
def declare (d : Descriptor) : Declaration → Descriptor × Option Nat
  | .flowInput => ({ d with flowInput := true }, none)
  | .collapsed => ({ d with collapsed := true }, none)
  | .input name t => d.addInput ⟨name, t, .single t.zero false false⟩
  | .defaulted name t resting => d.addInput ⟨name, t, .single resting false false⟩
  | .required name t => d.addInput ⟨name, t, .single t.zero true false⟩
  | .reactive name t => d.addInput ⟨name, t, .single t.zero false true⟩
  | .list name t => d.addInput ⟨name, t, .list⟩
  | .output name t => d.addOutput ⟨name, t⟩
  | .continuation name => d.addFlow ⟨name, false⟩
  | .call name => d.addFlow ⟨name, true⟩

/-- Carries out declarations in order and returns the place that each was told. -/
def declareAll (d : Descriptor) : List Declaration → Descriptor × List (Option Nat)
  | [] => (d, [])
  | decl :: decls =>
    let (d, place) := d.declare decl
    let (d, places) := d.declareAll decls
    (d, place :: places)

/-- The descriptor that a list of declarations makes. -/
def ofDeclarations (name category : String) (decls : List Declaration) : Descriptor :=
  (({ name, category } : Descriptor).declareAll decls).1

end Descriptor

end FlowGraph
