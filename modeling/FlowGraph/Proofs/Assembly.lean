import Mathlib.Data.List.Forall2
import Mathlib.Logic.Relation
import FlowGraph.Graph.Blueprint

/-!
# What a sequence of calls describes

A blueprint is made by calls: some add a node, some ask for a connection. This module says what the
calls amount to without building anything. Names are looked up in the list of all additions, ports in
the descriptor of the node, and in both the first entry with a name is meant. `Valid` is the condition
on a graph; it relates the calls to one connection for each wish, in the order of the calls.
`FirstFailure` is the order in which failures are reported. Neither mentions the passes that look for
them.
-/

namespace FlowGraph

/-- The first entry of a list that has a name, with its place. -/
structure FirstNamed {α : Type} (name : α → String) (l : List α) (s : String) (i : Nat) (a : α) :
    Prop where
  entry : l[i]? = some a
  named : name a = s
  first : ∀ j < i, ∀ b, l[j]? = some b → name b ≠ s

namespace Blueprint

/-- One call on a blueprint. -/
inductive Call where
  | add (name : String) (node : Node)
  | addRegistered (registry : Registry) (name nodeType : String) (arg : Option ValueType)
  | connectValue (wish : ValueWish)
  | connectFlow (wish : FlowWish)

def call (b : Blueprint) : Call → Blueprint
  | .add name node => b.add name node
  | .addRegistered r name nodeType arg => b.addRegistered r name nodeType arg
  | .connectValue w => b.connectValue w.source w.sourcePort w.target w.targetPort
  | .connectFlow w => b.connectFlow w.source w.flow w.target

def callAll (b : Blueprint) (calls : List Call) : Blueprint :=
  calls.foldl call b

/-- The name that a call adds, with the node or the registry's refusal. -/
def Call.addition? : Call → Option (String × Except BuildError Node)
  | .add name node => some (name, .ok node)
  | .addRegistered r name nodeType arg => some (name, r.create nodeType arg)
  | .connectValue _ | .connectFlow _ => none

/-- The member that a call adds unless its name is taken. -/
def Call.member? (c : Call) : Option Member :=
  match c.addition? with
  | some (name, .ok node) => some ⟨name, node⟩
  | _ => none

def Call.valueWish? : Call → Option ValueWish
  | .connectValue w => some w
  | _ => none

def Call.flowWish? : Call → Option FlowWish
  | .connectFlow w => some w
  | _ => none

/-- The names of all additions, in the order of the calls. -/
def namesOf (calls : List Call) : List String :=
  (calls.filterMap Call.addition?).map Prod.fst

/-- The members that the calls add if no name is taken. -/
def membersOf (calls : List Call) : List Member :=
  calls.filterMap Call.member?

def valueWishesOf (calls : List Call) : List ValueWish :=
  calls.filterMap Call.valueWish?

def flowWishesOf (calls : List Call) : List FlowWish :=
  calls.filterMap Call.flowWish?

/-- Every addition succeeds: no name is used twice, and no registry refuses. -/
structure Additions (calls : List Call) : Prop where
  nodup : (namesOf calls).Nodup
  accepted : ∀ name e, (name, .error e) ∉ calls.filterMap Call.addition?

variable (ms : List Member)

/-- A wish names existing nodes and ports with values of one type, and this is the connection. -/
def Joins (w : ValueWish) (e : ValueEdge) : Prop :=
  ∃ source target output input,
    FirstNamed Member.name ms w.source e.source.node.index source ∧
    FirstNamed Member.name ms w.target e.target.node.index target ∧
    FirstNamed Output.name source.descriptor.outputs w.sourcePort e.source.index output ∧
    FirstNamed Input.name target.descriptor.inputs w.targetPort e.target.index input ∧
    output.type = input.type

/-- A wish names an existing flow output and a node that flow can enter, and this is the connection. -/
def Starts (w : FlowWish) (e : FlowEdge) : Prop :=
  ∃ source target flow,
    FirstNamed Member.name ms w.source e.source.node.index source ∧
    FirstNamed Member.name ms w.target e.target.index target ∧
    FirstNamed Flow.name source.descriptor.flows w.flow e.source.index flow ∧
    target.descriptor.flowInput = true

/-- The declaration of an input, by the node's place and its own. -/
def Declares (input : Port) (i : Input) : Prop :=
  ∃ m, ms[input.node.index]? = some m ∧ m.descriptor.inputs[input.index]? = some i

/-- An input that takes one connection only. -/
def IsSingle (input : Port) : Prop :=
  ∃ i, Declares ms input i ∧ i.isList = false

/-- A required input to which nothing leads. -/
def Missing (edges : List ValueEdge) (input : Port) (i : Input) : Prop :=
  Declares ms input i ∧ i.isRequired = true ∧ ∀ e ∈ edges, e.target ≠ input

/-- One node reads another one directly. -/
def Feeds (edges : List ValueEdge) (a b : NodeId) : Prop :=
  ∃ e ∈ edges, e.source.node = a ∧ e.target.node = b

/-- A node reads itself, directly or through others, or reads one that does. -/
def Unplaceable (edges : List ValueEdge) (n : NodeId) : Prop :=
  ∃ k, Relation.TransGen (Feeds edges) k k ∧ Relation.ReflTransGen (Feeds edges) k n

/-- One connection for each wish, in order, and no second one to a single input. -/
structure Wired (wishes : List ValueWish) (edges : List ValueEdge) : Prop where
  joined : List.Forall₂ (Joins ms) wishes edges
  single : edges.Pairwise fun e later => IsSingle ms later.target → e.target ≠ later.target

/-- What has to hold of calls for there to be a graph, and the connections it has. -/
structure Valid (calls : List Call) (values : List ValueEdge) (flows : List FlowEdge) : Prop where
  additions : Additions calls
  wired : Wired (membersOf calls) (valueWishesOf calls) values
  started : List.Forall₂ (Starts (membersOf calls)) (flowWishesOf calls) flows
  complete : ∀ input i, ¬ Missing (membersOf calls) values input i
  acyclic : ∀ n, ¬ Relation.TransGen (Feeds values) n n

/-- Why a call cannot add its node to the members there are. A registry is asked before the name is. -/
inductive AdditionFailure (c : Call) : BuildError → Prop where
  | refused {name e} (h : c.addition? = some (name, .error e)) : AdditionFailure c e
  | duplicate {name node} (h : c.addition? = some (name, .ok node)) (taken : name ∈ ms.map (·.name)) :
      AdditionFailure c (.duplicateNode name)

/-- What is wrong with a value connection, given those made before it: the first thing of these. -/
inductive ValueFailure (edges : List ValueEdge) (w : ValueWish) : BuildError → Prop where
  | source (absent : ∀ m ∈ ms, m.name ≠ w.source) : ValueFailure edges w (.nodeNotFound w.source)
  | target {n m} (source : FirstNamed Member.name ms w.source n m)
      (absent : ∀ m ∈ ms, m.name ≠ w.target) : ValueFailure edges w (.nodeNotFound w.target)
  | output {n m n' m'} (source : FirstNamed Member.name ms w.source n m)
      (target : FirstNamed Member.name ms w.target n' m')
      (absent : ∀ o ∈ m.descriptor.outputs, o.name ≠ w.sourcePort) :
      ValueFailure edges w (.unknownPort w.source w.sourcePort)
  | input {n m n' m' i o} (source : FirstNamed Member.name ms w.source n m)
      (target : FirstNamed Member.name ms w.target n' m')
      (output : FirstNamed Output.name m.descriptor.outputs w.sourcePort i o)
      (absent : ∀ j ∈ m'.descriptor.inputs, j.name ≠ w.targetPort) :
      ValueFailure edges w (.unknownPort w.target w.targetPort)
  | type {n m n' m' i o i' j} (source : FirstNamed Member.name ms w.source n m)
      (target : FirstNamed Member.name ms w.target n' m')
      (output : FirstNamed Output.name m.descriptor.outputs w.sourcePort i o)
      (input : FirstNamed Input.name m'.descriptor.inputs w.targetPort i' j) (differ : o.type ≠ j.type) :
      ValueFailure edges w
        (.typeMismatch w.source w.sourcePort w.target w.targetPort j.type o.type)
  | connected {e e'} (joins : Joins ms w e) (single : IsSingle ms e.target) (earlier : e' ∈ edges)
      (same : e'.target = e.target) :
      ValueFailure edges w (.inputAlreadyConnected w.target w.targetPort)

/-- What is wrong with a flow connection: the first thing of these. -/
inductive FlowFailure (w : FlowWish) : BuildError → Prop where
  | source (absent : ∀ m ∈ ms, m.name ≠ w.source) : FlowFailure w (.nodeNotFound w.source)
  | target {n m} (source : FirstNamed Member.name ms w.source n m)
      (absent : ∀ m ∈ ms, m.name ≠ w.target) : FlowFailure w (.nodeNotFound w.target)
  | flow {n m n' m'} (source : FirstNamed Member.name ms w.source n m)
      (target : FirstNamed Member.name ms w.target n' m')
      (absent : ∀ f ∈ m.descriptor.flows, f.name ≠ w.flow) :
      FlowFailure w (.unknownFlow w.source w.flow)
  | closed {n m n' m' i f} (source : FirstNamed Member.name ms w.source n m)
      (target : FirstNamed Member.name ms w.target n' m')
      (flow : FirstNamed Flow.name m.descriptor.flows w.flow i f)
      (noInput : m'.descriptor.flowInput = false) : FlowFailure w (.notFlowInput w.target)

/-- The first failure of some calls: of an addition, else of a value connection, else of a flow
connection, else a required input without a connection, by node and then by place, else the first node
that has no place in any order of evaluation. -/
inductive FirstFailure (calls : List Call) : BuildError → Prop where
  | addition {before c after e} (split : calls = before ++ c :: after) (fine : Additions before)
      (fails : AdditionFailure (membersOf before) c e) : FirstFailure calls e
  | value {before w after values e} (additions : Additions calls)
      (split : valueWishesOf calls = before ++ w :: after)
      (wired : Wired (membersOf calls) before values)
      (fails : ValueFailure (membersOf calls) values w e) : FirstFailure calls e
  | flow {before w after values flows e} (additions : Additions calls)
      (wired : Wired (membersOf calls) (valueWishesOf calls) values)
      (split : flowWishesOf calls = before ++ w :: after)
      (started : List.Forall₂ (Starts (membersOf calls)) before flows)
      (fails : FlowFailure (membersOf calls) w e) : FirstFailure calls e
  | required {values flows input i m} (additions : Additions calls)
      (wired : Wired (membersOf calls) (valueWishesOf calls) values)
      (started : List.Forall₂ (Starts (membersOf calls)) (flowWishesOf calls) flows)
      (missing : Missing (membersOf calls) values input i)
      (first : ∀ other j, Missing (membersOf calls) values other j → input.le other = true)
      (member : (membersOf calls)[input.node.index]? = some m) :
      FirstFailure calls (.requiredInputUnconnected m.name i.name)
  | cycle {values flows n m} (additions : Additions calls)
      (wired : Wired (membersOf calls) (valueWishesOf calls) values)
      (started : List.Forall₂ (Starts (membersOf calls)) (flowWishesOf calls) flows)
      (complete : ∀ input i, ¬ Missing (membersOf calls) values input i)
      (stuck : Unplaceable values n)
      (first : ∀ other, Unplaceable values other → n.index ≤ other.index)
      (member : (membersOf calls)[n.index]? = some m) : FirstFailure calls (.valueCycle m.name)

end Blueprint

end FlowGraph
