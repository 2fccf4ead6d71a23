import FlowGraph.Catalogue.Transition
import FlowGraph.Node

/-!
# The catalogue

The node types that come with the library, each with its ports and its programs. Port numbers in the
programs are places in the declarations above them: an input's place among the inputs, an output's
among the outputs, a flow output's among the flow outputs.

`Constant`, `Add` and `Sum` are pure. `On Changed` and `Fire On True` have reactive inputs and no flow
input, so they are update nodes. The stateful nodes keep one value in their store.
-/

namespace FlowGraph

inductive CatalogueNode where
  | constant (value : Value)
  | add (type : Summable)
  | sum (type : Summable)
  | log (type : ValueType) (sink : SinkRef)
  | onChanged (type : ValueType)
  | onTrigger
  | branch
  | statefulBranch
  | branchWithState
  | fireOnTrue
  | fireOnInterval
  | fireWhileTrue
  | forLoop
  | counter
  | delay
  | parseInt
deriving DecidableEq

namespace CatalogueNode

open NodeProgram

def title : CatalogueNode → String
  | constant _ => "Constant"
  | add _ => "Add"
  | sum _ => "Sum"
  | log .. => "Log"
  | onChanged _ => "On Changed"
  | onTrigger => "On Trigger"
  | branch => "If"
  | statefulBranch => "Stateful If"
  | branchWithState => "If With State"
  | fireOnTrue => "Fire On True"
  | fireOnInterval => "Fire On Interval"
  | fireWhileTrue => "Fire While True"
  | forLoop => "For"
  | counter => "Counter Increment"
  | delay => "Delay"
  | parseInt => "Parse Int"

def category : CatalogueNode → String
  | constant _ => "Values"
  | add _ | sum _ => "Math"
  | log .. => "Debug"
  | onChanged _ | onTrigger | fireOnTrue => "Events"
  | branch | statefulBranch | branchWithState | delay => "Flow"
  | fireOnInterval | fireWhileTrue | forLoop => "Flow/Loops"
  | counter => "State"
  | parseInt => "Conversion"

def declarations : CatalogueNode → List Declaration
  | constant value => [.output "Value" value.type]
  | add t => [.input "A" t.valueType, .input "B" t.valueType, .output "Result" t.valueType]
  | sum t => [.list "Values" t.valueType, .output "Sum" t.valueType]
  | log t _ => [.flowInput, .input "Value" t, .continuation "Next"]
  | onChanged t => [.reactive "Value" t, .output "Current" t, .continuation "On Changed"]
  | onTrigger => [.continuation "Next"]
  | branch =>
    [.flowInput, .input "Condition" .bool, .continuation "True", .continuation "False"]
  | statefulBranch =>
    [.flowInput, .input "Condition" .bool, .continuation "Became True",
      .continuation "Became False", .continuation "Still True", .continuation "Still False"]
  | branchWithState =>
    [.flowInput, .input "Condition" .bool, .output "Became True" .bool,
      .output "Became False" .bool, .continuation "True", .continuation "False"]
  | fireOnTrue => [.reactive "Condition" .bool, .continuation "On True"]
  | fireOnInterval => [.flowInput, .defaulted "Interval" .int (1000 : Int32), .call "On Fire"]
  | fireWhileTrue =>
    [.flowInput, .input "Condition" .bool, .input "Interval" .int, .call "Loop",
      .continuation "On Finished"]
  | forLoop =>
    [.flowInput, .input "Count" .int, .output "Index" .int, .call "Loop",
      .continuation "On Finished"]
  | counter =>
    [.flowInput, .defaulted "Step" .int (1 : Int32), .output "Count" .int, .continuation "Next"]
  | delay => [.flowInput, .input "Milliseconds" .int, .continuation "Next"]
  | parseInt =>
    [.flowInput, .input "Text" .text, .output "Value" .int, .continuation "On Success",
      .continuation "On Fail"]

def descriptor (n : CatalogueNode) : Descriptor :=
  .ofDeclarations n.title n.category n.declarations

/-- Whether a condition's current value passes through the second of two flow outputs. -/
def side (condition : Bool) : Nat :=
  if condition then 0 else 1

/-- Publishes `remaining` indices from `index` on, firing the loop for each, then leaves the loop. A
cancelled loop stops without leaving. -/
def iterate : (remaining : Nat) → (index : Int32) → NodeProgram Unit
  | 0, _ => do
    if ← isCancelled then pure () else fire 1
  | remaining + 1, index => do
    if ← isCancelled then pure ()
    else
      publish 0 (.int index)
      fire 0
      iterate remaining (index + 1)

/-- The decimal integer of 32 bits that a text holds, surrounding blanks aside. -/
def int32? (text : String) : Option Int32 :=
  Text.int32? (Text.trim text.toList)

def guard : CatalogueNode → NodeProgram Bool
  | fireOnTrue => input 0 .bool
  | _ => pure true

def process : CatalogueNode → NodeProgram Unit
  | constant value => publish 0 value
  | add t => do
    let a ← input 0 t.valueType
    let b ← input 1 t.valueType
    publish 0 (.of t.valueType (t.add a b))
  | sum t => do
    let values ← inputs 0 t.valueType
    publish 0 (.of t.valueType (t.sum values))
  | log t sink => do
    let value ← input 0 t
    push sink (.of t value)
    fire 0
  | onChanged t => do
    let value ← input 0 t
    publish 0 (.of t value)
    fire 0
  | onTrigger => fire 0
  | branch => do
    let condition ← input 0 .bool
    fire (side condition)
  | statefulBranch => do
    let current ← input 0 .bool
    let previous ← remembered .bool
    remember (.bool current)
    fire (Transition.between previous current).edgeIndex
  | branchWithState => do
    let current ← input 0 .bool
    let previous ← remembered .bool
    remember (.bool current)
    let transition := Transition.between previous current
    publish 0 (.bool (transition = .becameTrue))
    publish 1 (.bool (transition = .becameFalse))
    fire (side current)
  | fireOnTrue => fire 0
  | fireOnInterval => do
    let interval ← input 0 .int
    if ← NodeProgram.delay (max 1 interval.toInt).toNat then
      fire 0
      again
    else pure ()
  | fireWhileTrue => do
    if ← isCancelled then pure ()
    else
      let condition ← input 0 .bool
      let interval ← input 1 .int
      if condition then
        fire 0
        if 0 < interval.toInt then
          if ← NodeProgram.delay interval.toInt.toNat then again else pure ()
        else
          rest
          again
      else if ← isCancelled then pure ()
      else fire 1
  | forLoop => do
    let count ← input 0 .int
    iterate count.toInt.toNat 0
  | counter => do
    let step ← input 0 .int
    let count ← update .int (· + step)
    publish 0 (.int count)
    fire 0
  | delay => do
    let milliseconds ← input 0 .int
    if ← NodeProgram.delay milliseconds.toInt.toNat then fire 0 else pure ()
  | parseInt => do
    let text ← input 0 .text
    match int32? text with
    | some value =>
      publish 0 (.int value)
      fire 0
    | none => fire 1

/-- The stateful nodes forget what is in their stores. -/
def reset : CatalogueNode → List Reset
  | statefulBranch | branchWithState => [.store .bool]
  | counter => [.store .int]
  | _ => []

def facet : CatalogueNode → Facet
  | constant value => .constant value
  | counter => .counter
  | statefulBranch => .edgeMemory
  | log t sink => .log t sink
  | _ => .plain

def node (n : CatalogueNode) : Node where
  descriptor := n.descriptor
  guard := n.guard
  process := n.process
  reset := n.reset
  facet := n.facet

end CatalogueNode

end FlowGraph
