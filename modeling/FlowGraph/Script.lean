import FlowGraph.Node

/-!
# Scripts

A script is a small imperative program for a node that is in no catalogue. Its instructions work on
variables that live for one run, and reach the pulse only through the requests of a node's program.
Running a script gives the variables it ends with, or nothing if it was stopped; a mistake in the
script itself refuses the run with a message.

Bodies of branches and loops are lists of instructions within instructions, so running recurses on the
script and always ends.
-/

namespace FlowGraph

inductive Operand where
  | variable (name : String)
  | literal (v : Value)

/-- What a script can ask about where it runs. -/
inductive Aspect where
  | depth
  | node
  | pulse
  | cancelled
deriving DecidableEq

/-- One instruction. Results go into the variable `into`. -/
inductive Instruction where
  /-- Reads an input as it is declared. -/
  | read (input : Nat) (into : String)
  /-- Reads an input as a single value of a type that its declaration need not agree with. -/
  | readAs (input : Nat) (type : ValueType) (into : String)
  /-- Reads an input as a list of values of a type that its declaration need not agree with. -/
  | listAs (input : Nat) (type : ValueType) (into : String)
  /-- Publishes at a declared output a value of its type. -/
  | write (output : Nat) (operand : Operand)
  /-- Publishes at an output that need not be declared. -/
  | writeAs (output : Nat) (operand : Operand)
  /-- Fires a declared flow output. -/
  | fire (flow : Nat)
  /-- Fires a flow output that need not be declared. -/
  | trigger (flow : Nat)
  | log (sink : String) (operand : Operand)
  | get (cell into : String)
  | set (cell : String) (operand : Operand)
  | less (a b : Operand) (into : String)
  | add (a b : Operand) (into : String)
  | equal (a b : Operand) (into : String)
  | inspect (aspect : Aspect) (into : String)
  | cancel
  | shutDown
  | reset
  | delay (milliseconds : Nat) (into : String)
  /-- Runs another pulse from a named node and keeps the text of its id or of its error. -/
  | pulse (root into : String)
  | branch (condition : Operand) (whenTrue whenFalse : List Instruction)
  | loop (count : Operand) (body : List Instruction)
  | fail (message : String)
  /-- Ends the whole run. -/
  | stop
  /-- Stands for an instruction that there is none of. -/
  | unknown (name : String)

structure Script where
  name : String := "Script"
  category : String := "Script"
  declarations : List Declaration := []
  process : List Instruction := []
  /-- Decides whether an activation goes ahead: it does unless this is stopped. -/
  guard : List Instruction := []
  /-- The cells that resetting the node sets, with what it puts into them. -/
  resets : List (String × Datum) := []

/-- The variables of a run, the latest assignment of a name first. -/
abbrev Variables := List (String × Datum)

namespace Script

open NodeProgram

/-- What an operand stands for. -/
def evaluate (vars : Variables) : Operand → NodeProgram Datum
  | .literal v => pure (.value v)
  | .variable name =>
    match vars.lookup name with
    | some d => pure d
    | none => refuse ("no variable " ++ name)

/-- An operand that has to be one value. -/
def evaluateValue (vars : Variables) (o : Operand) : NodeProgram Value := do
  match ← evaluate vars o with
  | .value v => pure v
  | .list _ => refuse "a list where a value belongs"

/-- An operand that has to be a value of one type. -/
def evaluateAs (vars : Variables) (t : ValueType) (o : Operand) : NodeProgram t.Carrier := do
  match (← evaluateValue vars o).as? t with
  | some c => pure c
  | none => refuse ("not a " ++ t.name)

/-- Reads a declared input. -/
def readDeclared (d : Descriptor) (index : Nat) : NodeProgram Datum :=
  match d.inputs[index]? with
  | none => refuse "no such input"
  | some i =>
    if i.isList then return .list ((← inputs index i.type).map (.of i.type))
    else return .value (.of i.type (← input index i.type))

/-- Publishes at a declared output. -/
def writeDeclared (d : Descriptor) (index : Nat) (v : Value) : NodeProgram Unit :=
  match d.outputs[index]? with
  | none => refuse "no such output"
  | some o => if v.type = o.type then publish index v else refuse ("not a " ++ o.type.name)

/-- Logs values one after the other. -/
def logAll (sink : String) : List Value → NodeProgram Unit
  | [] => pure ()
  | v :: vs => do
    push (.named sink) v
    logAll sink vs

/-- The answer to a question about where the script runs. -/
def aspect : Aspect → NodeProgram Value
  | .depth => return .int (Int32.ofNat (← location).depth)
  | .node => return .text (← location).node.text
  | .pulse => return .text (← location).pulse.text
  | .cancelled => return .bool (← isCancelled)

/-- Goes on with the variables that are left, unless the run was stopped. -/
def continueWith (run : NodeProgram (Option Variables))
    (next : Variables → NodeProgram (Option Variables)) : NodeProgram (Option Variables) := do
  match ← run with
  | some vars => next vars
  | none => pure none

/-- Runs something a number of times. -/
def iterate (body : Variables → NodeProgram (Option Variables)) :
    Nat → Variables → NodeProgram (Option Variables)
  | 0, vars => pure (some vars)
  | n + 1, vars => continueWith (body vars) (iterate body n)

/-- Assigns a result to a variable. -/
def assign (vars : Variables) (name : String) (result : NodeProgram Datum) :
    NodeProgram (Option Variables) :=
  return some ((name, ← result) :: vars)

/-- Does something that assigns nothing. -/
def effect (vars : Variables) (program : NodeProgram Unit) : NodeProgram (Option Variables) := do
  program
  pure (some vars)

mutual

/-- Runs one instruction of a node with a descriptor. -/
def runOne (d : Descriptor) : Instruction → Variables → NodeProgram (Option Variables)
  | .read index into, vars => assign vars into (readDeclared d index)
  | .readAs index t into, vars => assign vars into do return .value (.of t (← input index t))
  | .listAs index t into, vars =>
    assign vars into do return .list ((← inputs index t).map (.of t))
  | .write index o, vars => effect vars do writeDeclared d index (← evaluateValue vars o)
  | .writeAs index o, vars => effect vars do publish index (← evaluateValue vars o)
  | .fire flow, vars =>
    effect vars (if flow < d.flows.length then NodeProgram.fire flow else refuse "no such flow")
  | .trigger flow, vars => effect vars (NodeProgram.fire flow)
  | .log sink o, vars => effect vars do
    logAll sink (← evaluate vars o).values
  | .get name into, vars => assign vars into do
    match ← cell name with
    | some d => pure d
    | none => refuse ("no cell " ++ name)
  | .set name o, vars => effect vars do setCell name (← evaluate vars o)
  | .less a b into, vars => assign vars into do
    let x : Int32 ← evaluateAs vars .int a
    let y : Int32 ← evaluateAs vars .int b
    pure (.value (.bool (decide (x < y))))
  | .add a b into, vars => assign vars into do
    let x : Int32 ← evaluateAs vars .int a
    let y : Int32 ← evaluateAs vars .int b
    pure (.value (.int (x + y)))
  | .equal a b into, vars => assign vars into do
    let x ← evaluate vars a
    let y ← evaluate vars b
    pure (.value (.bool (x.equal y)))
  | .inspect a into, vars => assign vars into do return .value (← aspect a)
  | .cancel, vars => effect vars NodeProgram.cancel
  | .shutDown, vars => effect vars NodeProgram.shutDown
  | .reset, vars => effect vars resetState
  | .delay milliseconds into, vars => assign vars into do
    return .value (.bool (← NodeProgram.delay milliseconds))
  | .pulse root into, vars => assign vars into do
    match ← NodeProgram.pulse root with
    | .ok id => pure (.value (.text id.text))
    | .error e => pure (.value (.text e.message))
  | .branch condition whenTrue whenFalse, vars => do
    let holds : Bool ← evaluateAs vars .bool condition
    if holds then runAll d whenTrue vars else runAll d whenFalse vars
  | .loop count body, vars => do
    let rounds : Int32 ← evaluateAs vars .int count
    iterate (runAll d body) rounds.toInt.toNat vars
  | .fail message, _ => refuse message
  | .stop, _ => pure none
  | .unknown name, _ => refuse ("bad instruction " ++ name)

/-- Runs instructions one after the other. -/
def runAll (d : Descriptor) : List Instruction → Variables → NodeProgram (Option Variables)
  | [], vars => pure (some vars)
  | i :: rest, vars => continueWith (runOne d i vars) (runAll d rest)

end

def descriptor (s : Script) : Descriptor :=
  .ofDeclarations s.name s.category s.declarations

/-- The node that a script describes. -/
def node (s : Script) : Node where
  descriptor := s.descriptor
  guard := do return (← runAll s.descriptor s.guard []).isSome
  process := do
    let _ ← runAll s.descriptor s.process []
    pure ()
  reset := s.resets.map fun (name, d) => .setCell name d

end Script

end FlowGraph
