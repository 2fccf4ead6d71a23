import FlowGraph.Graph.Blueprint
import FlowGraph.Session.Waiting

/-!
# The demonstration

A graph with two flows. A pulse from `start` runs a loop whose body counts and logs the count, so a loop
of `n` rounds logs `1` to `n`. A pulse from `ticker` counts how often an interval has passed, and only
ends when it is cancelled. The demonstration runs the first to its end and then the second for some
time.
-/

namespace FlowGraph.Demo

/-- The sink of the log node. -/
def sinkName : String :=
  "log"

def blueprint (config : Config) (count interval : Int32) : Blueprint :=
  ({ name := "demo", config } : Blueprint)
    |>.addRegistered .standard "start" "On Trigger" none
    |>.add "count" (CatalogueNode.constant (.int count)).node
    |>.addRegistered .standard "loop" "For" none
    |>.addRegistered .standard "counter" "Counter Increment" none
    |>.add "log" (CatalogueNode.log .int (.named sinkName)).node
    |>.add "interval" (CatalogueNode.constant (.int interval)).node
    |>.addRegistered .standard "ticker" "Fire On Interval" none
    |>.addRegistered .standard "ticks" "Counter Increment" none
    |>.connectValue "count" "Value" "loop" "Count"
    |>.connectValue "counter" "Count" "log" "Value"
    |>.connectValue "interval" "Value" "ticker" "Interval"
    |>.connectFlow "start" "Next" "loop"
    |>.connectFlow "loop" "Loop" "counter"
    |>.connectFlow "counter" "Next" "log"
    |>.connectFlow "ticker" "On Fire" "ticks"

def graph (config : Config) (count interval : Int32) : Except BuildError Graph :=
  (blueprint config count interval).build

/-- What the demonstration depends on. -/
structure Options where
  /-- Rounds of the loop. -/
  count : Int32 := 3
  /-- Milliseconds from tick to tick. -/
  interval : Int32 := 50
  /-- Milliseconds for which the interval loop runs. -/
  duration : Nat := 200
deriving DecidableEq

structure Outcome where
  /-- What the loop logged. -/
  values : List Value
  counter : Int32
  ticks : Int32
  reports : List Report

inductive Failure where
  | build (cause : BuildError)
  | pulse (cause : PulseError)

def Failure.message : Failure → String
  | .build e => "Graph error: " ++ e.message
  | .pulse e => "Pulse error: " ++ e.message

/-- Runs a pulse from a named node. -/
def trigger (budget : Nat) (s : Session) (name : String) :
    Waited (Session × Except PulseError Report) :=
  match s.graph.named name with
  | .error e => .answer (s, .error e)
  | .ok n => s.trigger budget n

/-- Runs a pulse from a named node for some time and then cancels it. -/
def runFor (budget : Nat) (s : Session) (name : String) (duration : Nat) :
    Waited (Session × Except PulseError Report) :=
  match s.graph.named name with
  | .error e => .answer (s, .error e)
  | .ok n =>
    let (s, task) := s.spawn n
    (s.sleep budget duration).andThen fun s => (s.cancel task).join budget task

/-- What there is to see after both pulses. -/
def outcome (s : Session) (reports : List Report) : Outcome where
  values := (s.world.sink (.named sinkName)).toList
  counter := (s.counter? "counter").getD 0
  ticks := (s.counter? "ticks").getD 0
  reports

/-- Runs the demonstration on a graph, with a clock that starts at a given time. -/
def perform (budget now : Nat) (g : Graph) (duration : Nat) : Waited (Except Failure Outcome) :=
  (trigger budget { graph := g, world := { now } } "start").andThen fun
    | (_, .error e) => .answer (.error (.pulse e))
    | (s, .ok first) =>
      (runFor budget s "ticker" duration).andThen fun
        | (_, .error e) => .answer (.error (.pulse e))
        | (s, .ok second) => .answer (.ok (outcome s [first, second]))

/-- The demonstration. -/
def run (budget now : Nat) (config : Config) (o : Options) : Waited (Except Failure Outcome) :=
  match graph config o.count o.interval with
  | .error e => .answer (.error (.build e))
  | .ok g => perform budget now g o.duration

end FlowGraph.Demo
