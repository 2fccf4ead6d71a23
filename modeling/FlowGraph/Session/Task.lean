import FlowGraph.Pulse.Machine

/-!
# Tasks

A task is a pulse that runs beside the host. It is data: how far the pulse has come, and the token
through which it can be cancelled. Moving a task carries out one request of its pulse, or lets the
pulse begin; when a task gets to move is for the session to decide.
-/

namespace FlowGraph

structure TaskId where
  number : Nat
deriving DecidableEq, Repr, Inhabited

/-- How far a task has come. -/
inductive Phase where
  /-- The pulse has not begun; it has no id yet. -/
  | starting (root : NodeId)
  | running (machine : Machine)
  /-- The pulse lets the others go first. -/
  | resting (machine : Machine)
  | sleeping (deadline : Nat) (machine : Machine)
  | ended (result : Except PulseError Report)

structure Task where
  id : TaskId
  /-- The token of the task's pulse. -/
  token : TokenId
  phase : Phase
  /-- Whether the host may still ask for the task. -/
  isKept : Bool := true

/-- The phase that a move leads to, with the world it leaves. -/
def Phase.ofProgress : Progress → World × Phase
  | .running w m => (w, .running m)
  | .sleeping w milliseconds m => (w, .sleeping (w.now + milliseconds) m)
  | .resting w m => (w, .resting m)
  | .ended w result => (w, .ended result)

namespace Task

/-- Moves a task, which begins its turn unless it is running. A pulse that begins takes its id now, if its
root can start one. -/
def move (g : Graph) (w : World) (t : Task) : World × Phase :=
  match t.phase with
  | .starting root =>
    match g.root root with
    | .error e => (w, .ended (.error e))
    | .ok _ =>
      let (w, m) := Machine.start g w.beginTurn root t.token
      (w, .running m)
  | .running m => Phase.ofProgress (m.step g w)
  | .resting m | .sleeping _ m => Phase.ofProgress (m.step g w.beginTurn)
  | .ended result => (w, .ended result)

/-- Whether a task has more to do before it lets another one move. -/
def isRunning (t : Task) : Bool :=
  match t.phase with
  | .running _ => true
  | _ => false

def isResting (t : Task) : Bool :=
  match t.phase with
  | .resting _ => true
  | _ => false

/-- When a sleeping task has slept long enough. -/
def deadline? (t : Task) : Option Nat :=
  match t.phase with
  | .sleeping deadline _ => some deadline
  | _ => none

/-- The token that a sleeping task is woken through before its time. It is the token of the innermost
pulse. -/
def alarm? (t : Task) : Option TokenId :=
  match t.phase with
  | .sleeping _ m => some m.pulse.token
  | _ => none

/-- What a task that has ended has led to. -/
def result? (t : Task) : Option (Except PulseError Report) :=
  match t.phase with
  | .ended result => some result
  | _ => none

def isEnded (t : Task) : Bool :=
  t.result?.isSome

end Task

end FlowGraph
