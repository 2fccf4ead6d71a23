import FlowGraph.Session.Basic

/-!
# How the host waits

The host is not a task. It has its turn when the queue is empty or the tasks have had a certain number
of turns, and first of all whenever the clock has moved; a pulse that it triggers runs in the host's
own turn and lets the tasks move only while it waits itself.

A pulse need not end, so every operation that waits has a budget of steps, and running out of them is
told apart from every answer.
-/

namespace FlowGraph

/-- An answer that needed waiting for, or none because the steps ran out. -/
inductive Waited (α : Type) where
  | answer (value : α)
  | outOfSteps

namespace Waited

/-- Goes on with an answer. -/
@[inline] def andThen {α β : Type} : Waited α → (α → Waited β) → Waited β
  | answer a, f => f a
  | outOfSteps, _ => outOfSteps

@[simp] theorem answer_andThen {α β : Type} (a : α) (f : α → Waited β) :
    (answer a).andThen f = f a := rfl

@[simp] theorem outOfSteps_andThen {α β : Type} (f : α → Waited β) :
    outOfSteps.andThen f = outOfSteps := rfl

end Waited

namespace Session

/-- How many turns the tasks have before the host looks whether it can go on. -/
def patience : Nat :=
  61

/-- Lets the tasks have some turns, fewer if the queue becomes empty. -/
def haveTurns : (turns budget : Nat) → Session → Waited Session
  | 0, _, s => .answer s
  | _ + 1, 0, _ => .outOfSteps
  | turns + 1, budget + 1, s =>
    match s.step? with
    | some next =>
      haveTurns (if next.queue.head? = s.queue.head? then turns + 1 else turns) budget next
    | none => .answer s

/-- Lets the tasks have their turns once. Those that rest can move again when the host's turn begins. -/
def giveWay (budget : Nat) (s : Session) : Waited Session :=
  (s.haveTurns patience budget).andThen fun s => .answer s.rouse.beginTurn

/-- Lets the tasks have their turns once if the host's own turn is full. -/
def leaveTurn (budget : Nat) (s : Session) : Waited Session :=
  if s.world.isTurnFull then s.giveWay budget else .answer s

/-- Gives way until no task can move without the clock moving. -/
def settle : (budget : Nat) → Session → Waited Session
  | 0, _ => .outOfSteps
  | budget + 1, s =>
    (s.giveWay budget).andThen fun s => if s.queue.isEmpty then .answer s else settle budget s

/-- Lets the tasks move, and the clock as needed, until the host can go on. -/
def waitUntil (canGoOn : Session → Bool) (deadline? : Option Nat) :
    (budget : Nat) → Session → Waited Session
  | 0, _ => .outOfSteps
  | budget + 1, s =>
    if canGoOn s then .answer s
    else
      (s.giveWay budget).andThen fun s =>
        if canGoOn s then .answer s
        else
          match s.resume? deadline? with
          | some s => waitUntil canGoOn deadline? budget s
          | none => .outOfSteps

/-- Runs a machine to its end in the host's turn. -/
def runInTurn : (budget : Nat) → Session → Machine → Waited (Session × Except PulseError Report)
  | 0, _, _ => .outOfSteps
  | budget + 1, s, m =>
    match m.step s.graph s.world with
    | .running world m => runInTurn budget ({ s with world }.heedShutDown s.world) m
    | .resting world m =>
      (giveWay budget { s with world }).andThen fun s => runInTurn budget s m
    | .sleeping world milliseconds m =>
      let deadline := world.now + milliseconds
      let canGoOn (s : Session) : Bool :=
        deadline ≤ s.world.now || s.world.isCancelled m.pulse.token
      (waitUntil canGoOn (some deadline) budget { s with world }).andThen fun s =>
        runInTurn budget s m
    | .ended world result => .answer ({ s with world }, result)

/-- Runs a pulse with a given token to its end, and gives up the token. -/
def triggerWith (budget : Nat) (s : Session) (root : NodeId) (token : TokenId) :
    Waited (Session × Except PulseError Report) :=
  match s.graph.root root with
  | .error e => .answer (s.giveUp token, .error e)
  | .ok _ =>
    let (world, m) := Machine.start s.graph s.world root token
    (runInTurn budget { s with world } m).andThen fun (s, result) =>
      .answer (s.giveUp token, result)

/-- Runs a pulse with a token of its own to its end. -/
def trigger (budget : Nat) (s : Session) (root : NodeId) : Waited (Session × Except PulseError Report) :=
  let (s, token) := s.addToken {}
  s.triggerWith budget root token

/-- Runs a pulse from each of some nodes, until one fails. -/
def triggerAll (budget : Nat) (s : Session) :
    List NodeId → Waited (Session × Except PulseError (List Report))
  | [] => .answer (s, .ok [])
  | n :: rest =>
    (s.trigger budget n).andThen fun
      | (s, .error e) => .answer (s, .error e)
      | (s, .ok report) =>
        (s.triggerAll budget rest).andThen fun (s, reports) =>
          .answer (s, reports.map (report :: ·))

/-- Runs a pulse from each update node. -/
def update (budget : Nat) (s : Session) : Waited (Session × Except PulseError (List Report)) :=
  s.triggerAll budget s.graph.updateNodes

/-- Waits for a task to end, and removes it. -/
def join (budget : Nat) (s : Session) (id : TaskId) : Waited (Session × Except PulseError Report) :=
  (s.leaveTurn budget).andThen fun s =>
    (waitUntil (·.isEnded id) none budget s).andThen fun s =>
      match (s.task? id).bind fun t => t.result?.map (t, ·) with
      | some (t, result) => .answer (s.endWait.remove t, result)
      | none => .outOfSteps

/-- Waits for some time to pass; no time at all passes at once. What becomes due at the end of it stays
to be done. -/
def sleep (budget : Nat) (s : Session) (milliseconds : Nat) : Waited Session :=
  let deadline := s.world.now + milliseconds
  (s.leaveTurn budget).andThen fun s =>
    (waitUntil (deadline ≤ ·.world.now) (some deadline) budget s).andThen fun s => .answer s.endWait

end Session

end FlowGraph
