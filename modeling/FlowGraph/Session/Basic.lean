import FlowGraph.Session.Task

/-!
# Sessions

A session is a graph with its world and the tasks that are under way in it. Tasks that can move stand
in a queue. The first one has its turn and keeps it until it sleeps, rests or ends; a task joins the
queue at its end, when it is new, when its time has come, when it has rested, or when its pulse is
cancelled while it sleeps. So no task overtakes another one that could move before it, and which task moves next never
depends on more than the session.

Time stands still while the queue is not empty. Moving a session by one step is a total function; how
long to go on is for the host to say.
-/

namespace FlowGraph

structure Session where
  graph : Graph
  world : World := {}
  /-- The tasks, the one that moved last behind the others. -/
  tasks : List Task := []
  /-- The tasks that can move, in the order of their turns. -/
  queue : List TaskId := []
  /-- How many tasks there have been. -/
  created : Nat := 0

namespace Session

def task? (s : Session) (id : TaskId) : Option Task :=
  s.tasks.find? (·.id = id)

/-- Puts a task behind the others, in place of what it was before. -/
def put (s : Session) (t : Task) : Session :=
  { s with tasks := s.tasks.filter (·.id ≠ t.id) ++ [t] }

/-- Removes a task, which gives up its token. -/
def remove (s : Session) (t : Task) : Session :=
  { s with tasks := s.tasks.filter (·.id ≠ t.id), world := s.world.giveUp t.token }

/-- Lets those of some tasks join the queue that do not stand in it. -/
def enqueue (s : Session) (tasks : List Task) : Session :=
  { s with queue := s.queue ++ (tasks.map (·.id)).filter (!s.queue.contains ·) }

/-- Wakes the tasks that sleep on some tokens, token by token. -/
def wake (s : Session) (tokens : List TokenId) : Session :=
  s.enqueue (tokens.flatMap fun token => s.tasks.filter (·.alarm? = some token))

/-- Wakes everybody if the graph has been shut down since the world was as given. -/
def heedShutDown (s : Session) (before : World) : Session :=
  if s.world.isShutDown && !before.isShutDown then s.wake before.told else s

/-- Ends the turn of a task unless it is running. A task that has ended and that nobody asks for any
more is removed. -/
def endTurn (s : Session) (t : Task) : Session :=
  if t.isRunning then s
  else
    let s := { s with queue := s.queue.tail }
    if t.isEnded && !t.isKept then s.remove t else s

/-- Moves the first task in the queue, if there is one. -/
def step? (s : Session) : Option Session :=
  match s.queue with
  | [] => none
  | id :: rest =>
    match s.task? id with
    | none => some { s with queue := rest }
    | some t =>
      let (world, phase) := t.move s.graph s.world
      let t := { t with phase }
      some ((({ s with world }.put t).endTurn t).heedShutDown s.world)

theorem step?_eq_none_iff {s : Session} : s.step? = none ↔ s.queue = [] := by
  unfold step?
  split
  · simp_all
  · split <;> simp_all

/-- The host's turn begins. -/
def beginTurn (s : Session) : Session :=
  { s with world := s.world.beginTurn }

@[simp] theorem queue_beginTurn (s : Session) : s.beginTurn.queue = s.queue := rfl

/-- A wait of the host has come to its end. -/
def endWait (s : Session) : Session :=
  { s with world := s.world.endWait }

/-- Sets the clock and wakes the tasks that are due. -/
def setClock (s : Session) (now : Nat) : Session :=
  { s with world := { s.world with now } }.enqueue
    (s.tasks.filter fun t => t.deadline?.any (· ≤ now))

/-- Lets the tasks that rest join the queue again, the one that has rested least before the others. -/
def rouse (s : Session) : Session :=
  s.enqueue (s.tasks.filter (·.isResting)).reverse

/-- Goes on when the host has waited and still waits. If the queue is empty, the clock moves to the next
moment at which a task, or the host if it waits for a given time, is due. -/
def resume? (s : Session) (hostDeadline? : Option Nat) : Option Session :=
  if s.queue.isEmpty then
    (hostDeadline?.toList ++ s.tasks.filterMap (·.deadline?)).min?.map s.setClock
  else some s

/-- Adds a token. -/
def addToken (s : Session) (token : Token) : Session × TokenId :=
  let (world, id) := s.world.addToken token
  ({ s with world }, id)

/-- Gives up a token. -/
def giveUp (s : Session) (token : TokenId) : Session :=
  { s with world := s.world.giveUp token }

/-- Adds a task with a token of its own. The host gives up its token for the second task. -/
def spawn (s : Session) (root : NodeId) : Session × TaskId :=
  let id : TaskId := ⟨s.created⟩
  let (s, token) := s.addToken {}
  let t : Task := { id, token, phase := .starting root }
  (({ s with created := s.created + 1 }.put t).enqueue [t], id)

/-- The host will not ask for a task any more. The task goes on. -/
def forget (s : Session) (id : TaskId) : Session :=
  match s.task? id with
  | none => s
  | some t =>
    if t.isEnded then s.remove t
    else
      { s with tasks := s.tasks.map fun t => if t.id = id then { t with isKept := false } else t }

/-- Cancels the pulse of a task. -/
def cancel (s : Session) (id : TaskId) : Session :=
  match s.task? id with
  | some t => { s with world := s.world.cancel t.token }.wake [t.token]
  | none => s

/-- Whether the pulse of a task is cancelled. -/
def isCancelled (s : Session) (id : TaskId) : Bool :=
  match s.task? id with
  | some t => s.world.isCancelled t.token
  | none => false

/-- Whether a task has ended. -/
def isEnded (s : Session) (id : TaskId) : Bool :=
  (s.task? id).any (·.isEnded)

/-- Cancels every pulse of the graph, present and future. -/
def shutDown (s : Session) : Session :=
  { s with world := s.world.shutDown }.heedShutDown s.world

/-- Forgets the observations and resets every node. -/
def resetState (s : Session) : Session :=
  { s with world := s.world.reset s.graph.resets }

/-- The number of reactive inputs with an observation. -/
def observations (s : Session) : Nat :=
  s.world.observed.size

/-- What a named node lets the host ask of it, with the node's id. -/
def facet? (s : Session) (name : String) : Option (NodeId × Facet) := do
  let n ← s.graph.id? name
  let m ← s.graph.member? n
  some (n, m.node.facet)

/-- The count of a named counter. -/
def counter? (s : Session) (name : String) : Option Int32 :=
  match s.facet? name with
  | some (n, .counter) => some (s.world.store n .int).read
  | _ => none

/-- The condition that a named stateful branch saw last. -/
def previous? (s : Session) (name : String) : Option Bool :=
  match s.facet? name with
  | some (n, .edgeMemory) => some (s.world.store n .bool).read
  | _ => none

/-- The value of a named constant, if it is of the given type. -/
def constant? (s : Session) (name : String) (t : ValueType) : Option Value :=
  match s.facet? name with
  | some (_, .constant v) => if v.type = t then some v else none
  | _ => none

/-- The sink of a named log node for the given type. -/
def logSink? (s : Session) (name : String) (t : ValueType) : Option Sink :=
  match s.facet? name with
  | some (n, .log type sink) => if type = t then some (s.world.sink (sink.resolve n)) else none
  | _ => none

end Session

end FlowGraph
