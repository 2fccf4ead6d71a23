import Mathlib.Data.List.Forall2
import FlowGraph.Proofs.Hosting
import FlowGraph.Proofs.Restoring
import FlowGraph.Proofs.Territory

/-!
# Graphs with a past

Resetting a graph forgets what its nodes have kept. What is left of the time before are names and records:
tokens, tasks that have ended, logged values, and a clock that has gone on. Nothing that happens later looks
at them. So a graph with a past and a graph without one go on side by side, and the names of the one are those
of the other, moved behind the names that have been used.

Who moves when is left open here. Everything that can be done to a graph is a deed, and so is every move of a
task; a pulse that a host triggers is a task that moves until it has ended.
-/

namespace FlowGraph

/-- The same token if so many tokens came before. -/
def TokenId.after (earlier : Nat) (t : TokenId) : TokenId :=
  ⟨earlier + t.index⟩

/-- The same task if so many tasks came before. -/
def TaskId.after (earlier : Nat) (id : TaskId) : TaskId :=
  ⟨earlier + id.number⟩

theorem TokenId.after_inj {earlier : Nat} {t u : TokenId} : t.after earlier = u.after earlier ↔ t = u := by
  cases t
  cases u
  simp [after]

theorem TaskId.after_inj {earlier : Nat} {id id' : TaskId} :
    id.after earlier = id'.after earlier ↔ id = id' := by
  cases id
  cases id'
  simp [after]

/-- What is left of the time before: tokens, those of them that have seats, logged values, and tasks that have
ended. The clock showed some time when it was over, and another clock shows what a graph without that past
starts with. -/
structure Past where
  clock : Nat := 0
  newClock : Nat := 0
  tokens : List Token := []
  seats : List TokenId := []
  sinks : SinkId → List Value := fun _ => []
  tasks : List Task := []
  created : Nat := 0
  ended : ∀ t ∈ tasks, t.isEnded = true := by exact List.forall_mem_nil _
  numbered : ∀ t ∈ tasks, t.id.number < created := by exact List.forall_mem_nil _
  seated : ∀ t ∈ seats, t.index < tokens.length := by exact List.forall_mem_nil _

namespace World

variable {w : World} {t : TokenId}

theorem isShutDown_giveUp (w : World) (t : TokenId) : (w.giveUp t).isShutDown = w.isShutDown := by
  rw [giveUp]
  split
  · split <;> rfl
  · rfl

theorem giveUp_of_not_mem (stands : t ∉ w.seats) : w.giveUp t = w := by
  rw [giveUp]
  split <;> simp [stands]

/-- Whoever sits last takes the seat that has become free. -/
theorem giveUp_of_mem {front : List TokenId} {last : TokenId} (seats : w.seats = front ++ [last])
    (sits : t ∈ w.seats) : w.giveUp t = { w with seats := front.map fun s => if s = t then last else s } := by
  simp [giveUp, seats, seats ▸ sits]

end World

namespace Past

/-- A token of the graph without the past, as the other graph names it. -/
abbrev token (o : Past) (t : TokenId) : TokenId :=
  t.after o.tokens.length

/-- A task of the graph without the past, as the other graph names it. -/
abbrev task (o : Past) (id : TaskId) : TaskId :=
  id.after o.created

theorem index_token (o : Past) (t : TokenId) : (o.token t).index = o.tokens.length + t.index := rfl

/-- None of the seats of the past belongs to a later token. -/
theorem not_mem_seats (o : Past) (t : TokenId) : o.token t ∉ o.seats :=
  fun member => Nat.not_lt.mpr (Nat.le_add_right ..) (o.seated _ member)

/-- The same time on both clocks. -/
def SameTime (o : Past) (time newTime : Nat) : Prop :=
  time + o.newClock = newTime + o.clock

/-- A world with a past and one without, which are the same otherwise. Resetting the members of a graph would
clear every store that has something in it. -/
structure Worlds (o : Past) (g : Graph) (w v : World) : Prop where
  time : o.SameTime w.now v.now
  isShutDown : w.isShutDown = v.isShutDown
  tokens : w.tokens = o.tokens ++ v.tokens
  seats : w.seats = o.seats ++ v.seats.map o.token
  seated : ∀ t ∈ v.seats, t.index < v.tokens.length
  endedWaits : w.endedWaits = v.endedWaits
  observed : w.observed = v.observed
  kept : w.kept = v.kept
  restorable : g.Restorable w
  sinks : ∀ s, (w.sink s).toList = o.sinks s ++ (v.sink s).toList

/-- Machines of a graph with a past and of one without, at the same point of the same pulse. -/
structure Machines (o : Past) (m n : Machine) : Prop where
  twin : m.Twin n
  token : m.pulse.token = o.token n.pulse.token

/-- The same move, with a past and without. -/
inductive Moves (o : Past) (g : Graph) : Progress → Progress → Prop where
  | running {w v m n} (worlds : o.Worlds g w v) (machines : o.Machines m n) :
      Moves o g (.running w m) (.running v n)
  | sleeping {w v m n} (worlds : o.Worlds g w v) (milliseconds) (machines : o.Machines m n) :
      Moves o g (.sleeping w milliseconds m) (.sleeping v milliseconds n)
  | resting {w v m n} (worlds : o.Worlds g w v) (machines : o.Machines m n) :
      Moves o g (.resting w m) (.resting v n)
  | ended {w v result result'} (worlds : o.Worlds g w v) (same : SameOutcome result result') :
      Moves o g (.ended w result) (.ended v result')

/-- Tasks that have come to the same point. -/
inductive Phases (o : Past) : Phase → Phase → Prop where
  | starting (root) : Phases o (.starting root) (.starting root)
  | running {m n} (machines : o.Machines m n) : Phases o (.running m) (.running n)
  | resting {m n} (machines : o.Machines m n) : Phases o (.resting m) (.resting n)
  | sleeping {deadline deadline' m n} (time : o.SameTime deadline deadline') (machines : o.Machines m n) :
      Phases o (.sleeping deadline m) (.sleeping deadline' n)
  | ended {result result'} (same : SameOutcome result result') : Phases o (.ended result) (.ended result')

/-- A task with a past, and the same task without it. -/
structure Tasks (o : Past) (t u : Task) : Prop where
  id : t.id = o.task u.id
  token : t.token = o.token u.token
  phase : o.Phases t.phase u.phase
  isKept : t.isKept = u.isKept

variable {o : Past} {g : Graph} {w v : World} {m n : Machine} {t u : Task}

/-! ## Worlds -/

namespace Worlds

theorem isCancelled (h : o.Worlds g w v) (t : TokenId) : w.isCancelled (o.token t) = v.isCancelled t := by
  rw [World.isCancelled, World.isCancelled, h.tokens, h.isShutDown, index_token,
    List.getElem?_append_right (Nat.le_add_right ..), Nat.add_sub_cancel_left]

theorem isTurnFull (h : o.Worlds g w v) : w.isTurnFull = v.isTurnFull := by
  rw [World.isTurnFull, World.isTurnFull, h.endedWaits]

theorem addToken (h : o.Worlds g w v) (token : Token) :
    o.Worlds g (w.addToken token).1 (v.addToken token).1 ∧
      (w.addToken token).2 = o.token (v.addToken token).2 := by
  have name : (w.addToken token).2 = o.token (v.addToken token).2 := by
    simp [World.addToken, h.tokens, TokenId.after]
  refine ⟨{ h with tokens := ?_, seats := ?_, seated := ?_ }, name⟩
  · simp [World.addToken, h.tokens]
  · change (if token.isDetached || w.isShutDown then w.seats else w.seats ++ [(w.addToken token).2]) = _
    rw [name, h.isShutDown, h.seats]
    simp only [World.addToken]
    split
    · rfl
    · simp
  · intro t member
    rw [World.addToken] at member ⊢
    rw [List.length_append]
    split at member
    · exact Nat.lt_add_right _ (h.seated t member)
    · rcases List.mem_append.mp member with older | new
      · exact Nat.lt_add_right _ (h.seated t older)
      · rw [List.mem_singleton.mp new]
        exact Nat.lt_succ_self _

theorem mem_seats (h : o.Worlds g w v) {t : TokenId} : o.token t ∈ w.seats ↔ t ∈ v.seats := by
  simp [h.seats, not_mem_seats, TokenId.after_inj]

theorem giveUp (h : o.Worlds g w v) (t : TokenId) : o.Worlds g (w.giveUp (o.token t)) (v.giveUp t) := by
  by_cases sits : t ∈ v.seats
  · obtain ⟨front, last, seats⟩ := (List.eq_nil_or_concat' v.seats).resolve_left (List.ne_nil_of_mem sits)
    have seats' : w.seats = (o.seats ++ front.map o.token) ++ [o.token last] := by simp [h.seats, seats]
    rw [World.giveUp_of_mem seats sits, World.giveUp_of_mem seats' (h.mem_seats.mpr sits)]
    refine { h with seats := ?_, seated := fun u member => ?_ }
    · have old : ∀ s ∈ o.seats, s ≠ o.token t := fun s member same => o.not_mem_seats t (same ▸ member)
      rw [List.map_append, List.map_congr_left fun s member => if_neg (old s member), List.map_id',
        List.map_map, List.map_map]
      refine congrArg (o.seats ++ ·) (List.map_congr_left fun s member => ?_)
      simp only [Function.comp, TokenId.after_inj]
      split <;> rfl
    · obtain ⟨s, sat, rfl⟩ := List.mem_map.mp member
      refine h.seated _ ?_
      rw [seats]
      split
      · exact List.mem_append_right _ (List.mem_singleton_self _)
      · exact List.mem_append_left _ sat
  · rw [World.giveUp_of_not_mem (h.mem_seats.not.mpr sits), World.giveUp_of_not_mem sits]
    exact h

theorem cancel (h : o.Worlds g w v) (t : TokenId) : o.Worlds g (w.cancel (o.token t)) (v.cancel t) := by
  refine { h with tokens := List.ext_getElem? fun i => ?_, seated := fun u member => ?_ }
  · simp only [World.cancel, h.tokens, index_token, List.getElem?_append, List.getElem?_modify]
    grind
  · rw [World.cancel, List.length_modify]
    exact h.seated u member

theorem shutDown (h : o.Worlds g w v) : o.Worlds g w.shutDown v.shutDown :=
  { h with isShutDown := rfl }

theorem reset (h : o.Worlds g w v) (resets : List (NodeId × Reset)) :
    o.Worlds g (w.reset resets) (v.reset resets) := by
  have kept : (w.reset resets).kept = (v.reset resets).kept := World.kept_undoAll_congr h.kept
  have restorable := h.restorable.reset resets
  rw [World.reset_eq] at restorable ⊢
  rw [World.reset_eq v]
  exact { h with observed := rfl, kept, restorable }

theorem beginTurn (h : o.Worlds g w v) : o.Worlds g w.beginTurn v.beginTurn :=
  { h with endedWaits := rfl }

theorem endWait (h : o.Worlds g w v) : o.Worlds g w.endWait v.endWait :=
  { h with endedWaits := congrArg (· + 1) h.endedWaits }

theorem setTime (h : o.Worlds g w v) {now now' : Nat} (time : o.SameTime now now') :
    o.Worlds g { w with now } { v with now := now' } :=
  { h with time := time }

theorem pass (h : o.Worlds g w v) (milliseconds : Nat) :
    o.SameTime (w.now + milliseconds) (v.now + milliseconds) := by
  have := h.time
  simp only [SameTime] at this ⊢
  omega

theorem observe (h : o.Worlds g w v) (input : Port) (type : ValueType) (value : Value) :
    (w.observe input type value).2 = (v.observe input type value).2 ∧
      o.Worlds g (w.observe input type value).1 (v.observe input type value).1 := by
  simp only [World.observe, h.observed]
  split
  · exact ⟨rfl, h⟩
  · exact ⟨rfl, { h with observed := rfl }⟩

theorem push (h : o.Worlds g w v) (s : SinkId) (value : Value) :
    o.Worlds g (w.push s value) (v.push s value) := by
  refine { h with sinks := fun s' => ?_ }
  by_cases same : s' = s
  · subst same
    have here (w : World) : ((w.push s' value).sink s').toList = (w.sink s').toList ++ [value] := by
      simp [World.push, World.sink]
    rw [here, here, h.sinks, List.append_assoc]
  · have other (w : World) : (w.push s value).sink s' = w.sink s' := by
      simp [World.push, World.sink, Table.get?_insert, same]
    rw [other, other]
    exact h.sinks s'

/-- What a pulse under way may do is replied to in the same way, with a past and without. -/
theorem perform (h : o.Worlds g w v) {p q : Pulse} (twin : p.Twin q) (token : p.token = o.token q.token)
    {flow : Prop} {a : Action} (permits : g.Permits flow p a) :
    (a.perform w p).1 = (a.perform v q).1 ∧ o.Worlds g (a.perform w p).2.1 (a.perform v q).2.1 := by
  have cancelled : w.isCancelled p.token = v.isCancelled q.token := by rw [token, h.isCancelled]
  obtain ⟨id, token', startedAt, rfl⟩ := twin
  cases a with
  | isCancelled => exact ⟨cancelled, h⟩
  | isTurnFull => exact ⟨h.isTurnFull, h⟩
  | endWait => exact ⟨rfl, h.endWait⟩
  | observe input type value => exact h.observe input type value
  | remembered n type =>
      refine ⟨?_, h⟩
      simp only [Action.perform, World.store, h.kept]
  | remember n value =>
      have kept : (w.remember n value).kept = (v.remember n value).kept := by
        rw [World.kept_remember, World.kept_remember, h.kept]
      exact ⟨rfl, { h with kept, restorable := h.restorable.perform (w := w) permits }⟩
  | update n type f =>
      have read : (w.store n type).read = (v.store n type).read := by simp only [World.store, h.kept]
      have kept : (w.update n type f).kept = (v.update n type f).kept := by
        rw [World.kept_update, World.kept_update, h.kept, read]
      refine ⟨?_, { h with kept, restorable := h.restorable.perform (w := w) permits }⟩
      simp only [Action.perform, World.read_update, read]
  | push s value => exact ⟨rfl, h.push s value⟩
  | pulseId | cell | setCell | cancel | shutDown | reset => exact permits.elim
  | _ => exact ⟨rfl, h⟩

end Worlds

/-! ## Moves -/

theorem Machines.start (g : Graph) (h : o.Worlds g w v) (root : NodeId) (t : TokenId) :
    o.Worlds g (Machine.start g w root (o.token t)).1 (Machine.start g v root t).1 ∧
      o.Machines (Machine.start g w root (o.token t)).2 (Machine.start g v root t).2 :=
  ⟨{ h with }, Machine.twin_start .., rfl⟩

/-- A pulse under way makes the same moves, with a past and without. -/
theorem Machines.step (h : o.Machines m n) (worlds : o.Worlds g w v) (under : g.UnderWay m) :
    o.Moves g (m.step g w) (n.step g v) := by
  have single' : n.IsSingle := fun caller member => under.fits.single caller (h.twin.callers ▸ member)
  have alone' (root next) : n.program ≠ .ask (.pulse root) next := h.twin.program ▸ under.alone root next
  have cancelled : w.isCancelled m.pulse.token = v.isCancelled n.pulse.token := by
    rw [h.token, worlds.isCancelled]
  have lockstep := (h.twin.step (g := g) under.fits.single under.alone worlds cancelled fun a next asks =>
    worlds.perform h.twin.pulse h.token (under.fits.allowed asks).2).1
  have machines {w' v' m' n'} (twin : m'.Twin n') (moves : (m.step g w).next? = some (w', m'))
      (moves' : (n.step g v).next? = some (v', n')) : o.Machines m' n' := by
    refine ⟨twin, ?_⟩
    rw [under.token_step moves, Machine.token_step single' alone' moves', h.token]
  generalize m.step g w = p, n.step g v = q at lockstep machines
  cases lockstep with
  | running worlds twin => exact .running worlds (machines twin rfl rfl)
  | sleeping worlds milliseconds twin => exact .sleeping worlds milliseconds (machines twin rfl rfl)
  | resting worlds twin => exact .resting worlds (machines twin rfl rfl)
  | ended worlds same => exact .ended worlds same

theorem Moves.phase {p q : Progress} (h : o.Moves g p q) :
    o.Worlds g (Phase.ofProgress p).1 (Phase.ofProgress q).1 ∧
      o.Phases (Phase.ofProgress p).2 (Phase.ofProgress q).2 := by
  cases h with
  | running worlds machines => exact ⟨worlds, .running machines⟩
  | sleeping worlds milliseconds machines => exact ⟨worlds, .sleeping (worlds.pass _) machines⟩
  | resting worlds machines => exact ⟨worlds, .resting machines⟩
  | ended worlds same => exact ⟨worlds, .ended same⟩

namespace Tasks

theorem result? (h : o.Tasks t u) : Option.Rel SameOutcome t.result? u.result? := by
  have phases := h.phase
  rw [Task.result?, Task.result?]
  generalize t.phase = p, u.phase = q at phases
  cases phases with
  | ended same => exact .some same
  | _ => exact .none

theorem isEnded (h : o.Tasks t u) : t.isEnded = u.isEnded := by
  have same := h.result?
  rw [Task.isEnded, Task.isEnded]
  generalize t.result? = result, u.result? = result' at same
  cases same <;> rfl

/-- A task moves in the same way, with a past and without. -/
theorem move (h : o.Tasks t u) (worlds : o.Worlds g w v) (sound : t.phase.Sound g) :
    o.Worlds g (t.move g w).1 (u.move g v).1 ∧ o.Tasks { t with phase := (t.move g w).2 }
      { u with phase := (u.move g v).2 } := by
  have moved : o.Worlds g (t.move g w).1 (u.move g v).1 ∧ o.Phases (t.move g w).2 (u.move g v).2 := by
    have token := h.token
    obtain ⟨id, token, phase, isKept⟩ := t
    obtain ⟨id', token', phase', isKept'⟩ := u
    cases h.phase with
    | starting root =>
        cases token
        simp only [Task.move]
        cases g.root root with
        | error e => exact ⟨worlds, .ended (.error (.refl e))⟩
        | ok r =>
            obtain ⟨worlds, machines⟩ := Machines.start g worlds.beginTurn root token'
            exact ⟨worlds, .running machines⟩
    | running machines => exact (machines.step worlds sound).phase
    | resting machines | sleeping time machines => exact (machines.step worlds.beginTurn sound).phase
    | ended same => exact ⟨worlds, .ended same⟩
  exact ⟨moved.1, h.id, h.token, moved.2, h.isKept⟩

end Tasks

end Past

/-- Moving a task does not shut down the graph. -/
theorem Task.isShutDown_move {g : Graph} {t : Task} (sound : t.phase.Sound g) (w : World) :
    (t.move g w).1.isShutDown = w.isShutDown := by
  obtain ⟨id, token, phase, isKept⟩ := t
  cases phase with
  | starting root =>
      rw [Task.move]
      dsimp only
      split <;> rfl
  | running m => rw [Task.move, Phase.world_ofProgress, Graph.UnderWay.isShutDown_step sound]
  | resting m | sleeping deadline m =>
      rw [Task.move, Phase.world_ofProgress, Graph.UnderWay.isShutDown_step sound]
      rfl
  | ended result => rfl

namespace Session

/-- A newly built graph, at any time and at any point of the host's turn. -/
def new (g : Graph) (now endedWaits : Nat) : Session where
  graph := g
  world := { now, endedWaits }

/-- Adds a task for a pulse with a given token. -/
def start (s : Session) (root : NodeId) (token : TokenId) : Session :=
  { s with created := s.created + 1 }.put { id := ⟨s.created⟩, token, phase := .starting root }

/-- Moves a task, whoever has the turn. -/
def move (s : Session) (id : TaskId) : Session :=
  match s.task? id with
  | none => s
  | some t =>
    let (world, phase) := t.move s.graph s.world
    { s with world }.put { t with phase }

end Session

/-- Whatever can be done to a graph, by a host or by a pulse that moves. -/
inductive Deed where
  | addToken (token : Token)
  | start (root : NodeId) (token : TokenId)
  | move (task : TaskId)
  | forget (task : TaskId)
  | cancel (token : TokenId)
  | shutDown
  | resetState
  | pass (milliseconds : Nat)
  | beginTurn
  | endWait

/-- The same deed if so many tokens and tasks came before. -/
def Deed.after (tokens tasks : Nat) : Deed → Deed
  | .start root token => .start root (token.after tokens)
  | .move task => .move (task.after tasks)
  | .forget task => .forget (task.after tasks)
  | .cancel token => .cancel (token.after tokens)
  | deed => deed

namespace Session

/-- What a deed does. -/
def undergo (s : Session) : Deed → Session
  | .addToken token => (s.addToken token).1
  | .start root token => s.start root token
  | .move task => s.move task
  | .forget task => s.forget task
  | .cancel token => { s with world := s.world.cancel token }
  | .shutDown => { s with world := s.world.shutDown }
  | .resetState => s.resetState
  | .pass milliseconds => { s with world := { s.world with now := s.world.now + milliseconds } }
  | .beginTurn => s.beginTurn
  | .endWait => s.endWait

/-- What some deeds do, one after the other. -/
def undergoAll (s : Session) (deeds : List Deed) : Session :=
  deeds.foldl undergo s

/-- A host finds out the same about two graphs, the first of which has a past. The values in its sinks at that
time and the tasks there had been are left out of account. -/
structure Agrees (before s f : Session) : Prop where
  counter : ∀ name, s.counter? name = f.counter? name
  previous : ∀ name, s.previous? name = f.previous? name
  observations : s.observations = f.observations
  sinks : ∀ id, (s.world.sink id).toList = (before.world.sink id).toList ++ (f.world.sink id).toList
  results : ∀ id, Option.Rel SameOutcome ((s.task? (id.after before.created)).bind (·.result?))
    ((f.task? id).bind (·.result?))
  cancelled : ∀ id, s.isCancelled (id.after before.created) = f.isCancelled id

end Session

namespace Past

/-! ## Sessions -/

/-- A session with a past and one without. The graph is awake unless it may have been shut down. -/
structure Sessions (o : Past) (g : Graph) (down : Prop) (s f : Session) : Prop where
  sound : s.Sound g
  graph : f.graph = g
  worlds : o.Worlds g s.world f.world
  awake : down ∨ f.world.isShutDown = false
  created : s.created = o.created + f.created
  numbered : ∀ u ∈ f.tasks, u.id.number < f.created
  tasks : ∃ later, s.tasks = o.tasks ++ later ∧ List.Forall₂ o.Tasks later f.tasks

variable {o : Past} {g : Graph} {down : Prop} {s f : Session} {w v : World} {t u : Task}

theorem Tasks.id_iff (h : o.Tasks t u) (id : TaskId) : t.id = o.task id ↔ u.id = id := by
  rw [h.id, TaskId.after_inj]

/-- No task of the past has the name of a later one. -/
theorem id_ne (member : t ∈ o.tasks) (id : TaskId) : t.id ≠ o.task id := by
  intro same
  have earlier := o.numbered t member
  rw [same] at earlier
  exact absurd earlier (Nat.not_lt.mpr (Nat.le_add_right ..))

namespace Sessions

theorem graph_eq (h : o.Sessions g down s f) : s.graph = f.graph :=
  h.sound.graph.trans h.graph.symm

/-- Who stands in the queue makes no difference. -/
theorem setQueue (h : o.Sessions g down s f) (queue queue' : List TaskId) :
    o.Sessions g down { s with queue } { f with queue := queue' } :=
  { h with sound := ⟨h.sound.graph, h.sound.observed, h.sound.tasks⟩ }

theorem enqueue (h : o.Sessions g down s f) (tasks tasks' : List Task) :
    o.Sessions g down (s.enqueue tasks) (f.enqueue tasks') :=
  h.setQueue _ _

theorem setWorld (h : o.Sessions g down s f) (worlds : o.Worlds g w v) (observed : g.ObservedTyped w)
    (awake : v.isShutDown = f.world.isShutDown) :
    o.Sessions g down { s with world := w } { f with world := v } :=
  { h with
    sound := h.sound.of_world observed
    worlds := worlds
    awake := h.awake.imp_right awake.trans }

theorem task? (h : o.Sessions g down s f) (id : TaskId) :
    Option.Rel o.Tasks (s.task? (o.task id)) (f.task? id) := by
  obtain ⟨later, eq, same⟩ := h.tasks
  have old : o.tasks.find? (·.id = o.task id) = none := by
    rw [List.find?_eq_none]
    intro t member
    simpa using id_ne member id
  rw [Session.task?, Session.task?, eq, List.find?_append, old, Option.none_or, ← List.head?_filter,
    ← List.head?_filter]
  have named : List.Forall₂ o.Tasks (later.filter (·.id = o.task id)) (f.tasks.filter (·.id = id)) :=
    List.rel_filter (fun t u h => by simp [h.id_iff id]) same
  generalize later.filter (·.id = o.task id) = l, f.tasks.filter (·.id = id) = l' at named
  cases named with
  | nil => exact .none
  | cons first _ => exact .some first

/-- The same tasks are there under their names, if any are. -/
theorem task?_cases (h : o.Sessions g down s f) (id : TaskId) :
    s.task? (o.task id) = none ∧ f.task? id = none ∨
      ∃ t ∈ s.tasks, ∃ u ∈ f.tasks,
        s.task? (o.task id) = some t ∧ f.task? id = some u ∧ u.id = id ∧ o.Tasks t u := by
  have found := h.task? id
  cases before : s.task? (o.task id) <;> cases before' : f.task? id <;> rw [before, before'] at found <;>
    cases found
  case none.none => exact .inl ⟨rfl, rfl⟩
  case some.some t u same =>
    exact .inr ⟨t, List.mem_of_find?_eq_some before, u, List.mem_of_find?_eq_some before', rfl, rfl,
      by simpa using List.find?_some before', same⟩

/-- The other tasks stay the same without one of them. -/
theorem others (h : o.Sessions g down s f) (same : t.id = o.task u.id) :
    ∃ later, s.tasks.filter (·.id ≠ t.id) = o.tasks ++ later ∧
      List.Forall₂ o.Tasks later (f.tasks.filter (·.id ≠ u.id)) := by
  obtain ⟨later, eq, tasks⟩ := h.tasks
  refine ⟨later.filter (·.id ≠ t.id), ?_, ?_⟩
  · rw [eq, List.filter_append, List.filter_eq_self.mpr]
    intro t' member
    simpa [same] using id_ne member u.id
  · refine List.rel_filter (fun t' u' h' => ?_) tasks
    simp [same, h'.id_iff u.id]

theorem put (h : o.Sessions g down s f) (same : o.Tasks t u) (sound : t.phase.Sound g)
    (numbered : u.id.number < f.created) : o.Sessions g down (s.put t) (f.put u) := by
  obtain ⟨later, eq, tasks⟩ := h.others same.id
  refine { h with sound := h.sound.put sound, numbered := ?_, tasks := ⟨later ++ [t], ?_, ?_⟩ }
  · intro u' member
    rcases List.mem_append.mp member with older | new
    · exact h.numbered u' (List.mem_filter.mp older).1
    · rw [List.mem_singleton.mp new]
      exact numbered
  · rw [Session.put, eq, List.append_assoc]
  · exact List.rel_append tasks (.cons same .nil)

theorem giveUp (h : o.Sessions g down s f) (t : TokenId) :
    o.Sessions g down (s.giveUp (o.token t)) (f.giveUp t) :=
  h.setWorld (h.worlds.giveUp t) (h.sound.giveUp _).observed (World.isShutDown_giveUp ..)

theorem remove (h : o.Sessions g down s f) (same : o.Tasks t u) :
    o.Sessions g down (s.remove t) (f.remove u) :=
  { same.token ▸ h.giveUp u.token with
    sound := h.sound.remove t
    numbered := fun u' member => h.numbered u' (List.mem_filter.mp member).1
    tasks := h.others same.id }

theorem addToken (h : o.Sessions g down s f) (token : Token) :
    o.Sessions g down (s.addToken token).1 (f.addToken token).1 :=
  h.setWorld (h.worlds.addToken token).1 (h.sound.addToken token).observed rfl

theorem forget (h : o.Sessions g down s f) (id : TaskId) :
    o.Sessions g down (s.forget (o.task id)) (f.forget id) := by
  have sound := h.sound.forget (o.task id)
  rw [Session.forget] at sound ⊢
  rw [Session.forget]
  rcases h.task?_cases id with ⟨absent, absent'⟩ | ⟨t, _, u, _, found, found', _, same⟩
  · rw [absent, absent']
    exact h
  · rw [found] at sound ⊢
    rw [found']
    dsimp only at sound ⊢
    rw [← same.isEnded]
    split at sound
    next ended =>
      rw [if_pos ended, if_pos ended]
      exact h.remove same
    next live =>
      rw [if_neg live, if_neg live]
      obtain ⟨later, eq, tasks⟩ := h.tasks
      have dropped : List.Forall₂ o.Tasks
          (later.map fun t => if t.id = o.task id then { t with isKept := false } else t)
          (f.tasks.map fun u => if u.id = id then { u with isKept := false } else u) := by
        refine List.rel_map (fun t' u' h' => ?_) tasks
        simp only [h'.id_iff id]
        split
        · exact { h' with isKept := rfl }
        · exact h'
      refine { h with sound := sound, numbered := fun u' member => ?_, tasks := ⟨_, ?_, dropped⟩ }
      · obtain ⟨u'', older, rfl⟩ := List.mem_map.mp member
        have numbered := h.numbered u'' older
        split <;> exact numbered
      · dsimp only
        rw [eq, List.map_append, List.map_congr_left fun t' member => if_neg (id_ne member id), List.map_id']

theorem cancel (h : o.Sessions g down s f) (token : TokenId) :
    o.Sessions g down { s with world := s.world.cancel (o.token token) }
      { f with world := f.world.cancel token } :=
  h.setWorld (h.worlds.cancel token) (h.sound.observed.hostChanges (.cancel _)) rfl

theorem shutDown (h : o.Sessions g down s f) (may : down) :
    o.Sessions g down { s with world := s.world.shutDown } { f with world := f.world.shutDown } :=
  { h with
    sound := h.sound.of_world (h.sound.observed.hostChanges .shutDown)
    worlds := h.worlds.shutDown
    awake := .inl may }

theorem resetState (h : o.Sessions g down s f) : o.Sessions g down s.resetState f.resetState := by
  have same : f.resetState = { f with world := f.world.reset s.graph.resets } := by
    rw [Session.resetState, h.graph_eq]
  rw [same]
  exact h.setWorld (h.worlds.reset _) h.sound.resetState.observed
    (f.world.reset_keeps (·.isShutDown) _ fun _ _ _ => rfl)

theorem beginTurn (h : o.Sessions g down s f) : o.Sessions g down s.beginTurn f.beginTurn :=
  h.setWorld h.worlds.beginTurn h.sound.beginTurn.observed rfl

theorem endWait (h : o.Sessions g down s f) : o.Sessions g down s.endWait f.endWait :=
  h.setWorld h.worlds.endWait h.sound.endWait.observed rfl

theorem setTime (h : o.Sessions g down s f) {now now' : Nat} (time : o.SameTime now now') :
    o.Sessions g down { s with world := { s.world with now } }
      { f with world := { f.world with now := now' } } :=
  h.setWorld (h.worlds.setTime time) (h.sound.observed.of_observed rfl) rfl

theorem start (h : o.Sessions g down s f) (root : NodeId) (token : TokenId) :
    o.Sessions g down (s.start root (o.token token)) (f.start root token) := by
  have counted : o.Sessions g down { s with created := s.created + 1 } { f with created := f.created + 1 } :=
    { h with
      sound := ⟨h.sound.graph, h.sound.observed, h.sound.tasks⟩
      created := congrArg (· + 1) h.created
      numbered := fun u member => Nat.lt_succ_of_lt (h.numbered u member) }
  refine counted.put ⟨?_, rfl, .starting root, rfl⟩ trivial (Nat.lt_succ_self _)
  exact congrArg TaskId.mk h.created

section

variable (catalogue : g.FromCatalogue)

include catalogue

/-- A task moves in the same way, with a past and without. -/
theorem moveTask (h : o.Sessions g down s f) (same : o.Tasks t u) (member : t ∈ s.tasks)
    (member' : u ∈ f.tasks) :
    o.Tasks { t with phase := (t.move s.graph s.world).2 } { u with phase := (u.move f.graph f.world).2 } ∧
      o.Sessions g down
        ({ s with world := (t.move s.graph s.world).1 }.put
          { t with phase := (t.move s.graph s.world).2 })
        ({ f with world := (u.move f.graph f.world).1 }.put
          { u with phase := (u.move f.graph f.world).2 }) := by
  have phase := h.sound.tasks t member
  have eq : t.move s.graph s.world = t.move g s.world := by rw [h.sound.graph]
  have eq' : u.move f.graph f.world = u.move g f.world := by rw [h.graph]
  rw [eq, eq']
  obtain ⟨worlds, moved⟩ := same.move h.worlds phase
  obtain ⟨observed, sound⟩ := Session.move_sound catalogue phase h.sound.observed
  have awake : (u.move g f.world).1.isShutDown = f.world.isShutDown := by
    rw [← worlds.isShutDown, Task.isShutDown_move phase, h.worlds.isShutDown]
  exact ⟨moved, (h.setWorld worlds observed awake).put moved sound (h.numbered u member')⟩

theorem move (h : o.Sessions g down s f) (id : TaskId) :
    o.Sessions g down (s.move (o.task id)) (f.move id) := by
  rw [Session.move, Session.move]
  rcases h.task?_cases id with ⟨absent, absent'⟩ | ⟨t, member, u, member', found, found', _, same⟩
  · rw [absent, absent']
    exact h
  · rw [found, found']
    exact (h.moveTask catalogue same member member').2

/-- Every deed does the same, with a past and without. -/
theorem undergo (h : o.Sessions g down s f) (deed : Deed) (may : deed = .shutDown → down) :
    o.Sessions g down (s.undergo (deed.after o.tokens.length o.created)) (f.undergo deed) := by
  cases deed with
  | addToken token => exact h.addToken token
  | start root token => exact h.start root token
  | move task => exact h.move catalogue task
  | forget task => exact h.forget task
  | cancel token => exact h.cancel token
  | shutDown => exact h.shutDown (may rfl)
  | resetState => exact h.resetState
  | pass milliseconds => exact h.setTime (h.worlds.pass milliseconds)
  | beginTurn => exact h.beginTurn
  | endWait => exact h.endWait

theorem undergoAll (h : o.Sessions g down s f) (deeds : List Deed) (may : .shutDown ∈ deeds → down) :
    o.Sessions g down (s.undergoAll (deeds.map (·.after o.tokens.length o.created)))
      (f.undergoAll deeds) := by
  induction deeds generalizing s f with
  | nil => exact h
  | cons deed rest ih =>
      refine ih (h.undergo catalogue deed fun same => ?_) fun later => may (List.mem_cons_of_mem _ later)
      exact may (same ▸ List.mem_cons_self)

end

/-- Whatever a host asks for, it is told the same. -/
theorem agrees (h : o.Sessions g down s f) {before : Session} (created : o.created = before.created)
    (sinks : ∀ id, o.sinks id = (before.world.sink id).toList) : Session.Agrees before s f where
  counter name := by
    simp only [Session.counter?, Session.facet?, h.graph_eq, World.store, h.worlds.kept]
  previous name := by
    simp only [Session.previous?, Session.facet?, h.graph_eq, World.store, h.worlds.kept]
  observations := by rw [Session.observations, Session.observations, h.worlds.observed]
  sinks id := by rw [h.worlds.sinks, sinks]
  results id := by
    have found := h.task? id
    rw [← created]
    generalize s.task? (o.task id) = t?, f.task? id = u? at found
    cases found with
    | none => exact .none
    | some same => exact same.result?
  cancelled id := by
    have found := h.task? id
    rw [← created, Session.isCancelled, Session.isCancelled]
    generalize s.task? (o.task id) = t?, f.task? id = u? at found
    cases found with
    | none => rfl
    | some same =>
        dsimp only
        rw [same.token, h.worlds.isCancelled]

end Sessions

/-- A newly built graph has no past. -/
theorem sessions_new (g : Graph) (now endedWaits : Nat) :
    ({} : Past).Sessions g False (Session.new g now endedWaits) (Session.new g now endedWaits) where
  sound := ⟨rfl, Graph.observedTyped_of_forgotten rfl, List.forall_mem_nil _⟩
  graph := rfl
  worlds := ⟨rfl, rfl, rfl, rfl, List.forall_mem_nil _, rfl, rfl, rfl, Graph.restorable_of_unkept rfl,
    fun _ => rfl⟩
  awake := .inr rfl
  created := (Nat.zero_add _).symm
  numbered := List.forall_mem_nil _
  tasks := ⟨[], rfl, .nil⟩

/-- What is left of a session in which all tasks have ended. -/
def of (s : Session) (newClock : Nat) (ended : ∀ t ∈ s.tasks, t.isEnded = true)
    (numbered : ∀ t ∈ s.tasks, t.id.number < s.created)
    (seated : ∀ t ∈ s.world.seats, t.index < s.world.tokens.length) : Past where
  clock := s.world.now
  newClock
  tokens := s.world.tokens
  seats := s.world.seats
  sinks id := (s.world.sink id).toList
  tasks := s.tasks
  created := s.created
  ended
  numbered
  seated

/-- A graph that has been in use, but not shut down, has just a past when it is reset. -/
theorem Sessions.reset (h : ({} : Past).Sessions g False s s) (newClock : Nat)
    (ended : ∀ t ∈ s.tasks, t.isEnded = true) (down : Prop) :
    (Past.of s newClock ended h.numbered h.worlds.seated).Sessions g down s.resetState
      (Session.new g newClock s.world.endedWaits) where
  sound := h.sound.resetState
  graph := rfl
  worlds := by
    have unkept : (s.world.reset s.graph.resets).kept = ∅ := by
      rw [h.graph]
      exact h.worlds.restorable.kept_reset
    have none {α : Type} (l : List α) : l = l ++ [] := (List.append_nil l).symm
    rw [Session.resetState, World.reset_eq]
    exact ⟨Nat.add_comm .., h.awake.resolve_left id, none _, none _, List.forall_mem_nil _, rfl, rfl, unkept,
      Graph.restorable_of_unkept unkept, fun _ => none _⟩
  awake := .inr rfl
  created := rfl
  numbered := List.forall_mem_nil _
  tasks := ⟨[], (List.append_nil _).symm, .nil⟩

end Past

end FlowGraph
