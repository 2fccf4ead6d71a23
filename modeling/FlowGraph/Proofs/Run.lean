import FlowGraph.Pulse.Machine

/-!
# Runs of a machine

A machine moves in a world that others change too. A run is any sequence of its moves with changes of the
world in between; which changes are possible is left to whoever speaks of runs. The events of a run are
the actions carried out, with their replies, and the nodes that flow was let into, in their order. They
say in particular what was last published at an output, without looking at the state of the pulse.
-/

namespace FlowGraph

/-- What a move does besides computing a pure node or waiting. -/
inductive Event where
  | did (action : Action) (reply : action.Reply)
  | entered (node : NodeId) (depth : Nat)

/-- The value that an event publishes at an output. -/
def Event.valueAt? (output : Port) : Event → Option Value
  | .did (.publish o v _) _ => if o = output then some v else none
  | _ => none

/-- The value that the last publication at an output has given it. -/
def lastPublished (events : List Event) (output : Port) : Option Value :=
  events.reverse.findSome? (·.valueAt? output)

theorem lastPublished_append (events later : List Event) (output : Port) :
    lastPublished (events ++ later) output =
      (lastPublished later output).or (lastPublished events output) := by
  simp [lastPublished]

theorem lastPublished_singleton (event : Event) (output : Port) :
    lastPublished [event] output = event.valueAt? output := by
  simp [lastPublished]

/-- Where a pulse goes on, if it does. -/
def Progress.next? : Progress → Option (World × Machine)
  | .running w m | .sleeping w _ m | .resting w m => some (w, m)
  | .ended .. => none

/-- Where a pulse goes on if nobody else moves: a wait is over as soon as it may be, and the pulse has
another turn. -/
def Progress.resumed? : Progress → Option (World × Machine)
  | .running w m => some (w, m)
  | .sleeping w milliseconds m => some ({ w with now := w.now + milliseconds }.beginTurn, m)
  | .resting w m => some (w.beginTurn, m)
  | .ended .. => none

/-- How far a machine has come, and its events so far. -/
structure Trace where
  events : List Event
  world : World
  machine : Machine

/-- Whether the pulse is cancelled by now. -/
def Trace.isCancelled (t : Trace) : Bool :=
  t.world.isCancelled t.machine.pulse.token

namespace Machine

/-- The event of a machine's next move. -/
def event? (w : World) (m : Machine) : Option Event :=
  match m.program with
  | .ask (.act action) _ => some (.did action (action.perform w m.pulse).1)
  | .ask (.activate n depth) _ => some (.entered n depth)
  | _ => none

/-- Some moves of a machine and changes of the world by others, with the events of the moves. -/
inductive Run (g : Graph) (others : World → World → Prop) (w₀ : World) (m₀ : Machine) :
    List Event → World → Machine → Prop where
  | refl : Run g others w₀ m₀ [] w₀ m₀
  | others {events w w' m} (run : Run g others w₀ m₀ events w m) (change : others w w') :
      Run g others w₀ m₀ events w' m
  | move {events w w' m m'} (run : Run g others w₀ m₀ events w m)
      (moves : (m.step g w).next? = some (w', m')) :
      Run g others w₀ m₀ (events ++ (m.event? w).toList) w' m'

/-- A run can be continued by another one. -/
theorem Run.trans {g : Graph} {others : World → World → Prop} {w₀ w w' : World} {m₀ m m' : Machine}
    {events later : List Event} (run : Run g others w₀ m₀ events w m)
    (next : Run g others w m later w' m') : Run g others w₀ m₀ (events ++ later) w' m' := by
  induction next with
  | refl => rwa [List.append_nil]
  | others _ change ih => exact ih.others change
  | move _ moves ih =>
      rw [← List.append_assoc]
      exact ih.move moves

/-- The first moves of a machine that is alone, until it ends. -/
def alone (g : Graph) (w : World) (m : Machine) : (moves : Nat) → Trace
  | 0 => ⟨[], w, m⟩
  | moves + 1 =>
    let t := alone g w m moves
    match (t.machine.step g t.world).resumed? with
    | none => t
    | some (w', m') => ⟨t.events ++ (t.machine.event? t.world).toList, w', m'⟩

/-- A machine that moves alone is one way to run it, if others may let time pass. -/
theorem run_alone (g : Graph) {others : World → World → Prop}
    (waits : ∀ w milliseconds, others w { w with now := w.now + milliseconds }.beginTurn) (w : World)
    (m : Machine) (moves : Nat) :
    Run g others w m (alone g w m moves).events (alone g w m moves).world
      (alone g w m moves).machine := by
  induction moves with
  | zero => exact .refl
  | succ moves ih =>
      rw [alone]
      cases progress : (alone g w m moves).machine.step g (alone g w m moves).world with
      | running w' m' => exact ih.move (by rw [progress]; rfl)
      | sleeping w' milliseconds m' => exact (ih.move (by rw [progress]; rfl)).others (waits ..)
      | resting w' m' => exact (ih.move (by rw [progress]; rfl)).others (waits _ 0)
      | ended w' result => exact ih

/-- Every program that waits for another one belongs to a node of the machine's own pulse. -/
def IsSingle (m : Machine) : Prop :=
  ∀ caller ∈ m.callers, ∃ scope next, caller = .node scope next

/-- An error of a machine that is alone in its pulse ends it. -/
theorem unwind_eq_ended {callers : List Caller}
    (single : ∀ caller ∈ callers, ∃ scope next, caller = .node scope next) (w : World)
    (token : TokenId) (error : PulseError) :
    unwind w token error callers = .ended w (.error error) := by
  induction callers with
  | nil => rfl
  | cons caller callers ih =>
      obtain ⟨scope, next, rfl⟩ := single caller (List.mem_cons_self ..)
      exact ih fun other member => single other (List.mem_cons_of_mem _ member)

end Machine

namespace Pulse

/-- What does not depend on the memo and the number of evaluations is the same after an evaluation. -/
theorem completeEvaluation_keeps {α : Type} (f : Pulse → α) (p : Pulse) (resting : List (Port × Value))
    (counted : ∀ p n, f { p with evaluations := n } = f p)
    (memoized : ∀ p output v, f (p.memoize output v) = f p) :
    f (p.completeEvaluation resting) = f p := by
  rw [← counted p (p.evaluations + 1), completeEvaluation]
  generalize ({ p with evaluations := p.evaluations + 1 } : Pulse) = q
  induction resting generalizing q with
  | nil => rfl
  | cons entry rest ih => exact (ih _).trans (memoized ..)

/-- Giving resting values to outputs concerns the memo and a counter only. -/
theorem published_completeEvaluation (p : Pulse) (resting : List (Port × Value)) :
    (p.completeEvaluation resting).published = p.published :=
  p.completeEvaluation_keeps (·.published) resting (fun _ _ => rfl) fun _ _ _ => rfl

theorem token_completeEvaluation (p : Pulse) (resting : List (Port × Value)) :
    (p.completeEvaluation resting).token = p.token :=
  p.completeEvaluation_keeps (·.token) resting (fun _ _ => rfl) fun _ _ _ => rfl

end Pulse

namespace World

/-- Resetting nodes concerns the stores and the cells only. -/
theorem undoAll_eq (w : World) (resets : List (NodeId × Reset)) :
    w.undoAll resets = { w with kept := (w.undoAll resets).kept, cells := (w.undoAll resets).cells } := by
  induction resets generalizing w with
  | nil => rfl
  | cons step rest ih =>
      obtain ⟨n, r⟩ := step
      refine (ih (w.undo n r)).trans ?_
      cases r <;> rfl

theorem reset_eq (w : World) (resets : List (NodeId × Reset)) :
    w.reset resets =
      { w with observed := ∅, kept := (w.reset resets).kept, cells := (w.reset resets).cells } :=
  undoAll_eq ..

/-- What depends neither on the stores nor on the cells is the same after resetting as without
observations. -/
theorem reset_keeps {α : Type} (f : World → α) (w : World) (resets : List (NodeId × Reset))
    (blind : ∀ w kept cells, f { w with kept, cells } = f w) :
    f (w.reset resets) = f { w with observed := ∅ } := by
  rw [reset_eq]
  exact blind { w with observed := ∅ } _ _

/-- Resetting forgets all observations. -/
theorem observed_reset (w : World) (resets : List (NodeId × Reset)) : (w.reset resets).observed = ∅ :=
  w.reset_keeps (·.observed) resets fun _ _ _ => rfl

theorem observed_giveUp (w : World) (t : TokenId) : (w.giveUp t).observed = w.observed := by
  rw [giveUp]
  split
  · split <;> rfl
  · rfl

end World

/-- What an action does to the published values is what its event says. -/
theorem Action.published_perform (a : Action) (w : World) (p : Pulse) (output : Port) :
    (a.perform w p).2.2.published.get? output =
      (Event.valueAt? output (.did a (a.perform w p).1)).or (p.published.get? output) := by
  cases a with
  | publish o v dependents =>
      simp only [perform, Pulse.publish, Table.get?_insert, Event.valueAt?, eq_comm (a := output)]
      split <;> rfl
  | completeEvaluation resting =>
      simp only [perform, Pulse.published_completeEvaluation, Event.valueAt?, Option.none_or]
  | _ => rfl

end FlowGraph
