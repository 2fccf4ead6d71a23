import FlowGraph.Proofs.Comparing
import FlowGraph.Proofs.Frames

/-!
# The gate of reactive inputs

Whoever watches a graph in use can note down what each arrival of a live pulse at a node reads at the
node's reactive inputs, and strike it out when the observations are forgotten. The gate lets an arrival
through if nothing is noted down, or if an input reads something else than what is noted down for it. All
that pulses and hosts do besides, at this node or elsewhere, leaves it at that.
-/

namespace FlowGraph

namespace Engine

variable {g : Graph} {s : Scope} {n : NodeId}

/-- A request other than to compare an input of a node with its last observation. -/
def Spares (n : NodeId) (r : EngineRequest) : Prop :=
  ∀ index t v, r ≠ .act (.observe ⟨n, index⟩ t v)

theorem Answering.spares {r : EngineRequest} (h : Answering g s r) : Spares n r := by
  rintro index t v rfl
  exact h

theorem Local.spares {r : EngineRequest} (h : Local g s r) (other : s.node ≠ n) : Spares n r := by
  rintro index t v rfl
  cases h with
  | answering answers => exact answers
  | observe => exact other rfl

theorem spares_admitted (m : Member) : (admitted g s m).Asks (Spares n) := by
  have run {α : Type} (p : NodeProgram α) : (Engine.run g s p).Asks (Spares n) :=
    (answering_run p).mono fun _ answers => answers.spares
  apply (run m.node.guard).andThen
  intro passed
  split
  · exact ⟨nofun, fun _ => run m.node.process⟩
  · trivial

/-- Only flow that enters a node compares its inputs. -/
theorem Enters.spares {root root' : NodeId} {s' : Scope} {r : EngineRequest} {p : Engine Unit}
    (h : Enters g root s r root' s' p) (n : NodeId) :
    p.Asks (Spares n) ∨ s'.node = n ∧ p = activation g s' := by
  have entered (s' : Scope) : (activation g s').Asks (Spares n) ∨
      s'.node = n ∧ activation g s' = activation g s' := by
    by_cases here : s'.node = n
    · exact .inr ⟨here, rfl⟩
    · exact .inl (local_activation.mono fun _ asked => asked.spares here)
  cases h with
  | evaluate => exact .inl (answering_evaluation.mono fun _ answers => answers.spares)
  | activate => exact entered _
  | restart => exact .inl (answering_process.mono fun _ answers => answers.spares)
  | pulse => exact entered _

end Engine

/-- What an action does to the observation of an input. -/
theorem Action.observed_perform {input : Port} {a : Action} (spares : ∀ t v, a ≠ .observe input t v)
    (keeps : ∀ resets, a ≠ .reset resets) (w : World) (p : Pulse) :
    (a.perform w p).2.1.observed.get? input = w.observed.get? input := by
  cases a with
  | observe other t v =>
      have ne : input ≠ other := by
        rintro rfl
        exact spares t v rfl
      exact World.observed_observe_of_ne t v ne
  | reset resets => exact absurd rfl (keeps resets)
  | _ => rfl

namespace Machine

open Engine (Spares)

/-- Nothing that is left for a machine to do compares inputs of a node, other than by entering it. -/
abbrev Away (n : NodeId) (m : Machine) : Prop :=
  m.Framed fun _ _ => Program.Asks (Spares n)

/-- A machine that is away from a node, or is about to let flow into it. -/
structure Attends (g : Graph) (n : NodeId) (m : Machine) : Prop where
  program : m.program.Asks (Spares n) ∨ m.Arrives g n
  callers : Waits (fun _ _ => Program.Asks (Spares n)) m.pulse.root m.callers

variable {g : Graph} {n : NodeId} {k : Member} {w w' : World} {m m' : Machine}

theorem Away.attends (h : m.Away n) : m.Attends g n :=
  ⟨.inl h.program, h.callers⟩

theorem attends_start (g : Graph) (n : NodeId) (w : World) (root : NodeId) (token : TokenId) :
    (start g w root token).2.Attends g n where
  program := by
    have enters : Engine.Enters g root ⟨root, 0⟩ (.pulse root) root ⟨root, 0⟩ _ := .pulse root
    exact (enters.spares n).imp_right fun ⟨here, _⟩ => ⟨here, rfl⟩
  callers := trivial

/-- Unless a live pulse arrives, a move leads away from the node or to where one may arrive. -/
theorem Attends.move (h : m.Attends g n) (member : g.member? n = some k)
    (elsewhere : m.Arrives g n → w.isCancelled m.pulse.token = true)
    (moves : m.step g w = .running w' m') : m'.Attends g n := by
  rcases h.program with spares | arrives
  · have away : m.Away n := ⟨spares, h.callers⟩
    obtain ⟨callers, program | ⟨r, next, _, entered⟩⟩ :=
      away.step (fun asks reply => asks.2 reply) (by rw [moves]; rfl)
    · exact ⟨.inl program, callers⟩
    · exact ⟨entered.spares n, callers⟩
  · rw [arrives.of_cancelled member (elsewhere arrives)] at moves
    cases moves
    exact ⟨.inl trivial, h.callers⟩

/-- A machine that has to wait is away from the node. -/
theorem Attends.pause (h : m.Attends g n) (member : g.member? n = some k) {r : EngineRequest}
    {next : r.Reply → Engine Unit} (asks : m.program = .ask r next) (waits : r ≠ .act .isCancelled)
    (reply : r.Reply) : { m with program := next reply }.Away n := by
  rcases h.program with spares | arrives
  · rw [asks] at spares
    exact ⟨spares.2 reply, h.callers⟩
  · obtain ⟨_, looks, _⟩ := arrives.looks member
    cases asks.symm.trans looks
    exact absurd rfl waits

theorem observed_unwind {callers : List Caller} {token : TokenId} {error : PulseError}
    (moves : unwind w token error callers = .running w' m') : w'.observed = w.observed := by
  induction callers with
  | nil => cases moves
  | cons caller callers ih =>
      cases caller with
      | node s next => exact ih moves
      | pulse outer s next =>
          cases moves
          exact w.observed_giveUp token

/-- A move that neither arrives at the node nor forgets leaves alone what is kept for the node. -/
theorem Attends.observed_move (h : m.Attends g n) (member : g.member? n = some k)
    (keeps : ∀ resets next, m.program ≠ .ask (.act (.reset resets)) next)
    (moves : m.step g w = .running w' m') (j : Nat) :
    w'.observed.get? ⟨n, j⟩ = w.observed.get? ⟨n, j⟩ := by
  have spares (a : Action) (next) (asks : m.program = .ask (.act a) next) (t v) :
      a ≠ .observe ⟨n, j⟩ t v := by
    rintro rfl
    rcases h.program with spares | arrives
    · rw [asks] at spares
      exact spares.1 j t v rfl
    · obtain ⟨_, looks, _⟩ := arrives.looks member
      cases asks.symm.trans looks
  rw [Machine.step] at moves
  split at moves <;> try (cases moves <;> rfl)
  next finished =>
    rw [Machine.leave] at moves
    split at moves <;> cases moves
    · rfl
    · rw [World.observed_giveUp]
  next action next asks =>
    have kept (resets) : action ≠ .reset resets := by
      rintro rfl
      exact keeps resets next asks
    cases moves
    exact Action.observed_perform (spares action next asks) kept w m.pulse
  next cause next asks => rw [observed_unwind moves]

end Machine

namespace Graph

variable {g : Graph}

/-- The observations are forgotten, by a host or by a node. -/
inductive Forgets (g : Graph) : Stage → Stage → Prop where
  | host (w waiting) : Forgets g ⟨w, none, waiting⟩ ⟨w.reset g.resets, none, waiting⟩
  | node {w w' m m' waiting resets next} (asks : m.program = .ask (.act (.reset resets)) next)
      (moves : m.step g w = .running w' m') : Forgets g ⟨w, some m, waiting⟩ ⟨w', some m', waiting⟩

/-- A graph in use is watched from the start: `last` is what the last arrival of a live pulse at a node has
read, if there was one since the start and since the observations were last forgotten. Such an arrival
counts as one step, from where it begins to where the gate has decided. -/
inductive Watched (g : Graph) (n : NodeId) (k : Member) (w₀ : World) :
    (last : Option (List Reading)) → Stage → Prop where
  | new : Watched g n k w₀ none { world := w₀ }
  | forgets {last stage stage'} (watched : Watched g n k w₀ last stage) (forgets : g.Forgets stage stage') :
      Watched g n k w₀ none stage'
  | otherwise {last stage stage'} (watched : Watched g n k w₀ last stage) (turns : g.Turns stage stage')
      (keeps : ¬ g.Forgets stage stage')
      (elsewhere : ∀ m, stage.turn = some m → m.Arrives g n →
        stage.world.isCancelled m.pulse.token = true) :
      Watched g n k w₀ last stage'
  | arrives {last w m waiting readings passed w' p}
      (watched : Watched g n k w₀ last ⟨w, some m, waiting⟩) (arrives : m.Arrives g n)
      (live : w.isCancelled m.pulse.token = false)
      (observes : g.Observes m.scope 0 k.descriptor.inputs w m.pulse readings passed w' p) :
      Watched g n k w₀ (some readings) ⟨w', some (m.decided g k p passed), waiting⟩

theorem Forgets.turns {stage stage' : Stage} (h : g.Forgets stage stage') : g.Turns stage stage' := by
  cases h with
  | host w waiting => exact .host .resetState
  | node asks moves => exact .move moves

theorem Forgets.observed {stage stage' : Stage} (h : g.Forgets stage stage') :
    stage'.world.observed = ∅ := by
  cases h with
  | host w waiting => exact w.observed_reset _
  | @node w w' m m' waiting resets next asks moves =>
      rw [Machine.step, asks] at moves
      cases moves
      exact w.observed_reset resets

/-- Arriving and forgetting exclude each other. -/
theorem Forgets.elsewhere {n : NodeId} {k : Member} (member : g.member? n = some k) {stage stage' : Stage}
    (h : g.Forgets stage stage') {m : Machine} (turn : stage.turn = some m) : ¬ m.Arrives g n := by
  intro arrives
  cases h with
  | host w waiting => cases turn
  | node asks moves =>
      cases turn
      obtain ⟨_, looks, _⟩ := arrives.looks member
      cases asks.symm.trans looks

/-- Settling an arrival takes steps of the graph. -/
theorem turns_of_settles {n : NodeId} {w : World} {m : Machine} {decision : World × Machine}
    (settles : m.Settles g n w decision) (waiting : List Machine) :
    Relation.ReflTransGen g.Turns ⟨w, some m, waiting⟩ ⟨decision.1, some decision.2, waiting⟩ := by
  obtain ⟨looked, looks, aside⟩ := settles
  refine .head (.move looks) ?_
  induction aside with
  | refl => exact .refl
  | tail _ move ih => exact ih.tail (.move move.2)

/-- What is kept for the reactive inputs of a node stands for what has been noted down. -/
structure Kept (n : NodeId) (k : Member) (last : Option (List Reading)) (w : World) : Prop where
  unobserved : last = none → ∀ j, w.observed.get? ⟨n, j⟩ = none
  places : ∀ previous, last = some previous → previous.map (·.place) = k.descriptor.reactiveInputs
  stands : ∀ previous, last = some previous → ∀ r ∈ previous, r.Stands w n

variable {n : NodeId} {k : Member} {last : Option (List Reading)} {w w' : World}

theorem Kept.of_same (h : Kept n k last w)
    (same : ∀ j, w'.observed.get? ⟨n, j⟩ = w.observed.get? ⟨n, j⟩) : Kept n k last w' where
  unobserved none j := (same j).trans (h.unobserved none j)
  places := h.places
  stands previous noted r member := by
    obtain ⟨u, kept, alike⟩ := h.stands previous noted r member
    exact ⟨u, (same _).trans kept, alike⟩

theorem kept_of_forgotten (forgotten : w.observed = ∅) : Kept n k none w where
  unobserved _ j := by rw [forgotten, Table.get?_empty]
  places := nofun
  stands := nofun

/-- What holds of a graph that is watched. -/
structure Noted (g : Graph) (n : NodeId) (k : Member) (w₀ : World) (last : Option (List Reading))
    (stage : Stage) : Prop where
  reachable : Relation.ReflTransGen g.Turns { world := w₀ } stage
  attends : stage.Holds (fun _ m => m.Attends g n) (·.Away n)
  kept : Kept n k last stage.world

variable {w₀ : World} {stage stage' : Stage}

/-- Steps other than arrivals of live pulses leave every machine where it may arrive or away from the
node. -/
theorem attends_of_turns (member : g.member? n = some k)
    (attends : stage.Holds (fun _ m => m.Attends g n) (·.Away n)) (turns : g.Turns stage stage')
    (elsewhere : ∀ m, stage.turn = some m → m.Arrives g n →
      stage.world.isCancelled m.pulse.token = true) :
    stage'.Holds (fun _ m => m.Attends g n) (·.Away n) := by
  have now : stage.Holds (fun w m => m.Attends g n ∧
      (m.Arrives g n → w.isCancelled m.pulse.token = true)) (·.Away n) :=
    ⟨fun m turn => ⟨attends.turn m turn, elsewhere m turn⟩, attends.waiting⟩
  refine now.turns turns ?starts ?resumes ?moves ?sleeps ?rests
  case starts => exact fun token _ => Machine.attends_start ..
  case resumes => exact fun away => away.attends
  case moves => exact fun h moves => h.1.move member h.2 moves
  case sleeps =>
    intro w m w' milliseconds m' h sleeps
    obtain ⟨next, asks, _, rfl⟩ := Machine.step_sleeping sleeps
    exact h.1.pause member asks nofun ()
  case rests =>
    intro w m w' m' h rests
    obtain ⟨next, asks, _, rfl⟩ := Machine.step_resting rests
    exact h.1.pause member asks nofun ()

/-- Steps that do not arrive or forget leave alone what is kept for the node. -/
theorem observed_of_turns (member : g.member? n = some k)
    (attends : stage.Holds (fun _ m => m.Attends g n) (·.Away n)) (turns : g.Turns stage stage')
    (keeps : ¬ g.Forgets stage stage') (j : Nat) :
    stage'.world.observed.get? ⟨n, j⟩ = stage.world.observed.get? ⟨n, j⟩ := by
  cases turns with
  | host changes =>
      cases changes with
      | cancel token => rfl
      | shutDown => rfl
      | resetState => exact absurd (.host ..) keeps
      | otherwise same => rw [same]
  | start root token triggerable => rfl
  | resume w before m after => rfl
  | move moves =>
      exact (attends.turn _ rfl).observed_move member (fun resets next asks => keeps (.node asks moves))
        moves j
  | sleep sleeps =>
      obtain ⟨_, _, rfl, _⟩ := Machine.step_sleeping sleeps
      rfl
  | rest rests =>
      obtain ⟨_, _, rfl, _⟩ := Machine.step_resting rests
      rfl
  | finish ends =>
      obtain rfl := Machine.step_ended ends
      rfl

/-- What has been noted down of a graph that is watched is what is kept. -/
theorem Watched.noted (member : g.member? n = some k) (gated : k.descriptor.hasReactiveInput = true)
    (unobserved : w₀.observed = ∅) (h : g.Watched n k w₀ last stage) : g.Noted n k w₀ last stage := by
  -- Arrivals renew what is kept for the node, forgetting empties it, and nothing else concerns it.
  induction h with
  | new =>
      constructor
      · exact .refl
      · exact ⟨nofun, List.forall_mem_nil _⟩
      · exact kept_of_forgotten unobserved
  | forgets _ forgets ih =>
      constructor
      · exact ih.reachable.tail forgets.turns
      · exact attends_of_turns member ih.attends forgets.turns fun m turn arrives =>
          absurd arrives (forgets.elsewhere member turn)
      · exact kept_of_forgotten forgets.observed
  | otherwise _ turns keeps elsewhere ih =>
      constructor
      · exact ih.reachable.tail turns
      · exact attends_of_turns member ih.attends turns elsewhere
      · exact ih.kept.of_same (observed_of_turns member ih.attends turns keeps)
  | @arrives last w m waiting readings passed w' p _ arrives live observes ih =>
      constructor
      · have settles := arrives.settles member gated live observes
        exact ih.reachable.trans (turns_of_settles settles waiting)
      · refine ⟨?_, ih.attends.waiting⟩
        rintro _ ⟨⟩
        have decided : (m.decided g k p passed).program.Asks (Engine.Spares n) := by
          cases passed with
          | true => exact Engine.spares_admitted k
          | false => exact ⟨nofun, fun _ => trivial⟩
        exact ⟨.inl decided, (ih.attends.turn _ rfl).callers.of_root p.root⟩
      · obtain ⟨rfl, _⟩ := arrives
        constructor
        · nofun
        · rintro _ ⟨⟩
          exact observes.places
        · rintro _ ⟨⟩
          exact observes.stands

end Graph

end FlowGraph
