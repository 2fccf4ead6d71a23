import FlowGraph.Proofs.Depth
import FlowGraph.Proofs.Nesting
import FlowGraph.Proofs.Truncation
import FlowGraph.Proofs.Twins
import FlowGraph.Proofs.Typing
import FlowGraph.Session.Task

/-!
# The nodes of a pulse

Observations and stores belong to nodes, and only an activation looks at them or changes them: it does so for
its own node, and reading computes pure nodes, which have neither. So a pulse keeps to the nodes that flow
reaches from its root. Whatever changes elsewhere, it finds the same; and whatever it changes, the other
nodes find what they found before. What it logs is in its events.
-/

namespace FlowGraph

/-- Flow leads from a node to another one. -/
def Graph.Reaches (g : Graph) (root n : NodeId) : Prop :=
  ∃ length, g.Walk root length n

/-- Flow does not lead out of nodes that no connection leads out of. -/
theorem Graph.Reaches.of_closed {g : Graph} {root n : NodeId} (h : g.Reaches root n) (nodes : NodeId → Prop)
    (start : nodes root) (closed : ∀ {n k}, nodes n → g.Leads n k → nodes k) : nodes n := by
  obtain ⟨length, walk⟩ := h
  induction walk with
  | root => exact start
  | step _ leads ih => exact closed ih leads

/-- The observations and stores that an action looks at or changes belong to some of the nodes. -/
def Action.Concerns (own : NodeId → Prop) : Action → Prop
  | .observe input .. => own input.node
  | .remembered n _ | .remember n _ | .update n _ _ => own n
  | .reset _ => False
  | _ => True

theorem Action.Concerns.mono {own own' : NodeId → Prop} {a : Action} (h : a.Concerns own)
    (more : ∀ n, own n → own' n) : a.Concerns own' := by
  cases a with
  | observe | remembered | remember | update => exact more _ h
  | reset => exact h
  | _ => trivial

/-- The value that an event logs to a sink. -/
def Event.logged? (s : SinkId) : Event → Option Value
  | .did (.push s' v) _ => if s' = s then some v else none
  | _ => none

/-- The values that some events log to a sink. -/
def logged (s : SinkId) (events : List Event) : List Value :=
  events.filterMap (·.logged? s)

theorem logged_append (s : SinkId) (events later : List Event) :
    logged s (events ++ later) = logged s events ++ logged s later :=
  List.filterMap_append ..

/-- Logging is an effect. -/
theorem logged_effects (s : SinkId) (events : List Event) : logged s (effects events) = logged s events := by
  rw [logged, effects, List.filterMap_filter]
  congr 1
  funext event
  cases event with
  | entered n depth => rfl
  | did action reply => cases action <;> rfl

/-- What an action does to the sinks is what its event says. -/
theorem Action.sink_perform (a : Action) (w : World) (p : Pulse) (s : SinkId) :
    ((a.perform w p).2.1.sink s).toList =
      (w.sink s).toList ++ logged s [.did a (a.perform w p).1] := by
  have steady {w' : World} (same : w'.sink s = w.sink s) : (w'.sink s).toList = (w.sink s).toList ++ [] := by
    rw [same, List.append_nil]
  cases a with
  | push s' v =>
      by_cases same : s' = s
      · subst same
        simp [perform, World.push, World.sink, logged, Event.logged?]
      · simp [perform, World.push, World.sink, logged, Event.logged?, same, Table.get?_insert, Ne.symm same]
  | observe input t v =>
      apply steady
      simp only [perform, World.observe]
      split <;> rfl
  | reset resets => exact steady (w.reset_keeps (·.sink s) resets fun _ _ _ => rfl)
  | _ => exact steady rfl

namespace World

/-- Some nodes find the same observations and stores in both worlds. -/
structure SameAt (own : NodeId → Prop) (w v : World) : Prop where
  observed : ∀ input : Port, own input.node → w.observed.get? input = v.observed.get? input
  kept : ∀ n, own n → w.kept.get? n = v.kept.get? n

variable {own : NodeId → Prop} {w v u : World} {p q : Pulse} {a : Action}

theorem SameAt.symm (h : w.SameAt own v) : v.SameAt own w :=
  ⟨fun input here => (h.observed input here).symm, fun n here => (h.kept n here).symm⟩

theorem SameAt.trans (h : w.SameAt own v) (h' : v.SameAt own u) : w.SameAt own u :=
  ⟨fun input here => (h.observed input here).trans (h'.observed input here),
    fun n here => (h.kept n here).trans (h'.kept n here)⟩

theorem SameState.sameAt (h : w.SameState v) (own : NodeId → Prop) : w.SameAt own v :=
  ⟨fun input _ => congrArg (·.get? input) h.observed, fun n _ => congrArg (·.get? n) h.kept⟩

/-- What an action changes does not concern any other node. -/
theorem sameAt_perform (concerns : a.Concerns fun n => ¬ own n) (w : World) (p : Pulse) :
    w.SameAt own (a.perform w p).2.1 := by
  have same := (SameState.refl w).sameAt own
  cases a with
  | observe input t v =>
      simp only [Action.perform, observe]
      split
      · exact same
      · refine ⟨fun port here => ?_, fun _ _ => rfl⟩
        rw [Table.get?_insert_of_ne]
        rintro rfl
        exact concerns here
  | remember k v =>
      refine ⟨fun _ _ => rfl, fun n here => ?_⟩
      rw [Action.perform, kept_remember, Table.get?_insert_of_ne]
      rintro rfl
      exact concerns here
  | update k t f =>
      refine ⟨fun _ _ => rfl, fun n here => ?_⟩
      rw [Action.perform, kept_update, Table.get?_insert_of_ne]
      rintro rfl
      exact concerns here
  | reset resets => exact concerns.elim
  | _ => exact ⟨fun _ _ => rfl, fun _ _ => rfl⟩

/-- An action that concerns some nodes has the same reply, and the same results for these nodes, wherever they
find the same. -/
theorem SameAt.perform (h : w.SameAt own v) (concerns : a.Concerns own) {g : Graph} {flow : Prop}
    (permits : g.Permits flow p a) (twin : p.Twin q) (looks : a ≠ .isCancelled) (turns : a ≠ .isTurnFull) :
    (a.perform w p).1 = (a.perform v q).1 ∧ (a.perform w p).2.1.SameAt own (a.perform v q).2.1 := by
  obtain ⟨id, token, startedAt, rfl⟩ := twin
  cases a with
  | isCancelled => exact absurd rfl looks
  | isTurnFull => exact absurd rfl turns
  | observe input t u =>
      simp only [Action.perform, observe, h.observed input concerns]
      split
      · exact ⟨rfl, h⟩
      · refine ⟨rfl, fun port here => ?_, h.kept⟩
        simp only [Table.get?_insert]
        split
        · rfl
        · exact h.observed port here
  | remembered n t =>
      refine ⟨?_, h⟩
      simp only [Action.perform, store, h.kept n concerns]
  | remember n u =>
      refine ⟨rfl, h.observed, fun k here => ?_⟩
      simp only [Action.perform, kept_remember, Table.get?_insert]
      split
      · rfl
      · exact h.kept k here
  | update n t f =>
      have read : (w.store n t).read = (v.store n t).read := by simp only [store, h.kept n concerns]
      refine ⟨?_, h.observed, fun k here => ?_⟩
      · simp only [Action.perform, read_update, read]
      · simp only [Action.perform, kept_update, Table.get?_insert, read]
        split
        · rfl
        · exact h.kept k here
  | pulseId | cell | setCell | cancel | shutDown | reset => exact permits.elim
  | _ => exact ⟨rfl, h.observed, h.kept⟩

end World

/-- The world that a move leaves. -/
def Progress.world : Progress → World
  | .running w _ | .sleeping w _ _ | .resting w _ | .ended w _ => w

theorem Phase.world_ofProgress (progress : Progress) : (Phase.ofProgress progress).1 = progress.world := by
  cases progress <;> rfl

/-- A machine that is alone in its pulse runs for the root that it started at. -/
theorem Machine.IsSingle.outermost {callers : List Caller}
    (single : ∀ caller ∈ callers, ∃ scope next, caller = .node scope next) (root : NodeId) :
    Machine.outermost root callers = root := by
  induction callers with
  | nil => rfl
  | cons caller callers ih =>
      obtain ⟨scope, next, rfl⟩ := single caller (List.mem_cons_self ..)
      exact ih fun other member => single other (List.mem_cons_of_mem _ member)

namespace Graph

variable {g : Graph} {root : NodeId} {r : Member} {others : World → World → Prop} {w₀ w : World}
  {token : TokenId} {events : List Event} {m : Machine}

/-- A pulse under way runs no other pulse. -/
theorem UnderWay.alone (h : g.UnderWay m) (n : NodeId) (next : (EngineRequest.pulse n).Reply → Engine Unit) :
    m.program ≠ .ask (.pulse n) next :=
  fun asks => (h.fits.allowed asks).2

/-- A pulse under way changes the world only by its actions. -/
theorem UnderWay.world_step (h : g.UnderWay m) (w : World) :
    (∃ a next, m.program = .ask (.act a) next ∧ (m.step g w).world = (a.perform w m.pulse).2.1) ∨
      (m.step g w).world = w ∧ ∀ s, logged s (m.event? w).toList = [] := by
  have leaves : (m.leave w).world = w := by
    obtain ⟨p, s, program, callers⟩ := m
    cases callers with
    | nil => rfl
    | cons caller callers =>
        obtain ⟨scope, next, rfl⟩ := h.fits.single caller (List.mem_cons_self ..)
        rfl
  cases program : m.program with
  | done =>
      refine .inr ⟨?_, fun s => ?_⟩
      · simp only [Machine.step, program, leaves]
      · simp only [Machine.event?, program]
        rfl
  | ask r next =>
      cases r with
      | act a => exact .inl ⟨a, next, rfl, by simp only [Machine.step, program, Progress.world]⟩
      | pulse n => exact absurd program (h.alone n next)
      | abort cause =>
          refine .inr ⟨?_, fun s => ?_⟩
          · simp only [Machine.step, program, Machine.unwind_eq_ended h.fits.single, Progress.world]
          · simp only [Machine.event?, program]
            rfl
      | evaluate | activate | sleep | rest | restart =>
          refine .inr ⟨?_, fun s => ?_⟩
          · simp only [Machine.step, program, Progress.world]
          · simp only [Machine.event?, program]
            rfl

/-- A pulse under way cancels nothing. -/
theorem UnderWay.isCancelled_step (h : g.UnderWay m) (w : World) (t : TokenId) :
    (m.step g w).world.isCancelled t = w.isCancelled t := by
  rcases h.world_step w with ⟨a, next, asks, eq⟩ | ⟨eq, _⟩
  · rw [eq, isCancelled_perform_of_permits (h.fits.allowed asks).2]
  · rw [eq]

/-- A pulse under way does not shut down the graph. -/
theorem UnderWay.isShutDown_step (h : g.UnderWay m) (w : World) :
    (m.step g w).world.isShutDown = w.isShutDown := by
  rcases h.world_step w with ⟨a, next, asks, eq⟩ | ⟨eq, _⟩
  · rw [eq, isShutDown_perform_of_permits (h.fits.allowed asks).2]
  · rw [eq]

/-- A pulse under way keeps its token. -/
theorem UnderWay.token_step (h : g.UnderWay m) {w' : World} {m' : Machine}
    (moves : (m.step g w).next? = some (w', m')) : m'.pulse.token = m.pulse.token :=
  Machine.token_step h.fits.single h.alone moves

/-- What is left for a machine to do goes on in the same way whether turns are full or not. -/
theorem patient_of_run
    (run : Machine.Run g others (Machine.start g w₀ root token).1 (Machine.start g w₀ root token).2
      events w m) : m.Framed fun _ _ program => Engine.Patient program := by
  have start : Machine.Framed (fun _ _ program => Engine.Patient program)
      (Machine.start g w₀ root token).2 := ⟨Engine.patient_activation, trivial⟩
  refine start.run (fun patient reply => patient.2 reply) (fun _ enters => ?_) run
  cases enters with
  | evaluate n depth => exact Engine.patient_evaluation
  | activate n depth => exact Engine.patient_activation
  | restart => exact Engine.patient_process
  | pulse n => exact Engine.patient_activation

/-- The programs of pure nodes only read, wherever they are left. -/
theorem quiet_of_run (catalogue : g.FromCatalogue) (triggerable : g.root root = .ok r)
    (run : Machine.Run g others (Machine.start g w₀ root token).1 (Machine.start g w₀ root token).2
      events w m) :
    m.Framed fun _ s program => g.isPure s.node = true → program.Asks (Engine.Quiet g) := by
  induction run with
  | refl =>
      refine ⟨fun pure => ?_, trivial⟩
      exact absurd ((Engine.isPure_of_root triggerable).symm.trans pure) nofun
  | others _ _ ih => exact ih
  | @move events w w' m m' before moves ih =>
      have goesOn {s : Scope} {r : EngineRequest} {next : r.Reply → Engine Unit}
          (quiet : g.isPure s.node = true → (Program.ask r next).Asks (Engine.Quiet g)) (reply : r.Reply) :
          g.isPure s.node = true → (next reply).Asks (Engine.Quiet g) :=
        fun pure => (quiet pure).2 reply
      obtain ⟨callers, program | ⟨r, next, asks, enters⟩⟩ := ih.step (fun quiet => goesOn quiet) moves
      · exact ⟨program, callers⟩
      · refine ⟨fun pure => ?_, callers⟩
        obtain ⟨lookup, nested⟩ := Machine.nested_of_run catalogue.built before
        have underWay := underWay_of_run catalogue triggerable before
        have looks := nested.looks
        have quiet := ih.program
        rw [asks] at looks quiet
        clear ih callers goesOn moves before nested
        generalize m'.pulse.root = root', m'.scope = s', m'.program = program at enters pure ⊢
        generalize m.pulse.root = root'' at enters
        cases enters with
        | evaluate n depth => exact Engine.quiet_evaluation catalogue pure
        | activate n depth => exact absurd (looks.2.1.2.symm.trans pure) nofun
        | restart => exact (quiet pure).1.elim
        | pulse n => exact absurd (underWay.fits.allowed asks).2 id

/-- The observations and stores that a pulse looks at or changes belong to nodes that flow reaches from its
root. -/
theorem concerns_of_run (catalogue : g.FromCatalogue) (triggerable : g.root root = .ok r)
    (run : Machine.Run g others (Machine.start g w₀ root token).1 (Machine.start g w₀ root token).2
      events w m) {a : Action} {next : a.Reply → Engine Unit} (asks : m.program = .ask (.act a) next) :
    a.Concerns (g.Reaches root) := by
  have underWay := underWay_of_run catalogue triggerable run
  have reached := (reached_of_run run).program
  have quiet := (quiet_of_run catalogue triggerable run).program
  obtain ⟨lookup, nested⟩ := Machine.nested_of_run catalogue.built run
  have looks := nested.looks
  have permits := (underWay.fits.allowed asks).2
  have sameRoot : m.pulse.root = root :=
    (Machine.IsSingle.outermost underWay.fits.single _).symm.trans (outermost_of_run run)
  rw [asks] at looks quiet
  rw [sameRoot] at reached
  have own (loud : ¬ Engine.Quiet g (.act a)) : g.Reaches root m.scope.node := by
    refine ⟨_, reached.walk ?_⟩
    cases pure : g.isPure m.scope.node with
    | false => rfl
    | true => exact absurd (quiet pure).1 loud
  cases a with
  | observe input t v =>
      obtain ⟨_, (here : input.node = m.scope.node), _⟩ := looks
      change g.Reaches root input.node
      exact here ▸ own id
  | remembered n t =>
      obtain ⟨_, (here : n = m.scope.node), _⟩ := looks
      exact here ▸ own id
  | remember n v =>
      obtain ⟨_, (here : n = m.scope.node), _⟩ := looks
      exact here ▸ own id
  | update n t f =>
      obtain ⟨_, (here : n = m.scope.node), _⟩ := looks
      exact here ▸ own id
  | reset resets => exact permits.elim
  | _ => trivial

end Graph

end FlowGraph
