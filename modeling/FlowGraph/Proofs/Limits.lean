import FlowGraph.Proofs.Depth
import FlowGraph.Proofs.Truncation

/-!
# Raising the depth limit

The depth limit is looked at in one place, before flow goes on, and all that can come of it is that the
pulse is aborted. So the same pulse does the same under a higher limit, move by move, until the lower
limit aborts it; and no node can tell the difference, since an abort is not handed to anybody within the
pulse.
-/

namespace FlowGraph

/-- The same graph with another configuration. -/
def Graph.withConfig (g : Graph) (config : Config) : Graph :=
  { g with config }

/-- The same graph with another depth limit. -/
def Graph.withDepth (g : Graph) (limit : Nat) : Graph :=
  { g with config := { g.config with maxFlowDepth := limit } }

namespace Engine

variable {α β : Type} {g : Graph} {s : Scope} {limit : Nat}

/-- Two programs are the same until the first one finds that flow is too deep. -/
inductive UpTo : Engine α → Engine α → Prop where
  | done (a) : UpTo (.done a) (.done a)
  | ask (r) {next next'} (later : ∀ reply, UpTo (next reply) (next' reply)) :
      UpTo (.ask r next) (.ask r next')
  | tooDeep (name limit next q) : UpTo (.ask (.abort (.flowDepthExceeded name limit)) next) q

theorem UpTo.refl (p : Engine α) : UpTo p p := by
  induction p with
  | done a => exact .done a
  | ask r next ih => exact .ask r ih

theorem UpTo.andThen {p q : Engine α} (h : UpTo p q) {f f' : α → Engine β}
    (later : ∀ a, UpTo (f a) (f' a)) : UpTo (p.andThen f) (q.andThen f') := by
  induction h with
  | done a => exact later a
  | ask r _ ih => exact .ask r ih
  | tooDeep name limit next q => exact .tooDeep ..

theorem UpTo.interpret {answer answer' : (r : NodeRequest) → Engine r.Reply}
    (answers : ∀ r, UpTo (answer r) (answer' r)) (p : NodeProgram α) :
    UpTo (p.interpret answer) (p.interpret answer') := by
  induction p with
  | done a => exact .done a
  | ask r next ih => exact (answers r).andThen ih

end Engine

/-! ### What does not depend on the configuration -/

section

variable {g : Graph} {s : Scope} {config : Config}

theorem Engine.resolveAll_withConfig (depth : Nat) (outputs : List Port) :
    resolveAll (g.withConfig config) depth outputs = resolveAll g depth outputs := by
  induction outputs with
  | nil => rfl
  | cons output outputs ih =>
      rw [resolveAll, resolveAll, ih]
      rfl

theorem Engine.observeFrom_withConfig (index : Nat) (inputs : List Input) :
    observeFrom (g.withConfig config) s index inputs = observeFrom g s index inputs := by
  induction inputs generalizing index with
  | nil => rfl
  | cons i rest ih =>
      rw [observeFrom, observeFrom, ih]
      rfl

theorem Graph.walk_withConfig (reached : List NodeId) (todo : List Port) :
    (g.withConfig config).walk reached todo = g.walk reached todo := by
  fun_induction walk g reached todo with
  | case1 reached => rw [walk]
  | case2 reached output todo none ih =>
      rw [walk]
      exact (if_pos none).trans ih
  | case3 reached output todo some ih =>
      rw [walk]
      exact (if_neg some).trans ih

theorem Graph.dependents_withConfig (output : Port) :
    (g.withConfig config).dependents output = g.dependents output := by
  rw [dependents, dependents, walk_withConfig]
  rfl

end

namespace Engine

variable {α : Type} {g : Graph} {s : Scope} {limit : Nat}

section

variable (deeper : g.config.maxFlowDepth ≤ limit)

include deeper

/-- Where flow may go on under the lower limit, it may under the higher one. -/
theorem upTo_fire (index : Nat) : UpTo (fire g s index) (fire (g.withDepth limit) s index) := by
  apply (UpTo.refl (member g s.node)).andThen
  intro m
  cases m.descriptor.flows[index]? with
  | none => exact .refl _
  | some f =>
      apply (UpTo.refl isCancelled).andThen
      intro cancelled
      cases cancelled with
      | true => exact .refl _
      | false =>
          simp only [Bool.false_eq_true, if_false]
          split
          next => exact .tooDeep ..
          next within =>
            have within' : ¬ (g.withDepth limit).config.maxFlowDepth < s.depth + 1 :=
              fun tooDeep => within (Nat.lt_of_le_of_lt deeper tooDeep)
            rw [if_neg within']
            exact .refl _

theorem upTo_answer (r : NodeRequest) : UpTo (answer g s r) (answer (g.withDepth limit) s r) := by
  cases r with
  | fire flow => exact upTo_fire deeper flow
  | publish index v =>
      have dependents (output : Port) : (g.withDepth limit).dependents output = g.dependents output :=
        Graph.dependents_withConfig output
      rw [answer, answer, publish, publish, dependents]
      exact .refl _
  | inputs index t =>
      have values (depth : Nat) (outputs : List Port) :
          resolveAll (g.withDepth limit) depth outputs = resolveAll g depth outputs :=
        resolveAll_withConfig depth outputs
      simp only [answer, inputValues, values]
      exact .refl _
  | _ => exact .refl _

theorem upTo_run (p : NodeProgram α) : UpTo (run g s p) (run (g.withDepth limit) s p) :=
  .interpret (upTo_answer deeper) p

theorem upTo_process : UpTo (process g s) (process (g.withDepth limit) s) :=
  (UpTo.refl (member g s.node)).andThen fun m => upTo_run deeper m.node.process

theorem upTo_evaluation : UpTo (evaluation g s) (evaluation (g.withDepth limit) s) := by
  refine (UpTo.refl (member g s.node)).andThen fun m => (upTo_run deeper m.node.guard).andThen ?_
  intro passed
  split
  · exact upTo_run deeper m.node.process
  · exact .refl _

theorem upTo_admitted (m : Member) : UpTo (admitted g s m) (admitted (g.withDepth limit) s m) := by
  apply (upTo_run deeper m.node.guard).andThen
  intro passed
  split
  · exact .ask _ fun _ => upTo_run deeper m.node.process
  · exact .refl _

theorem upTo_activation : UpTo (activation g s) (activation (g.withDepth limit) s) := by
  apply (UpTo.refl (member g s.node)).andThen
  intro m
  apply (UpTo.refl isCancelled).andThen
  intro cancelled
  have observes : observeFrom (g.withDepth limit) s 0 m.descriptor.inputs =
      observeFrom g s 0 m.descriptor.inputs := observeFrom_withConfig 0 _
  rw [observes]
  split
  · exact .refl _
  · split
    · apply (UpTo.refl (observeFrom g s 0 m.descriptor.inputs)).andThen
      intro changed
      split
      · exact upTo_admitted deeper m
      · exact .refl _
    · exact upTo_admitted deeper m

end

end Engine

/-! ## Moving together -/

namespace Machine

/-- Callers that go on in the same way until the first one finds that flow is too deep. -/
inductive CallersUpTo : List Caller → List Caller → Prop where
  | nil : CallersUpTo [] []
  | node (scope) {next next' : Unit → Engine Unit} {callers callers'}
      (later : (next ()).UpTo (next' ())) (rest : CallersUpTo callers callers') :
      CallersUpTo (.node scope next :: callers) (.node scope next' :: callers')

/-- Two machines do the same until the first one finds that flow is too deep. -/
structure UpTo (m n : Machine) : Prop where
  pulse : m.pulse = n.pulse
  scope : m.scope = n.scope
  program : m.program.UpTo n.program
  callers : CallersUpTo m.callers n.callers

/-- What the moves of two such machines lead to. -/
inductive ProgressUpTo : Progress → Progress → Prop where
  | running (w) {m n} (upTo : UpTo m n) : ProgressUpTo (.running w m) (.running w n)
  | sleeping (w milliseconds) {m n} (upTo : UpTo m n) :
      ProgressUpTo (.sleeping w milliseconds m) (.sleeping w milliseconds n)
  | resting (w) {m n} (upTo : UpTo m n) : ProgressUpTo (.resting w m) (.resting w n)
  | ended (w result) : ProgressUpTo (.ended w result) (.ended w result)

variable {g : Graph} {w w' : World} {m m' n : Machine} {limit : Nat}

theorem unwind_of_callersUpTo {callers callers' : List Caller} (h : CallersUpTo callers callers')
    (w : World) (token : TokenId) (error : PulseError) :
    unwind w token error callers = .ended w (.error error) ∧
      unwind w token error callers' = .ended w (.error error) := by
  induction h with
  | nil => exact ⟨rfl, rfl⟩
  | node scope later rest ih => exact ih

theorem UpTo.leave (h : m.UpTo n) (w : World) : ProgressUpTo (m.leave w) (n.leave w) := by
  obtain ⟨pulse, scope, program, callers⟩ := m
  obtain ⟨pulse', scope', program', callers'⟩ := n
  obtain ⟨rfl, rfl, _, waiting⟩ := h
  cases waiting with
  | nil => exact .ended ..
  | node scope later rest => exact .running w ⟨rfl, rfl, later, rest⟩

/-- One move of two such machines, unless the first one finds that flow is too deep. -/
theorem UpTo.step (h : m.UpTo n) (deeper : g.config.maxFlowDepth ≤ limit)
    (alone : ∀ root next, m.program ≠ .ask (.pulse root) next)
    (goesOn : ∀ name limit next, m.program ≠ .ask (.abort (.flowDepthExceeded name limit)) next) :
    m.event? w = n.event? w ∧ ProgressUpTo (m.step g w) (n.step (g.withDepth limit) w) := by
  have left := h.leave w
  obtain ⟨pulse, scope, program, callers⟩ := m
  obtain ⟨pulse', scope', program', callers'⟩ := n
  obtain ⟨rfl, rfl, same, waiting⟩ := h
  cases same with
  | done => exact ⟨rfl, left⟩
  | tooDeep name limit next => exact absurd rfl (goesOn name limit next)
  | ask r later =>
      refine ⟨by cases r <;> rfl, ?_⟩
      cases r with
      | act action => exact .running _ ⟨rfl, rfl, later _, waiting⟩
      | evaluate k depth =>
          exact .running _ ⟨rfl, rfl, Engine.upTo_evaluation deeper, .node _ (later ()) waiting⟩
      | activate k depth =>
          exact .running _ ⟨rfl, rfl, Engine.upTo_activation deeper, .node _ (later ()) waiting⟩
      | sleep milliseconds => exact .sleeping _ _ ⟨rfl, rfl, later (), waiting⟩
      | rest => exact .resting _ ⟨rfl, rfl, later (), waiting⟩
      | restart => exact .running _ ⟨rfl, rfl, Engine.upTo_process deeper, waiting⟩
      | abort cause =>
          obtain ⟨first, second⟩ := unwind_of_callersUpTo waiting w pulse.token (.aborted pulse.id cause)
          change ProgressUpTo (unwind w pulse.token (.aborted pulse.id cause) callers)
            (unwind w pulse.token (.aborted pulse.id cause) callers')
          rw [first, second]
          exact .ended ..
      | pulse root => exact absurd rfl (alone root _)

/-- An abort ends such a machine. -/
theorem UpTo.step_of_abort (h : m.UpTo n) {cause : NodeError} {next : Empty → Engine Unit}
    (asks : m.program = .ask (.abort cause) next) :
    m.step g w = .ended w (.error (.aborted m.pulse.id cause)) := by
  rw [Machine.step, asks]
  exact (unwind_of_callersUpTo h.callers _ _ _).1

/-- If the first machine ends well, so does the second one. -/
theorem UpTo.step_of_ok (h : m.UpTo n) (deeper : g.config.maxFlowDepth ≤ limit)
    (alone : ∀ root next, m.program ≠ .ask (.pulse root) next) {report : Report}
    (ends : m.step g w = .ended w' (.ok report)) :
    n.step (g.withDepth limit) w = .ended w' (.ok report) := by
  have goesOn (name limit next) :
      m.program ≠ .ask (.abort (.flowDepthExceeded name limit)) next := by
    intro asks
    cases (h.step_of_abort asks).symm.trans ends
  obtain ⟨_, progress⟩ := h.step (w := w) deeper alone goesOn
  rw [ends] at progress
  generalize n.step (g.withDepth limit) w = last at progress ⊢
  cases progress with
  | ended => rfl

theorem ProgressUpTo.resumed? {p q : Progress} (h : ProgressUpTo p q)
    (goesOn : p.resumed? = some (w', m')) : ∃ n', q.resumed? = some (w', n') ∧ m'.UpTo n' := by
  cases h with
  | running w upTo | sleeping w milliseconds upTo | resting w upTo =>
      cases goesOn
      exact ⟨_, rfl, upTo⟩
  | ended w result => cases goesOn

/-- A machine that is alone comes to its end, with these events, in this world, and with this result. -/
def Concludes (g : Graph) (w : World) (m : Machine) (events : List Event) (w' : World)
    (result : Except PulseError Report) : Prop :=
  ∃ moves, (alone g w m moves).events = events ∧
    (alone g w m moves).machine.step g (alone g w m moves).world = .ended w' result

/-- The moves that a machine makes later add to its events. -/
theorem events_alone_prefix (g : Graph) (w : World) (m : Machine) {moves later : Nat}
    (after : moves ≤ later) : (alone g w m moves).events <+: (alone g w m later).events := by
  induction later, after using Nat.le_induction with
  | base => exact List.prefix_rfl
  | succ later after ih =>
      refine ih.trans ?_
      rw [alone]
      split
      · exact List.prefix_rfl
      · exact List.prefix_append ..

/-- What two such machines have done when the first one has moved some number of times. -/
theorem UpTo.alone (h : m.UpTo n) (deeper : g.config.maxFlowDepth ≤ limit)
    (single : ∀ moves root next, (alone g w m moves).machine.program ≠ .ask (.pulse root) next)
    (moves : Nat) :
    ∃ k, (Machine.alone (g.withDepth limit) w n k).events = (Machine.alone g w m moves).events ∧
      (Machine.alone (g.withDepth limit) w n k).world = (Machine.alone g w m moves).world ∧
      (Machine.alone g w m moves).machine.UpTo (Machine.alone (g.withDepth limit) w n k).machine := by
  -- For each move of the first machine the second one makes one, and none when the first has ended.
  induction moves with
  | zero => exact ⟨0, rfl, rfl, h⟩
  | succ moves ih =>
      obtain ⟨k, events, world, upTo⟩ := ih
      cases resumed : ((Machine.alone g w m moves).machine.step g
          (Machine.alone g w m moves).world).resumed? with
      | none =>
          rw [Machine.alone, resumed]
          exact ⟨k, events, world, upTo⟩
      | some next =>
          obtain ⟨w', m'⟩ := next
          have within (name limit next) : (Machine.alone g w m moves).machine.program ≠
              .ask (.abort (.flowDepthExceeded name limit)) next := by
            intro asks
            rw [upTo.step_of_abort asks] at resumed
            cases resumed
          obtain ⟨event, progress⟩ := upTo.step (w := (Machine.alone g w m moves).world) deeper
            (single moves) within
          obtain ⟨n', resumed', upTo'⟩ := progress.resumed? resumed
          rw [← world] at resumed' event
          refine ⟨k + 1, ?_⟩
          rw [Graph.alone_succ moves resumed, Graph.alone_succ k resumed', events, ← world, event]
          exact ⟨rfl, rfl, upTo'⟩

end Machine

namespace Graph

variable {g : Graph} {root : NodeId} {r : Member} {limit : Nat}

/-- No pulse of a graph from the catalogue runs another one. -/
theorem alone_runs_no_pulse (catalogue : g.FromCatalogue) (triggerable : g.root root = .ok r) (w : World)
    (token : TokenId) (moves : Nat) (n : NodeId) (next) :
    (Machine.alone g (Machine.start g w root token).1 (Machine.start g w root token).2
      moves).machine.program ≠ .ask (.pulse n) next := by
  intro asks
  have run : Machine.Run g (fun _ _ => True) _ _ _ _ _ := Machine.run_alone g (fun _ _ => trivial)
    (Machine.start g w root token).1 (Machine.start g w root token).2 moves
  obtain ⟨_, fits, _⟩ := (fits_conduct catalogue triggerable w token).run (verified_conduct catalogue)
    (follows_conduct catalogue) (fun _ seen => seen) ⟨rfl, fresh_start w root token⟩ run
  exact (fits.allowed asks).2

/-- Building takes the limit as it is told: the connections do not depend on it. -/
theorem build_withDepth {name : String} {config : Config} {calls : List Blueprint.Call}
    (built : (({ name, config } : Blueprint).callAll calls).build = .ok g) (limit : Nat) :
    (({ name, config := { config with maxFlowDepth := limit } } : Blueprint).callAll calls).build =
      .ok (g.withDepth limit) := by
  obtain ⟨values, flows, valid, rfl⟩ := Blueprint.valid_of_build built
  exact Blueprint.build_of_valid valid

/-- What a pulse that is alone does in a graph, compared with what it does in another one. -/
structure DoesAtMost (g g' : Graph) (w : World) (root : NodeId) (token : TokenId) : Prop where
  /-- If it ends with a report, it does in the other graph as well, with the same events before, with
  the same report, and in the same world. -/
  reports : ∀ {events w' report},
    Machine.Concludes g (Machine.start g w root token).1 (Machine.start g w root token).2 events w'
      (.ok report) →
    Machine.Concludes g' (Machine.start g' w root token).1 (Machine.start g' w root token).2 events w'
      (.ok report)
  /-- If its flow becomes too deep, what it has done by then is how it begins in the other graph. -/
  begins : ∀ {events w' id name limit},
    Machine.Concludes g (Machine.start g w root token).1 (Machine.start g w root token).2 events w'
      (.error (.aborted id (.flowDepthExceeded name limit))) →
    ∃ moves, ∀ later ≥ moves, events <+:
      (Machine.alone g' (Machine.start g' w root token).1 (Machine.start g' w root token).2 later).events
  /-- It works within the limit. -/
  within : ∀ moves, (Machine.alone g (Machine.start g w root token).1
    (Machine.start g w root token).2 moves).machine.scope.depth ≤ g.config.maxFlowDepth

/-- Raising the limit takes nothing away from what a pulse does, and changes nothing about a pulse that
ends with a report. -/
theorem doesAtMost_withDepth (catalogue : g.FromCatalogue) (triggerable : g.root root = .ok r)
    (deeper : g.config.maxFlowDepth ≤ limit) (w : World) (token : TokenId) :
    g.DoesAtMost (g.withDepth limit) w root token := by
  have single := alone_runs_no_pulse catalogue triggerable w token
  have upTo : (Machine.start g w root token).2.UpTo (Machine.start (g.withDepth limit) w root token).2 :=
    ⟨rfl, rfl, Engine.upTo_activation deeper, .nil⟩
  constructor
  case reports =>
    rintro _ w' report ⟨moves, rfl, ends⟩
    obtain ⟨k, events, world, upTo⟩ := upTo.alone deeper single moves
    exact ⟨k, events, world ▸ upTo.step_of_ok deeper (single moves) ends⟩
  case begins =>
    rintro _ w' id name limit' ⟨moves, rfl, ends⟩
    obtain ⟨k, events, _⟩ := upTo.alone deeper single moves
    refine ⟨k, fun later after => ?_⟩
    rw [← events]
    exact Machine.events_alone_prefix _ _ _ after
  case within =>
    intro moves
    have run : Machine.Run g (fun _ _ => True) _ _ _ _ _ := Machine.run_alone g (fun _ _ => trivial)
      (Machine.start g w root token).1 (Machine.start g w root token).2 moves
    exact (reached_of_run run).program.depth

/-- The log that its limit stops goes on under a higher one. -/
theorem doesAtMost_withDepth_log :
    ∃ r events w', logAtLimit.root ⟨0⟩ = .ok r ∧ logAtLimit.config.maxFlowDepth ≤ 2 ∧
      Machine.Concludes logAtLimit (Machine.start logAtLimit {} ⟨0⟩ ⟨0⟩).1
        (Machine.start logAtLimit {} ⟨0⟩ ⟨0⟩).2 events w'
        (.error (.aborted ⟨1⟩ (.flowDepthExceeded "log" 1))) ∧
      logAtLimit.DoesAtMost (logAtLimit.withDepth 2) {} ⟨0⟩ ⟨0⟩ := by
  have triggerable : logAtLimit.root ⟨0⟩ = .ok ⟨"entry", CatalogueNode.onTrigger.node⟩ := rfl
  exact ⟨_, _, _, triggerable, by decide, ⟨9, rfl, rfl⟩,
    doesAtMost_withDepth logAtLimit_fromCatalogue triggerable (by decide) {} ⟨0⟩⟩

end Graph

end FlowGraph
