import FlowGraph.Proofs.Updating

/-!
# Updating again

An update starts a pulse at each update node, one after the other. When all of them have ended with reports,
every update node is up to date, whatever the pulses have done and whoever else has moved in between. So the
pulses of the next update are not let through: each of them is over within the host's turn, and nothing has
changed that another pulse could find.
-/

namespace FlowGraph

/-- A pulse that has not been let through at its root. -/
structure Report.Suppressed (report : Report) : Prop where
  activations : report.activations = []
  activationCount : report.activationCount = 0
  suppressed : report.suppressed = 1

theorem World.Notes.trans {w w' w'' : World} (h : w.Notes w') (h' : w'.Notes w'') : w.Notes w'' :=
  ⟨h.state.trans h'.state, h'.isShutDown.trans h.isShutDown⟩

/-- One move within a turn. -/
def Machine.Moves (g : Graph) (before after : World × Machine) : Prop :=
  before.2.step g before.1 = .running after.1 after.2

/-- Update nodes come in the order of their ids. -/
theorem Graph.updateNodes_sorted (g : Graph) : g.updateNodes.Pairwise (·.index < ·.index) := by
  refine List.Pairwise.filter _ (List.pairwise_map.mpr ?_)
  exact List.pairwise_lt_range

/-- A live pulse that starts at an update node that is up to date is not let through, and is over within its
turn. -/
theorem Graph.ends_of_upToDate {g : Graph} (catalogue : g.FromCatalogue) {n : NodeId} {w : World}
    {token : TokenId} (update : n ∈ g.updateNodes) (live : w.isCancelled token = false)
    (upToDate : g.UpToDate n w) :
    ∃ m report, Relation.ReflTransGen (Machine.Moves g) (Machine.start g w n token)
        ((Machine.start g w n token).1, m) ∧
      m.step g (Machine.start g w n token).1 = .ended (Machine.start g w n token).1 (.ok report) ∧
      report.root = n ∧ report.Suppressed := by
  obtain ⟨k, member, isUpdate⟩ := mem_updateNodes.mp update
  have gated : k.descriptor.hasReactiveInput = true := by
    simp only [Descriptor.isUpdate, Bool.and_eq_true] at isUpdate
    exact isUpdate.2
  have arrives : (Machine.start g w n token).2.Arrives g n := ⟨rfl, rfl⟩
  obtain ⟨readings, passed, w', p, observes, perceives⟩ := observes_of_fresh catalogue
    (s := ⟨n, 0⟩) member gated List.drop_zero (Machine.start g w n token).1
    (fresh_start w n token)
  -- What is read is what is kept counts as unchanged from.
  obtain rfl : passed = false := by
    rw [Bool.eq_false_iff, ne_eq, observes.changed_iff]
    rintro ⟨r, read, new⟩
    obtain ⟨i, takes, reactive, typed, worth⟩ := perceives.worth r read
    obtain ⟨u, kept, unchanged⟩ := upToDate r.index i r.value takes reactive worth
    have kept : (Machine.start g w n token).1.observed.get? ⟨n, r.index⟩ = some u := kept
    simp [Reading.isNew, kept, typed, unchanged] at new
  obtain rfl := perceives.unchanged rfl
  have start : (Machine.start g w n token).1.isCancelled (Machine.start g w n token).2.pulse.token = false :=
    live
  obtain ⟨looked, looks, aside⟩ := arrives.settles member gated start observes
  have first : Machine.Moves g (Machine.start g w n token) ((Machine.start g w n token).1, looked) := looks
  have last : Machine.Moves g
      ((Machine.start g w n token).1, (Machine.start g w n token).2.decided g k p false)
      ((Machine.start g w n token).1, { (Machine.start g w n token).2 with
        pulse := { p with suppressed := p.suppressed + 1 }, program := .done () }) := rfl
  have decided := Relation.ReflTransGen.head first (aside.lift id fun _ _ moves => moves.2)
  obtain ⟨memo, evaluations, memoHits, rfl⟩ := perceives.read
  exact ⟨_, _, decided.tail last, rfl, rfl, rfl, rfl, rfl⟩

namespace Session

variable {g : Graph} {s s₁ : Session} {w w' : World} {m m' : Machine} {n : NodeId} {nodes roots : List NodeId}
  {others : List Machine}

/-! ## The first update -/

section

variable (catalogue : g.FromCatalogue)

include catalogue

/-- A live pulse that the host starts at an update node leaves the node up to date, however the pulse ends. -/
theorem Idle.triggerWith_upToDate (updates : ∀ k ∈ n :: nodes, k ∈ g.updateNodes)
    (numbers : ∀ k ∈ n :: nodes, ¬ g.ReadsNaN k) (h : s.Idle g (g.Calm nodes false) none others)
    {token : TokenId} (live : s.world.isCancelled token = false) (budget : Nat) :
    (s.triggerWith budget n token).Ensures fun (s, _) =>
      s.Idle g (g.Calm (n :: nodes) false) none others := by
  obtain ⟨update, _⟩ := List.forall_mem_cons.mp updates
  obtain ⟨number, numbers'⟩ := List.forall_mem_cons.mp numbers
  obtain ⟨r, triggerable⟩ := Graph.root_of_update update
  obtain rfl := h.graph
  obtain ⟨_, passes⟩ := Graph.passes_start catalogue n token numbers' (h.holds.upToDate rfl)
  have begun : { s with world := (Machine.start s.graph s.world n token).1 }.Idle s.graph
      (s.graph.Calm (n :: nodes) false) (some (Machine.start s.graph s.world n token).2) others := by
    refine ⟨rfl, Graph.calm_lasts catalogue updates numbers, h.idle, h.holds.isShutDown, ?_, nofun,
      h.holds.waiting⟩
    rintro _ ⟨⟩
    exact ⟨Graph.proper_start catalogue triggerable s.world token, passes update live number⟩
  rw [Session.triggerWith, triggerable]
  exact (begun.runInTurn budget).andThen fun _ h => h.giveUp token

theorem Idle.trigger_upToDate (updates : ∀ k ∈ n :: nodes, k ∈ g.updateNodes)
    (numbers : ∀ k ∈ n :: nodes, ¬ g.ReadsNaN k) (h : s.Idle g (g.Calm nodes false) none others)
    (budget : Nat) :
    (s.trigger budget n).Ensures fun (s, _) => s.Idle g (g.Calm (n :: nodes) false) none others := by
  have live : (s.addToken {}).1.world.isCancelled (s.addToken {}).2 = false := by
    have awake : s.world.isShutDown = false := h.holds.isShutDown
    simp [Session.addToken, World.addToken, World.isCancelled, awake]
  exact (h.addToken {}).triggerWith_upToDate catalogue updates numbers live budget

/-- When pulses from some update nodes have ended with reports, all these nodes are up to date. -/
theorem Idle.triggerAll_upToDate (updates : ∀ k ∈ roots ++ nodes, k ∈ g.updateNodes)
    (numbers : ∀ k ∈ roots ++ nodes, ¬ g.ReadsNaN k) (h : s.Idle g (g.Calm nodes false) none others)
    (budget : Nat) :
    (s.triggerAll budget roots).Ensures fun (s, result) => ∀ reports, result = .ok reports →
      ∃ nodes', (∀ k ∈ roots ++ nodes, k ∈ nodes') ∧ s.Idle g (g.Calm nodes' false) none others := by
  induction roots generalizing s nodes with
  | nil => exact fun _ _ => ⟨nodes, fun _ member => member, h⟩
  | cons n rest ih =>
      have first {Q : NodeId → Prop} (all : ∀ k ∈ (n :: rest) ++ nodes, Q k) : ∀ k ∈ n :: nodes, Q k :=
        fun k member => all k (by grind)
      have later {Q : NodeId → Prop} (all : ∀ k ∈ (n :: rest) ++ nodes, Q k) :
          ∀ k ∈ rest ++ n :: nodes, Q k :=
        fun k member => all k (by grind)
      apply (h.trigger_upToDate catalogue (first updates) (first numbers) budget).andThen
      intro (s, result) h
      cases result with
      | error e => exact nofun
      | ok report =>
          refine (ih (later updates) (later numbers) h).andThen fun (s, result) told reports ended => ?_
          cases result with
          | error e => cases ended
          | ok reports =>
              obtain ⟨nodes', all, calm⟩ := told reports rfl
              exact ⟨nodes', fun k member => all k (by grind), calm⟩

/-! ## The second update -/

/-- Moves within the host's turn take place at once. -/
theorem runInTurn_of_moves (underWay : g.UnderWay m)
    (path : Relation.ReflTransGen (Machine.Moves g) (w, m) (w', m')) :
    ∃ moves, ∀ budget s, s.graph = g → s.world = w →
      runInTurn (budget + moves) s m = runInTurn budget { s with world := w' } m' := by
  generalize before : (w, m) = start at path
  induction path using Relation.ReflTransGen.head_induction_on generalizing w m with
  | refl =>
      cases before
      exact ⟨0, fun budget s _ here => by rw [← here, Nat.add_zero]⟩
  | @head _ after moves _ ih =>
      obtain rfl := before
      obtain ⟨w₁, m₁⟩ := after
      have moves : m.step g w = .running w₁ m₁ := moves
      have awake : w₁.isShutDown = w.isShutDown := by
        have same := underWay.isShutDown_step w
        rwa [moves] at same
      obtain ⟨count, goesOn⟩ := ih (underWay.next catalogue (by rw [moves]; rfl)) rfl
      refine ⟨count + 1, fun budget s graph here => ?_⟩
      subst graph here
      have unheeded : ({ s with world := w₁ }.heedShutDown s.world) = { s with world := w₁ } := by
        simp [Session.heedShutDown, awake]
      rw [← Nat.add_assoc, runInTurn, moves]
      dsimp only
      rw [unheeded, goesOn budget { s with world := w₁ } rfl rfl]

/-- A pulse that the host starts at an update node that is up to date is not let through. -/
theorem trigger_suppressed (graph : s.graph = g) (update : n ∈ g.updateNodes)
    (awake : s.world.isShutDown = false) (upToDate : g.UpToDate n s.world) :
    ∃ enough w' report, (∀ budget, enough ≤ budget →
        s.trigger budget n = .answer ({ s with world := w' }, .ok report)) ∧
      s.world.Notes w' ∧ report.root = n ∧ report.Suppressed := by
  subst graph
  obtain ⟨r, triggerable⟩ := Graph.root_of_update update
  generalize added : s.addToken {} = told
  obtain ⟨s', token⟩ := told
  obtain ⟨w, rfl, world, live⟩ : ∃ w, s' = { s with world := w } ∧ s.world.Notes w ∧
      w.isCancelled token = false := by
    cases added
    refine ⟨_, rfl, ⟨⟨rfl, rfl, rfl⟩, rfl⟩, ?_⟩
    simp [World.isCancelled, awake]
  obtain ⟨m, report, path, ends, root, suppressed⟩ := Graph.ends_of_upToDate catalogue update live
    (upToDate.of_same fun j => by rw [world.state.observed])
  obtain ⟨moves, runs⟩ := runInTurn_of_moves catalogue
    (Graph.underWay_start catalogue triggerable w token) path
  refine ⟨moves + 1, (Machine.start s.graph w n token).1.giveUp token, report, fun budget enough => ?_, ?_,
    root, suppressed⟩
  · obtain ⟨budget, rfl⟩ := Nat.exists_eq_add_of_le' enough
    rw [Session.trigger, added]
    dsimp only
    rw [Session.triggerWith, triggerable]
    dsimp only
    rw [← Nat.add_assoc, Nat.add_right_comm, 
      runs (budget + 1) { s with world := (Machine.start s.graph w n token).1 } rfl rfl, runInTurn, ends]
    rfl
  · have begun : w.Notes (Machine.start s.graph w n token).1 := ⟨⟨rfl, rfl, rfl⟩, rfl⟩
    exact (world.trans begun).trans (World.notes_giveUp ..)

/-- Pulses that the host starts at update nodes that are up to date are not let through. -/
theorem triggerAll_suppressed (graph : s.graph = g) (updates : ∀ n ∈ roots, n ∈ g.updateNodes)
    (awake : s.world.isShutDown = false) (upToDate : ∀ n ∈ roots, g.UpToDate n s.world) :
    ∃ enough w' reports, (∀ budget, enough ≤ budget →
        s.triggerAll budget roots = .answer ({ s with world := w' }, .ok reports)) ∧
      s.world.Notes w' ∧ reports.map (·.root) = roots ∧ ∀ report ∈ reports, report.Suppressed := by
  induction roots generalizing s with
  | nil =>
      exact ⟨0, s.world, [], fun _ _ => rfl, ⟨.refl _, rfl⟩, rfl, List.forall_mem_nil _⟩
  | cons n rest ih =>
      obtain ⟨update, updates⟩ := List.forall_mem_cons.mp updates
      obtain ⟨here, later⟩ := List.forall_mem_cons.mp upToDate
      obtain ⟨enough, w₁, report, triggers, notes, root, suppressed⟩ :=
        trigger_suppressed catalogue graph update awake here
      have stays : ∀ k ∈ rest, g.UpToDate k w₁ := fun k member =>
        (later k member).of_same fun j => by rw [notes.state.observed]
      obtain ⟨enough', w₂, reports, goesOn, notes', roots, all⟩ :=
        ih (s := { s with world := w₁ }) graph updates (notes.isShutDown.trans awake) stays
      refine ⟨max enough enough', w₂, report :: reports, fun budget le => ?_, notes.trans notes', ?_,
        List.forall_mem_cons.mpr ⟨suppressed, all⟩⟩
      · obtain ⟨le, le'⟩ := max_le_iff.mp le
        rw [triggerAll, triggers budget le, Waited.answer_andThen]
        dsimp only
        rw [goesOn budget le']
        rfl
      · rw [List.map_cons, root, roots]

end

/-- An update that follows another one at once finds nothing new. In whatever state a graph is, if its nodes
come from the catalogue, it is not shut down, no update node reads a NaN, and an update has ended with
reports, then the next one ends with one report for each update node, in the order of their ids, of a pulse
that has been suppressed at its root. No task has moved, and observations, stores and sinks are as they
were. -/
theorem update_again_suppressed (catalogue : g.FromCatalogue) {w₀ : World} {budget budget' : Nat}
    {operations : List Operation} {results : List (Except PulseError (List Report))}
    {reports₁ : List Report}
    (history : Session.operateAll budget { graph := g, world := w₀ } operations = .answer (s, results))
    (awake : s.world.isShutDown = false) (numbers : ∀ n ∈ g.updateNodes, ¬ g.ReadsNaN n)
    (first : s.update budget' = .answer (s₁, .ok reports₁)) :
    g.updateNodes.Pairwise (·.index < ·.index) ∧
    ∃ enough w₂ reports, (∀ budget, enough ≤ budget →
        s₁.update budget = .answer ({ s₁ with world := w₂ }, .ok reports)) ∧
      reports.map (·.root) = g.updateNodes ∧ (∀ report ∈ reports, report.Suppressed) ∧
      s₁.world.SameState w₂ := by
  refine ⟨g.updateNodes_sorted, ?_⟩
  have idle := idle_of_operateAll history
  have calm : s.Idle g (g.Calm [] false) none [] := by
    refine ⟨idle.graph, Graph.calm_lasts catalogue (List.forall_mem_nil _) (List.forall_mem_nil _),
      idle.idle, ?_⟩
    rw [← awake]
    exact Graph.calm_of_attainable catalogue idle.holds
  have updates : ∀ n ∈ g.updateNodes ++ [], n ∈ g.updateNodes := fun n member => by simpa using member
  have updated := calm.triggerAll_upToDate catalogue updates (fun n member => numbers n (updates n member))
    budget'
  obtain rfl := idle.graph
  rw [Session.update] at first
  rw [first] at updated
  obtain ⟨nodes, all, calm⟩ := updated reports₁ rfl
  have graph := calm.graph
  obtain ⟨enough, w₂, reports, again, notes, roots, suppressed⟩ :=
    triggerAll_suppressed catalogue graph (fun _ member => member)
      calm.holds.isShutDown fun n member => calm.holds.upToDate rfl n (all n (by simpa using member))
  refine ⟨enough, w₂, reports, fun budget le => ?_, roots, suppressed, notes.state⟩
  exact (congrArg (s₁.triggerAll budget ·.updateNodes) graph).trans (again budget le)

end Session

namespace Graph

/-- An alarm that is on counts. -/
def alarm : Graph where
  name := "alarm"
  config := {}
  members := [⟨"on", (CatalogueNode.constant (.bool true)).node⟩, ⟨"alarm", CatalogueNode.fireOnTrue.node⟩,
    ⟨"counter", CatalogueNode.counter.node⟩]
  valueEdges := [⟨⟨⟨0⟩, 0⟩, ⟨⟨1⟩, 0⟩⟩]
  flowEdges := [⟨⟨⟨1⟩, 0⟩, ⟨2⟩⟩]

theorem alarm_fromCatalogue : alarm.FromCatalogue where
  built := ⟨"alarm", {}, [.add "on" (CatalogueNode.constant (.bool true)).node,
    .add "alarm" CatalogueNode.fireOnTrue.node, .add "counter" CatalogueNode.counter.node,
    .connectValue ⟨"on", "Value", "alarm", "Condition"⟩, .connectFlow ⟨"alarm", "On True", "counter"⟩],
    by cbv⟩
  nodes m member := by
    simp only [alarm, List.mem_cons, List.not_mem_nil, or_false] at member
    rcases member with rfl | rfl | rfl <;> exact ⟨_, rfl⟩

/-- The first update lets the alarm count, the second one does not. -/
theorem update_again_suppressed_alarm :
    ∃ s₁ reports₁ enough w₂ reports,
      Session.update 100 { graph := alarm } = .answer (s₁, .ok reports₁) ∧ s₁.counter? "counter" = some 1 ∧
      (∀ budget, enough ≤ budget → s₁.update budget = .answer ({ s₁ with world := w₂ }, .ok reports)) ∧
      reports.map (·.root) = [⟨1⟩] ∧ (∀ report ∈ reports, report.Suppressed) ∧
      s₁.world.SameState w₂ := by
  have first : (match Session.update 100 { graph := alarm } with
      | .answer (s, .ok _) => s.counter? "counter" = some 1
      | .answer (_, .error _) | .outOfSteps => False) := by
    cbv
  have nodes : alarm.updateNodes = [⟨1⟩] := by cbv
  have numbers : ∀ n ∈ alarm.updateNodes, ¬ alarm.ReadsNaN n := by
    rw [nodes]
    rintro n here ⟨index, i, x, ⟨m, member, declared⟩, _, worth, _⟩
    obtain rfl := List.mem_singleton.mp here
    cases member
    cases index with
    | zero =>
        cases declared
        obtain ⟨condition, float⟩ := worth.exists_of rfl
        cases float
    | succ index => cases declared
  cases answers : Session.update 100 { graph := alarm } with
  | outOfSteps =>
      rw [answers] at first
      exact first.elim
  | answer told =>
      obtain ⟨s₁, result⟩ := told
      rw [answers] at first
      cases result with
      | error e => exact first.elim
      | ok reports₁ =>
          have history : Session.operateAll 0 { graph := alarm } [] = .answer ({ graph := alarm }, []) := rfl
          obtain ⟨_, enough, w₂, reports, again, roots, suppressed, same⟩ :=
            Session.update_again_suppressed alarm_fromCatalogue history rfl numbers answers
          rw [nodes] at roots
          exact ⟨s₁, reports₁, enough, w₂, reports, rfl, first, again, roots, suppressed, same⟩

end Graph

end FlowGraph
