import FlowGraph.Proofs.Visiting

/-!
# Transitions of a condition

Two nodes compare their condition with the one that they have seen before. Each keeps the condition for the next
time before it does anything that leads elsewhere, so what it compares with is what its last activation has
read, whatever pulses and hosts have done since then; and where the graph has just been reset, it is
`false`. So their activations follow the transitions of the sequence of conditions, one by one.
-/

namespace FlowGraph

namespace Transition

/-- Whether the condition has changed. -/
def isChange : Transition → Bool
  | becameTrue | becameFalse => true
  | stillTrue | stillFalse => false

/-- The changes of a condition alternate, and the first one is away from where the condition starts out. -/
theorem changes_along (previous : Bool) (conditions : List Bool) :
    ((along previous conditions).filter isChange).IsChain (· ≠ ·) ∧
      ∀ t ∈ ((along previous conditions).filter isChange).head?,
        t = if previous then becameFalse else becameTrue := by
  induction conditions generalizing previous with
  | nil => exact ⟨.nil, nofun⟩
  | cons c conditions ih =>
      obtain ⟨alternates, starts⟩ := ih c
      rw [along]
      by_cases same : previous = c
      · subst same
        have still : isChange (between previous previous) = false := by cases previous <;> rfl
        rw [List.filter_cons_of_neg (by simp [still])]
        exact ⟨alternates, starts⟩
      · have change : isChange (between previous c) = true := by
          cases previous <;> cases c <;> first | rfl | exact absurd rfl same
        rw [List.filter_cons_of_pos change]
        refine ⟨List.isChain_cons.mpr ⟨fun t first => ?_, alternates⟩, ?_⟩
        · rw [starts t first]
          cases previous <;> cases c <;> nofun
        · rintro _ ⟨⟩
          cases previous <;> cases c <;> first | rfl | exact absurd rfl same

end Transition

/-- The visits of a node whose condition takes these values, one after the other, and has been `previous`
before. -/
def visitsAlong (visit : (previous current : Bool) → Visit) (previous : Bool) : List Bool → List Visit
  | [] => []
  | current :: rest => visit previous current :: visitsAlong visit current rest

theorem visitsAlong_snoc (visit : (previous current : Bool) → Visit) (previous : Bool) (conditions : List Bool)
    (c : Bool) :
    visitsAlong visit previous (conditions ++ [c]) =
      visitsAlong visit previous conditions ++ [visit (conditions.getLast?.getD previous) c] := by
  induction conditions generalizing previous with
  | nil => rfl
  | cons first conditions ih =>
      rw [List.cons_append, visitsAlong, ih first, visitsAlong, List.cons_append, List.getLast?_cons]
      rfl

/-- What is fired one after the other are the transitions, if every visit fires its own. -/
theorem edges_visitsAlong {visit : (previous current : Bool) → Visit}
    (fires : ∀ previous current, (visit previous current).edge = (Transition.between previous current).edgeIndex)
    (previous : Bool) (conditions : List Bool) :
    (visitsAlong visit previous conditions).map (·.edge) =
      (Transition.along previous conditions).map (·.edgeIndex) := by
  induction conditions generalizing previous with
  | nil => rfl
  | cons c conditions ih => rw [visitsAlong, Transition.along, List.map_cons, List.map_cons, fires, ih]

/-- A node that publishes these conditions, each at one of its outputs, and then goes on. -/
def NodeProgram.announce (rest : NodeProgram Unit) : List (Nat × Bool) → NodeProgram Unit
  | [] => rest
  | (index, b) :: more => .ask (.publish index (.bool b)) fun _ => announce rest more

/-- A visit of a node that compares its condition with what it has been before. -/
def comparison (publishes : (previous current : Bool) → List (Nat × Bool))
    (edge : (previous current : Bool) → Nat) (previous current : Bool) : Visit where
  told := ⟨.input 0 .bool, current⟩ :: ⟨.remembered .bool, previous⟩ :: ⟨.remember (.bool current), ()⟩ ::
    (publishes previous current).map fun (index, b) => ⟨.publish index (.bool b), ()⟩
  edge := edge previous current

/-- A node that compares its condition with what it has been before, and keeps it for the next time before it
publishes anything about it and fires. -/
structure Node.Compares (node : Node) (publishes : (previous current : Bool) → List (Nat × Bool))
    (edge : (previous current : Bool) → Nat) : Prop where
  flowInput : node.descriptor.flowInput = true
  condition : node.descriptor.inputs[0]? = some ⟨"Condition", .bool, .single false false false⟩
  cleared : .store .bool ∈ node.reset
  process : node.process = .ask (.input 0 .bool) fun current => .ask (.remembered .bool) fun previous =>
    .ask (.remember (.bool current)) fun _ =>
      NodeProgram.announce (NodeProgram.fire (edge previous current)) (publishes previous current)

/-- A visit of a node that fires the transition of its condition. -/
def firesTransition : (previous current : Bool) → Visit :=
  comparison (fun _ _ => []) fun previous current => (Transition.between previous current).edgeIndex

/-- A visit of a node that publishes whether its condition has become true and whether it has become false, and
then fires by the condition alone. -/
def publishesTransition : (previous current : Bool) → Visit :=
  comparison
    (fun previous current => [(0, Transition.between previous current = .becameTrue),
      (1, Transition.between previous current = .becameFalse)])
    fun _ current => CatalogueNode.side current

namespace Engine

variable {g : Graph} {s : Scope} {w w' : World} {p p' : Pulse} {visit : Visit} {edge : Nat}

/-- A node that only publishes and then fires does so. -/
theorem visits_announce (g : Graph) (s : Scope) (w : World) (edge : Nat) (more : List (Nat × Bool)) (p : Pulse) :
    ∃ p', Visits g s (NodeProgram.announce (NodeProgram.fire edge) more) w p
      ⟨more.map fun (index, b) => ⟨.publish index (.bool b), ()⟩, edge⟩ w p' := by
  induction more generalizing p with
  | nil => exact ⟨p, .fires rfl⟩
  | cons first more ih =>
      obtain ⟨p', later⟩ := ih _
      exact ⟨p', .publish later⟩

theorem Visits.of_announce {more : List (Nat × Bool)}
    (h : Visits g s (NodeProgram.announce (NodeProgram.fire edge) more) w p visit w' p') :
    visit = ⟨more.map fun (index, b) => ⟨.publish index (.bool b), ()⟩, edge⟩ ∧ w' = w := by
  induction more generalizing p visit with
  | nil =>
      cases h
      exact ⟨rfl, rfl⟩
  | cons first more ih =>
      cases h with
      | publish later =>
          obtain ⟨same, rfl⟩ := ih later
          obtain ⟨rfl, rfl⟩ := Visit.mk.inj same
          exact ⟨rfl, rfl⟩

variable {k : Member} {publishes : (previous current : Bool) → List (Nat × Bool)}
  {edges : (previous current : Bool) → Nat}

/-- What a node that compares its condition does is a comparison with what it keeps, and from then on it keeps
the condition. -/
theorem Visits.of_compares (compares : k.node.Compares publishes edges)
    (h : Visits g s k.node.process w p visit w' p') :
    ∃ current, visit = comparison publishes edges (w.store s.node .bool).read current ∧
      w' = w.remember s.node (.bool current) := by
  rw [compares.process] at h
  cases h with
  | @input _ _ _ current _ _ _ _ _ _ _ reads later =>
      cases later with
      | remembered later =>
          cases later with
          | remember later =>
              obtain ⟨same, rfl⟩ := later.of_announce
              obtain ⟨rfl, rfl⟩ := Visit.mk.inj same
              exact ⟨current, rfl, rfl⟩

end Engine

namespace Graph

open Engine (Visits)

variable {g : Graph} {n : NodeId} {k : Member} {w₀ w : World} {stage : Stage} {history : List Visit}
  {publishes : (previous current : Bool) → List (Nat × Bool)} {edges : (previous current : Bool) → Nat}

/-- A node that compares its condition does so in every activation: its condition can be read at once, and
nothing else that it does needs anybody. -/
theorem alwaysVisits_of_compares (catalogue : g.FromCatalogue) (member : g.member? n = some k)
    (compares : k.node.Compares publishes edges) (w₀ : World) : g.AlwaysVisits n k w₀ := by
  refine alwaysVisits_of_input catalogue member compares.condition rfl compares.process
    (fun s w p current => ?_) w₀
  obtain ⟨p', announces⟩ := Engine.visits_announce g s (w.remember s.node (.bool current))
    (edges (w.store s.node .bool).read current) (publishes (w.store s.node .bool).read current) p
  exact ⟨_, _, p', .remembered (.remember announces)⟩

/-- What is recorded of a node that compares its condition are the comparisons of its conditions one after the
other, and it keeps the last one. -/
theorem Recorded.compared (catalogue : g.FromCatalogue) (member : g.member? n = some k)
    (compares : k.node.Compares publishes edges) (unkept : w₀.kept = ∅)
    (h : g.Recorded n k w₀ history stage) :
    ∃ conditions, history = visitsAlong (comparison publishes edges) false conditions ∧
      stage.world.kept.get? n = conditions.getLast?.map Value.bool := by
  refine h.invariant catalogue member (catalogue.isOpen member compares.flowInput) unkept compares.cleared
    (I := fun history kept => ∃ conditions, history = visitsAlong (comparison publishes edges) false conditions ∧
      kept = conditions.getLast?.map Value.bool) ⟨[], rfl, rfl⟩ ?_
  rintro _ s w p visit w' p' rfl ⟨conditions, rfl, kept⟩ visits
  obtain ⟨current, rfl, rfl⟩ := visits.of_compares compares
  have previous : (w.store s.node .bool).read = conditions.getLast?.getD false := by
    rw [World.store, kept]
    cases conditions.getLast? <;> rfl
  refine ⟨conditions ++ [current], ?_, ?_⟩
  · rw [visitsAlong_snoc, previous]
  · rw [World.kept_remember, Table.get?_insert_self, List.getLast?_append]
    rfl

/-- Every activation of a node is a visit, visits are all that there is to record of the node, and whatever is
recorded is one such visit for each of its conditions since the start and since the graph was last reset.
The node keeps the last of these conditions. -/
structure VisitsAlong (g : Graph) (n : NodeId) (k : Member) (w₀ : World) (stage : Stage)
    (visit : (previous current : Bool) → Visit) : Prop where
  always : g.AlwaysVisits n k w₀
  attended : ∃ history, g.Attended n k w₀ history stage
  recorded : ∀ history, g.Recorded n k w₀ history stage →
    ∃ conditions, history = visitsAlong visit false conditions ∧
      stage.world.kept.get? n = conditions.getLast?.map Value.bool

theorem visitsAlong_of_compares (catalogue : g.FromCatalogue) (member : g.member? n = some k)
    (compares : k.node.Compares publishes edges) (unkept : w₀.kept = ∅)
    (reachable : Relation.ReflTransGen g.Serves { world := w₀ } stage) :
    g.VisitsAlong n k w₀ stage (comparison publishes edges) where
  always := alwaysVisits_of_compares catalogue member compares w₀
  attended := attended_of_serves member (catalogue.isOpen member compares.flowInput)
    (alwaysVisits_of_compares catalogue member compares w₀) reachable
  recorded _ recorded := recorded.compared catalogue member compares unkept

/-- Wherever pulses that take turns and hosts get, the activations of a node that fires the transitions of its
condition have fired those of the conditions that they have read since the start and since the graph was last
reset, each exactly one, and those of a node that publishes the transitions have published them before they
fired by the condition alone. The transitions that are changes alternate, starting with the one to `true`. What
is published as true is what would be fired, and the flow outputs have the names of the transitions. -/
theorem branches_follow_transitions (catalogue : g.FromCatalogue) (unkept : w₀.kept = ∅)
    (reachable : Relation.ReflTransGen g.Serves { world := w₀ } stage) :
    (∀ n k, g.member? n = some k → k.node = CatalogueNode.statefulBranch.node →
      g.VisitsAlong n k w₀ stage firesTransition) ∧
    (∀ n k, g.member? n = some k → k.node = CatalogueNode.branchWithState.node →
      g.VisitsAlong n k w₀ stage publishesTransition) ∧
    (∀ conditions, (visitsAlong firesTransition false conditions).map (·.edge) =
        (Transition.along false conditions).map (·.edgeIndex) ∧
      ((Transition.along false conditions).filter Transition.isChange).IsChain (· ≠ ·) ∧
      ∀ t ∈ ((Transition.along false conditions).filter Transition.isChange).head?, t = .becameTrue) ∧
    (∀ previous current, (publishesTransition previous current).told.drop 3 =
      [⟨.publish 0 (.bool ((firesTransition previous current).edge = Transition.becameTrue.edgeIndex)), ()⟩,
        ⟨.publish 1 (.bool ((firesTransition previous current).edge = Transition.becameFalse.edgeIndex)), ()⟩]) ∧
    (∀ t : Transition, (CatalogueNode.statefulBranch.descriptor.flows[t.edgeIndex]?).map (·.name) =
      some t.edgeName) ∧
    CatalogueNode.branchWithState.descriptor.outputs.map (·.name) =
      [Transition.becameTrue.edgeName, Transition.becameFalse.edgeName] ∧
    ∀ previous current, (CatalogueNode.branchWithState.descriptor.flows[
      (publishesTransition previous current).edge]?).map (·.name) = some (if current then "True" else "False") := by
  refine ⟨fun n k member branch => ?_, fun n k member branch => ?_, fun conditions => ?_,
    fun previous current => ?_, fun t => ?_, rfl, fun previous current => ?_⟩
  · have compares : k.node.Compares (fun _ _ => []) fun previous current =>
        (Transition.between previous current).edgeIndex := by
      rw [branch]
      exact ⟨rfl, rfl, List.mem_singleton_self _, rfl⟩
    exact visitsAlong_of_compares catalogue member compares unkept reachable
  · have compares : k.node.Compares
        (fun previous current => [(0, Transition.between previous current = .becameTrue),
          (1, Transition.between previous current = .becameFalse)])
        fun _ current => CatalogueNode.side current := by
      rw [branch]
      exact ⟨rfl, rfl, List.mem_singleton_self _, rfl⟩
    exact visitsAlong_of_compares catalogue member compares unkept reachable
  · exact ⟨edges_visitsAlong (fun _ _ => rfl) false conditions, Transition.changes_along false conditions⟩
  · cases previous <;> cases current <;> rfl
  · cases t <;> rfl
  · cases previous <;> cases current <;> rfl

/-- A node that fires itself when its condition has become true. -/
def latch : Graph where
  name := "latch"
  config := {}
  members := [⟨"entry", CatalogueNode.onTrigger.node⟩, ⟨"edge", CatalogueNode.statefulBranch.node⟩,
    ⟨"on", (CatalogueNode.constant (.bool true)).node⟩]
  valueEdges := [⟨⟨⟨2⟩, 0⟩, ⟨⟨1⟩, 0⟩⟩]
  flowEdges := [⟨⟨⟨0⟩, 0⟩, ⟨1⟩⟩, ⟨⟨⟨1⟩, 0⟩, ⟨1⟩⟩]

theorem latch_fromCatalogue : latch.FromCatalogue where
  built := ⟨"latch", {}, [.add "entry" CatalogueNode.onTrigger.node,
    .add "edge" CatalogueNode.statefulBranch.node, .add "on" (CatalogueNode.constant (.bool true)).node,
    .connectValue ⟨"on", "Value", "edge", "Condition"⟩, .connectFlow ⟨"entry", "Next", "edge"⟩,
    .connectFlow ⟨"edge", "Became True", "edge"⟩], by cbv⟩
  nodes m member := by
    simp only [latch, List.mem_cons, List.not_mem_nil, or_false] at member
    rcases member with rfl | rfl | rfl <;> exact ⟨_, rfl⟩

/-- When a pulse of this graph is over, the node has been visited, and keeps that its condition was true. -/
theorem branches_follow_transitions_latch :
    ∃ k stage, Relation.ReflTransGen latch.Serves {} stage ∧ stage.turn = none ∧
      stage.world.kept.get? ⟨1⟩ = some (.bool true) ∧ latch.member? ⟨1⟩ = some k ∧
      k.node = CatalogueNode.statefulBranch.node ∧ latch.VisitsAlong ⟨1⟩ k {} stage firesTransition := by
  have started : Relation.ReflTransGen latch.Serves {} _ := .single ⟨.start ⟨0⟩ ⟨0⟩ rfl, nofun⟩
  have finished := started.trans (serves_advance 40 _)
  exact ⟨_, _, finished, by cbv, by cbv, rfl, rfl,
    (branches_follow_transitions latch_fromCatalogue rfl finished).1 ⟨1⟩ _ rfl rfl⟩

end Graph

end FlowGraph
