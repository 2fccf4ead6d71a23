import Mathlib.Algebra.Ring.Int.Defs
import FlowGraph.Proofs.Visiting
import FlowGraph.Session.Basic

/-!
# Running totals

A counter reads a step, adds it to what it keeps, keeps and publishes the sum and goes on. Other pulses can get
in before its activation begins and after it has fired, but not in between: that is one visit. So no step is
lost and none counts twice, however many pulses are under way, and a pulse that is cancelled, or that a failure
ends, leaves the steps that it has added. The sums are those of the integers, modulo `2 ^ 32`.
-/

namespace FlowGraph

/-- The sum of some numbers, modulo `2 ^ 32`. -/
def wrappedSum (steps : List Int32) : Int32 :=
  .ofInt (steps.map (·.toInt)).sum

theorem wrappedSum_append (steps more : List Int32) :
    wrappedSum (steps ++ more) = wrappedSum steps + wrappedSum more := by
  rw [wrappedSum, List.map_append, List.sum_append, Int32.ofInt_add]
  rfl

theorem wrappedSum_singleton (step : Int32) : wrappedSum [step] = step := by
  rw [wrappedSum, List.map_singleton, List.sum_singleton, Int32.ofInt_toInt]

/-- A visit of a counter that has added up some steps before: it reads one more, and keeps and publishes what all
of them come to. -/
def increment (before : List Int32) (step : Int32) : Visit where
  told := [⟨.input 0 .int, step⟩, ⟨.update .int (· + step), wrappedSum (before ++ [step])⟩,
    ⟨.publish 0 (.int (wrappedSum (before ++ [step]))), ()⟩]
  edge := 0

/-- The visits of a counter that starts out with nothing and reads these steps one after the other. -/
def increments (steps : List Int32) : List Visit :=
  steps.mapIdx fun i step => increment (steps.take i) step

theorem increments_snoc (steps : List Int32) (step : Int32) :
    increments (steps ++ [step]) = increments steps ++ [increment steps step] := by
  rw [increments, List.mapIdx_concat, List.take_left]
  congr 1
  refine List.mapIdx_eq_mapIdx_iff.mpr fun i within => ?_
  rw [List.take_append_of_le_length within.le]

namespace Engine

variable {g : Graph} {s : Scope} {w w' : World} {p p' : Pulse} {visit : Visit}

/-- A counter that keeps the sum of some steps adds what it reads, and keeps the sum that results. -/
theorem Visits.of_counter {before : List Int32} (sum : (w.store s.node .int).read = wrappedSum before)
    (h : Visits g s CatalogueNode.counter.node.process w p visit w' p') :
    ∃ step, visit = increment before step ∧
      (w'.store s.node .int).read = wrappedSum (before ++ [step]) := by
  cases h with
  | @input _ _ _ step _ _ _ _ _ _ _ reads later =>
      have plus : (w.store s.node .int).read + step = wrappedSum (before ++ [step]) := by
        rw [wrappedSum_append, wrappedSum_singleton, sum]
      cases later with
      | update later =>
          cases later with
          | publish later =>
              cases later with
              | fires =>
                  refine ⟨step, ?_, (w.read_update ..).trans plus⟩
                  rw [increment, ← plus]

end Engine

namespace Graph

variable {g : Graph} {n : NodeId} {k : Member} {w₀ : World} {stage : Stage} {history : List Visit}

/-- Every activation of a counter is a visit: its step can be read at once, and nothing else that it does needs
anybody. -/
theorem alwaysVisits_of_counter (catalogue : g.FromCatalogue) (member : g.member? n = some k)
    (counter : k.node = CatalogueNode.counter.node) (w₀ : World) : g.AlwaysVisits n k w₀ := by
  have declared : k.descriptor.inputs[0]? = some ⟨"Step", .int, .single (1 : Int32) false false⟩ := by
    rw [Member.descriptor, counter]
    rfl
  refine alwaysVisits_of_input catalogue member declared rfl (by rw [counter]; rfl) (fun s w p step => ?_) w₀
  exact ⟨_, _, _, .update (.publish (.fires rfl))⟩

/-- What is recorded of a counter are its increments one after the other, and it keeps the last sum. -/
theorem Recorded.counted (catalogue : g.FromCatalogue) (member : g.member? n = some k)
    (counter : k.node = CatalogueNode.counter.node) (unkept : w₀.kept = ∅) (h : g.Recorded n k w₀ history stage) :
    ∃ steps, history = increments steps ∧ (stage.world.store n .int).read = wrappedSum steps := by
  have isOpen : k.IsOpen := catalogue.isOpen member (by rw [Member.descriptor, counter]; rfl)
  have cleared : .store .int ∈ k.node.reset := by
    rw [counter]
    exact List.mem_singleton_self _
  refine h.invariant catalogue member isOpen unkept cleared
    (I := fun history kept => ∃ steps, history = increments steps ∧
      (⟨(0 : Int32), kept.bind (·.as? .int)⟩ : Store Int32).read = wrappedSum steps) ⟨[], rfl, rfl⟩ ?_
  rintro _ s w p visit w' p' rfl ⟨steps, rfl, sum⟩ visits
  rw [counter] at visits
  obtain ⟨step, rfl, sum'⟩ := visits.of_counter sum
  exact ⟨steps ++ [step], (increments_snoc steps step).symm, sum'⟩

/-- Whatever pulses and hosts do is recorded. -/
theorem attended_of_counter (catalogue : g.FromCatalogue) (member : g.member? n = some k)
    (counter : k.node = CatalogueNode.counter.node)
    (reachable : Relation.ReflTransGen g.Serves { world := w₀ } stage) :
    ∃ history, g.Attended n k w₀ history stage := by
  have isOpen : k.IsOpen := catalogue.isOpen member (by rw [Member.descriptor, counter]; rfl)
  exact attended_of_serves member isOpen (alwaysVisits_of_counter catalogue member counter w₀) reachable

/-- Every activation of a counter is a visit, visits are all that there is to record of the counter, and what is
recorded are the increments by the steps that it has read since the start and since the graph was last reset.
Their sum is what the counter keeps, and whenever no pulse has the turn it is what the counter shows to a host that
asks for it by name. Visits to other nodes leave it alone. -/
structure Accumulates (g : Graph) (n : NodeId) (k : Member) (w₀ : World) (stage : Stage) : Prop where
  inputs : k.descriptor.inputs = [⟨"Step", .int, .single (1 : Int32) false false⟩]
  outputs : k.descriptor.outputs.map (·.name) = ["Count"]
  always : g.AlwaysVisits n k w₀
  attended : ∃ history, g.Attended n k w₀ history stage
  recorded : ∀ history, g.Recorded n k w₀ history stage →
    ∃ steps, history = increments steps ∧ (stage.world.store n .int).read = wrappedSum steps
  shown : stage.turn = none → ∃ steps, g.Recorded n k w₀ (increments steps) stage ∧
    ∀ (s : Session) (name : String), s.graph = g → s.world = stage.world → g.id? name = some n →
      s.counter? name = some (wrappedSum steps)
  apart : ∀ s k' w p visit w' p', s.node ≠ n → g.member? s.node = some k' →
    Engine.Visits g s k'.node.process w p visit w' p' → w'.store n .int = w.store n .int

/-- Wherever pulses that take turns and hosts get, a counter has added up the steps of its activations since the
start and since the graph was last reset, each exactly once, modulo `2 ^ 32`, and each activation has published
the sum up to its own step. -/
theorem counters_add_up_steps (catalogue : g.FromCatalogue) (unkept : w₀.kept = ∅)
    (reachable : Relation.ReflTransGen g.Serves { world := w₀ } stage) (member : g.member? n = some k)
    (counter : k.node = CatalogueNode.counter.node) : g.Accumulates n k w₀ stage where
  inputs := by
    rw [Member.descriptor, counter]
    rfl
  outputs := by
    rw [Member.descriptor, counter]
    rfl
  always := alwaysVisits_of_counter catalogue member counter w₀
  attended := attended_of_counter catalogue member counter reachable
  recorded _ recorded := recorded.counted catalogue member counter unkept
  shown idle := by
    obtain ⟨history, attended⟩ := attended_of_counter catalogue member counter reachable
    have recorded := attended.recorded idle
    obtain ⟨steps, rfl, sum⟩ := recorded.counted catalogue member counter unkept
    refine ⟨steps, recorded, ?_⟩
    rintro s name rfl world named
    have facet : s.facet? name = some (n, .counter) := by
      rw [Session.facet?, named, Option.bind_eq_bind, Option.bind_some, member, Option.bind_eq_bind,
        Option.bind_some, counter]
      rfl
    rw [Session.counter?, facet, world, ← sum]
  apart _ _ _ _ _ _ _ other _ visits := by
    rw [World.store, World.store, visits.kept_of_ne other]

/-- A counter whose step is the greatest number. -/
def overflow : Graph where
  name := "overflow"
  config := {}
  members := [⟨"entry", CatalogueNode.onTrigger.node⟩, ⟨"counter", CatalogueNode.counter.node⟩,
    ⟨"step", (CatalogueNode.constant (.int 2147483647)).node⟩]
  valueEdges := [⟨⟨⟨2⟩, 0⟩, ⟨⟨1⟩, 0⟩⟩]
  flowEdges := [⟨⟨⟨0⟩, 0⟩, ⟨1⟩⟩]

theorem overflow_fromCatalogue : overflow.FromCatalogue where
  built := ⟨"overflow", {}, [.add "entry" CatalogueNode.onTrigger.node,
    .add "counter" CatalogueNode.counter.node, .add "step" (CatalogueNode.constant (.int 2147483647)).node,
    .connectValue ⟨"step", "Value", "counter", "Step"⟩, .connectFlow ⟨"entry", "Next", "counter"⟩], by cbv⟩
  nodes m member := by
    simp only [overflow, List.mem_cons, List.not_mem_nil, or_false] at member
    rcases member with rfl | rfl | rfl <;> exact ⟨_, rfl⟩

/-- When two pulses of this graph are over, the counter has started again below zero. -/
theorem counters_add_up_steps_overflow :
    ∃ k stage, Relation.ReflTransGen overflow.Serves {} stage ∧ stage.turn = none ∧
      (stage.world.store ⟨1⟩ .int).read = (-2 : Int32) ∧ overflow.member? ⟨1⟩ = some k ∧
      k.node = CatalogueNode.counter.node ∧ overflow.Accumulates ⟨1⟩ k {} stage := by
  have first : Relation.ReflTransGen overflow.Serves {} _ := .single ⟨.start ⟨0⟩ ⟨0⟩ rfl, nofun⟩
  have between := first.trans (serves_advance 40 _)
  have second := between.tail ⟨.start ⟨0⟩ ⟨1⟩ rfl, nofun⟩
  have finished := second.trans (serves_advance 40 _)
  exact ⟨_, _, finished, by cbv, by cbv, rfl, rfl,
    counters_add_up_steps overflow_fromCatalogue rfl finished rfl rfl⟩

end Graph

end FlowGraph
