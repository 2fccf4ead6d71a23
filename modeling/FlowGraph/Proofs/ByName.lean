import FlowGraph.Proofs.Mirroring
import FlowGraph.Proofs.Reordering

/-!
# What a host knows by name

A host that triggers nodes by name, and looks at them by name, cannot tell in which order a graph was put
together. The ids of the nodes follow that order, and so does the order in which the nodes that derive from
an output are gone through; but whatever the pulses report, and whatever they leave behind in sinks and
stores, is the same in every order up to the ids. Names do not change with the ids.
-/

namespace FlowGraph

/-- The name of a node, if it belongs to the graph. -/
def Graph.nameOf? (g : Graph) (n : NodeId) : Option String :=
  (g.member? n).map (·.name)

namespace Session

/-- Triggers nodes by name, one after the other, whatever comes of it. -/
def triggerEach (budget : Nat) :
    List String → Session → Waited (Session × List (Except PulseError Report))
  | [], s => .answer (s, [])
  | name :: names, s =>
    (Demo.trigger budget s name).andThen fun (s, result) =>
      (triggerEach budget names s).andThen fun (s, results) => .answer (s, result :: results)

/-- What has come of some pulses in two graphs is the same, but for the ids of the nodes: the results with
all that they count, the names of the nodes that were activated, and what is left in stores and sinks, both
by id and as the host asks for it by name. -/
structure SameByName (π : Renaming) (g g' : Graph) (a a' : Session × List (Except PulseError Report)) :
    Prop where
  results : a'.2 = a.2.map π.result
  activations : ∀ r, .ok r ∈ a.2 →
    (r.rename π).activations.map g'.nameOf? = r.activations.map g.nameOf?
  world : a'.1.world = a.1.world.rename π
  stores : ∀ n t, a'.1.world.store (π n) t = a.1.world.store n t
  sinks : ∀ n, a'.1.world.sink (.own (π n)) = a.1.world.sink (.own n)
  shared : ∀ name, a'.1.world.sink (.named name) = a.1.world.sink (.named name)
  counter : ∀ name, a'.1.counter? name = a.1.counter? name
  previous : ∀ name, a'.1.previous? name = a.1.previous? name
  constant : ∀ name t, a'.1.constant? name t = a.1.constant? name t
  logged : ∀ name t, a'.1.logSink? name t = a.1.logSink? name t

variable {π : Renaming} {g g' : Graph} {s s' : Session}

namespace Mirrors

/-- A newly built graph and its image. -/
theorem new (g g' : Graph) (now endedWaits : Nat) :
    Mirrors π g g' (Session.new g now endedWaits) (Session.new g' now endedWaits) :=
  ⟨rfl, rfl⟩

theorem triggerEach (h : π.Carries g g') (catalogue : g.FromCatalogue) (same : Mirrors π g g' s s')
    (names : List String) (budget : Nat) :
    (triggerEach budget names s).Alike (fun a a' => Mirrors π g g' a.1 a'.1 ∧ a'.2 = a.2.map π.result)
      (triggerEach budget names s') := by
  induction names generalizing s s' with
  | nil => exact .answer ⟨same, rfl⟩
  | cons name names ih =>
      refine (same.triggerNamed h catalogue name budget).andThen fun {a a'} first => ?_
      refine (ih first.1).andThen fun {b b'} rest => .answer ⟨rest.1, ?_⟩
      rw [first.2, rest.2]
      rfl

/-- What the host asks of a named node is asked of what the node has become. -/
theorem facet? (h : π.Carries g g') (same : Mirrors π g g' s s') (name : String) :
    s'.facet? name = (s.facet? name).map fun (n, facet) => (π n, facet) := by
  have id : s'.graph.id? name = (s.graph.id? name).map π := by
    rw [same.image, same.graph]
    exact h.id name
  have member : ∀ n, s'.graph.member? (π n) = s.graph.member? n := by
    rw [same.image, same.graph]
    exact h.member
  rw [Session.facet?, Session.facet?, id]
  cases s.graph.id? name with
  | none => rfl
  | some n =>
      simp only [Option.map_some, Option.bind_eq_bind, Option.bind_some, member]
      cases s.graph.member? n <;> rfl

theorem store (same : Mirrors π g g' s s') (n : NodeId) (t : ValueType) :
    s'.world.store (π n) t = s.world.store n t := by
  rw [same.image]
  exact s.world.rename_store n t

theorem sink (same : Mirrors π g g' s s') (sink : SinkId) :
    s'.world.sink (π.sink sink) = s.world.sink sink := by
  rw [same.image]
  exact s.world.rename_sink sink

/-- Whoever knows the nodes by name finds the same in a session and in its image. -/
theorem sameByName (h : π.Carries g g') (same : Mirrors π g g' s s')
    (results : List (Except PulseError Report)) :
    SameByName π g g' (s, results) (s', results.map π.result) where
  results := rfl
  activations r _ := by
    have names : g'.nameOf? ∘ π = g.nameOf? := funext fun n => by
      simp only [Function.comp_apply, Graph.nameOf?, h.member]
    rw [Report.rename, List.map_map, names]
  world := by
    rw [same.image]
    rfl
  stores := same.store
  sinks n := same.sink (.own n)
  shared name := same.sink (.named name)
  counter name := by
    rw [counter?, counter?, same.facet? h]
    rcases s.facet? name with _ | ⟨n, _ | _ | _ | _ | _⟩ <;> simp [same.store]
  previous name := by
    rw [previous?, previous?, same.facet? h]
    rcases s.facet? name with _ | ⟨n, _ | _ | _ | _ | _⟩ <;> simp [same.store]
  constant name t := by
    rw [constant?, constant?, same.facet? h]
    rcases s.facet? name with _ | ⟨n, _ | _ | _ | _ | _⟩ <;> simp
  logged name t := by
    have resolved : ∀ n (sink : SinkRef),
        s'.world.sink (sink.resolve (π n)) = s.world.sink (sink.resolve n) := fun n sink => by
      rw [← π.sink_resolve, same.sink]
    rw [logSink?, logSink?, same.facet? h]
    rcases s.facet? name with _ | ⟨n, _ | _ | _ | _ | _⟩ <;> simp [resolved]

end Mirrors

end Session

namespace Blueprint

/-- The order of the calls does not matter, but for the connections into a list input and those out of a
flow output. Building succeeds in one order exactly if it does in the other. Whatever nodes are then
triggered by name, in whatever order and with whatever budget, the same comes of it in both graphs up to the
ids of the nodes. -/
theorem order_of_calls_irrelevant (name : String) (config : Config) {calls calls' : List Call}
    (reordered : Reordered calls calls')
    (catalogue : ∀ m ∈ membersOf calls, ∃ c : CatalogueNode, m.node = c.node) :
    ((∃ g, (({ name, config } : Blueprint).callAll calls).build = .ok g) ↔
      ∃ g', (({ name, config } : Blueprint).callAll calls').build = .ok g') ∧
    ∀ g g', (({ name, config } : Blueprint).callAll calls).build = .ok g →
      (({ name, config } : Blueprint).callAll calls').build = .ok g' →
      ∃ π : Renaming, (∀ n, g'.member? (π n) = g.member? n) ∧
        ∀ now endedWaits budget names,
          (Session.triggerEach budget names (Session.new g now endedWaits)).Alike
            (Session.SameByName π g g')
            (Session.triggerEach budget names (Session.new g' now endedWaits)) := by
  refine ⟨⟨fun ⟨g, built⟩ => ?_, fun ⟨g', built'⟩ => ?_⟩, fun g g' built built' => ?_⟩
  · obtain ⟨g', _, built', _⟩ := reordered.exists_carries built
    exact ⟨g', built'⟩
  · obtain ⟨g, _, built, _⟩ := reordered.symm.exists_carries built'
    exact ⟨g, built⟩
  · obtain ⟨k, π, same, carries⟩ := reordered.exists_carries built
    obtain rfl : k = g' := Except.ok.inj (same.symm.trans built')
    have fromCatalogue : g.FromCatalogue := by
      refine ⟨⟨name, config, calls, built⟩, ?_⟩
      obtain ⟨values, flows, _, rfl⟩ := valid_of_build built
      exact catalogue
    refine ⟨π, carries.member, fun now endedWaits budget names => ?_⟩
    have runs := (Session.Mirrors.new g k now endedWaits).triggerEach carries fromCatalogue names budget
    exact runs.mono fun {a a'} same => by
      obtain ⟨s, results⟩ := a
      obtain ⟨s', results'⟩ := a'
      obtain ⟨mirrors, rfl⟩ := same
      exact mirrors.sameByName carries results

/-- Two numbers are added up, and the sum is logged. -/
def addingUp : List Call :=
  [.add "start" CatalogueNode.onTrigger.node, .add "one" (CatalogueNode.constant (.int 1)).node,
    .add "two" (CatalogueNode.constant (.int 2)).node, .add "sum" (CatalogueNode.sum .int).node,
    .add "log" (CatalogueNode.log .int .own).node, .connectValue ⟨"one", "Value", "sum", "Values"⟩,
    .connectValue ⟨"two", "Value", "sum", "Values"⟩, .connectValue ⟨"sum", "Sum", "log", "Value"⟩,
    .connectFlow ⟨"start", "Next", "log"⟩]

/-- The same from the end on, but for the order of the numbers. -/
def addingUpBackwards : List Call :=
  [.connectFlow ⟨"start", "Next", "log"⟩, .connectValue ⟨"sum", "Sum", "log", "Value"⟩,
    .add "log" (CatalogueNode.log .int .own).node, .connectValue ⟨"one", "Value", "sum", "Values"⟩,
    .connectValue ⟨"two", "Value", "sum", "Values"⟩, .add "sum" (CatalogueNode.sum .int).node,
    .add "two" (CatalogueNode.constant (.int 2)).node, .add "one" (CatalogueNode.constant (.int 1)).node,
    .add "start" CatalogueNode.onTrigger.node]

theorem reordered_addingUp : Reordered addingUp addingUpBackwards where
  nodes := (List.reverse_perm _).symm
  values := by decide
  flows := by decide
  lists m member i input _ := by
    have wishes : valueWishesOf addingUp =
        [⟨"one", "Value", "sum", "Values"⟩, ⟨"two", "Value", "sum", "Values"⟩,
          ⟨"sum", "Sum", "log", "Value"⟩] := rfl
    have backwards : valueWishesOf addingUpBackwards =
        [⟨"sum", "Sum", "log", "Value"⟩, ⟨"one", "Value", "sum", "Values"⟩,
          ⟨"two", "Value", "sum", "Values"⟩] := rfl
    rw [wishes, backwards]
    by_cases log : "log" = m.name
    · simp [List.filter_cons, ← log]
    · simp [List.filter_cons, log]
  outputs m member f flow := rfl

/-- The log has another id in the other order, and it logs the same. -/
theorem order_of_calls_irrelevant_addingUp :
    ∃ g g', (({ name := "adding up" } : Blueprint).callAll addingUp).build = .ok g ∧
      (({ name := "adding up" } : Blueprint).callAll addingUpBackwards).build = .ok g' ∧
      g.id? "log" = some ⟨4⟩ ∧ g'.id? "log" = some ⟨0⟩ ∧
      (match Session.triggerEach 100 ["start", "nobody"] (Session.new g' 0 0) with
        | .answer (s, results) => s.logSink? "log" .int = some #[.int 3] ∧ results.length = 2
        | .outOfSteps => False) ∧
      ∃ π : Renaming, (∀ n, g'.member? (π n) = g.member? n) ∧
        ∀ now endedWaits budget names,
          (Session.triggerEach budget names (Session.new g now endedWaits)).Alike
            (Session.SameByName π g g')
            (Session.triggerEach budget names (Session.new g' now endedWaits)) := by
  have facts : (match (({ name := "adding up" } : Blueprint).callAll addingUp).build,
      (({ name := "adding up" } : Blueprint).callAll addingUpBackwards).build with
      | .ok g, .ok g' => g.id? "log" = some ⟨4⟩ ∧ g'.id? "log" = some ⟨0⟩ ∧
        (match Session.triggerEach 100 ["start", "nobody"] (Session.new g' 0 0) with
        | .answer (s, results) => s.logSink? "log" .int = some #[.int 3] ∧ results.length = 2
        | .outOfSteps => False)
      | .ok _, .error _ | .error _, _ => False) := by
    cbv
    exact ⟨rfl, trivial⟩
  have catalogue : ∀ m ∈ membersOf addingUp, ∃ c : CatalogueNode, m.node = c.node := by
    intro m member
    simp only [membersOf, addingUp, Call.member?, Call.addition?, List.filterMap_cons, List.filterMap_nil,
      List.mem_cons, List.not_mem_nil, or_false] at member
    rcases member with rfl | rfl | rfl | rfl | rfl <;> exact ⟨_, rfl⟩
  have irrelevant := order_of_calls_irrelevant "adding up" {} reordered_addingUp catalogue
  split at facts
  next g g' built built' =>
    exact ⟨g, g', built, built', facts.1, facts.2.1, facts.2.2, irrelevant.2 g g' built built'⟩
  next => exact facts.elim
  next => exact facts.elim

end Blueprint

end FlowGraph
