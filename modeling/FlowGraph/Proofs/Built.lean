import FlowGraph.Catalogue.Basic
import FlowGraph.Proofs.Building
import FlowGraph.Proofs.Walking

/-!
# Graphs that building accepts

What the other modules need to know of a graph that building has accepted and whose nodes come from the
catalogue: connections lead from declared outputs to declared inputs of the same type, flow leads to
nodes that flow can enter, and the relation of reading is well-founded. The kind of a node and the types
of its ports can be read off the node.
-/

namespace FlowGraph

/-- The kind of a node of the catalogue, and whatever it was made from, can be read off the node. -/
theorem CatalogueNode.node_injective {c d : CatalogueNode} (h : c.node = d.node) : c = d := by
  have titles : c.title = d.title := by
    have names := congrArg (fun n : Node => n.descriptor.name) h
    cases c <;> cases d <;> first | rfl | exact names
  have facets := congrArg Node.facet h
  have types := congrArg (fun n : Node => n.descriptor.outputs.map (·.type)) h
  cases c <;> cases d <;> first | rfl | (simp [title] at titles; done) | skip
  case constant.constant => cases facets; rfl
  case log.log => cases facets; rfl
  case add.add t t' => cases t <;> cases t' <;> first | rfl | exact absurd types (by decide)
  case sum.sum t t' => cases t <;> cases t' <;> first | rfl | exact absurd types (by decide)
  case onChanged.onChanged t t' =>
    cases t <;> cases t' <;> first | rfl | exact absurd types (by decide)

namespace Blueprint

/-- Reading leads back to a cycle or to a node that reads nothing. -/
theorem wellFounded_feeds {edges : List ValueEdge} {n : Nat}
    (bound : ∀ e ∈ edges, e.target.node.index < n)
    (acyclic : ∀ k, ¬ Relation.TransGen (Feeds edges) k k) : WellFounded (Feeds edges) := by
  refine WellFounded.wellFounded_iff_has_min.mpr fun S ⟨a, ha⟩ => ?_
  by_contra back
  push Not at back
  have below : ∀ i, (⟨i⟩ : NodeId) ∈ S → i < n := by
    intro i hi
    obtain ⟨_, _, e, he, _, target⟩ := back ⟨i⟩ hi
    have inside := bound e he
    rwa [target] at inside
  have before : ∀ i, (⟨i⟩ : NodeId) ∈ S → ∃ j, (⟨j⟩ : NodeId) ∈ S ∧ Feeds edges ⟨j⟩ ⟨i⟩ := by
    intro i hi
    obtain ⟨x, hx, feeds⟩ := back ⟨i⟩ hi
    exact ⟨x.index, hx, feeds⟩
  obtain ⟨k, cycle, _⟩ := Peel.exists_cycle_of_back below before ha
  exact acyclic ⟨k⟩ (cycle.lift NodeId.mk fun _ _ feeds => feeds)

end Blueprint

namespace Graph

/-- A graph that building has accepted. -/
def Built (g : Graph) : Prop :=
  ∃ name config calls, (({ name, config } : Blueprint).callAll calls).build = .ok g

namespace Built

variable {g : Graph}

/-- Flow leads to nodes that flow can enter. -/
theorem target (h : g.Built) {flow : Port} {t : NodeId} (connected : t ∈ g.targets flow) :
    ∃ m, g.member? t = some m ∧ m.descriptor.flowInput = true := by
  obtain ⟨name, config, calls, built⟩ := h
  obtain ⟨values, flows, valid, rfl⟩ := Blueprint.valid_of_build built
  obtain ⟨e, he, rfl⟩ := List.mem_map.mp connected
  obtain ⟨w, hw, _, m, _, _, ht, _, opened⟩ :=
    Blueprint.exists_starts valid.started (List.mem_filter.mp he).1
  exact ⟨m, ht.entry, opened⟩

/-- No node reads itself, directly or through others. -/
theorem wellFounded (h : g.Built) : WellFounded (Blueprint.Feeds g.valueEdges) := by
  obtain ⟨name, config, calls, built⟩ := h
  obtain ⟨values, flows, valid, rfl⟩ := Blueprint.valid_of_build built
  refine Blueprint.wellFounded_feeds (n := (Blueprint.membersOf calls).length) (fun e he => ?_)
    valid.acyclic
  obtain ⟨_, _, _, _, _, _, _, ht, _⟩ := valid.wired.exists_joins he
  exact (List.getElem?_eq_some_iff.mp ht.entry).1

end Built

/-- A graph that building has accepted and whose nodes all come from the catalogue. -/
structure FromCatalogue (g : Graph) : Prop where
  built : ∃ name config calls, (({ name, config } : Blueprint).callAll calls).build = .ok g
  nodes : ∀ m ∈ g.members, ∃ c : CatalogueNode, m.node = c.node

/-- An output that a node of a graph declares. -/
def Declares (g : Graph) (output : Port) (o : Output) : Prop :=
  ∃ m, g.member? output.node = some m ∧ m.descriptor.outputs[output.index]? = some o

namespace FromCatalogue

variable {g : Graph} {n : NodeId} {m : Member}

theorem kind (h : g.FromCatalogue) (member : g.member? n = some m) :
    ∃ c : CatalogueNode, m.node = c.node :=
  h.nodes m (List.mem_of_getElem? member)

/-- What a connection leads to an input is the value of a declared output of the input's type. -/
theorem source (h : g.FromCatalogue) {index : Nat} {source : Port} {i : Input}
    (member : g.member? n = some m) (input : m.descriptor.inputs[index]? = some i)
    (connected : source ∈ g.sources ⟨n, index⟩) : ∃ o, g.Declares source o ∧ o.type = i.type := by
  obtain ⟨name, config, calls, built⟩ := h.built
  obtain ⟨values, flows, valid, rfl⟩ := Blueprint.valid_of_build built
  obtain ⟨e, he, rfl⟩ := List.mem_map.mp connected
  obtain ⟨edge, target⟩ := List.mem_filter.mp he
  obtain ⟨_, _, ms, mt, o, j, hs, ht, ho, hi, same⟩ := valid.wired.exists_joins edge
  rw [of_decide_eq_true target] at ht hi
  obtain rfl : mt = m := Option.some.inj (ht.entry.symm.trans member)
  obtain rfl : j = i := Option.some.inj (hi.entry.symm.trans input)
  exact ⟨o, ⟨ms, hs.entry, ho.entry⟩, same⟩

/-- Flow leads to nodes that flow can enter. -/
theorem target (h : g.FromCatalogue) {flow : Port} {t : NodeId} (connected : t ∈ g.targets flow) :
    ∃ m, g.member? t = some m ∧ m.descriptor.flowInput = true :=
  Built.target h.built connected

/-- No node reads itself, directly or through others. -/
theorem wellFounded (h : g.FromCatalogue) : WellFounded (Blueprint.Feeds g.valueEdges) :=
  Built.wellFounded h.built

end FromCatalogue

/-- A source of an input belongs to a node that feeds the input's node. -/
theorem feeds_of_mem_sources {g : Graph} {n : NodeId} {index : Nat} {source : Port}
    (connected : source ∈ g.sources ⟨n, index⟩) : Blueprint.Feeds g.valueEdges source.node n := by
  obtain ⟨e, he, rfl⟩ := List.mem_map.mp connected
  obtain ⟨edge, target⟩ := List.mem_filter.mp he
  exact ⟨e, edge, rfl, by rw [of_decide_eq_true target]⟩

theorem Declares.unique {g : Graph} {output : Port} {o o' : Output} (h : g.Declares output o)
    (h' : g.Declares output o') : o = o' := by
  obtain ⟨m, member, declared⟩ := h
  obtain ⟨m', member', declared'⟩ := h'
  obtain rfl : m = m' := Option.some.inj (member.symm.trans member')
  exact Option.some.inj (declared.symm.trans declared')

theorem Declares.mem_outputs {g : Graph} {output : Port} {o : Output} (h : g.Declares output o) :
    output ∈ g.outputs output.node := by
  obtain ⟨m, member, declared⟩ := h
  rw [outputs, member]
  exact List.mem_map.mpr ⟨output.index,
    List.mem_range.mpr (List.getElem?_eq_some_iff.mp declared).1, rfl⟩

end Graph

end FlowGraph
