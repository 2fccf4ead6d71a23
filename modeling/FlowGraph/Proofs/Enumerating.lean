import FlowGraph.Proofs.Draining
import FlowGraph.Proofs.Recomputing

/-!
# Connections in any order

The value connections of a graph may be kept as a map from each input to its sources, and a map can be
gone through in any order of its inputs. What building finds out about cycles does not depend on that
order, nor do the dependents of an output: both are told by which connections there are.
-/

namespace FlowGraph

/-- The connections of a map from inputs to their sources, in the order in which its entries are gone
through. -/
def listed (entries : List (Port × List Port)) : List ValueEdge :=
  entries.flatMap fun (input, sources) => sources.map (⟨·, input⟩)

/-- Entries that make up the map of some connections, in whatever order: no input has two of them, each one
has the sources of its input in the order of their connections, and every connected input has one. -/
structure Enumerates (edges : List ValueEdge) (entries : List (Port × List Port)) : Prop where
  once : (entries.map Prod.fst).Nodup
  sources : ∀ entry ∈ entries, entry.2 = (edges.filter (·.target = entry.1)).map (·.source)
  complete : ∀ e ∈ edges, e.target ∈ entries.map Prod.fst

/-- Sorting connections by their inputs keeps them all. -/
theorem flatMap_targets_perm {inputs : List Port} {edges : List ValueEdge} (once : inputs.Nodup)
    (complete : ∀ e ∈ edges, e.target ∈ inputs) :
    (inputs.flatMap fun input => edges.filter (·.target = input)).Perm edges := by
  induction inputs generalizing edges with
  | nil =>
      cases edges with
      | nil => exact .refl _
      | cons e edges => exact absurd (complete e (List.mem_cons_self ..)) List.not_mem_nil
  | cons input inputs ih =>
      obtain ⟨new, once⟩ := List.nodup_cons.mp once
      have others : ∀ e ∈ edges.filter (fun e => !decide (e.target = input)), e.target ∈ inputs := by
        intro e member
        obtain ⟨edge, elsewhere⟩ := List.mem_filter.mp member
        exact (List.mem_cons.mp (complete e edge)).resolve_left (by simpa using elsewhere)
      have apart : ∀ other ∈ inputs,
          (edges.filter fun e => !decide (e.target = input)).filter (·.target = other) =
            edges.filter (·.target = other) := by
        intro other member
        rw [List.filter_filter]
        congr 1
        funext e
        by_cases here : e.target = other
        · have elsewhere : other ≠ input := fun same => new (same ▸ member)
          simp [here, elsewhere]
        · simp [here]
      have rest := ih once others
      rw [List.flatMap_congr apart] at rest
      rw [List.flatMap_cons]
      exact (rest.append_left _).trans (List.filter_append_perm _ edges)

/-- Going through the map of some connections meets each of them as often as it was made. -/
theorem Enumerates.perm {edges : List ValueEdge} {entries : List (Port × List Port)}
    (h : Enumerates edges entries) : (listed entries).Perm edges := by
  have grouped : listed entries =
      (entries.map Prod.fst).flatMap fun input => edges.filter (·.target = input) := by
    rw [listed, List.flatMap_map]
    refine List.flatMap_congr fun entry member => ?_
    obtain ⟨input, sources⟩ := entry
    have known : sources = (edges.filter (·.target = input)).map (·.source) := h.sources _ member
    dsimp only
    rw [known, List.map_map]
    refine (List.map_congr_left fun e edge => ?_).trans (List.map_id _)
    have target : e.target = input := by simpa using (List.mem_filter.mp edge).2
    rw [← target]
    rfl
  rw [grouped]
  exact flatMap_targets_perm h.once h.complete

/-- The dependents of outputs depend only on the members of a graph and on which connections it has. -/
theorem Graph.dependents_congr {g g' : Graph} (members : g.members = g'.members)
    (same : ∀ e, e ∈ g.valueEdges ↔ e ∈ g'.valueEdges)
    (declared : ∀ e ∈ g.valueEdges, e.source ∈ g.outputs e.source.node) (output : Port) :
    g.dependents output = g'.dependents output := by
  have isPure : g.isPure = g'.isPure := by
    funext n
    rw [Graph.isPure, Graph.isPure, member?, member?, members]
  have outputs : g.outputs = g'.outputs := by
    funext n
    rw [Graph.outputs, Graph.outputs, member?, member?, members]
  have ids : g.ids = g'.ids := by rw [Graph.ids, Graph.ids, size, size, members]
  have consumers : ∀ o n, n ∈ g.consumers o ↔ n ∈ g'.consumers o := by
    intro o n
    simp only [Graph.consumers, List.mem_map, List.mem_filter, same]
  have reads : ∀ o n, g.Reads n o ↔ g'.Reads n o := by
    intro o n
    rw [Reads, Reads, consumers, isPure]
  have feeds : ∀ k n, Blueprint.Feeds g.valueEdges k n ↔ Blueprint.Feeds g'.valueEdges k n := by
    intro k n
    simp only [Blueprint.Feeds, same]
  have derives : ∀ n, g.Derives output n ↔ g'.Derives output n := by
    intro n
    constructor
    · intro h
      induction h with
      | reads here => exact .reads ((reads _ _).mp here)
      | feeds _ edge pure ih => exact .feeds ih ((feeds _ _).mp edge) (isPure ▸ pure)
    · intro h
      induction h with
      | reads here => exact .reads ((reads _ _).mpr here)
      | feeds _ edge pure ih => exact .feeds ih ((feeds _ _).mpr edge) (isPure ▸ pure)
  have declared' : ∀ e ∈ g'.valueEdges, e.source ∈ g'.outputs e.source.node := by
    intro e edge
    rw [← outputs]
    exact declared e ((same e).mpr edge)
  cases pure : g.isPure output.node with
  | true =>
      have pure' : g'.isPure output.node = true := isPure ▸ pure
      rw [dependents, dependents, if_pos pure, if_pos pure']
  | false =>
      have pure' : g'.isPure output.node = false := isPure ▸ pure
      have among : ∀ n, n ∈ g.dependents output ↔ n ∈ g'.dependents output := by
        intro n
        rw [mem_dependents_iff declared pure, mem_dependents_iff declared' pure', derives]
      rw [dependents, dependents, if_neg (by simp [pure]), if_neg (by simp [pure']), ← ids]
      refine List.filter_congr fun n member => ?_
      have same := among n
      rw [dependents, dependents, if_neg (by simp [pure]), if_neg (by simp [pure']), ← ids, List.mem_filter,
        List.mem_filter, and_iff_right member, and_iff_right member] at same
      exact Bool.eq_iff_iff.mpr same

/-- A connection from an output to an input that the nodes of a list declare. -/
def ValueEdge.IsDeclared (members : List Member) (e : ValueEdge) : Prop :=
  (∃ m, members[e.source.node.index]? = some m ∧ e.source.index < m.descriptor.outputs.length) ∧
    ∃ i, Blueprint.Declares members e.target i

theorem ValueEdge.IsDeclared.dependency_lt {members : List Member} {e : ValueEdge}
    (h : e.IsDeclared members) :
    e.dependency.1 < members.length ∧ e.dependency.2 < members.length := by
  obtain ⟨⟨_, source, _⟩, _, _, target, _⟩ := h
  exact ⟨(List.getElem?_eq_some_iff.mp source).1, (List.getElem?_eq_some_iff.mp target).1⟩

theorem ValueEdge.IsDeclared.source_mem {g : Graph} {e : ValueEdge} (h : e.IsDeclared g.members) :
    e.source ∈ g.outputs e.source.node := by
  obtain ⟨⟨m, member, declared⟩, _⟩ := h
  exact Graph.Declares.mem_outputs ⟨m, member, List.getElem?_eq_getElem declared⟩

/-- In whatever order the map of the connections is gone through, the queue of ready nodes is drained
without lowering a degree of zero and without queueing a node twice, and what is reported in the end is
what the check for cycles reports for the connections as they were made. The dependents of every output
are those of the connections as they were made, too. -/
theorem enumeration_irrelevant {b : Blueprint} {edges : List ValueEdge}
    {entries : List (Port × List Port)} (declared : ∀ e ∈ edges, e.IsDeclared b.members)
    (enumerates : Enumerates edges entries) :
    (∃ last, Peel.Drains ((listed entries).map (·.dependency))
        (.start b.members.length ((listed entries).map (·.dependency))) last ∧
      last.queued.Nodup ∧
      last.stuck? b.members.length = Peel.stuck? b.members.length (edges.map (·.dependency))) ∧
    b.cycle? (listed entries) = b.cycle? edges ∧
    ∀ (g : Graph) output, g.members = b.members →
      ({ g with valueEdges := listed entries } : Graph).dependents output =
        ({ g with valueEdges := edges } : Graph).dependents output := by
  have perm := enumerates.perm
  have declared' : ∀ e ∈ listed entries, e.IsDeclared b.members :=
    fun e edge => declared e (perm.mem_iff.mp edge)
  have bound : ∀ d ∈ (listed entries).map (·.dependency),
      d.1 < b.members.length ∧ d.2 < b.members.length := by
    intro d member
    obtain ⟨e, edge, rfl⟩ := List.mem_map.mp member
    exact (declared' e edge).dependency_lt
  have stuck : Peel.stuck? b.members.length ((listed entries).map (·.dependency)) =
      Peel.stuck? b.members.length (edges.map (·.dependency)) :=
    Peel.stuck?_congr (fun d => (perm.map _).mem_iff) fun d member => (bound d member).1
  refine ⟨?_, ?_, fun g output members => ?_⟩
  · obtain ⟨last, all, drains, between, idle⟩ :=
      (Peel.Tally.between_start b.members.length ((listed entries).map (·.dependency))).drains
        fun d member => (bound d member).2
    refine ⟨last, drains, between.counts.once, ?_⟩
    rw [between.stuck?_eq idle fun d member => (bound d member).1, stuck]
  · rw [Blueprint.cycle?, Blueprint.cycle?, stuck]
  · refine @Graph.dependents_congr { g with valueEdges := listed entries }
      { g with valueEdges := edges } rfl (fun _ => perm.mem_iff) (fun e edge => ?_) output
    exact ValueEdge.IsDeclared.source_mem (members ▸ declared' e edge)

/-- A sum of the same number twice, and an addition that reads this number and itself. -/
def tangled : Blueprint :=
  (({ name := "tangled" } : Blueprint).add "total" (CatalogueNode.sum .int).node).add "a"
    (CatalogueNode.add .int).node |>.add "count" CatalogueNode.counter.node

def tangledEdges : List ValueEdge :=
  [⟨⟨⟨2⟩, 0⟩, ⟨⟨0⟩, 0⟩⟩, ⟨⟨⟨2⟩, 0⟩, ⟨⟨1⟩, 0⟩⟩, ⟨⟨⟨2⟩, 0⟩, ⟨⟨0⟩, 0⟩⟩, ⟨⟨⟨1⟩, 0⟩, ⟨⟨1⟩, 1⟩⟩]

/-- The map of these connections, the other way round. -/
def tangledEntries : List (Port × List Port) :=
  [(⟨⟨1⟩, 1⟩, [⟨⟨1⟩, 0⟩]), (⟨⟨1⟩, 0⟩, [⟨⟨2⟩, 0⟩]), (⟨⟨0⟩, 0⟩, [⟨⟨2⟩, 0⟩, ⟨⟨2⟩, 0⟩])]

theorem enumeration_irrelevant_tangled :
    (∀ e ∈ tangledEdges, e.IsDeclared tangled.members) ∧ Enumerates tangledEdges tangledEntries ∧
      tangled.cycle? (listed tangledEntries) = tangled.cycle? tangledEdges := by
  have declared : ∀ e ∈ tangledEdges, e.IsDeclared tangled.members := by
    intro e edge
    simp only [tangledEdges, List.mem_cons, List.not_mem_nil, or_false] at edge
    rcases edge with rfl | rfl | rfl | rfl <;> exact ⟨⟨_, rfl, by decide⟩, _, _, rfl, rfl⟩
  have enumerates : Enumerates tangledEdges tangledEntries :=
    ⟨by decide, by decide, by decide⟩
  exact ⟨declared, enumerates, (enumeration_irrelevant declared enumerates).2.1⟩

end FlowGraph
