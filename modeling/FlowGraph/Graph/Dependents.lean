import FlowGraph.Graph.Basic

/-!
# Dependents of an output

The dependents of an output are the pure nodes whose values derive from it: those reached along value
connections through pure nodes only. The walk keeps a list of outputs still to follow and a list of
nodes already reached. Each step either reaches a node for the first time or shortens the first list,
so it ends, and a node is never followed twice. The nodes that are found stand in increasing order, so
one of them can be looked up by halving.
-/

namespace FlowGraph

namespace Graph

/-- The pure nodes connected to an output that are not among those already reached, once each. -/
def freshConsumers (g : Graph) (reached : List NodeId) (output : Port) : List NodeId :=
  ((g.consumers output).filter fun n => g.isPure n && !reached.contains n).eraseDups

/-- The number of nodes not reached yet. -/
def unreached (g : Graph) (reached : List NodeId) : Nat :=
  g.ids.countP fun n => !reached.contains n

theorem mem_ids_of_isPure {g : Graph} {n : NodeId} (h : g.isPure n = true) : n ∈ g.ids := by
  have : n.index < g.members.length := by
    refine Nat.lt_of_not_le fun hn => ?_
    simp [isPure, member?, List.getElem?_eq_none hn] at h
  simp only [ids, size, List.mem_map, List.mem_range]
  exact ⟨n.index, this, rfl⟩

theorem mem_freshConsumers {g : Graph} {reached : List NodeId} {output : Port} {n : NodeId} :
    n ∈ g.freshConsumers reached output ↔
      n ∈ g.consumers output ∧ g.isPure n = true ∧ n ∉ reached := by
  simp [freshConsumers]

theorem unreached_lt {g : Graph} {reached fresh : List NodeId} {n : NodeId} (hn : n ∈ fresh)
    (ids : n ∈ g.ids) (new : n ∉ reached) : g.unreached (reached ++ fresh) < g.unreached reached := by
  unfold unreached
  rw [List.countP_eq_length_filter, List.countP_eq_length_filter]
  have sub : (g.ids.filter fun n => !(reached ++ fresh).contains n) =
      (g.ids.filter fun n => !reached.contains n).filter fun n => !fresh.contains n := by
    rw [List.filter_filter]
    congr 1
    funext m
    by_cases h₁ : m ∈ reached <;> by_cases h₂ : m ∈ fresh <;> simp [h₁, h₂]
  rw [sub]
  apply List.length_filter_lt_length_iff_exists.2
  exact ⟨n, by simp [ids, new], by simp [hn]⟩

/-- Follows outputs until none is left, collecting the pure nodes reached. -/
def walk (g : Graph) (reached : List NodeId) : (todo : List Port) → List NodeId
  | [] => reached
  | output :: todo =>
    if (g.freshConsumers reached output).isEmpty then g.walk reached todo
    else
      g.walk (reached ++ g.freshConsumers reached output)
        (todo ++ (g.freshConsumers reached output).flatMap g.outputs)
termination_by todo => (g.unreached reached, todo.length)
decreasing_by
  · exact Prod.Lex.right _ (by simp)
  · rename_i h
    obtain ⟨n, hn⟩ := List.exists_mem_of_ne_nil _ (by simpa using h)
    obtain ⟨_, pure, new⟩ := mem_freshConsumers.1 hn
    exact Prod.Lex.left _ _ (unreached_lt hn (mem_ids_of_isPure pure) new)

/-- The pure nodes whose values derive from an output, in increasing order. The outputs of pure nodes
have none: they are never published. -/
def dependents (g : Graph) (output : Port) : List NodeId :=
  if g.isPure output.node then []
  else
    let reached := g.walk [] [output]
    g.ids.filter reached.contains

end Graph

/-- The place of a node among nodes in increasing order, found by comparing it with the one in the middle. -/
def bisect? (n : NodeId) (nodes : List NodeId) : Option Nat :=
  match cut : nodes.drop (nodes.length / 2) with
  | [] => none
  | middle :: later =>
    if n = middle then some (nodes.length / 2)
    else if n.index < middle.index then bisect? n (nodes.take (nodes.length / 2))
    else (bisect? n later).map (nodes.length / 2 + 1 + ·)
termination_by nodes.length
decreasing_by
  all_goals
    have lengths := congrArg List.length cut
    simp only [List.length_drop, List.length_cons, List.length_take] at lengths ⊢
    omega

end FlowGraph
