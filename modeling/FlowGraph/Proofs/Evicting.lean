import FlowGraph.Proofs.Enumerating
import FlowGraph.Proofs.Reordering

/-!
# What publishing evicts

The walk that collects the dependents of an output takes one output after the other from a queue. A node joins
those reached at most once, so the queue runs empty, whether or not the connections form cycles. Whoever has
been reached by then derives from the output, and whoever derives from it has been reached. The dependents
stand in increasing order. Publishing looks every memoised node up among them, and halving finds it there.
-/

namespace FlowGraph

/-! ## Looking nodes up by halving -/

section

variable {n middle : NodeId} {front later nodes : List NodeId}

theorem nodup_of_sorted (sorted : nodes.Pairwise (·.index < ·.index)) : nodes.Nodup := by
  refine sorted.imp fun less same => ?_
  rw [same] at less
  exact Nat.lt_irrefl _ less

/-- What comes before the node in the middle stands in front of it. -/
theorem getElem?_of_less (sorted : (front ++ middle :: later).Pairwise (·.index < ·.index))
    (less : n.index < middle.index) {i : Nat} :
    (front ++ middle :: later)[i]? = some n ↔ front[i]? = some n := by
  obtain ⟨_, sorted, _⟩ := List.pairwise_append.mp sorted
  obtain ⟨more, _⟩ := List.pairwise_cons.mp sorted
  rw [List.getElem?_append]
  split
  · exact Iff.rfl
  next behind =>
    have absent : n ∉ middle :: later := by
      intro member
      cases List.mem_cons.mp member with
      | inl same => exact absurd less (by rw [same]; exact Nat.lt_irrefl _)
      | inr member => exact absurd less (Nat.lt_asymm (more n member))
    constructor
    · intro found
      exact absurd (List.mem_of_getElem? found) absent
    · intro found
      exact absurd (List.getElem?_eq_some_iff.mp found).1 behind

/-- What comes after the node in the middle stands behind it. -/
theorem getElem?_of_more (sorted : (front ++ middle :: later).Pairwise (·.index < ·.index))
    (more : middle.index < n.index) {i : Nat} :
    (front ++ middle :: later)[i]? = some n ↔ ∃ j, later[j]? = some n ∧ front.length + 1 + j = i := by
  obtain ⟨_, _, less⟩ := List.pairwise_append.mp sorted
  constructor
  · intro found
    rw [List.getElem?_append] at found
    split at found
    next before =>
      have less := less n (List.mem_of_getElem? found) middle (List.mem_cons_self ..)
      exact absurd less (Nat.lt_asymm more)
    next behind =>
      rw [List.getElem?_cons] at found
      split at found
      · rw [Option.some.inj found] at more
        exact absurd more (Nat.lt_irrefl _)
      · exact ⟨i - front.length - 1, found, by omega⟩
  · rintro ⟨j, found, rfl⟩
    rw [List.getElem?_append_right (by omega), show front.length + 1 + j - front.length = j + 1 by omega,
      List.getElem?_cons_succ]
    exact found

/-- Halving finds a node at the place where it stands, if it stands anywhere. -/
theorem bisect?_eq_some_iff (sorted : nodes.Pairwise (·.index < ·.index)) {i : Nat} :
    bisect? n nodes = some i ↔ nodes[i]? = some n := by
  fun_induction bisect? n nodes generalizing i with
  | case1 nodes cut =>
      have short : nodes.length ≤ nodes.length / 2 := List.drop_eq_nil_iff.mp cut
      have empty : nodes = [] := List.length_eq_zero_iff.mp (by omega)
      simp [empty]
  | case2 nodes later cut =>
      have here : nodes[nodes.length / 2]? = some n := by
        rw [← List.head?_drop, cut, List.head?_cons]
      have within := (List.getElem?_eq_some_iff.mp here).1
      rw [Option.some_inj, ← here, ← List.getElem?_inj within (nodup_of_sorted sorted)]
      exact eq_comm
  | case3 nodes middle later cut other less ih =>
      have whole : nodes.take (nodes.length / 2) ++ middle :: later = nodes := by
        rw [← cut, List.take_append_drop]
      rw [ih (sorted.sublist (List.take_sublist ..)), ← getElem?_of_less (whole ▸ sorted) less, whole]
  | case4 nodes middle later cut other notLess ih =>
      have whole : nodes.take (nodes.length / 2) ++ middle :: later = nodes := by
        rw [← cut, List.take_append_drop]
      have half : (nodes.take (nodes.length / 2)).length = nodes.length / 2 := by
        rw [List.length_take]
        omega
      have more : middle.index < n.index := by
        have apart : n.index ≠ middle.index := fun same => other (congrArg NodeId.mk same)
        omega
      have behind : later.Pairwise (·.index < ·.index) :=
        (List.pairwise_cons.mp (List.pairwise_append.mp (whole ▸ sorted)).2.1).2
      have places := getElem?_of_more (whole ▸ sorted) more (i := i)
      rw [whole, half] at places
      rw [Option.map_eq_some_iff, places]
      exact exists_congr fun j => and_congr_left' (ih behind)

theorem isSome_bisect? (sorted : nodes.Pairwise (·.index < ·.index)) :
    (bisect? n nodes).isSome = true ↔ n ∈ nodes := by
  rw [Option.isSome_iff_exists, List.mem_iff_getElem?]
  exact exists_congr fun i => bisect?_eq_some_iff sorted

end

/-! ## The walk, one output at a time -/

theorem nodup_eraseDups {α : Type} [BEq α] [LawfulBEq α] (l : List α) : l.eraseDups.Nodup := by
  match l with
  | [] => exact List.nodup_nil
  | a :: l =>
      rw [List.eraseDups_cons, List.nodup_cons]
      exact ⟨by simp, nodup_eraseDups _⟩
termination_by l.length
decreasing_by exact Nat.lt_succ_of_le (List.length_filter_le ..)

namespace Graph

variable {g : Graph} {output : Port}

/-- An output that is taken up reaches the pure nodes that read it and have not been reached before, and puts
their outputs at the end of the queue. -/
inductive TakesUp (g : Graph) : List NodeId × List Port → List NodeId × List Port → Prop where
  | output {reached : List NodeId} {output : Port} {todo : List Port} :
      TakesUp g (reached, output :: todo)
        (reached ++ g.freshConsumers reached output,
          todo ++ (g.freshConsumers reached output).flatMap g.outputs)

/-- Each output that is taken up reaches a node or shortens the queue, so no walk goes on for ever. -/
theorem wellFounded_takesUp (g : Graph) : WellFounded fun later earlier => g.TakesUp earlier later := by
  refine Subrelation.wf (r := InvImage (Prod.Lex (· < ·) (· < ·))
    fun s => (g.unreached s.1, s.2.length)) ?_ (InvImage.wf _ (Prod.lex _ _).wf)
  intro later earlier takes
  cases takes with
  | @output reached output todo =>
      cases fresh : g.freshConsumers reached output with
      | nil =>
          rw [List.append_nil, List.flatMap_nil, List.append_nil]
          exact .right _ (Nat.lt_succ_self _)
      | cons n others =>
          have new : n ∈ g.freshConsumers reached output := by simp [fresh]
          obtain ⟨_, pure, unreached⟩ := mem_freshConsumers.mp new
          exact .left _ _ (unreached_lt (List.mem_cons_self ..) (mem_ids_of_isPure pure) unreached)

/-- The walk takes up outputs until the queue is empty. -/
theorem takesUp_walk (g : Graph) (reached : List NodeId) (todo : List Port) :
    Relation.ReflTransGen g.TakesUp (reached, todo) (g.walk reached todo, []) := by
  fun_induction walk g reached todo with
  | case1 reached => exact .refl
  | case2 reached output todo none ih =>
      have step : g.TakesUp (reached, output :: todo) _ := .output
      rw [List.isEmpty_iff.mp none, List.append_nil, List.flatMap_nil, List.append_nil] at step
      exact .head step ih
  | case3 reached output todo some ih => exact .head .output ih

/-- No node is reached twice. -/
theorem TakesUp.nodup {s s' : List NodeId × List Port} (takes : g.TakesUp s s') (once : s.1.Nodup) :
    s'.1.Nodup := by
  cases takes with
  | @output reached output todo =>
      refine once.append (nodup_eraseDups _) fun n old fresh => ?_
      exact (mem_freshConsumers.mp fresh).2.2 old

theorem nodup_of_takesUp {s s' : List NodeId × List Port} (takes : Relation.ReflTransGen g.TakesUp s s')
    (once : s.1.Nodup) : s'.1.Nodup := by
  induction takes with
  | refl => exact once
  | tail _ last ih => exact last.nodup ih

/-! ## Looking dependents up -/

/-- The dependents of an output are found by taking up outputs from it on until the queue is empty. -/
theorem exists_takesUp_dependents (driven : g.isPure output.node = false) :
    ∃ reached, Relation.ReflTransGen g.TakesUp ([], [output]) (reached, []) ∧ reached.Nodup ∧
      g.dependents output = g.ids.filter reached.contains := by
  have takes := g.takesUp_walk [] [output]
  refine ⟨_, takes, nodup_of_takesUp takes List.nodup_nil, ?_⟩
  simp [dependents, driven]

/-- What publishing an output of a node that is not pure looks up, and what it drops for it. -/
structure Evicts (g : Graph) (output : Port) : Prop where
  walk : ∃ reached, Relation.ReflTransGen g.TakesUp ([], [output]) (reached, []) ∧ reached.Nodup ∧
    g.dependents output = g.ids.filter reached.contains
  sorted : (g.dependents output).Pairwise (·.index < ·.index)
  members : ∀ n, n ∈ g.dependents output ↔ g.Derives output n
  found : ∀ n, (bisect? n (g.dependents output)).isSome = true ↔ g.Derives output n
  memo : ∀ (p : Pulse) v, (p.publish output v (g.dependents output)).memo =
    p.memo.filterKeys fun port => (bisect? port.node (g.dependents output)).isNone

/-- Between declared ports, whether or not the connections form cycles, no walk goes on for ever. The outputs
of pure nodes have no dependents. Those of an output of another node are the pure nodes that derive from it,
each once and in increasing order. Halving finds a node among them if it derives from the output and only
then, and publishing drops from the memo just the values of the nodes that it finds. -/
theorem dependents_exactly_derive (declared : ∀ e ∈ g.valueEdges, e.IsDeclared g.members) :
    (WellFounded fun later earlier => g.TakesUp earlier later) ∧
      ∀ output : Port, (g.isPure output.node = true → g.dependents output = []) ∧
        (g.isPure output.node = false → g.Evicts output) := by
  refine ⟨g.wellFounded_takesUp, fun output => ⟨fun pure => if_pos pure, fun driven => ?_⟩⟩
  have sorted := g.sorted_dependents output
  have members := fun n =>
    mem_dependents_iff (n := n) (fun e edge => (declared e edge).source_mem) driven
  refine ⟨exists_takesUp_dependents driven, sorted, members, fun n => ?_, fun p v => ?_⟩
  · rw [isSome_bisect? sorted, members]
  · have same : ∀ port : Port, (!(g.dependents output).contains port.node) =
        (bisect? port.node (g.dependents output)).isNone := by
      intro port
      rw [← Option.not_isSome, Bool.not_inj_iff, Bool.eq_iff_iff, isSome_bisect? sorted,
        List.contains_iff_mem]
    exact congrArg p.memo.filterKeys (funext same)

/-- A counter that drives a sum and an addition that reads itself. -/
def tangledUp : Graph where
  name := "tangled"
  config := {}
  members := tangled.members
  valueEdges := tangledEdges
  flowEdges := []

theorem dependents_exactly_derive_tangledUp :
    (∀ e ∈ tangledUp.valueEdges, e.IsDeclared tangledUp.members) ∧ tangledUp.Evicts ⟨⟨2⟩, 0⟩ := by
  have declared : ∀ e ∈ tangledUp.valueEdges, e.IsDeclared tangledUp.members := by
    intro e edge
    simp only [tangledUp, tangledEdges, List.mem_cons, List.not_mem_nil, or_false] at edge
    rcases edge with rfl | rfl | rfl | rfl <;> exact ⟨⟨_, rfl, by decide⟩, _, _, rfl, rfl⟩
  exact ⟨declared, ((dependents_exactly_derive declared).2 ⟨⟨2⟩, 0⟩).2 (by decide)⟩

end Graph

end FlowGraph
