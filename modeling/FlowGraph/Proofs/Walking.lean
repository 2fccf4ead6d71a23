import FlowGraph.Graph.Dependents

/-!
# Walks miss nobody

Evicting the dependents of an output is enough only if they include everything that derives from it.
While a walk goes on, a node that derives from an output already taken up has been reached, and the
outputs of whoever has been reached are taken up or still to follow. When nothing is left to follow, the
nodes reached are therefore closed under reading.
-/

namespace FlowGraph

namespace Graph

variable {g : Graph} {n k : NodeId} {output : Port}

/-- A pure node reads an output. -/
def Reads (g : Graph) (n : NodeId) (output : Port) : Prop :=
  n ∈ g.consumers output ∧ g.isPure n = true

theorem reads_of_mem_sources {index : Nat} (pure : g.isPure n = true)
    (source : output ∈ g.sources ⟨n, index⟩) : g.Reads n output := by
  obtain ⟨e, he, rfl⟩ := List.mem_map.mp source
  obtain ⟨edge, target⟩ := List.mem_filter.mp he
  refine ⟨List.mem_map.mpr ⟨e, List.mem_filter.mpr ⟨edge, by simp⟩, ?_⟩, pure⟩
  rw [of_decide_eq_true target]

/-- What a walk has reached when it is over, given what it had reached and had still to follow. -/
structure Followed (g : Graph) (reached : List NodeId) (todo : List Port) (result : List NodeId) :
    Prop where
  kept : ∀ n ∈ reached, n ∈ result
  followed : ∀ output ∈ todo, ∀ n, g.Reads n output → n ∈ result
  closed : ∀ k ∈ result, k ∈ reached ∨ ∀ output ∈ g.outputs k, ∀ n, g.Reads n output → n ∈ result

theorem followed_walk (g : Graph) (reached : List NodeId) (todo : List Port) :
    g.Followed reached todo (g.walk reached todo) := by
  fun_induction walk g reached todo with
  | case1 reached => exact ⟨fun _ h => h, by simp, fun k h => .inl h⟩
  | case2 reached output todo none ih =>
      refine ⟨ih.kept, fun o ho n reads => ?_, ih.closed⟩
      rcases List.mem_cons.mp ho with rfl | later
      · by_cases old : n ∈ reached
        · exact ih.kept n old
        · have fresh : n ∈ g.freshConsumers reached o := mem_freshConsumers.mpr ⟨reads.1, reads.2, old⟩
          rw [List.isEmpty_iff.mp none] at fresh
          simp at fresh
      · exact ih.followed o later n reads
  | case3 reached output todo some ih =>
      refine ⟨fun n old => ih.kept n (List.mem_append_left _ old), fun o ho n reads => ?_,
        fun k hk => ?_⟩
      · rcases List.mem_cons.mp ho with rfl | later
        · by_cases old : n ∈ reached
          · exact ih.kept n (List.mem_append_left _ old)
          · have fresh : n ∈ g.freshConsumers reached o :=
              mem_freshConsumers.mpr ⟨reads.1, reads.2, old⟩
            exact ih.kept n (List.mem_append_right _ fresh)
        · exact ih.followed o (List.mem_append_left _ later) n reads
      · rcases ih.closed k hk with before | closed
        · rcases List.mem_append.mp before with old | fresh
          · exact .inl old
          · refine .inr fun o ho n reads => ih.followed o (List.mem_append_right _ ?_) n reads
            exact List.mem_flatMap.mpr ⟨k, fresh, ho⟩
        · exact .inr closed

/-- The pure nodes that read a published output are among its dependents. -/
theorem mem_dependents_of_reads (driven : g.isPure output.node = false) (reads : g.Reads n output) :
    n ∈ g.dependents output := by
  have reached := (followed_walk g [] [output]).followed output (List.mem_singleton_self _) n reads
  simp only [dependents, driven, Bool.false_eq_true, if_false]
  exact List.mem_filter.mpr ⟨mem_ids_of_isPure reads.2, by simpa using reached⟩

/-- The pure nodes that read an output of a dependent are dependents too. -/
theorem mem_dependents_of_dependent {o : Port} (dependent : k ∈ g.dependents o)
    (output' : output ∈ g.outputs k) (reads : g.Reads n output) : n ∈ g.dependents o := by
  unfold dependents at dependent ⊢
  split at dependent
  next => simp at dependent
  next driven =>
    have reached : k ∈ g.walk [] [o] := by simpa using (List.mem_filter.mp dependent).2
    have closed := ((followed_walk g [] [o]).closed k reached).resolve_left List.not_mem_nil
    rw [if_neg driven]
    exact List.mem_filter.mpr ⟨mem_ids_of_isPure reads.2, by simpa using closed output output' n reads⟩

end Graph

end FlowGraph
