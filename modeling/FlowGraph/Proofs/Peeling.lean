import Mathlib.Data.Fintype.Order
import FlowGraph.Graph.Peel

/-!
# What peeling leaves behind

A peeling under way is described by the edges that have not been released. The degrees count them, the
ready nodes have none left to wait for, and a node with degree zero that is not ready any more has no
edge left that starts at it. When nothing is ready, every stuck node therefore waits for another stuck
node, and among finitely many nodes this leads back to a cycle. The other way round, no edge that
starts on a cycle or behind one is ever released, since the first node of them to become ready would
wait for another.
-/

namespace FlowGraph

namespace Peel

/-- One node depends directly on another. -/
def Leads (edges : List Edge) (a b : Nat) : Prop :=
  (a, b) ∈ edges

/-- A node lies on a cycle or behind one. -/
def BehindCycle (edges : List Edge) (i : Nat) : Prop :=
  ∃ k, Relation.TransGen (Leads edges) k k ∧ Relation.ReflTransGen (Leads edges) k i

/-- Going back from node to node among finitely many, one meets a cycle. -/
theorem exists_cycle_of_back {n : Nat} {r : Nat → Nat → Prop} {S : Nat → Prop}
    (bound : ∀ i, S i → i < n) (back : ∀ i, S i → ∃ a, S a ∧ r a i) {i : Nat} (hi : S i) :
    ∃ k, Relation.TransGen r k k ∧ Relation.ReflTransGen r k i := by
  by_contra none
  let U := { k : Fin n // Relation.ReflTransGen r k i }
  let R : U → U → Prop := fun a b => Relation.TransGen r a.1 b.1
  have : IsTrans U R := ⟨fun _ _ _ => Relation.TransGen.trans⟩
  have : Std.Irrefl R := ⟨fun a h => none ⟨a.1, h, a.2⟩⟩
  have wf : WellFounded R := Finite.wellFounded_of_trans_of_irrefl R
  obtain ⟨m, hm, least⟩ := wf.has_min { u : U | S u.1 } ⟨⟨⟨i, bound i hi⟩, .refl⟩, hi⟩
  obtain ⟨a, ha, step⟩ := back m.1 hm
  exact least ⟨⟨a, bound a ha⟩, .head step m.2⟩ ha (.single step)

theorem release_eq (degree ready : List Nat) (t : Nat) :
    release (degree, ready) t = (degree.modify t (· - 1),
      if (degree.modify t (· - 1))[t]? = some 0 then ready ++ [t] else ready) := by
  unfold release
  dsimp only
  split <;> rfl

/-- What releasing some edges, given by their targets, does to the degrees. -/
theorem getElem?_foldl_release (targets : List Nat) (degree ready : List Nat) (i : Nat) :
    (targets.foldl release (degree, ready)).1[i]? = degree[i]?.map (· - targets.count i) := by
  induction targets generalizing degree ready with
  | nil => simp
  | cons t rest ih =>
      rw [List.foldl_cons, release_eq, ih, List.getElem?_modify]
      by_cases h : t = i
      · subst h
        cases degree[t]? <;> simp [Nat.sub_sub, Nat.add_comm]
      · simp [h]

/-- Whoever is ready after a release was so before, or has nothing left to wait for. -/
theorem zero_of_mem_foldl_release {targets degree ready : List Nat} {i : Nat}
    (h : i ∈ (targets.foldl release (degree, ready)).2) :
    i ∈ ready ∨ (targets.foldl release (degree, ready)).1[i]? = some 0 := by
  induction targets generalizing degree ready with
  | nil => exact .inl h
  | cons t rest ih =>
      rw [List.foldl_cons, release_eq] at h ⊢
      refine (ih h).elim (fun member => ?_) .inr
      split at member
      · next zero =>
          rcases List.mem_append.mp member with old | new
          · exact .inl old
          · rw [List.mem_singleton.mp new, getElem?_foldl_release, zero]
            simp
      · exact .inl member

/-- Releasing edges forgets nobody who is ready. -/
theorem mem_foldl_release_of_ready {targets degree ready : List Nat} {i : Nat} (h : i ∈ ready) :
    i ∈ (targets.foldl release (degree, ready)).2 := by
  induction targets generalizing degree ready with
  | nil => exact h
  | cons t rest ih =>
      rw [List.foldl_cons, release_eq]
      refine ih ?_
      split
      · exact List.mem_append_left _ h
      · exact h

/-- A target of a released edge that has nothing left to wait for becomes ready. -/
theorem mem_foldl_release_of_zero {targets degree ready : List Nat} {i : Nat} (target : i ∈ targets)
    (zero : (targets.foldl release (degree, ready)).1[i]? = some 0) :
    i ∈ (targets.foldl release (degree, ready)).2 := by
  induction targets generalizing degree ready with
  | nil => simp at target
  | cons t rest ih =>
      by_cases later : i ∈ rest
      · rw [List.foldl_cons] at zero ⊢
        exact ih later zero
      · obtain rfl : i = t := (List.mem_cons.mp target).resolve_right later
        have last : (degree.modify i (· - 1))[i]? = some 0 := by
          rw [getElem?_foldl_release] at zero
          rw [List.getElem?_modify]
          simpa [List.count_eq_zero.mpr later, Nat.add_comm] using zero
        rw [List.foldl_cons, release_eq, if_pos last]
        exact mem_foldl_release_of_ready (List.mem_append_right _ (List.mem_singleton_self i))

/-- The edges into a node are those that start at a given node and the others. -/
theorem countP_target (edges : List Edge) (node i : Nat) :
    edges.countP (·.2 = i) =
      (successors edges node).count i + (without edges node).countP (·.2 = i) := by
  induction edges with
  | nil => rfl
  | cons e rest ih =>
      by_cases source : e.1 = node <;> by_cases target : e.2 = i <;>
        simp_all [successors, without] <;> omega

namespace BehindCycle

variable {edges : List Edge} {a b i : Nat}

theorem next (h : BehindCycle edges a) (step : Leads edges a b) : BehindCycle edges b := by
  obtain ⟨k, cycle, path⟩ := h
  exact ⟨k, cycle, path.tail step⟩

/-- A node behind a cycle waits for another one. -/
theorem back (h : BehindCycle edges i) : ∃ a, BehindCycle edges a ∧ Leads edges a i := by
  obtain ⟨k, cycle, path⟩ := h
  obtain ⟨a, front, last⟩ := Relation.TransGen.tail'_iff.mp (cycle.trans_left path)
  exact ⟨a, ⟨k, cycle, front⟩, last⟩

end BehindCycle

/-- A peeling under way: what the degrees, the edges that are left and the ready nodes have to do with
each other and with all the edges there were. -/
structure Underway (n : Nat) (all : List Edge) (degree : List Nat) (edges : List Edge)
    (ready : List Nat) : Prop where
  length : degree.length = n
  counted : ∀ i < n, degree[i]? = some (edges.countP (·.2 = i))
  left : edges ⊆ all
  free : ∀ i ∈ ready, degree[i]? = some 0
  settled : ∀ i, degree[i]? = some 0 → i ∈ ready ∨ ∀ e ∈ edges, e.1 ≠ i
  kept : ∀ e ∈ all, BehindCycle all e.1 → e ∈ edges

namespace Underway

variable {n : Nat} {all edges : List Edge} {degree ready : List Nat} {node : Nat}

theorem start (n : Nat) (all : List Edge) :
    Underway n all (degrees n all) all
      ((List.range n).filter fun i => (degrees n all)[i]? = some 0) where
  length := by simp [degrees]
  counted i hi := by simp [degrees, hi]
  left := List.Subset.refl all
  free i hi := by simpa using (List.mem_filter.mp hi).2
  settled i hi := by
    have bound : i < n := by
      simpa [degrees] using (List.getElem?_eq_some_iff.mp hi).1
    exact .inl (List.mem_filter.mpr ⟨List.mem_range.mpr bound, by simpa using hi⟩)
  kept _ he _ := he

/-- A node with nothing left to wait for is not behind a cycle. -/
theorem not_behindCycle (h : Underway n all degree edges ready) (zero : degree[node]? = some 0) :
    ¬ BehindCycle all node := by
  intro behind
  obtain ⟨a, before, step⟩ := behind.back
  have bound : node < n := h.length ▸ (List.getElem?_eq_some_iff.mp zero).1
  have count : edges.countP (·.2 = node) = 0 := by
    simpa [h.counted node bound] using zero
  exact List.countP_eq_zero.mp count _ (h.kept _ step before) (by simp)

theorem skip (h : Underway n all degree edges (node :: ready))
    (last : (successors edges node).isEmpty = true) : Underway n all degree edges ready where
  length := h.length
  counted := h.counted
  left := h.left
  free i hi := h.free i (List.mem_cons_of_mem _ hi)
  settled i hi := by
    rcases h.settled i hi with member | gone
    · rcases List.mem_cons.mp member with rfl | other
      · refine .inr fun e he source => ?_
        have : e.2 ∈ successors edges i :=
          List.mem_map.mpr ⟨e, List.mem_filter.mpr ⟨he, by simpa using source⟩, rfl⟩
        rw [List.isEmpty_iff.mp last] at this
        simp at this
      · exact .inl other
    · exact .inr gone
  kept := h.kept

theorem take (h : Underway n all degree edges (node :: ready)) :
    Underway n all ((successors edges node).foldl release (degree, [])).1 (without edges node)
      (ready ++ ((successors edges node).foldl release (degree, [])).2) where
  length := by
    have same := fun i => getElem?_foldl_release (successors edges node) degree [] i
    refine Nat.le_antisymm ?_ ?_
    · simpa [h.length] using same n
    · refine Nat.le_of_not_lt fun short => ?_
      have inside := same ((successors edges node).foldl release (degree, [])).1.length
      rw [List.getElem?_eq_none (Nat.le_refl _),
        List.getElem?_eq_getElem (h.length.symm ▸ short)] at inside
      simp at inside
  counted i hi := by
    rw [getElem?_foldl_release, h.counted i hi, countP_target edges node i]
    simp
  left _ he := h.left (List.mem_of_mem_filter he)
  free i hi := by
    rcases List.mem_append.mp hi with old | new
    · rw [getElem?_foldl_release, h.free i (List.mem_cons_of_mem _ old)]
      simp
    · exact (zero_of_mem_foldl_release new).resolve_left (List.not_mem_nil)
  settled i hi := by
    by_cases target : i ∈ successors edges node
    · exact .inl (List.mem_append_right _ (mem_foldl_release_of_zero target hi))
    · rw [getElem?_foldl_release, List.count_eq_zero.mpr target] at hi
      rcases h.settled i (by simpa using hi) with member | gone
      · rcases List.mem_cons.mp member with rfl | other
        · exact .inr fun e he => by simpa using (List.mem_filter.mp he).2
        · exact .inl (List.mem_append_left _ other)
      · exact .inr fun e he => gone e (List.mem_of_mem_filter he)
  kept e he behind := by
    refine List.mem_filter.mpr ⟨h.kept e he behind, ?_⟩
    have zero := h.free node (List.mem_cons_self ..)
    simpa using fun source : e.1 = node => h.not_behindCycle zero (source ▸ behind)

/-- Peeling goes on until nobody is ready. -/
theorem run (h : Underway n all degree edges ready) :
    ∃ rest, Underway n all (run degree edges ready) rest [] := by
  fun_induction Peel.run degree edges ready with
  | case1 degree edges => exact ⟨edges, h⟩
  | case2 degree edges node ready last ih => exact ih (h.skip last)
  | case3 degree edges node ready more released freed eq ih =>
      refine ih ?_
      have := h.take
      rwa [eq] at this

end Underway

/-- The nodes that peeling leaves behind are those on a cycle and those behind one. -/
theorem remaining_pos_iff {n : Nat} {edges : List Edge} (bound : ∀ e ∈ edges, e.1 < n) {i : Nat}
    (hi : i < n) :
    (∃ d, (remaining n edges)[i]? = some d ∧ 0 < d) ↔ BehindCycle edges i := by
  obtain ⟨rest, final⟩ := (Underway.start n edges).run
  change Underway n edges (remaining n edges) rest [] at final
  have stuck : ∀ j < n, (remaining n edges)[j]? ≠ some 0 →
      ∃ a, (a < n ∧ (remaining n edges)[a]? ≠ some 0) ∧ Leads edges a j := by
    intro j hj more
    rw [final.counted j hj] at more
    obtain ⟨e, he, target⟩ := List.countP_pos_iff.mp (Nat.pos_of_ne_zero fun z => more (by rw [z]))
    refine ⟨e.1, ⟨bound e (final.left he), fun zero => ?_⟩, ?_⟩
    · exact ((final.settled e.1 zero).resolve_left List.not_mem_nil) e he rfl
    · have : e.2 = j := by simpa using target
      exact this ▸ final.left he
  constructor
  · rintro ⟨d, hd, pos⟩
    refine exists_cycle_of_back (S := fun j => j < n ∧ (remaining n edges)[j]? ≠ some 0)
      (fun _ h => h.1) (fun j h => stuck j h.1 h.2) ⟨hi, ?_⟩
    rw [hd]
    simpa using Nat.pos_iff_ne_zero.mp pos
  · intro behind
    refine ⟨_, final.counted i hi, Nat.pos_of_ne_zero fun zero => ?_⟩
    exact final.not_behindCycle (by rw [final.counted i hi, zero]) behind

/-- Peeling reports the first node that lies on a cycle or behind one. -/
theorem stuck?_eq_some_iff {n : Nat} {edges : List Edge} (bound : ∀ e ∈ edges, e.1 < n) {i : Nat} :
    stuck? n edges = some i ↔
      i < n ∧ BehindCycle edges i ∧ ∀ j < i, ¬ BehindCycle edges j := by
  obtain ⟨rest, final⟩ := (Underway.start n edges).run
  have length : (remaining n edges).length = n := final.length
  rw [stuck?, List.findIdx?_eq_some_iff_getElem]
  constructor
  · rintro ⟨hi, pos, before⟩
    have inside : i < n := length ▸ hi
    refine ⟨inside, (remaining_pos_iff bound inside).mp
      ⟨_, List.getElem?_eq_getElem hi, by simpa using pos⟩, fun j hj behind => ?_⟩
    obtain ⟨d, hd, more⟩ := (remaining_pos_iff bound (Nat.lt_trans hj inside)).mpr behind
    have zero := before j hj
    rw [(List.getElem?_eq_some_iff.mp hd).2] at zero
    exact zero (by simpa using more)
  · rintro ⟨hi, behind, before⟩
    obtain ⟨d, hd, pos⟩ := (remaining_pos_iff bound hi).mpr behind
    obtain ⟨inside, eq⟩ := List.getElem?_eq_some_iff.mp hd
    refine ⟨inside, by simpa [eq] using pos, fun j hj more => before j hj ?_⟩
    have below : j < (remaining n edges).length := Nat.lt_trans hj inside
    exact (remaining_pos_iff bound (Nat.lt_trans hj hi)).mp
      ⟨_, List.getElem?_eq_getElem below, by simpa using more⟩

/-- Peeling gets through exactly if there is no cycle. -/
theorem stuck?_eq_none_iff {n : Nat} {edges : List Edge} (bound : ∀ e ∈ edges, e.1 < n) :
    stuck? n edges = none ↔ ∀ i, ¬ Relation.TransGen (Leads edges) i i := by
  constructor
  · intro free i cycle
    obtain ⟨b, first, _⟩ := Relation.TransGen.head'_iff.mp cycle
    have hi : i < n := bound _ first
    obtain ⟨d, hd, pos⟩ := (remaining_pos_iff bound hi).mpr ⟨i, cycle, .refl⟩
    exact absurd (List.findIdx?_eq_none_iff.mp free d (List.mem_of_getElem? hd))
      (by simpa using Nat.pos_iff_ne_zero.mp pos)
  · intro acyclic
    cases found : stuck? n edges with
    | none => rfl
    | some i =>
        obtain ⟨_, ⟨k, cycle, _⟩, _⟩ := (stuck?_eq_some_iff bound).mp found
        exact absurd cycle (acyclic k)

end Peel

end FlowGraph
