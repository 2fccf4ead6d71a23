import FlowGraph.Proofs.Peeling

/-!
# Draining the queue of ready nodes

Peeling as a loop over one queue that counts: every pass takes the node that has waited longest and lowers
the degrees of the nodes that depend on it, once for each edge, whichever order the edges are listed in.
Between two passes the degrees count the edges that start at nodes not taken yet, and the nodes that have
ever been put into the queue are those of degree zero. So no degree is lowered below zero, no node is put
into the queue twice, and the loop ends with every node taken that is neither on a cycle nor behind one.
-/

namespace FlowGraph

namespace Peel

/-! ## Within a pass -/

/-- The degrees count the edges that are pending, given by their targets, and the nodes without a pending
edge are those that have been put into the queue, each of them once. -/
structure Tally.Counts (n : Nat) (pending : List Nat) (t : Tally) : Prop where
  length : t.degree.length = n
  counted : ∀ i < n, t.degree[i]? = some (pending.count i)
  queued : ∀ i, i ∈ t.queued ↔ i < n ∧ i ∉ pending
  once : t.queued.Nodup

/-- Some nodes join the queue, and nobody leaves it. -/
structure Tally.Joined (t next : Tally) (freed : List Nat) : Prop where
  waiting : next.waiting = t.waiting ++ freed
  queued : next.queued = t.queued ++ freed
  taken : next.taken = t.taken

variable {n : Nat} {pending pending' : List Nat} {t : Tally}

theorem Tally.Counts.queued_iff (h : t.Counts n pending) {i : Nat} (hi : i < n) :
    i ∈ t.queued ↔ i ∉ pending := by
  rw [h.queued, and_iff_right hi]

theorem Tally.Counts.of_perm (h : t.Counts n pending) (same : pending.Perm pending') :
    t.Counts n pending' where
  length := h.length
  counted i hi := by rw [h.counted i hi, same.count_eq]
  queued i := by rw [h.queued, same.mem_iff]
  once := h.once

/-- A node with a pending edge has a degree that can be lowered. -/
theorem Tally.Counts.lower? {target : Nat} (h : t.Counts n (target :: pending)) (bound : target < n) :
    ∃ next freed, t.lower? target = some next ∧ next.Counts n pending ∧ t.Joined next freed := by
  have here : t.degree[target]? = some (pending.count target + 1) := by
    rw [h.counted target bound, List.count_cons_self]
  have counted : ∀ i < n, (t.degree.set target (pending.count target))[i]? = some (pending.count i) := by
    intro i hi
    by_cases same : target = i
    · subst same
      rw [List.getElem?_set_self (h.length.symm ▸ hi)]
    · rw [List.getElem?_set_ne same, h.counted i hi, List.count_cons_of_ne same]
  rw [Tally.lower?, here]
  dsimp only
  split
  next none =>
    have gone : target ∉ pending := List.count_eq_zero.mp none
    refine ⟨_, [target], rfl, ⟨by rw [List.length_set, h.length], counted, fun i => ?_, ?_⟩, ⟨rfl, rfl, rfl⟩⟩
    · rw [List.mem_append, h.queued, List.mem_singleton, List.mem_cons, not_or]
      constructor
      · rintro (⟨hi, _, free⟩ | rfl)
        · exact ⟨hi, free⟩
        · exact ⟨bound, gone⟩
      · rintro ⟨hi, free⟩
        by_cases same : i = target
        · exact .inr same
        · exact .inl ⟨hi, same, free⟩
    · have new : target ∉ t.queued := fun old => ((h.queued target).mp old).2 (List.mem_cons_self ..)
      exact h.once.append (List.nodup_singleton _) (List.disjoint_singleton.mpr new)
  next more =>
    refine ⟨_, [], rfl, ⟨by rw [List.length_set, h.length], counted, fun i => ?_, h.once⟩,
      ⟨(List.append_nil _).symm, (List.append_nil _).symm, rfl⟩⟩
    have left : target ∈ pending := List.count_pos_iff.mp (Nat.pos_of_ne_zero more)
    rw [h.queued, List.mem_cons, not_or]
    exact and_congr_right fun _ => and_iff_right_of_imp fun free same => free (same ▸ left)

/-- Pending edges can be released one after the other. -/
theorem Tally.Counts.lowerAll {targets : List Nat} (h : t.Counts n (targets ++ pending))
    (bound : ∀ target ∈ targets, target < n) :
    ∃ next freed, targets.foldlM Tally.lower? t = some next ∧ next.Counts n pending ∧
      t.Joined next freed := by
  induction targets generalizing t with
  | nil => exact ⟨t, [], rfl, h, (List.append_nil _).symm, (List.append_nil _).symm, rfl⟩
  | cons target targets ih =>
      obtain ⟨here, later⟩ := List.forall_mem_cons.mp bound
      obtain ⟨mid, first, lowered, counts, joined⟩ := h.lower? here
      obtain ⟨next, others, released, counts', joined'⟩ := ih counts later
      refine ⟨next, first ++ others, ?_, counts', ?_, ?_, joined'.taken.trans joined.taken⟩
      · rw [List.foldlM_cons, lowered]
        exact released
      · rw [joined'.waiting, joined.waiting, List.append_assoc]
      · rw [joined'.queued, joined.queued, List.append_assoc]

/-! ## Between passes -/

/-- The targets of the edges that start at nodes other than some. -/
def pendingAfter (edges : List Edge) (before : List Nat) : List Nat :=
  (edges.filter fun e => !before.contains e.1).map Prod.snd

variable {edges : List Edge} {before : List Nat} {node : Nat}

theorem mem_pendingAfter {i : Nat} :
    i ∈ pendingAfter edges before ↔ ∃ a, Leads edges a i ∧ a ∉ before := by
  simp [pendingAfter, Leads]

/-- Taking a node releases the edges that start at it. -/
theorem pendingAfter_perm (new : node ∉ before) :
    (pendingAfter edges before).Perm
      (successors edges node ++ pendingAfter edges (before ++ [node])) := by
  have split := List.filter_append_perm (fun e : Edge => decide (e.1 = node))
    (edges.filter fun e => !before.contains e.1)
  have first : (edges.filter fun e => !before.contains e.1).filter (fun e => decide (e.1 = node)) =
      edges.filter (·.1 = node) := by
    rw [List.filter_filter]
    congr 1
    funext e
    by_cases here : e.1 = node <;> simp [here, new]
  have others : (edges.filter fun e => !before.contains e.1).filter (fun e => !decide (e.1 = node)) =
      edges.filter fun e => !(before ++ [node]).contains e.1 := by
    rw [List.filter_filter]
    congr 1
    funext e
    by_cases here : e.1 = node <;> simp [here]
  rw [first, others] at split
  have targets := (split.map Prod.snd).symm
  rwa [List.map_append] at targets

/-- Where the loop stands between two passes, after the nodes `before` have been taken. -/
structure Tally.Between (n : Nat) (edges : List Edge) (before : List Nat) (t : Tally) : Prop where
  counts : t.Counts n (pendingAfter edges before)
  queued : t.queued = before ++ t.waiting
  taken : t.taken = before.length
  free : ∀ i ∈ t.queued, ¬ BehindCycle edges i

theorem Tally.between_start (n : Nat) (edges : List Edge) : (start n edges).Between n edges [] := by
  have all : pendingAfter edges [] = edges.map Prod.snd := by simp [pendingAfter]
  have count : ∀ i, edges.countP (·.2 = i) = (edges.map Prod.snd).count i := by
    intro i
    rw [List.count, List.countP_map]
    rfl
  have counted : ∀ i < n, (degrees n edges)[i]? = some ((edges.map Prod.snd).count i) := by
    intro i hi
    simp [degrees, hi, count]
  have ready : ∀ i, i ∈ (start n edges).queued ↔ i < n ∧ i ∉ edges.map Prod.snd := by
    intro i
    rw [start, List.mem_filter, List.mem_range]
    refine and_congr_right fun hi => ?_
    rw [counted i hi, decide_eq_true_iff, Option.some_inj, List.count_eq_zero]
  refine ⟨⟨by simp [start, degrees], all ▸ counted, all ▸ ready, ?_⟩, rfl, rfl, fun i hi behind => ?_⟩
  · exact List.nodup_range.filter _
  · obtain ⟨a, _, step⟩ := behind.back
    exact ((ready i).mp hi).2 (List.mem_map.mpr ⟨(a, i), step, rfl⟩)

/-- A pass takes its node and releases the edges that start there. -/
theorem Tally.Between.pass (h : t.Between n edges before) (bound : ∀ e ∈ edges, e.2 < n)
    {rest : List Nat} (first : t.waiting = node :: rest) :
    ∃ next, t.pass? edges node rest = some next ∧ next.Between n edges (before ++ [node]) := by
  have queued : t.queued = before ++ [node] ++ rest := by rw [h.queued, first, List.append_assoc]; rfl
  have new : node ∉ before := by
    have once := h.counts.once
    rw [queued, List.append_assoc] at once
    exact fun old => List.disjoint_of_nodup_append once old (List.mem_cons_self ..)
  have counts := h.counts.of_perm (pendingAfter_perm new)
  have inside : ∀ target ∈ successors edges node, target < n := by
    intro target member
    obtain ⟨e, edge, rfl⟩ := List.mem_map.mp member
    exact bound e (List.mem_of_mem_filter edge)
  have counts : ({ t with waiting := rest, taken := t.taken + 1 } : Tally).Counts n
      (successors edges node ++ pendingAfter edges (before ++ [node])) := { counts with }
  obtain ⟨next, freed, passes, counts', joined⟩ := counts.lowerAll inside
  refine ⟨next, passes, counts', ?_, ?_, fun i member behind => ?_⟩
  · rw [joined.queued, joined.waiting, queued, List.append_assoc]
  · rw [joined.taken, h.taken, List.length_append, List.length_singleton]
  · -- A node behind a cycle waits for another one, which has not been taken.
    obtain ⟨a, before', step⟩ := behind.back
    have untaken : a ∉ before ++ [node] := fun taken =>
      h.free a (queued ▸ List.mem_append_left rest taken) before'
    exact ((counts'.queued i).mp member).2 (mem_pendingAfter.mpr ⟨a, step, untaken⟩)

/-- The nodes that have been taken are different nodes. -/
theorem Tally.Between.subperm (h : t.Between n edges before) : before.Subperm (List.range n) := by
  have once := h.counts.once
  rw [h.queued] at once
  refine List.subperm_of_subset (List.nodup_append.mp once).1 fun i taken => ?_
  have member : i ∈ t.queued := h.queued ▸ List.mem_append_left _ taken
  exact List.mem_range.mpr ((h.counts.queued i).mp member).1

/-- The loop comes to its end. -/
theorem Tally.Between.drains (h : t.Between n edges before) (bound : ∀ e ∈ edges, e.2 < n) :
    ∃ last all, Drains edges t last ∧ last.Between n edges all ∧ last.waiting = [] := by
  -- Every pass takes one more of the nodes.
  induction fewer : n - before.length generalizing t before with
  | zero =>
      cases waiting : t.waiting with
      | nil => exact ⟨t, before, .idle waiting, h, waiting⟩
      | cons node rest =>
          obtain ⟨next, _, between⟩ := h.pass bound waiting
          have all := between.subperm.length_le
          simp at all
          omega
  | succ k ih =>
      cases waiting : t.waiting with
      | nil => exact ⟨t, before, .idle waiting, h, waiting⟩
      | cons node rest =>
          obtain ⟨next, passes, between⟩ := h.pass bound waiting
          have less : n - (before ++ [node]).length = k := by
            rw [List.length_append, List.length_singleton]
            omega
          obtain ⟨last, all, drains, ends⟩ := ih between less
          exact ⟨last, all, .pass waiting passes drains, ends⟩

/-- When the queue is empty, the nodes with edges left are those on a cycle or behind one. -/
theorem Tally.Between.not_mem_iff (h : t.Between n edges before) (idle : t.waiting = [])
    (bound : ∀ e ∈ edges, e.1 < n) {i : Nat} (hi : i < n) : i ∉ before ↔ BehindCycle edges i := by
  have queued : t.queued = before := by rw [h.queued, idle, List.append_nil]
  constructor
  · intro untaken
    refine exists_cycle_of_back (S := fun j => j < n ∧ j ∉ before) (fun _ h => h.1) ?_ ⟨hi, untaken⟩
    rintro j ⟨hj, untaken⟩
    have pending : j ∈ pendingAfter edges before := by
      by_contra none
      exact untaken (queued ▸ (h.counts.queued_iff hj).mpr none)
    obtain ⟨a, step, untaken'⟩ := mem_pendingAfter.mp pending
    exact ⟨a, ⟨bound _ step, untaken'⟩, step⟩
  · exact fun behind taken => h.free i (queued.symm ▸ taken) behind

/-- When the queue is empty, the loop reports what peeling leaves behind. -/
theorem Tally.Between.stuck?_eq (h : t.Between n edges before) (idle : t.waiting = [])
    (bound : ∀ e ∈ edges, e.1 < n) : t.stuck? n = Peel.stuck? n edges := by
  have queued : t.queued = before := by rw [h.queued, idle, List.append_nil]
  have left : ∀ j < n, (0 < (pendingAfter edges before).count j ↔ BehindCycle edges j) := by
    intro j hj
    have untaken : j ∉ before ↔ j ∈ pendingAfter edges before := by
      rw [← not_iff_not, not_not, ← h.counts.queued_iff hj, queued]
    rw [← h.not_mem_iff idle bound hj, untaken, List.count_pos_iff]
  cases found : Peel.stuck? n edges with
  | none =>
      have all : List.range n ⊆ before := by
        intro i hi
        by_contra untaken
        have behind := (h.not_mem_iff idle bound (List.mem_range.mp hi)).mp untaken
        obtain ⟨k, cycle, _⟩ := behind
        exact (stuck?_eq_none_iff bound).mp found k cycle
      have enough := (List.subperm_of_subset List.nodup_range all).length_le
      rw [List.length_range, ← h.taken] at enough
      exact if_neg (Nat.not_lt.mpr enough)
  | some i =>
      obtain ⟨hi, behind, first⟩ := (stuck?_eq_some_iff bound).mp found
      have missing : t.taken < n := by
        have fewer : (i :: before).Subperm (List.range n) := by
          refine List.subperm_of_subset ?_ (List.cons_subset.mpr ⟨List.mem_range.mpr hi, h.subperm.subset⟩)
          exact List.nodup_cons.mpr ⟨(h.not_mem_iff idle bound hi).mpr behind, queued ▸ h.counts.once⟩
        have := fewer.length_le
        rw [List.length_cons, List.length_range, ← h.taken] at this
        exact this
      have reported : t.degree.findIdx? (0 < ·) = some i := by
        rw [List.findIdx?_eq_some_iff_getElem]
        have at' : ∀ j (hj : j < t.degree.length), t.degree[j] = (pendingAfter edges before).count j := by
          intro j hj
          exact Option.some.inj ((List.getElem?_eq_getElem hj).symm.trans (h.counts.counted j (h.counts.length ▸ hj)))
        refine ⟨h.counts.length.symm ▸ hi, ?_, fun j hj => ?_⟩
        · rw [at']
          simpa using (left i hi).mpr behind
        · rw [at']
          simpa using mt (left j (Nat.lt_trans hj hi)).mp (first j hj)
      rw [Tally.stuck?, if_pos missing, reported]
      rfl

/-- Peeling does not depend on the order of the edges. -/
theorem stuck?_congr {edges' : List Edge} (same : ∀ e, e ∈ edges ↔ e ∈ edges')
    (bound : ∀ e ∈ edges, e.1 < n) : stuck? n edges = stuck? n edges' := by
  have leads : Leads edges = Leads edges' := by
    funext a b
    exact propext (same (a, b))
  have behind : BehindCycle edges = BehindCycle edges' := by
    funext i
    rw [BehindCycle, BehindCycle, leads]
  have bound' : ∀ e ∈ edges', e.1 < n := fun e edge => bound e ((same e).mpr edge)
  apply Option.ext
  intro i
  rw [stuck?_eq_some_iff bound, stuck?_eq_some_iff bound', behind]

end Peel

end FlowGraph
