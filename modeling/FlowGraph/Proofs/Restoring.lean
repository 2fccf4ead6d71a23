import FlowGraph.Proofs.Reading

/-!
# What resetting clears

A node's reset clears the node's own store and no other. So resetting all members empties exactly those stores
whose nodes say so. No other store ever has anything in it: what the programs of catalogue nodes put into their
stores, resetting these nodes clears. So there is nothing left in any store once such a graph has been reset.
-/

namespace FlowGraph

namespace World

variable {w v : World} {n : NodeId} {t : ValueType} {resets : List (NodeId × Reset)}

/-- A store that nobody clears stays as it is. -/
theorem get?_kept_undoAll_of_not_mem (spared : ∀ t, (n, .store t) ∉ resets) :
    (w.undoAll resets).kept.get? n = w.kept.get? n := by
  induction resets generalizing w with
  | nil => rfl
  | cons step rest ih =>
      obtain ⟨k, r⟩ := step
      rw [undoAll, ih fun t later => spared t (List.mem_cons_of_mem _ later)]
      cases r with
      | store t =>
          have other : n ≠ k := by
            rintro rfl
            exact spared t List.mem_cons_self
          rw [kept_undo_store, Table.get?_erase, if_neg other]
      | setCell name d => rfl

/-- A store that somebody clears is empty in the end. -/
theorem get?_kept_undoAll_of_mem (cleared : (n, .store t) ∈ resets) :
    (w.undoAll resets).kept.get? n = none := by
  induction resets generalizing w t with
  | nil => cases cleared
  | cons step rest ih =>
      by_cases again : ∃ t, (n, .store t) ∈ rest
      · obtain ⟨t, later⟩ := again
        exact ih later
      · have first : step = (n, .store t) := by
          rcases List.mem_cons.mp cleared with here | later
          · exact here.symm
          · exact absurd ⟨t, later⟩ again
        subst first
        rw [undoAll, get?_kept_undoAll_of_not_mem (not_exists.mp again), kept_undo_store, Table.get?_erase,
          if_pos rfl]

/-- What is kept after resetting depends on what was kept before and on nothing else. -/
theorem kept_undoAll_congr (same : w.kept = v.kept) : (w.undoAll resets).kept = (v.undoAll resets).kept := by
  induction resets generalizing w v with
  | nil => exact same
  | cons step rest ih =>
      obtain ⟨n, r⟩ := step
      refine ih ?_
      cases r with
      | store t => exact congrArg (·.erase n) same
      | setCell name d => exact same

end World

namespace Graph

variable {g : Graph} {w w' : World} {n : NodeId} {t : ValueType}

/-- Resetting the members does what each of them does when it is reset. -/
theorem mem_resets {r : Reset} : (n, r) ∈ g.resets ↔ ∃ m, g.member? n = some m ∧ r ∈ m.node.reset := by
  simp only [resets, List.mem_flatMap, List.mem_map, Prod.exists, List.mem_zipIdx_iff_getElem?, member?]
  constructor
  · rintro ⟨m, i, found, r, done, same⟩
    cases same
    exact ⟨m, found, done⟩
  · rintro ⟨m, found, done⟩
    exact ⟨m, n.index, found, r, done, rfl⟩

/-- Only stores that resetting their nodes clears have anything in them. -/
def Restorable (g : Graph) (w : World) : Prop :=
  ∀ n t, (w.store n t).isSet = true → g.Restores n t

theorem restorable_of_unkept (unkept : w.kept = ∅) : g.Restorable w := by
  intro n t isSet
  rw [World.store, unkept] at isSet
  cases isSet

theorem Restorable.of_kept (h : g.Restorable w) (same : w'.kept = w.kept) : g.Restorable w' := by
  intro n t isSet
  rw [World.store, same] at isSet
  exact h n t isSet

/-- Putting something into a store that resetting clears leaves everything to be cleared by resetting. -/
theorem Restorable.remember (h : g.Restorable w) {v : Value} (restores : g.Restores n v.type) :
    g.Restorable (w.remember n v) := by
  intro k t isSet
  rw [World.store, World.kept_remember, Table.get?_insert] at isSet
  split at isSet
  next here =>
    have typed : v.type = t := Value.isSome_as?_iff.mp isSet
    exact here ▸ typed ▸ restores
  next => exact h k t isSet

/-- Whatever a pulse is permitted to do, only stores that resetting clears have anything in them. -/
theorem Restorable.perform (h : g.Restorable w) {flow : Prop} {p q : Pulse} {a : Action}
    (permits : g.Permits flow p a) : g.Restorable (a.perform w q).2.1 := by
  cases a with
  | remember n v => exact h.remember permits.2
  | update n t f =>
      refine (h.remember (v := .of t (f (w.store n t).read)) ?_).of_kept (World.kept_remember ..).symm
      rw [Value.type_of]
      exact permits.2
  | observe input t v =>
      simp only [Action.perform, World.observe]
      split <;> exact h.of_kept rfl
  | reset resets => exact permits.elim
  | _ => exact h.of_kept rfl

theorem Restorable.reset (h : g.Restorable w) (resets : List (NodeId × Reset)) :
    g.Restorable (w.reset resets) := by
  intro n t isSet
  by_cases cleared : ∃ t, (n, .store t) ∈ resets
  · obtain ⟨t', cleared⟩ := cleared
    rw [World.store, World.reset, World.get?_kept_undoAll_of_mem cleared] at isSet
    cases isSet
  · rw [World.store, World.reset, World.get?_kept_undoAll_of_not_mem (not_exists.mp cleared)] at isSet
    exact h n t isSet

/-- Resetting a node clears its store, if that is part of it. -/
theorem Restores.get?_kept_reset (h : g.Restores n t) (w : World) : (w.reset g.resets).kept.get? n = none :=
  World.get?_kept_undoAll_of_mem (mem_resets.mpr h)

/-- If only such stores have anything in them, then after resetting nothing is kept. -/
theorem Restorable.kept_reset (h : g.Restorable w) : (w.reset g.resets).kept = ∅ := by
  refine Table.eq_empty fun n => ?_
  by_cases cleared : ∃ t, (n, .store t) ∈ g.resets
  · obtain ⟨t, cleared⟩ := cleared
    exact World.get?_kept_undoAll_of_mem cleared
  · rw [World.reset, World.get?_kept_undoAll_of_not_mem (not_exists.mp cleared)]
    cases kept : w.kept.get? n with
    | none => rfl
    | some v => exact absurd ⟨_, mem_resets.mpr (h n v.type (World.isSet_store kept))⟩ cleared

end Graph

end FlowGraph
