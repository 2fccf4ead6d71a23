import Mathlib.Data.List.Permutation
import FlowGraph.Catalogue.Basic
import FlowGraph.Proofs.Building

/-!
# The node that a cycle is reported for

Building rejects a cycle of value connections under the name of one node. Which node that is can be said
by names alone: it is the first added one of those that have no place in any order of evaluation, which
are the nodes on a cycle and everything that reads them. So the node need not lie on a cycle. If it does
not, every cycle there is was added after it.
-/

namespace FlowGraph

namespace Blueprint

/-- Some value connection leads from a node to a node, both by name. -/
def Connects (calls : List Call) (source target : String) : Prop :=
  ∃ w ∈ valueWishesOf calls, w.source = source ∧ w.target = target

/-- A node lies on a cycle of value connections or reads, directly or through others, one that does. -/
def BehindCycle (calls : List Call) (name : String) : Prop :=
  ∃ other, Relation.TransGen (Connects calls) other other ∧
    Relation.ReflTransGen (Connects calls) other name

/-- A registry never answers with a cycle. -/
theorem create_ne_valueCycle (r : Registry) (nodeType : String) (arg : Option ValueType)
    (name : String) : r.create nodeType arg ≠ .error (.valueCycle name) := by
  unfold Registry.create
  repeat' split
  all_goals simp

variable {calls : List Call} {values : List ValueEdge}

/-- No single call fails for a cycle. -/
theorem AdditionFailure.ne_valueCycle {ms : List Member} {c : Call} {name : String} :
    ¬ AdditionFailure ms c (.valueCycle name) := by
  intro fails
  cases fails with
  | refused h =>
      cases c with
      | add | connectValue | connectFlow => cases h
      | addRegistered r _ nodeType arg =>
          obtain ⟨_, refused⟩ := Prod.mk.inj (Option.some.inj h)
          exact create_ne_valueCycle r nodeType arg name refused

/-! ## Nodes by id and by name -/

/-- The name of the node with an id. -/
def nameAt (calls : List Call) (n : NodeId) : String :=
  (namesOf calls)[n.index]?.getD ""

/-- The id of the node with a name. -/
def placeOf (calls : List Call) (name : String) : NodeId :=
  ⟨(namesOf calls).idxOf name⟩

section

variable (additions : Additions calls)
include additions

theorem Additions.nameAt_eq {n : NodeId} {m : Member} (member : (membersOf calls)[n.index]? = some m) :
    nameAt calls n = m.name := by
  simp [nameAt, ← additions.map_name, member]

theorem Additions.placeOf_eq {name : String} {k : Nat} (named : (namesOf calls)[k]? = some name) :
    placeOf calls name = ⟨k⟩ := by
  obtain ⟨bound, rfl⟩ := List.getElem?_eq_some_iff.mp named
  exact congrArg NodeId.mk (additions.nodup.idxOf_getElem k bound)

theorem Additions.getElem?_of_member {n : NodeId} {m : Member}
    (member : (membersOf calls)[n.index]? = some m) : (namesOf calls)[n.index]? = some m.name := by
  simp [← additions.map_name, member]

theorem Additions.connects_of_feeds (wired : Wired (membersOf calls) (valueWishesOf calls) values)
    {a b : NodeId} (feeds : Feeds values a b) : Connects calls (nameAt calls a) (nameAt calls b) := by
  obtain ⟨e, edge, rfl, rfl⟩ := feeds
  obtain ⟨w, wish, source, target, _, _, hs, ht, _⟩ := wired.exists_joins edge
  refine ⟨w, wish, ?_, ?_⟩
  · rw [additions.nameAt_eq hs.entry, hs.named]
  · rw [additions.nameAt_eq ht.entry, ht.named]

theorem Additions.feeds_of_connects (wired : Wired (membersOf calls) (valueWishesOf calls) values)
    {a b : String} (connects : Connects calls a b) :
    Feeds values (placeOf calls a) (placeOf calls b) := by
  obtain ⟨w, wish, rfl, rfl⟩ := connects
  obtain ⟨e, edge, source, target, _, _, hs, ht, _⟩ := wired.exists_edge wish
  refine ⟨e, edge, ?_, ?_⟩
  · rw [← hs.named, additions.placeOf_eq (additions.getElem?_of_member hs.entry)]
  · rw [← ht.named, additions.placeOf_eq (additions.getElem?_of_member ht.entry)]

theorem Additions.behindCycle_of_unplaceable
    (wired : Wired (membersOf calls) (valueWishesOf calls) values) {n : NodeId}
    (stuck : Unplaceable values n) : BehindCycle calls (nameAt calls n) := by
  obtain ⟨k, cycle, path⟩ := stuck
  have named {a b : NodeId} : Feeds values a b → Connects calls (nameAt calls a) (nameAt calls b) :=
    additions.connects_of_feeds wired
  exact ⟨nameAt calls k, cycle.lift (nameAt calls) fun _ _ => named,
    path.lift (nameAt calls) fun _ _ => named⟩

theorem Additions.unplaceable_of_behindCycle
    (wired : Wired (membersOf calls) (valueWishesOf calls) values) {name : String}
    (behind : BehindCycle calls name) : Unplaceable values (placeOf calls name) := by
  obtain ⟨other, cycle, path⟩ := behind
  have placed {a b : String} : Connects calls a b → Feeds values (placeOf calls a) (placeOf calls b) :=
    additions.feeds_of_connects wired
  exact ⟨placeOf calls other, cycle.lift (placeOf calls) fun _ _ => placed,
    path.lift (placeOf calls) fun _ _ => placed⟩

end

/-- The node that a cycle is reported for is the first added one on a cycle or behind one. If it is on
none, it was added before all of them. -/
theorem build_reports_first_behind_cycle {name node : String} {config : Config} {calls : List Call}
    (failed : (({ name, config } : Blueprint).callAll calls).build = .error (.valueCycle node)) :
    ∃ k, (namesOf calls)[k]? = some node ∧ BehindCycle calls node ∧
      (∀ (j : Nat) other, (namesOf calls)[j]? = some other → BehindCycle calls other → k ≤ j) ∧
      (¬ Relation.TransGen (Connects calls) node node →
        ∀ (j : Nat) other, (namesOf calls)[j]? = some other →
          Relation.TransGen (Connects calls) other other → k < j) := by
  generalize cause : BuildError.valueCycle node = e at failed
  cases firstFailure_of_build failed with
  | addition _ _ fails => exact absurd (cause ▸ fails) AdditionFailure.ne_valueCycle
  | value _ _ _ fails => subst cause; cases fails
  | flow _ _ _ _ fails => subst cause; cases fails
  | required => cases cause
  | @cycle _ _ n m additions wired _ _ stuck first member =>
      obtain rfl := BuildError.valueCycle.inj cause
      have here := additions.getElem?_of_member member
      have least : ∀ (j : Nat) other, (namesOf calls)[j]? = some other → BehindCycle calls other →
          n.index ≤ j := by
        intro j other named behind
        have late := first _ (additions.unplaceable_of_behindCycle wired behind)
        rwa [additions.placeOf_eq named] at late
      refine ⟨n.index, here, ?_, least, fun free j other named cycle => ?_⟩
      · rw [← additions.nameAt_eq member]
        exact additions.behindCycle_of_unplaceable wired stuck
      · have late := least j other named ⟨other, cycle, .refl⟩
        have differ : j ≠ n.index := by
          rintro rfl
          obtain rfl := Option.some.inj (named.symm.trans here)
          exact free cycle
        omega

/-- A sum that reads itself, and before it one that reads only this sum. -/
def selfSum : List Call :=
  [.add "shown" (CatalogueNode.add .int).node, .add "a" (CatalogueNode.add .int).node,
    .connectValue ⟨"a", "Result", "a", "A"⟩, .connectValue ⟨"a", "Result", "shown", "A"⟩]

theorem build_reports_first_behind_cycle_selfSum :
    ∃ k, (namesOf selfSum)[k]? = some "shown" ∧ BehindCycle selfSum "shown" ∧
      (∀ (j : Nat) other, (namesOf selfSum)[j]? = some other → BehindCycle selfSum other → k ≤ j) ∧
      (¬ Relation.TransGen (Connects selfSum) "shown" "shown" →
        ∀ (j : Nat) other, (namesOf selfSum)[j]? = some other →
          Relation.TransGen (Connects selfSum) other other → k < j) := by
  have failed : (({ name := "g" } : Blueprint).callAll selfSum).build =
      .error (.valueCycle "shown") := by cbv
  exact build_reports_first_behind_cycle failed

/-- The reader of a cycle is reported although nothing reads it. -/
theorem build_reports_reader_of_cycle :
    (({ name := "g" } : Blueprint).callAll selfSum).build = .error (.valueCycle "shown") ∧
      ¬ Relation.TransGen (Connects selfSum) "shown" "shown" := by
  refine ⟨by cbv, fun cycle => ?_⟩
  obtain ⟨next, ⟨w, wish, source, _⟩, _⟩ := Relation.TransGen.head'_iff.mp cycle
  have wishes : ⟨"a", "Result", "a", "A"⟩ = w ∨ ⟨"a", "Result", "shown", "A"⟩ = w := by
    simpa [valueWishesOf, selfSum, Call.valueWish?] using wish
  rcases wishes with rfl | rfl
  · exact absurd source (by decide)
  · exact absurd source (by decide)

end Blueprint

end FlowGraph
