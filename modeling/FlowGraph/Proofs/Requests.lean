import FlowGraph.Catalogue.Basic

/-!
# What nodes ask for

A program's requests can be told from the program alone, without running it: they are those that some
replies lead to. The programs of a node from the catalogue refer to ports that the node declares, and to
each of them as what it is declared to be; what they put into the node's store, resetting the node forgets.
They keep to their own node and their own pulse: none of them cancels a pulse, runs another one, or forgets
what the graph remembers.
-/

namespace FlowGraph

namespace Program

variable {R : Type} {E : R → Type} {α β : Type} {P : R → Prop} {p : Program E α} {r : R}

/-- Every request that a program can come to make passes a test. -/
def Asks (P : R → Prop) : Program E α → Prop
  | done _ => True
  | ask r next => P r ∧ ∀ reply, (next reply).Asks P

/-- A program can come to make a request. -/
def MayAsk (r : R) : Program E α → Prop
  | done _ => False
  | ask r' next => r' = r ∨ ∃ reply, (next reply).MayAsk r

theorem Asks.of_mayAsk (h : p.Asks P) (may : p.MayAsk r) : P r := by
  induction p with
  | done => exact may.elim
  | ask r' next ih =>
      rcases may with rfl | ⟨reply, later⟩
      · exact h.1
      · exact ih reply (h.2 reply) later

theorem Asks.mono {P' : R → Prop} (h : p.Asks P) (weaker : ∀ r, P r → P' r) : p.Asks P' := by
  induction p with
  | done => trivial
  | ask r next ih => exact ⟨weaker r h.1, fun reply => ih reply (h.2 reply)⟩

theorem Asks.andThen {f : α → Program E β} (h : p.Asks P) (later : ∀ a, (f a).Asks P) :
    (p.andThen f).Asks P := by
  induction p with
  | done a => exact later a
  | ask r next ih => exact ⟨h.1, fun reply => ih reply (h.2 reply)⟩

theorem Asks.interpret {S : Type} {F : S → Type} {P' : S → Prop}
    {answer : (r : R) → Program F (E r)} (h : p.Asks P)
    (answers : ∀ r, P r → (answer r).Asks P') : (p.interpret answer).Asks P' := by
  induction p with
  | done a => trivial
  | ask r next ih => exact (answers r h.1).andThen fun reply => ih reply (h.2 reply)

end Program

/-- A request refers to ports that a node declares, and to each as what it is declared to be. It changes the
node's store only as one that resetting the node clears. -/
inductive Node.Suits (k : Node) : NodeRequest → Prop where
  | input {index t i} (declared : k.descriptor.inputs[index]? = some i) (single : i.isList = false)
      (typed : i.type = t) : Suits k (.input index t)
  | inputs {index t i} (declared : k.descriptor.inputs[index]? = some i) (list : i.isList = true)
      (typed : i.type = t) : Suits k (.inputs index t)
  | publish {index v o} (declared : k.descriptor.outputs[index]? = some o) (typed : v.type = o.type) :
      Suits k (.publish index v)
  | fire {index f} (declared : k.descriptor.flows[index]? = some f) : Suits k (.fire index)
  | remembered (t) : Suits k (.remembered t)
  | remember {v} (cleared : .store v.type ∈ k.reset) : Suits k (.remember v)
  | update {t f} (cleared : .store t ∈ k.reset) : Suits k (.update t f)
  | push (sink v) : Suits k (.push sink v)
  | isCancelled : Suits k .isCancelled
  | delay (milliseconds) : Suits k (.delay milliseconds)
  | rest : Suits k .rest
  | again : Suits k .again

namespace CatalogueNode

open Node (Suits)

theorem suits_guard (c : CatalogueNode) : c.guard.Asks (Suits c.node) := by
  cases c with
  | fireOnTrue => exact ⟨.input rfl rfl rfl, fun _ => trivial⟩
  | _ => trivial

theorem suits_iterate (remaining : Nat) (index : Int32) :
    (iterate remaining index).Asks (Suits forLoop.node) := by
  induction remaining generalizing index with
  | zero =>
      refine ⟨.isCancelled, fun cancelled => ?_⟩
      cases cancelled with
      | true => trivial
      | false => exact ⟨.fire rfl, fun _ => trivial⟩
  | succ remaining ih =>
      refine ⟨.isCancelled, fun cancelled => ?_⟩
      cases cancelled with
      | true => trivial
      | false => exact ⟨.publish rfl rfl, fun _ => ⟨.fire rfl, fun _ => ih (index + 1)⟩⟩

theorem suits_process (c : CatalogueNode) : c.process.Asks (Suits c.node) := by
  cases c with
  | constant v => exact ⟨.publish rfl rfl, fun _ => trivial⟩
  | add t =>
      exact ⟨.input rfl rfl rfl, fun a => ⟨.input rfl rfl rfl, fun b =>
        ⟨.publish rfl (Value.type_of _ _), fun _ => trivial⟩⟩⟩
  | sum t =>
      exact ⟨.inputs rfl rfl rfl, fun _ => ⟨.publish rfl (Value.type_of _ _), fun _ => trivial⟩⟩
  | log t sink => exact ⟨.input rfl rfl rfl, fun _ => ⟨.push _ _, fun _ => ⟨.fire rfl, fun _ => trivial⟩⟩⟩
  | onChanged t =>
      exact ⟨.input rfl rfl rfl, fun _ =>
        ⟨.publish rfl (Value.type_of _ _), fun _ => ⟨.fire rfl, fun _ => trivial⟩⟩⟩
  | onTrigger => exact ⟨.fire rfl, fun _ => trivial⟩
  | branch =>
      refine ⟨.input rfl rfl rfl, fun condition => ⟨?_, fun _ => trivial⟩⟩
      cases condition <;> exact .fire rfl
  | statefulBranch =>
      refine ⟨.input rfl rfl rfl, fun current => ⟨.remembered _, fun previous =>
        ⟨.remember (.head _), fun _ => ⟨?_, fun _ => trivial⟩⟩⟩⟩
      cases previous <;> cases current <;> exact .fire rfl
  | branchWithState =>
      refine ⟨.input rfl rfl rfl, fun current => ⟨.remembered _, fun previous =>
        ⟨.remember (.head _), fun _ => ⟨.publish rfl rfl, fun _ => ⟨.publish rfl rfl, fun _ =>
          ⟨?_, fun _ => trivial⟩⟩⟩⟩⟩⟩
      cases current <;> exact .fire rfl
  | fireOnTrue => exact ⟨.fire rfl, fun _ => trivial⟩
  | fireOnInterval =>
      refine ⟨.input rfl rfl rfl, fun _ => ⟨.delay _, fun passed => ?_⟩⟩
      cases passed with
      | true => exact ⟨.fire rfl, fun _ => ⟨.again, nofun⟩⟩
      | false => trivial
  | fireWhileTrue =>
      refine ⟨.isCancelled, fun cancelled => ?_⟩
      cases cancelled with
      | true => trivial
      | false =>
          refine ⟨.input rfl rfl rfl, fun condition => ⟨.input rfl rfl rfl, fun interval => ?_⟩⟩
          cases condition with
          | true =>
              refine ⟨.fire rfl, fun _ => ?_⟩
              simp only [Program.done_andThen]
              split
              · refine ⟨.delay _, fun passed => ?_⟩
                cases passed with
                | true => exact ⟨.again, nofun⟩
                | false => trivial
              · exact ⟨.rest, fun _ => ⟨.again, nofun⟩⟩
          | false =>
              refine ⟨.isCancelled, fun cancelled => ?_⟩
              cases cancelled with
              | true => trivial
              | false => exact ⟨.fire rfl, fun _ => trivial⟩
  | forLoop => exact ⟨.input rfl rfl rfl, fun _ => suits_iterate _ _⟩
  | counter =>
      exact ⟨.input rfl rfl rfl, fun _ => ⟨.update (.head _), fun _ =>
        ⟨.publish rfl rfl, fun _ => ⟨.fire rfl, fun _ => trivial⟩⟩⟩⟩
  | delay =>
      refine ⟨.input rfl rfl rfl, fun _ => ⟨.delay _, fun passed => ?_⟩⟩
      cases passed with
      | true => exact ⟨.fire rfl, fun _ => trivial⟩
      | false => trivial
  | parseInt =>
      refine ⟨.input rfl rfl rfl, fun text => ?_⟩
      simp only [Program.done_andThen]
      split
      · exact ⟨.publish rfl rfl, fun _ => ⟨.fire rfl, fun _ => trivial⟩⟩
      · exact ⟨.fire rfl, fun _ => trivial⟩

end CatalogueNode

end FlowGraph
