import Mathlib.Data.List.Chain
import Mathlib.Data.List.TakeWhile
import FlowGraph.Proofs.Answers
import FlowGraph.Proofs.Frames

/-!
# How the computations of nodes nest

A pure node is computed on one occasion only: a node that it feeds looks one of its outputs up and finds
that the memo has no value there. When the computation is over, the reader completes it before it does
anything else. So the pure nodes that are being computed in a pulse lie on one another, each on a node
that it feeds, and below them lies the flow-driven node that reads. All this is how the rules look outputs
up and holds of arbitrary nodes; that no node lies on itself is what building has checked.
-/

namespace FlowGraph

namespace Program

variable {R : Type} {E : R → Type} {α σ : Type} {spec : (r : R) → (E r → σ → Prop) → σ → Prop}

/-- What holds after a program may be weakened if that may be done for each request. -/
theorem wp_mono {p : Program E α} {Q Q' : α → σ → Prop} {x : σ} (h : p.wp spec Q x)
    (mono : ∀ {r} {next next' : E r → σ → Prop} {x}, spec r next x →
      (∀ reply x, next reply x → next' reply x) → spec r next' x)
    (weaker : ∀ a x, Q a x → Q' a x) : p.wp spec Q' x := by
  induction p generalizing x with
  | done a => exact weaker a x h
  | ask r next ih => exact mono h fun reply x later => ih reply later

end Program

namespace Graph.Built

/-- Flow does not lead to pure nodes. -/
theorem isPure_of_leads {g : Graph} (h : g.Built) {n k : NodeId} (leads : g.Leads n k) :
    g.isPure k = false := by
  obtain ⟨flow, connected⟩ := leads
  obtain ⟨m, member, opened⟩ := h.target connected
  have opened : m.node.descriptor.flowInput = true := opened
  simp [isPure, member, Node.isPure, Descriptor.isPure, opened]

end Graph.Built

namespace Engine

/-- How far a program has come with looking an output up. -/
inductive Lookup where
  /-- Nothing is being looked up at the moment. -/
  | idle
  /-- The memo has no value of the output. -/
  | missing (output : Port)
  /-- The node has been computed and is still to be completed. -/
  | computed (node : NodeId)

/-- No computation is still to be completed. -/
def Lookup.IsComplete : Lookup → Prop
  | .computed _ => False
  | .idle | .missing _ => True

/-- A request that has nothing to do with looking an output up, with starting over or with another pulse. It
memoises, publishes, observes and remembers at the node's own ports and in its own store only, and lets flow
go on from a driven node to another. -/
def Plain (g : Graph) (s : Scope) : EngineRequest → Prop
  | .act (.memoized _) | .act (.completeEvaluation _) | .evaluate .. | .restart | .pulse _ => False
  | .act (.memoize output _) => output.node = s.node ∧ g.isPure s.node = true
  | .act (.publish output _ dependents) =>
    output.node = s.node ∧ g.isPure s.node = false ∧ dependents = g.dependents output
  | .act (.observe input ..) => input.node = s.node
  | .act (.remembered n _) | .act (.remember n _) | .act (.update n _ _) => n = s.node
  | .activate n _ => g.isPure s.node = false ∧ g.isPure n = false
  | .act _ | .sleep _ | .rest | .abort _ => True

/-- What a request needs, and what it leads to, in terms of the lookup under way. -/
def looking (g : Graph) (s : Scope) :
    (r : EngineRequest) → (r.Reply → Lookup → Prop) → Lookup → Prop
  | .act (.memoized output), next, lookup =>
    lookup.IsComplete ∧ (∀ v, next (some v) .idle) ∧ next none (.missing output)
  | .evaluate n _, next, lookup =>
    (∃ output ∈ g.outputs n, lookup = .missing output) ∧ g.isPure n = true ∧
      Blueprint.Feeds g.valueEdges n s.node ∧ next () (.computed n)
  | .act (.completeEvaluation resting), next, lookup =>
    ∃ n m, lookup = .computed n ∧ g.member? n = some m ∧ resting = restingOutputs n m ∧ next () .idle
  | .pulse n, next, lookup => lookup.IsComplete ∧ g.isPure n = false ∧ ∀ result, next result .idle
  | .restart, _, lookup => lookup.IsComplete
  | r, next, lookup => lookup.IsComplete ∧ Plain g s r ∧ ∀ reply, next reply .idle

/-- A program looks outputs up as it has to, and completes what has been computed. -/
def Looks (g : Graph) (s : Scope) (lookup : Lookup) {α : Type} (p : Engine α) : Prop :=
  p.wp (looking g s) (fun _ lookup => lookup.IsComplete) lookup

variable {g : Graph} {s : Scope} {α β : Type} {lookup : Lookup}

theorem looking_mono {r : EngineRequest} {next next' : r.Reply → Lookup → Prop}
    (h : looking g s r next lookup) (weaker : ∀ reply lookup, next reply lookup → next' reply lookup) :
    looking g s r next' lookup := by
  cases r with
  | act a =>
      cases a with
      | memoized output => exact ⟨h.1, fun v => weaker _ _ (h.2.1 v), weaker _ _ h.2.2⟩
      | completeEvaluation resting =>
          obtain ⟨n, m, computed, member, same, later⟩ := h
          exact ⟨n, m, computed, member, same, weaker _ _ later⟩
      | _ => exact ⟨h.1, h.2.1, fun reply => weaker _ _ (h.2.2 reply)⟩
  | evaluate n depth => exact ⟨h.1, h.2.1, h.2.2.1, weaker _ _ h.2.2.2⟩
  | restart => exact h
  | _ => exact ⟨h.1, h.2.1, fun reply => weaker _ _ (h.2.2 reply)⟩

/-- A program that needs nothing to be looked up does not mind a lookup that has found nothing. -/
theorem Looks.of_idle {p : Engine α} (h : Looks g s .idle p) (complete : lookup.IsComplete) :
    Looks g s lookup p := by
  cases p with
  | done a => exact complete
  | ask r next =>
      cases r with
      | act a =>
          cases a with
          | completeEvaluation resting =>
              obtain ⟨n, m, computed, _⟩ := h
              cases computed
          | _ => exact ⟨complete, h.2⟩
      | evaluate n depth =>
          obtain ⟨⟨output, _, missing⟩, _⟩ := h
          cases missing
      | restart => exact complete
      | _ => exact ⟨complete, h.2⟩

theorem Looks.andThen {p : Engine α} {f : α → Engine β} (h : Looks g s lookup p)
    (later : ∀ a, Looks g s .idle (f a)) : Looks g s lookup (p.andThen f) := by
  rw [Looks, Program.wp_andThen]
  exact Program.wp_mono h looking_mono fun a _ complete => (later a).of_idle complete

theorem looks_of_plain {p : Engine α} (plain : p.Asks (Plain g s)) : Looks g s .idle p := by
  induction p with
  | done a => trivial
  | ask r next ih =>
      have later (reply) : Looks g s .idle (next reply) := ih reply (plain.2 reply)
      cases r with
      | act a =>
          cases a with
          | memoized output => exact plain.1.elim
          | completeEvaluation resting => exact plain.1.elim
          | _ => exact ⟨trivial, plain.1, later⟩
      | evaluate | restart | pulse => exact plain.1.elim
      | _ => exact ⟨trivial, plain.1, later⟩

/-! ## The rules -/

theorem plain_member (n : NodeId) : (member g n).Asks (Plain g s) := by
  rw [member]
  split
  · trivial
  · exact asks_abort trivial

theorem plain_declaredInput (index : Nat) : (declaredInput g s index).Asks (Plain g s) := by
  apply (plain_member s.node).andThen
  intro m
  split
  · trivial
  · exact asks_abort trivial

theorem plain_expect (index : Nat) (t : ValueType) (v : Option Value) :
    (expect s index t v).Asks (Plain g s) := by
  rw [expect]
  split
  · trivial
  · exact asks_abort trivial

theorem plain_activateAll (depth : Nat) {targets : List NodeId} (source : g.isPure s.node = false)
    (driven : ∀ n ∈ targets, g.isPure n = false) : (activateAll depth targets).Asks (Plain g s) := by
  induction targets with
  | nil => trivial
  | cons n rest ih =>
      obtain ⟨first, later⟩ := List.forall_mem_cons.mp driven
      refine ⟨trivial, fun cancelled => ?_⟩
      cases cancelled with
      | true => trivial
      | false => exact ⟨⟨source, first⟩, fun _ => ih later⟩

theorem plain_fire (built : g.Built) (index : Nat) : (fire g s index).Asks (Plain g s) := by
  unfold fire member
  split
  next m member =>
    simp only [Program.pure_eq, Program.bind_eq, Program.done_andThen]
    split
    next => exact asks_abort trivial
    next f declared =>
      refine ⟨trivial, fun cancelled => ?_⟩
      cases cancelled with
      | true => trivial
      | false =>
          simp only [Program.done_andThen, Bool.false_eq_true, if_false]
          split
          · exact asks_abort trivial
          · exact plain_activateAll _ (Graph.isPure_of_flow member declared)
              fun n connected => built.isPure_of_leads ⟨index, connected⟩
  next => exact asks_abort trivial

theorem plain_publish (index : Nat) (v : Value) : (publish g s index v).Asks (Plain g s) := by
  unfold publish
  dsimp only
  split
  next pure => exact ⟨⟨rfl, pure⟩, fun _ => trivial⟩
  next driven => exact ⟨⟨rfl, by simpa using driven, rfl⟩, fun _ => trivial⟩

theorem Pausing.plain {r : EngineRequest} (h : Pausing r) : Plain g s r := by
  cases r with
  | act a => cases a <;> trivial
  | sleep | rest => trivial
  | evaluate | activate | restart | abort | pulse => exact h.elim

theorem plain_delay (milliseconds : Nat) : (delay milliseconds).Asks (Plain g s) :=
  (pausing_delay milliseconds).mono fun _ pausing => pausing.plain

/-- A node that is found to be a root is driven by flow. -/
theorem isPure_of_root {n : NodeId} {m : Member} (triggerable : g.root n = .ok m) :
    g.isPure n = false := by
  rw [Graph.root] at triggerable
  split at triggerable
  next => cases triggerable
  next m member =>
    split at triggerable
    next => cases triggerable
    next driven => simpa [Graph.isPure, member] using driven

/-- Another pulse is run from a node that is driven by flow. -/
theorem looks_pulse (name : String) : Looks g s .idle (pulse g name) := by
  rw [pulse]
  split
  · trivial
  · split
    · trivial
    next triggerable => exact ⟨trivial, isPure_of_root triggerable, fun _ => trivial⟩

/-- An output is looked up in the memo, and its node is computed if that has no value of it. -/
theorem looks_resolve {output : Port} (feeds : Blueprint.Feeds g.valueEdges output.node s.node)
    (depth : Nat) : Looks g s .idle (resolve g depth output) := by
  unfold resolve Engine.member
  split
  next m member =>
    simp only [Program.pure_eq, Program.bind_eq, Program.done_andThen]
    split
    next => exact looks_of_plain (asks_abort trivial)
    next o declared =>
      split
      next pure =>
        have isPure : g.isPure output.node = true := by simpa [Graph.isPure, member] using pure
        refine ⟨trivial, fun v => looks_of_plain ⟨trivial, fun _ => trivial⟩, ?_⟩
        refine ⟨⟨output, Graph.Declares.mem_outputs ⟨m, member, declared⟩, rfl⟩, isPure, feeds, ?_⟩
        exact ⟨output.node, m, rfl, member, rfl, trivial, fun v => trivial, trivial⟩
      next => exact looks_of_plain ⟨trivial, fun _ => trivial⟩
  next => exact looks_of_plain (asks_abort trivial)

theorem looks_resolveAll {outputs : List Port}
    (feeds : ∀ output ∈ outputs, Blueprint.Feeds g.valueEdges output.node s.node) (depth : Nat) :
    Looks g s .idle (resolveAll g depth outputs) := by
  induction outputs with
  | nil => trivial
  | cons output outputs ih =>
      obtain ⟨first, later⟩ := List.forall_mem_cons.mp feeds
      exact (looks_resolve first depth).andThen fun v => (ih later).andThen fun vs => trivial

theorem looks_inputValue (index : Nat) : Looks g s .idle (inputValue g s index) := by
  apply (looks_of_plain (plain_declaredInput index)).andThen
  intro i
  split
  next source others connected =>
    have feeds := Graph.feeds_of_mem_sources (connected ▸ List.mem_cons_self ..)
    exact (looks_resolve feeds s.depth).andThen fun v => trivial
  next => trivial

theorem looks_inputs (index : Nat) (t : ValueType) : Looks g s .idle (answer g s (.inputs index t)) := by
  apply (looks_of_plain (plain_declaredInput index)).andThen
  intro i
  refine (looks_resolveAll (fun _ connected => Graph.feeds_of_mem_sources connected) s.depth).andThen ?_
  intro vs
  exact looks_of_plain (Program.Asks.mapM (fun _ => plain_expect index t _) vs)

theorem looks_observeFrom (index : Nat) (inputs : List Input) :
    Looks g s .idle (observeFrom g s index inputs) := by
  induction inputs generalizing index with
  | nil => trivial
  | cons i rest ih =>
      rw [observeFrom]
      split
      · refine (looks_inputValue index).andThen fun v => ?_
        cases v with
        | some v => exact ⟨trivial, rfl, fun _ => (ih _).andThen fun _ => trivial⟩
        | none => exact (ih _).andThen fun _ => trivial
      · exact ih _

section

variable (built : g.Built)

include built

/-- Whatever a node asks for, outputs are looked up as they have to be. -/
theorem looks_answer (r : NodeRequest) : Looks g s .idle (answer g s r) := by
  cases r with
  | input index t => exact (looks_inputValue index).andThen fun v => looks_of_plain (plain_expect ..)
  | inputs index t => exact looks_inputs index t
  | publish index v => exact looks_of_plain (plain_publish index v)
  | fire flow => exact looks_of_plain (plain_fire built flow)
  | delay milliseconds => exact looks_of_plain (plain_delay milliseconds)
  | refuse message => exact looks_of_plain ((plain_member s.node).andThen fun m => asks_abort trivial)
  | pulse root => exact looks_pulse root
  | again => trivial
  | remembered t | remember v | update t f => exact looks_of_plain ⟨rfl, fun _ => trivial⟩
  | rest | location | push sink v | isCancelled | cancel | shutDown | resetState | cell name
  | setCell name d => exact looks_of_plain ⟨trivial, fun _ => trivial⟩

theorem looks_run (p : NodeProgram α) : Looks g s .idle (run g s p) := by
  induction p with
  | done => trivial
  | ask r next ih => exact (looks_answer built r).andThen ih

theorem looks_process : Looks g s .idle (process g s) :=
  (looks_of_plain (plain_member s.node)).andThen fun _ => looks_run built _

theorem looks_evaluation : Looks g s .idle (evaluation g s) := by
  apply (looks_of_plain (plain_member s.node)).andThen
  intro m
  apply (looks_run built _).andThen
  intro passed
  split
  · exact looks_run built _
  · trivial

theorem looks_admitted (m : Member) : Looks g s .idle (admitted g s m) := by
  apply (looks_run built _).andThen
  intro passed
  split
  · exact ⟨trivial, trivial, fun _ => looks_run built _⟩
  · trivial

theorem looks_activation : Looks g s .idle (activation g s) := by
  apply (looks_of_plain (plain_member s.node)).andThen
  intro m
  refine ⟨trivial, trivial, fun cancelled => ?_⟩
  cases cancelled with
  | true => trivial
  | false =>
      simp only [Program.done_andThen, Bool.false_eq_true, if_false]
      split
      · apply (looks_observeFrom 0 m.descriptor.inputs).andThen
        intro changed
        split
        · exact looks_admitted built m
        · exact ⟨trivial, trivial, fun _ => trivial⟩
      · exact looks_admitted built m

end

/-- What a program knows of the memo. -/
def Lookup.Holds (p : Pulse) : Lookup → Prop
  | .missing output => p.memo.get? output = none
  | .idle | .computed _ => True

end Engine

open Engine (Lookup Looks)

/-- The scope of a program that waits. -/
def Caller.scope : Caller → Scope
  | .node s _ | .pulse _ s _ => s

namespace Machine

/-- The nodes that a program and those waiting for it are in, the one that was entered last first. -/
def entered (s : Scope) (callers : List Caller) : List NodeId :=
  s.node :: callers.map (·.scope.node)

/-- The pure nodes that are being computed in the pulse of a program, each for the one after it. -/
def evaluating (g : Graph) (s : Scope) (callers : List Caller) : List NodeId :=
  (entered s callers).takeWhile g.isPure

/-- Whoever waits goes on as it has to: a reader with completing the node that is computed for it. -/
inductive Nests (g : Graph) : NodeId → List Caller → Prop where
  | nil (n) : Nests g n []
  | evaluation {n s next callers} (pure : g.isPure n = true)
      (feeds : Blueprint.Feeds g.valueEdges n s.node) (later : Looks g s (.computed n) (next ()))
      (rest : Nests g s.node callers) : Nests g n (.node s next :: callers)
  | activation {n s next callers} (driven : g.isPure n = false) (source : g.isPure s.node = false)
      (later : Looks g s .idle (next ())) (rest : Nests g s.node callers) :
      Nests g n (.node s next :: callers)
  | pulse {n outer s next callers} (driven : g.isPure n = false)
      (later : ∀ result, Looks g s .idle (next result)) (rest : Nests g s.node callers) :
      Nests g n (.pulse outer s next :: callers)

/-- A machine whose programs look outputs up as they have to, and how far the current one has come. -/
structure Nested (g : Graph) (lookup : Lookup) (m : Machine) : Prop where
  holds : lookup.Holds m.pulse
  looks : Looks g m.scope lookup m.program
  callers : Nests g m.scope.node m.callers

/-- How far the current program has come after the next move. -/
def lookupAfter (g : Graph) (m : Machine) : Lookup :=
  match m.program with
  | .done () => if g.isPure m.scope.node then .computed m.scope.node else .idle
  | .ask (.act (.memoized output)) _ =>
    if m.pulse.memo.get? output = none then .missing output else .idle
  | _ => .idle

variable {g : Graph} {w w' : World} {m m' : Machine} {lookup : Lookup}

theorem nested_start (built : g.Built) (w : World) (root : NodeId) (token : TokenId) :
    Nested g .idle (start g w root token).2 :=
  ⟨trivial, Engine.looks_activation built, .nil root⟩

/-- An error is handed over to a program that looks nothing up. -/
theorem Nests.unwind {n : NodeId} {callers : List Caller} (h : Nests g n callers) {token : TokenId}
    {error : PulseError} (moves : (Machine.unwind w token error callers).next? = some (w', m')) :
    Nested g .idle m' := by
  induction h with
  | nil => cases moves
  | evaluation _ _ _ _ ih | activation _ _ _ _ ih => exact ih moves
  | pulse _ later rest =>
      cases moves
      exact ⟨trivial, later _, rest⟩

theorem Nested.leave (h : Nested g lookup m) (moves : (m.leave w).next? = some (w', m')) :
    Nested g (if g.isPure m.scope.node then .computed m.scope.node else .idle) m' := by
  obtain ⟨p, s, program, callers⟩ := m
  cases h.callers with
  | nil => cases moves
  | evaluation pure feeds later rest =>
      cases moves
      simp only [pure, if_true]
      exact ⟨trivial, later, rest⟩
  | activation driven source later rest =>
      cases moves
      simp only [driven, Bool.false_eq_true, if_false]
      exact ⟨trivial, later, rest⟩
  | pulse driven later rest =>
      cases moves
      simp only [driven, Bool.false_eq_true, if_false]
      exact ⟨trivial, later _, rest⟩

/-- Every move of such a machine leads to such a machine. -/
theorem Nested.step (built : g.Built) (h : Nested g lookup m)
    (moves : (m.step g w).next? = some (w', m')) : Nested g (m.lookupAfter g) m' := by
  have left : (m.leave w).next? = some (w', m') →
      Nested g (if g.isPure m.scope.node then .computed m.scope.node else .idle) m' := h.leave
  obtain ⟨p, s, program, callers⟩ := m
  obtain ⟨holds, looks, callers⟩ := h
  cases program with
  | done => exact left moves
  | ask r next =>
      cases r with
      | act a =>
          cases moves
          cases a with
          | memoized output =>
              simp only [lookupAfter]
              cases found : p.memo.get? output with
              | none => exact ⟨found, looks.2.2, callers⟩
              | some v => exact ⟨trivial, looks.2.1 v, callers⟩
          | completeEvaluation resting =>
              obtain ⟨n, k, _, _, _, later⟩ := looks
              exact ⟨trivial, later, callers⟩
          | _ => exact ⟨trivial, looks.2.2 _, callers⟩
      | evaluate n depth =>
          obtain ⟨_, pure, feeds, later⟩ := looks
          cases moves
          exact ⟨trivial, Engine.looks_evaluation built, .evaluation pure feeds later callers⟩
      | activate n depth =>
          obtain ⟨_, ⟨source, driven⟩, later⟩ := looks
          cases moves
          exact ⟨trivial, Engine.looks_activation built, .activation driven source (later ()) callers⟩
      | sleep milliseconds =>
          cases moves
          exact ⟨trivial, looks.2.2 (), callers⟩
      | rest =>
          cases moves
          exact ⟨trivial, looks.2.2 (), callers⟩
      | restart =>
          cases moves
          exact ⟨trivial, Engine.looks_process built, callers⟩
      | abort cause => exact callers.unwind moves
      | pulse root =>
          obtain ⟨_, driven, later⟩ := looks
          cases moves
          exact ⟨trivial, Engine.looks_activation built, .pulse driven later callers⟩

/-- At every point of every run the computations of nodes nest. -/
theorem nested_of_run (built : g.Built) {others : World → World → Prop} {w₀ : World} {root : NodeId}
    {token : TokenId} {events : List Event}
    (run : Run g others (start g w₀ root token).1 (start g w₀ root token).2 events w m) :
    ∃ lookup, Nested g lookup m := by
  induction run with
  | refl => exact ⟨_, nested_start built w₀ root token⟩
  | others _ _ ih => exact ih
  | move _ moves ih =>
      obtain ⟨lookup, nested⟩ := ih
      exact ⟨_, nested.step built moves⟩

/-- A pure node that is being computed feeds the node below it. -/
theorem Nests.isChain {s : Scope} {callers : List Caller} (h : Nests g s.node callers) :
    (entered s callers).IsChain fun k reader =>
      g.isPure k = true → Blueprint.Feeds g.valueEdges k reader := by
  generalize node : s.node = n at h
  rw [entered, node]
  clear node
  induction h with
  | nil => exact .singleton _
  | evaluation pure feeds later rest ih => exact .cons_cons (fun _ => feeds) ih
  | activation driven _ _ _ ih | pulse driven _ _ ih =>
      exact .cons_cons (fun pure => absurd (driven.symm.trans pure) nofun) ih

/-- No node is computed while it is being computed. -/
theorem Nests.nodup_evaluating (built : g.Built) {s : Scope} {callers : List Caller}
    (h : Nests g s.node callers) : (evaluating g s callers).Nodup := by
  have chain := h.isChain
  rw [← List.takeWhile_append_dropWhile (p := g.isPure) (l := entered s callers)] at chain
  have feed : (evaluating g s callers).IsChain (Relation.TransGen (Blueprint.Feeds g.valueEdges)) :=
    chain.left_of_append.imp_of_mem_imp
      fun _ _ member _ feeds => .single (feeds (List.mem_takeWhile_imp member))
  refine feed.pairwise.imp ?_
  rintro k _ feeds rfl
  exact built.wellFounded.transGen.irrefl.irrefl k feeds

/-- So no more nodes are being computed than there are in the graph. -/
theorem Nests.length_evaluating_le (built : g.Built) {s : Scope} {callers : List Caller}
    (h : Nests g s.node callers) : (evaluating g s callers).length ≤ g.size := by
  have sub : evaluating g s callers ⊆ g.ids := fun _ member =>
    Graph.mem_ids_of_isPure (List.mem_takeWhile_imp member)
  have nodup := h.nodup_evaluating built
  calc (evaluating g s callers).length ≤ g.ids.length := (List.subperm_of_subset nodup sub).length_le
    _ = g.size := by simp [Graph.ids]

end Machine

end FlowGraph
