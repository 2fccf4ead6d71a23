import FlowGraph.Proofs.Patience

/-!
# What an arbitrary node can ask for

Nodes from outside the catalogue are programs like any other, and nothing is known of them in advance.
But whatever they ask for reaches the pulse through the rules, and the rules are strict: other nodes are
computed at the depth of their reader, flow leads to connected nodes one step deeper and only below the
limit, and an input is observed by nobody but the node that it belongs to, on its activation.
-/

namespace FlowGraph

namespace Graph

/-- A flow connection leads from a node to another. -/
def Leads (g : Graph) (n k : NodeId) : Prop :=
  ∃ flow, k ∈ g.targets ⟨n, flow⟩

theorem isPure_of_flow {g : Graph} {n : NodeId} {m : Member} {index : Nat} {f : Flow}
    (member : g.member? n = some m) (declared : m.descriptor.flows[index]? = some f) :
    g.isPure n = false := by
  have some : m.node.descriptor.flows ≠ [] := List.ne_nil_of_mem (List.mem_of_getElem? declared)
  simp [isPure, member, Node.isPure, Descriptor.isPure, some]

end Graph

namespace Engine

/-- What the programs of a node can come to ask of the pulse. -/
def Answering (g : Graph) (s : Scope) : EngineRequest → Prop
  | .act (.observe ..) | .act (.begin ..) | .act .countSuppression => False
  | .evaluate n depth => g.isPure n = true ∧ depth = s.depth
  | .activate n depth =>
    depth = s.depth + 1 ∧ s.depth < g.config.maxFlowDepth ∧ g.isPure s.node = false ∧ g.Leads s.node n
  | .abort (.flowDepthExceeded name limit) =>
    limit = g.config.maxFlowDepth ∧ limit ≤ s.depth ∧ g.isPure s.node = false ∧
      ∃ m, g.member? s.node = some m ∧ m.name = name
  | .act _ | .sleep _ | .rest | .restart | .abort _ | .pulse _ => True

variable {g : Graph} {s : Scope}

theorem ReadsAt.answering {r : EngineRequest} (h : ReadsAt g s.depth r) : Answering g s r := by
  cases r with
  | act a => cases a <;> trivial
  | evaluate n depth => exact h
  | abort cause => cases cause <;> trivial
  | activate | sleep | rest | restart | pulse => exact h.elim

theorem answering_member (n : NodeId) : (member g n).Asks (Answering g s) :=
  (readsAt_member n).mono fun _ reads => reads.answering

theorem answering_activateAll {targets : List NodeId} (below : s.depth < g.config.maxFlowDepth)
    (driven : g.isPure s.node = false) (connected : ∀ n ∈ targets, g.Leads s.node n) :
    (activateAll (s.depth + 1) targets).Asks (Answering g s) := by
  induction targets with
  | nil => trivial
  | cons n rest ih =>
      refine ⟨trivial, fun cancelled => ?_⟩
      cases cancelled with
      | true => trivial
      | false =>
          obtain ⟨first, later⟩ := List.forall_mem_cons.mp connected
          exact ⟨⟨rfl, below, driven, first⟩, fun _ => ih later⟩

theorem answering_fire (index : Nat) : (fire g s index).Asks (Answering g s) := by
  unfold fire member
  split
  next m member =>
    simp only [Program.pure_eq, Program.bind_eq, Program.done_andThen]
    split
    next => exact asks_abort trivial
    next f declared =>
      have driven := Graph.isPure_of_flow member declared
      refine ⟨trivial, fun cancelled => ?_⟩
      cases cancelled with
      | true => trivial
      | false =>
          simp only [Program.done_andThen, Bool.false_eq_true, if_false]
          split
          next tooDeep =>
            exact ⟨⟨rfl, Nat.le_of_lt_succ tooDeep, driven, m, member, rfl⟩, nofun⟩
          next within =>
            exact answering_activateAll (Nat.le_of_not_lt within) driven fun n target => ⟨index, target⟩
  next => exact ⟨trivial, fun reply => reply.elim⟩

theorem answering_publish (index : Nat) (v : Value) : (publish g s index v).Asks (Answering g s) := by
  unfold publish
  dsimp only
  split <;> exact ⟨trivial, fun _ => trivial⟩

theorem Pausing.answering {r : EngineRequest} (h : Pausing r) : Answering g s r := by
  cases r with
  | act a => cases a <;> trivial
  | sleep | rest => trivial
  | evaluate | activate | restart | abort | pulse => exact h.elim

theorem answering_delay (milliseconds : Nat) : (delay milliseconds).Asks (Answering g s) :=
  (pausing_delay milliseconds).mono fun _ pausing => pausing.answering

theorem answering_pulse (name : String) : (pulse g name).Asks (Answering g s) := by
  rw [pulse]
  split
  · trivial
  · split
    · trivial
    · exact ⟨trivial, fun _ => trivial⟩

/-- Whatever a node asks for, the pulse does nothing for it that a node cannot ask for. -/
theorem answering_answer (r : NodeRequest) : (answer g s r).Asks (Answering g s) := by
  cases r with
  | input index t => exact (readsAt_input index t).mono fun _ reads => reads.answering
  | inputs index t => exact (readsAt_inputs index t).mono fun _ reads => reads.answering
  | publish index v => exact answering_publish index v
  | fire flow => exact answering_fire flow
  | delay milliseconds => exact answering_delay milliseconds
  | refuse message => exact (answering_member s.node).andThen fun m => asks_abort trivial
  | pulse root => exact answering_pulse root
  | rest | again | location | remembered t | remember v | update t f | push sink v | isCancelled | cancel
  | shutDown | resetState | cell name | setCell name d => exact ⟨trivial, fun _ => trivial⟩

theorem answering_run {α : Type} (p : NodeProgram α) : (run g s p).Asks (Answering g s) := by
  induction p with
  | done => trivial
  | ask r next ih => exact (answering_answer r).andThen ih

theorem answering_process : (process g s).Asks (Answering g s) :=
  (answering_member s.node).andThen fun _ => answering_run _

theorem answering_evaluation : (evaluation g s).Asks (Answering g s) := by
  refine (answering_member s.node).andThen fun m => (answering_run _).andThen fun passed => ?_
  split
  · exact answering_run _
  · trivial

/-- What is asked for in a node: by its programs, or by the rules of its own activation. -/
inductive Local (g : Graph) (s : Scope) : EngineRequest → Prop where
  | answering {r} (answers : Answering g s r) : Local g s r
  | observe (index t v) : Local g s (.act (.observe ⟨s.node, index⟩ t v))
  | begin (list) : Local g s (.act (.begin s.node list))
  | countSuppression : Local g s (.act .countSuppression)

theorem ObservesAt.local {r : EngineRequest} (h : ObservesAt g s r) : Local g s r := by
  cases h with
  | reads reads => exact .answering reads.answering
  | observe index t v => exact .observe index t v

theorem local_run {α : Type} (p : NodeProgram α) : (run g s p).Asks (Local g s) :=
  (answering_run p).mono fun _ answers => .answering answers

theorem local_admitted (m : Member) : (admitted g s m).Asks (Local g s) := by
  apply (local_run _).andThen
  intro passed
  split
  · exact ⟨.begin _, fun _ => local_run _⟩
  · trivial

theorem local_activation : (activation g s).Asks (Local g s) := by
  apply ((answering_member s.node).mono fun _ answers => .answering answers).andThen
  intro m
  refine ⟨.answering trivial, fun cancelled => ?_⟩
  cases cancelled with
  | true => trivial
  | false =>
      simp only [Program.done_andThen, Bool.false_eq_true, if_false]
      split
      · apply ((observesAt_observeFrom 0 m.descriptor.inputs).mono fun _ observes => observes.local).andThen
        intro changed
        split
        · exact local_admitted m
        · exact ⟨.countSuppression, fun _ => trivial⟩
      · exact local_admitted m

end Engine

end FlowGraph
