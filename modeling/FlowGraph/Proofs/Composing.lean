import FlowGraph.Proofs.Answers

/-!
# What programs are composed of

All that a program of a node does comes down to a few things. It reads outputs, starts itself over, runs
another pulse and is told its id, and for the rest makes requests that have nothing to do with any of this.
So what holds of reading a single output and is kept by the other requests holds of everything that nodes
do, as long as they write no outputs but those that they declare.
-/

namespace FlowGraph

/-- A request writes no output but those that are declared. -/
def Descriptor.Writes (d : Descriptor) : NodeRequest → Prop
  | .publish index _ => index < d.outputs.length
  | _ => True

/-- Neither program of a node writes an output that the node does not declare. -/
structure Node.WritesDeclared (n : Node) : Prop where
  guard : n.guard.Asks n.descriptor.Writes
  process : n.process.Asks n.descriptor.Writes

theorem Node.Suits.writes {k : Node} {r : NodeRequest} (h : k.Suits r) : k.descriptor.Writes r := by
  cases h with
  | publish declared => exact (List.getElem?_eq_some_iff.mp declared).1
  | _ => trivial

theorem CatalogueNode.writesDeclared (c : CatalogueNode) : c.node.WritesDeclared where
  guard := c.suits_guard.mono fun _ suits => suits.writes
  process := c.suits_process.mono fun _ suits => suits.writes

/-- A graph that building has accepted. Its nodes come from the catalogue, or they write the outputs only
that they declare. -/
structure Graph.Conforming (g : Graph) : Prop where
  built : g.Built
  nodes : ∀ m ∈ g.members, (∃ c : CatalogueNode, m.node = c.node) ∨ m.node.WritesDeclared

namespace Graph

variable {g : Graph} {n : NodeId} {m : Member}

theorem FromCatalogue.conforming (h : g.FromCatalogue) : g.Conforming :=
  ⟨h.built, fun m member => .inl (h.nodes m member)⟩

theorem Conforming.writesDeclared (h : g.Conforming) (member : g.member? n = some m) :
    m.node.WritesDeclared := by
  rcases h.nodes m (List.mem_of_getElem? member) with ⟨c, same⟩ | writes
  · exact same ▸ c.writesDeclared
  · exact writes

theorem mem_outputs_of_lt (member : g.member? n = some m) {index : Nat}
    (declared : index < m.descriptor.outputs.length) : (⟨n, index⟩ : Port) ∈ g.outputs n := by
  rw [outputs, member]
  exact List.mem_map.mpr ⟨index, List.mem_range.mpr declared, rfl⟩

end Graph

namespace Engine

/-- A request that neither takes part in a reading nor begins an activation. If it memoises a value, the
output is one that the node declares. -/
def Ordinary (g : Graph) (s : Scope) : EngineRequest → Prop
  | .act (.memoized _) | .act .countHit | .act (.completeEvaluation _) | .act (.begin ..) => False
  | .evaluate .. | .restart | .pulse _ => False
  | .act (.memoize output _) => output ∈ g.outputs s.node
  | .act _ | .activate .. | .sleep _ | .rest | .abort _ => True

/-- A program reads outputs, makes ordinary requests, starts over, and runs pulses, of which it is told
nothing but the ids. -/
inductive Composed (g : Graph) (s : Scope) {α : Type} : Engine α → Prop where
  | done (a) : Composed g s (.done a)
  | ask {r next} (ordinary : Ordinary g s r) (later : ∀ reply, Composed g s (next reply)) :
      Composed g s (.ask r next)
  | read (depth output) {next : Value → Engine α} (later : ∀ v, Composed g s (next v)) :
      Composed g s ((resolve g depth output).andThen next)
  | restart (next) : Composed g s (.ask .restart next)
  | pulse (n) {next : Except PulseError PulseId → Engine α} (later : ∀ result, Composed g s (next result)) :
      Composed g s (.ask (.pulse n) fun result => next (result.map (·.pulse)))

variable {g : Graph} {s : Scope} {α β : Type}

theorem Composed.andThen {p : Engine α} {f : α → Engine β} (h : Composed g s p)
    (later : ∀ a, Composed g s (f a)) : Composed g s (p.andThen f) := by
  induction h with
  | done a => exact later a
  | ask ordinary _ ih => exact .ask ordinary ih
  | read depth output _ ih =>
      rw [Program.andThen_assoc]
      exact .read depth output ih
  | restart next => exact .restart _
  | @pulse n next _ ih => exact @Composed.pulse g s β n (fun result => (next result).andThen f) ih

theorem composed_of_ordinary {p : Engine α} (ordinary : p.Asks (Ordinary g s)) : Composed g s p := by
  induction p with
  | done a => exact .done a
  | ask r next ih => exact .ask ordinary.1 fun reply => ih reply (ordinary.2 reply)

/-! ## Ordinary requests -/

theorem ordinary_member (n : NodeId) : (member g n).Asks (Ordinary g s) := by
  rw [member]
  split
  · trivial
  · exact asks_abort trivial

theorem ordinary_declaredInput (index : Nat) : (declaredInput g s index).Asks (Ordinary g s) := by
  apply (ordinary_member s.node).andThen
  intro m
  split
  · trivial
  · exact asks_abort trivial

theorem ordinary_expect (index : Nat) (t : ValueType) (v : Option Value) :
    (expect s index t v).Asks (Ordinary g s) := by
  rw [expect]
  split
  · trivial
  · exact asks_abort trivial

theorem ordinary_activateAll (depth : Nat) (targets : List NodeId) :
    (activateAll depth targets).Asks (Ordinary g s) := by
  induction targets with
  | nil => trivial
  | cons n rest ih =>
      refine ⟨trivial, fun cancelled => ?_⟩
      cases cancelled with
      | true => trivial
      | false => exact ⟨trivial, fun _ => ih⟩

theorem ordinary_fire (index : Nat) : (fire g s index).Asks (Ordinary g s) := by
  apply (ordinary_member s.node).andThen
  intro m
  split
  · exact asks_abort trivial
  · refine ⟨trivial, fun cancelled => ?_⟩
    cases cancelled with
    | true => trivial
    | false =>
        simp only [Program.done_andThen, Bool.false_eq_true, if_false]
        split
        · exact asks_abort trivial
        · exact ordinary_activateAll ..

theorem Pausing.ordinary {r : EngineRequest} (h : Pausing r) : Ordinary g s r := by
  cases r with
  | act a => cases a <;> trivial
  | sleep | rest => trivial
  | evaluate | activate | restart | abort | pulse => exact h.elim

/-! ## The rules -/

theorem composed_resolveAll (depth : Nat) (outputs : List Port) :
    Composed g s (resolveAll g depth outputs) := by
  induction outputs with
  | nil => exact .done _
  | cons output outputs ih => exact .read depth output fun v => ih.andThen fun vs => .done _

theorem composed_inputValue (index : Nat) : Composed g s (inputValue g s index) := by
  apply (composed_of_ordinary (ordinary_declaredInput index)).andThen
  intro i
  split
  · exact .read _ _ fun v => .done _
  · exact .done _

theorem composed_inputs (index : Nat) (t : ValueType) :
    Composed g s (answer g s (.inputs index t)) := by
  apply (composed_of_ordinary (ordinary_declaredInput index)).andThen
  intro i
  apply (composed_resolveAll s.depth _).andThen
  intro vs
  exact composed_of_ordinary (Program.Asks.mapM (fun _ => ordinary_expect index t _) vs)

theorem composed_observeFrom (index : Nat) (inputs : List Input) :
    Composed g s (observeFrom g s index inputs) := by
  induction inputs generalizing index with
  | nil => exact .done _
  | cons i rest ih =>
      rw [observeFrom]
      split
      · apply (composed_inputValue index).andThen
        intro v
        cases v with
        | some v => exact .ask trivial fun _ => (ih _).andThen fun _ => .done _
        | none => exact (ih _).andThen fun _ => .done _
      · exact ih _

theorem composed_pulse (name : String) : Composed g s (pulse g name) := by
  rw [pulse]
  split
  · exact .done _
  · split
    next => exact .done _
    next => exact .pulse _ fun result => .done result

/-- Whatever a node asks for that writes declared outputs only, the answer is composed in this way. -/
theorem composed_answer {m : Member} (member : g.member? s.node = some m) {r : NodeRequest}
    (writes : m.descriptor.Writes r) : Composed g s (answer g s r) := by
  cases r with
  | input index t =>
      exact (composed_inputValue index).andThen fun v => composed_of_ordinary (ordinary_expect ..)
  | inputs index t => exact composed_inputs index t
  | publish index v =>
      have declared := Graph.mem_outputs_of_lt member writes
      simp only [answer, publish]
      split
      · exact .ask declared fun _ => .done _
      · exact .ask trivial fun _ => .done _
  | fire flow => exact composed_of_ordinary (ordinary_fire flow)
  | delay milliseconds =>
      exact composed_of_ordinary ((pausing_delay milliseconds).mono fun _ pausing => pausing.ordinary)
  | refuse message =>
      exact composed_of_ordinary ((ordinary_member s.node).andThen fun m => asks_abort trivial)
  | pulse root => exact composed_pulse root
  | again => exact .restart _
  | remembered t | remember v | update t f | rest | location | push sink v | isCancelled | cancel | shutDown
  | resetState | cell name | setCell name d => exact .ask trivial fun _ => .done _

theorem composed_run {m : Member} (member : g.member? s.node = some m) {p : NodeProgram α}
    (writes : p.Asks m.descriptor.Writes) : Composed g s (run g s p) := by
  induction p with
  | done a => exact .done a
  | ask r next ih => exact (composed_answer member writes.1).andThen fun reply => ih reply (writes.2 reply)

/-- What follows once a node is known to be a member may rely on it. -/
theorem composed_of_member {n : NodeId} {f : Member → Engine α}
    (later : ∀ m, g.member? n = some m → Composed g s (f m)) : Composed g s ((member g n).andThen f) := by
  rw [member]
  split
  next m member => exact later m member
  next => exact composed_of_ordinary (asks_abort trivial)

section

variable (conforms : g.Conforming)

include conforms

theorem composed_process : Composed g s (process g s) := by
  apply composed_of_member
  intro m member
  exact composed_run member (conforms.writesDeclared member).process

theorem composed_evaluation : Composed g s (evaluation g s) := by
  apply composed_of_member
  intro m member
  apply (composed_run member (conforms.writesDeclared member).guard).andThen
  intro passed
  split
  · exact composed_run member (conforms.writesDeclared member).process
  · exact .done _

end

end Engine

end FlowGraph
