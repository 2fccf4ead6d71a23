import FlowGraph.Proofs.Reading
import FlowGraph.Proofs.Requests

/-!
# The catalogue keeps pulses fresh

Each of the three pure nodes memoises at its one output what that output is worth. The other nodes are not
looked at one by one: whatever a program asks for, as long as it refers to ports as they are declared, is
granted and leaves the pulse fresh, so no program of such a node can go wrong. Together this verifies the
contract of reading.
-/

namespace FlowGraph

namespace Graph

variable {g : Graph} {flow : Prop} {may : NodeId → Prop} {p p' : Pulse} {m : Member} {s : Scope}
  {back : Pulse → Prop}

/-! ## Pure nodes -/

theorem wp_run {α : Type} {c : Contract Pulse} {r : NodeRequest} {next : r.Reply → NodeProgram α}
    {Q : α → Pulse → Prop}
    (h : (Engine.answer g s r).wp (c.Spec s back)
      (fun reply => (Engine.run g s (next reply)).wp (c.Spec s back) Q) p) :
    (Engine.run g s (.ask r next)).wp (c.Spec s back) Q p := by
  rw [Engine.run, Program.wp_interpret_ask]
  exact h

/-- A declared output of a pure node takes a value by being memoised. -/
theorem wp_publish_pure {index : Nat} {v : Value} {Q : Unit → Pulse → Prop} (fresh : g.Fresh p)
    (pure : g.isPure s.node = true) (value : g.Evaluates p.published.get? ⟨s.node, index⟩ v)
    (next : ∀ p', g.ReadFrom p p' → p'.memo.contains ⟨s.node, index⟩ = true → Q () p') :
    (Engine.answer g s (.publish index v)).wp ((g.reading flow may).Spec s back) Q p := by
  simp only [Engine.answer, Engine.publish, pure, if_true]
  refine wp_act fresh ⟨pure, value⟩ fun w fresh' => next _ ⟨fresh', rfl⟩ ?_
  simp only [Action.perform, Pulse.memoize, Table.contains, Table.get?_insertNew, if_true,
    Option.isSome_some]

theorem InputIs.reads {published : Port → Option Value} {input source : Port} {i : Input} {v : Value}
    (h : g.InputIs published input i (some v)) (first : g.first? input = some source) :
    g.Evaluates published source v := by
  rcases h with ⟨source', u, first', value, _, same⟩ | ⟨none, _⟩
  · obtain rfl := Option.some.inj (first.symm.trans first')
    exact Option.some.inj same ▸ value
  · rw [none] at first
    cases first

theorem InputIs.rests {published : Port → Option Value} {input : Port} {i : Input} {v : Value}
    (h : g.InputIs published input i (some v)) (none : g.first? input = none) :
    some v = i.resting? := by
  rcases h with ⟨source', u, first', _⟩ | ⟨_, resting⟩
  · rw [none] at first'
    cases first'
  · exact resting

/-- The inputs of a pure node are read, its function is applied, and the result is memoised. -/
theorem wp_process_pure (catalogue : g.FromCatalogue) (fresh : g.Fresh p)
    (member : g.member? s.node = some m) {c : CatalogueNode} (node : m.node = c.node)
    (pure : c.node.isPure = true)
    (mayCompute : ∀ k, Blueprint.Feeds g.valueEdges k s.node → may k) {Q : Unit → Pulse → Prop}
    (next : ∀ p', g.ReadFrom p p' → p'.memo.contains ⟨s.node, 0⟩ = true → Q () p') :
    (Engine.run g s c.process).wp ((g.reading flow may).Spec s back) Q p := by
  have isPure : g.isPure s.node = true := by simpa [Graph.isPure, member, node] using pure
  cases c with
  | constant v =>
      refine wp_run (r := .publish 0 v) (wp_publish_pure fresh isPure ?_ next)
      exact .constant member node
  | add t =>
      have takes : ∀ index i, (CatalogueNode.add t).descriptor.inputs[index]? = some i →
          g.Takes ⟨s.node, index⟩ i := by
        intro index i declared
        exact ⟨m, member, by rw [Member.descriptor, node]; exact declared⟩
      refine wp_run (wp_input catalogue fresh (takes 0 _ rfl) mayCompute rfl fun a p₁ read₁ worth₁ => ?_)
      refine wp_run (wp_input catalogue read₁.fresh (takes 1 _ rfl) mayCompute rfl
        fun b p₂ read₂ worth₂ => ?_)
      rw [read₁.published] at worth₂
      have value : g.Evaluates p.published.get? ⟨s.node, 0⟩ (.of t.valueType (t.add a b)) :=
        .add member node
          (fun _ => worth₁.reads)
          (fun none => Value.of_injective (Option.some.inj (worth₁.rests none)))
          (fun _ => worth₂.reads)
          (fun none => Value.of_injective (Option.some.inj (worth₂.rests none)))
      have read := read₁.trans read₂
      rw [← read.published] at value
      exact wp_run (wp_publish_pure read₂.fresh isPure value fun p' read₃ => next p' (read.trans read₃))
  | sum t =>
      have takes : g.Takes ⟨s.node, 0⟩ ⟨"Values", t.valueType, .list⟩ :=
        ⟨m, member, by rw [Member.descriptor, node]; rfl⟩
      refine wp_run (wp_inputs catalogue fresh takes mayCompute fun value p₁ read₁ worth => ?_)
      have value : g.Evaluates p.published.get? ⟨s.node, 0⟩
          (.of t.valueType (t.sum ((g.sources ⟨s.node, 0⟩).map value))) := .sum member node worth
      rw [← read₁.published] at value
      exact wp_run (wp_publish_pure read₁.fresh isPure value fun p' read₂ => next p' (read₁.trans read₂))
  | _ => cases pure

/-- Computing a pure node gives all its outputs their values. -/
theorem wp_evaluation (catalogue : g.FromCatalogue) (fresh : g.Fresh p)
    (pure : g.isPure s.node = true)
    (mayCompute : ∀ k, Blueprint.Feeds g.valueEdges k s.node → may k) {Q : Unit → Pulse → Prop}
    (next : ∀ p', g.ReadFrom p p' → (∀ output ∈ g.outputs s.node, p'.memo.contains output = true) →
      Q () p') :
    (Engine.evaluation g s).wp ((g.reading flow may).Spec s back) Q p := by
  obtain ⟨m, member, isPure⟩ : ∃ m, g.member? s.node = some m ∧ m.node.isPure = true := by
    simpa [Graph.isPure, Option.any_eq_true] using pure
  obtain ⟨c, node⟩ := catalogue.kind member
  rw [node] at isPure
  have guard : c.guard = Program.done true := by
    cases c with
    | fireOnTrue => cases isPure
    | _ => rfl
  have outputs : g.outputs s.node = [⟨s.node, 0⟩] := by
    have length : m.descriptor.outputs.length = 1 := by
      rw [Member.descriptor, node]
      cases c with
      | constant v | add t | sum t => rfl
      | _ => cases isPure
    simp [Graph.outputs, member, length]
  have process : (Engine.run g s c.process).wp ((g.reading flow may).Spec s back) Q p :=
    wp_process_pure catalogue fresh member node isPure mayCompute fun p' read written =>
      next p' read (by simpa [outputs] using written)
  simpa [Engine.evaluation, Engine.member, member, node, CatalogueNode.node, guard, Engine.run,
    Program.interpret] using process

/-! ## Nodes that flow comes to -/

/-- The contract of a whole pulse. -/
abbrev conduct (g : Graph) : Contract Pulse :=
  g.reading True fun _ => True

theorem wp_activateAll {depth : Nat} {targets : List NodeId} {Q : Unit → Pulse → Prop}
    (fresh : g.Fresh p) (driven : ∀ n ∈ targets, g.IsDriven n)
    (next : ∀ p', g.Fresh p' → Q () p') :
    (Engine.activateAll depth targets).wp (g.conduct.Spec s back) Q p := by
  induction targets generalizing p with
  | nil => exact next p fresh
  | cons n rest ih =>
      rw [Engine.activateAll, Program.bind_eq, Program.wp_andThen]
      refine wp_act fresh trivial ?_
      intro w fresh'
      split
      · exact next _ fresh'
      · exact {
          allowed := ⟨fresh', trivial, driven n (List.mem_cons_self ..)⟩
          goesOn := fun _ p' fresh'' => ih fresh'' fun k later => driven k (List.mem_cons_of_mem _ later)
          startsOver := trivial }

theorem wp_fire (catalogue : g.FromCatalogue) {index : Nat} {f : Flow} {Q : Unit → Pulse → Prop}
    (fresh : g.Fresh p) (member : g.member? s.node = some m)
    (declared : m.descriptor.flows[index]? = some f) (next : ∀ p', g.Fresh p' → Q () p') :
    (Engine.fire g s index).wp (g.conduct.Spec s back) Q p := by
  simp only [Engine.fire, Engine.member, member, declared, Program.pure_eq, Program.bind_eq,
    Program.done_andThen]
  rw [Program.wp_andThen]
  refine wp_act fresh trivial ?_
  intro w fresh'
  split
  · exact next _ fresh'
  · split
    · exact ⟨⟨fresh', trivial, _, _, rfl⟩, fun reply => reply.elim, trivial⟩
    · refine wp_activateAll fresh' (fun n target => ?_) next
      obtain ⟨m', member', opened⟩ := catalogue.target target
      refine ⟨m', member', ?_⟩
      change m'.descriptor.isPure = false
      simp [Descriptor.isPure, opened]

section

variable {milliseconds : Nat} {Q : Bool → Pulse → Prop} (next : ∀ passed p', g.Fresh p' → Q passed p')

include next

theorem wp_delayEnd (fresh : g.Fresh p) : Engine.delayEnd.wp (g.conduct.Spec s back) Q p := by
  refine wp_act fresh trivial ?_
  intro w fresh'
  beta_reduce
  split
  · exact next false _ fresh'
  · exact wp_act fresh' trivial fun w fresh'' => next true _ fresh''

theorem wp_delayStart (fresh : g.Fresh p) :
    (Engine.delayStart milliseconds).wp (g.conduct.Spec s back) Q p := by
  refine wp_act fresh trivial ?_
  intro w fresh'
  beta_reduce
  split
  · exact next false _ fresh'
  · split
    · exact ⟨⟨fresh', trivial⟩, fun _ p' same => same ▸ wp_delayEnd next fresh', trivial⟩
    · exact wp_delayEnd next fresh'

theorem wp_delay (fresh : g.Fresh p) :
    (Engine.delay milliseconds).wp (g.conduct.Spec s back) Q p := by
  rw [Engine.delay_eq]
  refine wp_act fresh trivial ?_
  intro w fresh'
  beta_reduce
  split
  · exact ⟨⟨fresh', trivial⟩, fun _ p' same => same ▸ wp_delayStart next fresh', trivial⟩
  · exact wp_delayStart next fresh'

end

/-- Whatever refers to ports as they are declared is granted. -/
theorem wp_answer (catalogue : g.FromCatalogue) (fresh : g.Fresh p)
    (member : g.member? s.node = some m) (driven : m.node.isPure = false) {r : NodeRequest}
    (suits : m.node.Suits r) (returns : ∀ p', g.Fresh p' → back p')
    {Q : r.Reply → Pulse → Prop} (next : ∀ reply p', g.Fresh p' → Q reply p') :
    (Engine.answer g s r).wp (g.conduct.Spec s back) Q p := by
  cases suits with
  | input declared single typed =>
      subst typed
      exact wp_input catalogue fresh ⟨m, member, declared⟩ (fun _ _ => trivial) single
        fun c p' read _ => next c p' read.fresh
  | inputs declared list typed =>
      subst typed
      exact wp_inputs catalogue fresh ⟨m, member, declared⟩ (fun _ _ => trivial)
        fun value p' read _ => next _ p' read.fresh
  | @publish index v o declared typed =>
      have isDriven : g.isPure s.node = false := by simpa [Graph.isPure, member] using driven
      simp only [Engine.answer, Engine.publish, isDriven, Bool.false_eq_true, if_false]
      exact wp_act fresh ⟨trivial, isDriven, rfl, o, ⟨m, member, declared⟩, typed⟩ fun w fresh' =>
        next () _ fresh'
  | fire declared => exact wp_fire catalogue fresh member declared fun p' fresh' => next () p' fresh'
  | remembered t => exact wp_act fresh trivial fun w fresh' => next _ _ fresh'
  | remember cleared => exact wp_act fresh ⟨trivial, m, member, cleared⟩ fun w fresh' => next _ _ fresh'
  | update cleared => exact wp_act fresh ⟨trivial, m, member, cleared⟩ fun w fresh' => next _ _ fresh'
  | push sink v => exact wp_act fresh trivial fun w fresh' => next _ _ fresh'
  | isCancelled => exact wp_act fresh trivial fun w fresh' => next _ _ fresh'
  | delay milliseconds => exact wp_delay next fresh
  | rest => exact ⟨⟨fresh, trivial⟩, fun _ p' same => next () p' (same ▸ fresh), trivial⟩
  | again => exact ⟨⟨fresh, trivial, m, member, driven⟩, fun reply => reply.elim, returns⟩

/-- A program of a driven node that refers to ports as they are declared cannot go wrong. -/
theorem wp_program {α : Type} (catalogue : g.FromCatalogue) (fresh : g.Fresh p)
    (member : g.member? s.node = some m) (driven : m.node.isPure = false) {program : NodeProgram α}
    (asks : program.Asks m.node.Suits) (returns : ∀ p', g.Fresh p' → back p')
    {Q : α → Pulse → Prop} (next : ∀ a p', g.Fresh p' → Q a p') :
    (Engine.run g s program).wp (g.conduct.Spec s back) Q p := by
  induction program generalizing p with
  | done a => exact next a p fresh
  | ask r rest ih =>
      exact wp_run (wp_answer catalogue fresh member driven asks.1 returns
        fun reply p' fresh' => ih reply fresh' (asks.2 reply))

theorem wp_observeFrom (catalogue : g.FromCatalogue) (fresh : g.Fresh p) {index : Nat}
    {inputs : List Input} (takes : ∀ j i, inputs[j]? = some i → g.Takes ⟨s.node, index + j⟩ i)
    {Q : Bool → Pulse → Prop} (next : ∀ changed p', g.Fresh p' → Q changed p') :
    (Engine.observeFrom g s index inputs).wp (g.conduct.Spec s back) Q p := by
  induction inputs generalizing p index Q with
  | nil => exact next false p fresh
  | cons i rest ih =>
      have later : ∀ j i, rest[j]? = some i → g.Takes ⟨s.node, index + 1 + j⟩ i := by
        intro j i' declared
        rw [Nat.add_assoc, Nat.add_comm 1 j]
        exact takes (j + 1) i' declared
      rw [Engine.observeFrom]
      split
      next reactive =>
        have here : g.Takes ⟨s.node, index⟩ i := takes 0 i rfl
        rw [Program.bind_eq, Program.wp_andThen]
        apply wp_inputValue catalogue fresh here (fun _ _ => trivial)
        intro v p' read worth
        obtain ⟨c, rfl⟩ := worth.exists_of (Input.isList_of_isReactive reactive)
        simp only [Program.bind_eq, Program.wp_andThen]
        refine wp_act read.fresh ⟨trivial, Value.type_of _ _, i, here, rfl⟩ ?_
        intro w fresh'
        exact ih fresh' later fun changed p'' fresh'' => next _ p'' fresh''
      next => exact ih fresh later next

/-- The programs of a node refer to ports as the node declares them. -/
theorem FromCatalogue.suits (h : g.FromCatalogue) {n : NodeId} (member : g.member? n = some m) :
    m.node.guard.Asks m.node.Suits ∧ m.node.process.Asks m.node.Suits := by
  obtain ⟨c, node⟩ := h.kind member
  rw [node]
  exact ⟨c.suits_guard, c.suits_process⟩

theorem wp_admitted (catalogue : g.FromCatalogue) (fresh : g.Fresh p)
    (member : g.member? s.node = some m) (driven : m.node.isPure = false)
    (returns : ∀ p', g.Fresh p' → back p') :
    g.conduct.Keeps s back (Engine.admitted g s m) p := by
  obtain ⟨guard, process⟩ := catalogue.suits member
  rw [Contract.Keeps, Engine.admitted, Program.bind_eq, Program.wp_andThen]
  apply wp_program catalogue fresh member driven guard returns
  intro passed p' fresh'
  split
  · rw [Program.bind_eq, Program.wp_andThen]
    refine wp_act fresh' trivial ?_
    intro w fresh''
    exact wp_program catalogue fresh'' member driven process returns fun _ => returns
  · exact returns p' fresh'

theorem wp_activation (catalogue : g.FromCatalogue) (fresh : g.Fresh p) (driven : g.IsDriven s.node)
    (returns : ∀ p', g.Fresh p' → back p') :
    g.conduct.Keeps s back (Engine.activation g s) p := by
  obtain ⟨m, member, driven⟩ := driven
  simp only [Contract.Keeps, Engine.activation, Engine.member, member, Program.pure_eq,
    Program.bind_eq, Program.done_andThen]
  rw [Program.wp_andThen]
  refine wp_act fresh trivial ?_
  intro w fresh'
  split
  · exact returns _ fresh'
  · split
    · rw [Program.wp_andThen]
      have takes : ∀ j i, m.descriptor.inputs[j]? = some i → g.Takes ⟨s.node, 0 + j⟩ i := by
        intro j i declared
        rw [Nat.zero_add]
        exact ⟨m, member, declared⟩
      apply wp_observeFrom catalogue fresh' takes
      intro changed p' fresh''
      split
      · exact wp_admitted catalogue fresh'' member driven returns
      · exact wp_act fresh'' trivial fun w fresh3 => returns _ fresh3
    · exact wp_admitted catalogue fresh' member driven returns

/-- Every node of a graph of catalogue nodes keeps to the contract of a whole pulse. -/
theorem verified_conduct (catalogue : g.FromCatalogue) : g.conduct.Verified g where
  evaluation allowed returns :=
    wp_evaluation catalogue allowed.1 allowed.2.1 (fun _ _ => trivial) fun p' read written =>
      returns p' ⟨read, written⟩
  activation allowed returns := wp_activation catalogue allowed.1 allowed.2.2 returns
  process allowed returns := by
    obtain ⟨fresh, _, m, member, driven⟩ := allowed
    have asks := (catalogue.suits member).2
    simp only [Engine.process, Engine.member, member, Program.pure_eq, Program.bind_eq,
      Program.done_andThen]
    exact wp_program catalogue fresh member driven asks returns fun _ => returns
  alone allowed := allowed.2

/-- The contract of a whole pulse speaks about the pulse's state itself, which stays fresh. -/
theorem follows_conduct (catalogue : g.FromCatalogue) :
    g.conduct.Follows fun _ _ p x => x = p ∧ g.Fresh p where
  act := by
    rintro n a events w p _ allowed ⟨rfl, fresh⟩
    have fresh' := fresh.perform (w := w) catalogue allowed.2
    exact ⟨_, ⟨fresh', w, rfl, rfl⟩, rfl, fresh'⟩
  enter _ seen := seen
  sleep := by
    rintro n milliseconds events w p _ _ ⟨rfl, fresh⟩
    exact ⟨_, rfl, rfl, fresh⟩
  rest := by
    rintro n events w p _ _ ⟨rfl, fresh⟩
    exact ⟨_, rfl, rfl, fresh⟩

theorem fresh_start (w : World) (root : NodeId) (token : TokenId) :
    g.Fresh (Machine.start g w root token).2.pulse where
  typed := nofun
  pure := nofun
  current := nofun

/-- A node that can start a pulse is one that flow comes to. -/
theorem isDriven_of_root {root : NodeId} {r : Member} (triggerable : g.root root = .ok r) :
    g.IsDriven root := by
  rw [Graph.root] at triggerable
  split at triggerable
  next => cases triggerable
  next m member =>
    split at triggerable
    next => cases triggerable
    next driven => exact ⟨m, member, by simpa using driven⟩

/-- A pulse fits the contract of a whole pulse from its start on. -/
theorem fits_conduct (catalogue : g.FromCatalogue) {root : NodeId} {r : Member}
    (triggerable : g.root root = .ok r) (w : World) (token : TokenId) :
    g.conduct.Fits (Machine.start g w root token).2 (Machine.start g w root token).2.pulse :=
  Contract.fits_start (verified_conduct catalogue) root
    ⟨fresh_start w root token, trivial, isDriven_of_root triggerable⟩

end Graph

end FlowGraph
