import FlowGraph.Proofs.Built

/-!
# The value of an output

What an output is worth, given what has been published, said without a memo: a flow-driven node's output
has its published value, or its resting value if there is none, and a pure node's output is its function
of what its inputs are worth. An output has at most one value, and that of the declared type. Publishing
at one output changes the values of no others than the outputs of its dependents.
-/

namespace FlowGraph

namespace Graph

/-- The output whose value a single input has. -/
def first? (g : Graph) (input : Port) : Option Port :=
  (g.sources input).head?

/-- The value of an output, from the values published. An input that nothing is connected to has the
zero of its type. -/
inductive Evaluates (g : Graph) (published : Port → Option Value) : Port → Value → Prop where
  | driven {output m o} (member : g.member? output.node = some m)
      (declared : m.descriptor.outputs[output.index]? = some o) (driven : m.node.isPure = false) :
      Evaluates g published output ((published output).getD o.resting)
  | constant {n m v} (member : g.member? n = some m)
      (node : m.node = (CatalogueNode.constant v).node) : Evaluates g published ⟨n, 0⟩ v
  | add {n m t a b} (member : g.member? n = some m) (node : m.node = (CatalogueNode.add t).node)
      (left : ∀ source, g.first? ⟨n, 0⟩ = some source →
        Evaluates g published source (.of t.valueType a))
      (restingLeft : g.first? ⟨n, 0⟩ = none → a = t.valueType.zero)
      (right : ∀ source, g.first? ⟨n, 1⟩ = some source →
        Evaluates g published source (.of t.valueType b))
      (restingRight : g.first? ⟨n, 1⟩ = none → b = t.valueType.zero) :
      Evaluates g published ⟨n, 0⟩ (.of t.valueType (t.add a b))
  | sum {n m t} {value : Port → t.valueType.Carrier} (member : g.member? n = some m)
      (node : m.node = (CatalogueNode.sum t).node)
      (values : ∀ source ∈ g.sources ⟨n, 0⟩,
        Evaluates g published source (.of t.valueType (value source))) :
      Evaluates g published ⟨n, 0⟩ (.of t.valueType (t.sum ((g.sources ⟨n, 0⟩).map value)))

/-- Whatever is published has the type that its output declares. -/
def Typed (g : Graph) (published : Port → Option Value) : Prop :=
  ∀ output v, published output = some v → ∃ o, g.Declares output o ∧ v.type = o.type

theorem mem_sources_of_first? {g : Graph} {input source : Port} (h : g.first? input = some source) :
    source ∈ g.sources input :=
  List.mem_of_head? h

end Graph

namespace Value

theorem of_injective {t : ValueType} {a b : t.Carrier} (h : Value.of t a = Value.of t b) : a = b := by
  have same := congrArg (·.as? t) h
  simpa using same

end Value

namespace Graph

variable {g : Graph} {published published' : Port → Option Value} {output : Port} {v : Value}

/-- An id stands for a node of one kind. -/
theorem kind_unique {n : NodeId} {m m' : Member} {c c' : CatalogueNode} (member : g.member? n = some m)
    (node : m.node = c.node) (member' : g.member? n = some m') (node' : m'.node = c'.node) : c = c' := by
  obtain rfl := Option.some.inj (member.symm.trans member')
  exact CatalogueNode.node_injective (node.symm.trans node')

/-- What an input is worth to a node that sees values of one type there is determined by its source. -/
theorem read_unique {input : Port} {t : ValueType} {a a' : t.Carrier}
    (read : ∀ source, g.first? input = some source → ∀ v, g.Evaluates published source v →
      .of t a = v)
    (resting : g.first? input = none → a = t.zero)
    (read' : ∀ source, g.first? input = some source → g.Evaluates published source (.of t a'))
    (resting' : g.first? input = none → a' = t.zero) : a = a' := by
  cases found : g.first? input with
  | none => rw [resting found, resting' found]
  | some source => exact Value.of_injective (read source found _ (read' source found))

/-- An output has at most one value. -/
theorem Evaluates.unique (h : g.Evaluates published output v) {v' : Value}
    (h' : g.Evaluates published output v') : v = v' := by
  induction h generalizing v' with
  | driven member declared driven =>
      cases h' with
      | driven member' declared' _ =>
          obtain rfl := Option.some.inj (member.symm.trans member')
          obtain rfl := Option.some.inj (declared.symm.trans declared')
          rfl
      | constant member' node | add member' node | sum member' node =>
          obtain rfl := Option.some.inj (member.symm.trans member')
          rw [node] at driven
          cases driven
  | constant member node =>
      cases h' with
      | driven member' _ driven =>
          obtain rfl := Option.some.inj (member.symm.trans member')
          rw [node] at driven
          cases driven
      | constant member' node' =>
          cases kind_unique member node member' node'
          rfl
      | add member' node' | sum member' node' => cases kind_unique member node member' node'
  | add member node _ restingLeft _ restingRight ihLeft ihRight =>
      cases h' with
      | driven member' _ driven =>
          obtain rfl := Option.some.inj (member.symm.trans member')
          rw [node] at driven
          cases driven
      | constant member' node' | sum member' node' => cases kind_unique member node member' node'
      | add member' node' left' restingLeft' right' restingRight' =>
          cases kind_unique member node member' node'
          have left := read_unique (fun s hs _ => ihLeft s hs) restingLeft left' restingLeft'
          have right := read_unique (fun s hs _ => ihRight s hs) restingRight right' restingRight'
          rw [left, right]
  | sum member node values ih =>
      cases h' with
      | driven member' _ driven =>
          obtain rfl := Option.some.inj (member.symm.trans member')
          rw [node] at driven
          cases driven
      | constant member' node' | add member' node' => cases kind_unique member node member' node'
      | sum member' node' values' =>
          cases kind_unique member node member' node'
          congr 2
          apply List.map_congr_left
          intro source connected
          exact Value.of_injective (ih source connected (values' source connected))

/-- The value of an output has the type that the output declares. -/
theorem Evaluates.typed (typed : g.Typed published) (h : g.Evaluates published output v) :
    ∃ o, g.Declares output o ∧ v.type = o.type := by
  cases h with
  | @driven _ m o member declared driven =>
      cases found : published output with
      | none => exact ⟨o, ⟨m, member, declared⟩, by simp [Output.resting, Value.zero]⟩
      | some v => exact typed output v found
  | @constant n m v member node =>
      refine ⟨⟨"Value", v.type⟩, ⟨m, member, ?_⟩, rfl⟩
      rw [Member.descriptor, node]
      rfl
  | @add n m t a b member node =>
      refine ⟨⟨"Result", t.valueType⟩, ⟨m, member, ?_⟩, Value.type_of _ _⟩
      rw [Member.descriptor, node]
      rfl
  | @sum n m t value member node =>
      refine ⟨⟨"Sum", t.valueType⟩, ⟨m, member, ?_⟩, Value.type_of _ _⟩
      rw [Member.descriptor, node]
      rfl

namespace FromCatalogue

variable {n : NodeId} {m : Member} {o : Port}

/-- What a pure node reads does not depend on an output if the node does not. -/
theorem source_free (h : g.FromCatalogue) (driven : g.isPure o.node = false)
    (member : g.member? n = some m) (pure : m.node.isPure = true) (free : n ∉ g.dependents o)
    (index : Nat) {i : Input} (input : m.descriptor.inputs[index]? = some i) {source : Port}
    (connected : source ∈ g.sources ⟨n, index⟩) : source ≠ o ∧ source.node ∉ g.dependents o := by
  have reads := reads_of_mem_sources (n := n) (by simpa [isPure, member] using pure) connected
  constructor
  · rintro rfl
    exact free (mem_dependents_of_reads driven reads)
  · intro dependent
    obtain ⟨_, declares, _⟩ := h.source member input connected
    exact free (mem_dependents_of_dependent dependent declares.mem_outputs reads)

/-- Publishing at an output leaves the value of another one as it is, unless that belongs to a
dependent. -/
theorem evaluates_of_publish (h : g.FromCatalogue) (driven : g.isPure o.node = false)
    (same : ∀ output, output ≠ o → published' output = published output)
    (value : g.Evaluates published output v) (other : output ≠ o)
    (free : output.node ∉ g.dependents o) : g.Evaluates published' output v := by
  induction value with
  | @driven output m out member declared pure =>
      rw [← same output other]
      exact .driven member declared pure
  | constant member node => exact .constant member node
  | @add n m t a b member node _ restingLeft _ restingRight ihLeft ihRight =>
      have pure : m.node.isPure = true := by rw [node]; rfl
      refine .add member node (fun source first => ?_) restingLeft (fun source first => ?_)
        restingRight
      · obtain ⟨distinct, apart⟩ := h.source_free driven member pure free 0
          (by rw [Member.descriptor, node]; rfl) (mem_sources_of_first? first)
        exact ihLeft source first distinct apart
      · obtain ⟨distinct, apart⟩ := h.source_free driven member pure free 1
          (by rw [Member.descriptor, node]; rfl) (mem_sources_of_first? first)
        exact ihRight source first distinct apart
  | @sum n m t value member node _ ih =>
      refine .sum member node ?_
      intro source connected
      obtain ⟨distinct, apart⟩ := h.source_free driven member (by rw [node]; rfl) free 0
        (by rw [Member.descriptor, node]; rfl) connected
      exact ih source connected distinct apart

end FromCatalogue

end Graph

end FlowGraph
