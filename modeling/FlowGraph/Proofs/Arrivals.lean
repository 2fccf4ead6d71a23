import FlowGraph.Proofs.Turns

/-!
# Arrivals at a node with reactive inputs

Flow that arrives at a node is let through by the gate of the node's reactive inputs, or it is not. When
all of them can be read within the turn, the whole arrival takes place within one turn: one look at the
cancellation, then one reading and one comparison for each input, and then the gate has decided. Nobody
else gets to move in between, so an arrival can be spoken of as a single step.
-/

namespace FlowGraph

namespace Machine

variable {g : Graph} {n : NodeId} {k : Member} {w : World} {m : Machine}

/-- A machine is about to let flow into a node. -/
def Arrives (g : Graph) (n : NodeId) (m : Machine) : Prop :=
  m.scope.node = n ∧ m.program = Engine.activation g m.scope

/-- An arrival begins with a look at the cancellation, and is over if the pulse is cancelled. -/
theorem Arrives.looks (h : m.Arrives g n) (member : g.member? n = some k) :
    ∃ next, m.program = .ask (.act .isCancelled) next ∧ next true = .done () := by
  obtain ⟨rfl, program⟩ := h
  simp only [Engine.activation, Engine.member, member, Program.pure_eq, Program.bind_eq,
    Program.done_andThen, Engine.isCancelled, Engine.act, Program.ask_andThen] at program
  exact ⟨_, program, rfl⟩

/-- The arrival of a cancelled pulse is over at once. -/
theorem Arrives.of_cancelled (h : m.Arrives g n) (member : g.member? n = some k)
    (cancelled : w.isCancelled m.pulse.token = true) :
    m.step g w = .running w { m with program := .done () } := by
  obtain ⟨next, asks, ends⟩ := h.looks member
  rw [step, asks]
  simp only [Action.perform, cancelled, ends]

/-- One move within a turn other than to let flow into a node. -/
def Aside (g : Graph) (n : NodeId) (before after : World × Machine) : Prop :=
  ¬ before.2.Arrives g n ∧ before.2.step g before.1 = .running after.1 after.2

end Machine

/-- A program comes to an end within the turn and without letting flow into a node, and what follows it
goes on from there. -/
def Engine.Yields (g : Graph) (n : NodeId) {α : Type} (w : World) (p : Pulse) (program : Engine α) (a : α)
    (w' : World) (p' : Pulse) : Prop :=
  ∀ s (next : α → Engine Unit) callers,
    Relation.ReflTransGen (Machine.Aside g n) (w, ⟨p, s, program.andThen next, callers⟩)
      (w', ⟨p', s, next a, callers⟩)

namespace Engine

variable {g : Graph} {n : NodeId} {k : Member} {w w' w'' : World} {p p' p'' : Pulse} {α β : Type}

theorem yields_done (a : α) : Yields g n w p (.done a) a w p :=
  fun _ _ _ => .refl

theorem yields_observe (member : g.member? n = some k) (input : Port) (t : ValueType) (v : Value) :
    Yields g n w p (act (.observe input t v)) (w.observe input t v).2 (w.observe input t v).1 p := by
  intro s next callers
  refine .single ⟨fun arrives => ?_, rfl⟩
  obtain ⟨_, looks, _⟩ := arrives.looks member
  cases looks

theorem Yields.andThen {program : Engine α} {f : α → Engine β} {a : α} {b : β}
    (h : Yields g n w p program a w' p') (later : Yields g n w' p' (f a) b w'' p'') :
    Yields g n w p (program.andThen f) b w'' p'' := by
  intro s next callers
  rw [Program.andThen_assoc]
  exact (h s _ callers).trans (later s next callers)

end Engine

/-- What an arrival has read at a reactive input. -/
structure Reading where
  index : Nat
  type : ValueType
  value : Value

/-- The reactive inputs of a node from one place on are read within the turn, one after the other, and
each is compared with its last observation. Reading does not itself let flow into the node or forget what
has been observed there. -/
inductive Graph.Observes (g : Graph) (s : Scope) :
    Nat → List Input → World → Pulse → List Reading → Bool → World → Pulse → Prop where
  | nil (index w p) : Observes g s index [] w p [] false w p
  | other {index i inputs w p readings changed w' p'} (unreactive : i.isReactive = false)
      (later : Observes g s (index + 1) inputs w p readings changed w' p') :
      Observes g s index (i :: inputs) w p readings changed w' p'
  | reactive {index i inputs w p v w₁ p₁ readings changed w' p'} (reactive : i.isReactive = true)
      (reads : Engine.Yields g s.node w p (Engine.inputValue g s index) (some v) w₁ p₁)
      (aside : ∀ j, w₁.observed.get? ⟨s.node, j⟩ = w.observed.get? ⟨s.node, j⟩)
      (later : Observes g s (index + 1) inputs (w₁.observe ⟨s.node, index⟩ i.type v).1 p₁ readings
        changed w' p') :
      Observes g s index (i :: inputs) w p (⟨index, i.type, v⟩ :: readings)
        ((w₁.observe ⟨s.node, index⟩ i.type v).2 || changed) w' p'

namespace Graph

variable {g : Graph} {s : Scope} {k : Member} {index : Nat} {inputs : List Input} {w w' : World}
  {p p' : Pulse} {readings : List Reading} {changed : Bool}

/-- The rule that observes inputs does what observing them one after the other does. -/
theorem Observes.yields (h : g.Observes s index inputs w p readings changed w' p')
    (member : g.member? s.node = some k) :
    Engine.Yields g s.node w p (Engine.observeFrom g s index inputs) changed w' p' := by
  induction h with
  | nil index w p => exact Engine.yields_done false
  | other unreactive _ ih =>
      rw [Engine.observeFrom, if_neg (by simp [unreactive])]
      exact ih
  | @reactive index i _ _ _ v w₁ p₁ _ _ _ _ reactive reads _ _ ih =>
      rw [Engine.observeFrom, if_pos reactive]
      have compared := Engine.yields_observe (w := w₁) (p := p₁) member ⟨s.node, index⟩ i.type v
      refine reads.andThen ?_
      exact compared.andThen (ih.andThen (Engine.yields_done _))

end Graph

namespace Machine

variable {g : Graph} {n : NodeId} {k : Member} {w w' : World} {m : Machine} {p : Pulse}
  {readings : List Reading} {passed : Bool}

/-- How an arrival goes on when the gate has decided. -/
def afterGate (g : Graph) (k : Member) (s : Scope) (passed : Bool) : Engine Unit :=
  if passed then Engine.admitted g s k else Engine.act .countSuppression

/-- Where an arrival goes on when the gate has decided. -/
def decided (g : Graph) (k : Member) (m : Machine) (p : Pulse) (passed : Bool) : Machine :=
  { m with pulse := p, program := afterGate g k m.scope passed }

/-- The arrival of a live pulse goes on to observe the inputs. -/
theorem Arrives.of_live (h : m.Arrives g n) (member : g.member? n = some k)
    (gated : k.descriptor.hasReactiveInput = true) (live : w.isCancelled m.pulse.token = false) :
    m.step g w = .running w { m with
      program := (Engine.observeFrom g m.scope 0 k.descriptor.inputs).andThen (afterGate g k m.scope) } := by
  obtain ⟨rfl, program⟩ := h
  rw [step, program]
  simp only [Engine.activation, Engine.member, member, gated, Program.pure_eq, Program.bind_eq,
    Program.done_andThen, if_true, Engine.isCancelled, Engine.act, Program.ask_andThen, Action.perform, live,
    Bool.false_eq_true, if_false]
  rfl

/-- The gate of a node comes to its decision on an arrival within the turn, and no other flow is let into
the node before it does. -/
def Settles (g : Graph) (n : NodeId) (w : World) (m : Machine) (decision : World × Machine) : Prop :=
  ∃ looked, m.step g w = .running w looked ∧ Relation.ReflTransGen (Aside g n) (w, looked) decision

/-- The gate settles an arrival of a live pulse if the reactive inputs are read within the turn. -/
theorem Arrives.settles (h : m.Arrives g n) (member : g.member? n = some k)
    (gated : k.descriptor.hasReactiveInput = true) (live : w.isCancelled m.pulse.token = false)
    (observes : g.Observes m.scope 0 k.descriptor.inputs w m.pulse readings passed w' p) :
    m.Settles g n w (w', m.decided g k p passed) := by
  have aside := (h.1 ▸ observes.yields (h.1 ▸ member)) m.scope (afterGate g k m.scope) m.callers
  exact ⟨_, h.of_live member gated live, aside⟩

/-- An arrival that is not let through is counted, and is over. -/
theorem suppressed_step (g : Graph) (k : Member) (w : World) (m : Machine) (p : Pulse) :
    (m.decided g k p false).step g w =
      .running w { m with pulse := { p with suppressed := p.suppressed + 1 }, program := .done () } :=
  rfl

end Machine

end FlowGraph
