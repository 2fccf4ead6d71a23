import FlowGraph.Proofs.Pursuing
import FlowGraph.Proofs.Repeating

/-!
# What programs do within a turn

Of a program that never waits it can be said what it does: with what result it ends, and in which state it
leaves the world and the pulse. This is told by the parts that it is made of. What a node does that flow is let
into is part of what is done by the program that lets flow into it, so no more than one node needs to be looked
at for each rule.
-/

namespace FlowGraph

/-- A program comes to an end by moves within the turn, with a result and in a state of the world and of the
pulse, and what follows it goes on from there. -/
def Engine.Performs (g : Graph) {α : Type} (w : World) (p : Pulse) (program : Engine α) (a : α) (w' : World)
    (p' : Pulse) : Prop :=
  ∀ s (next : α → Engine Unit) callers,
    Relation.ReflTransGen (Machine.Moves g) (w, ⟨p, s, program.andThen next, callers⟩)
      (w', ⟨p', s, next a, callers⟩)

namespace Engine

variable {g : Graph} {s : Scope} {m : Member} {w w' w'' : World} {p p' p'' : Pulse} {α β : Type}

theorem performs_done (a : α) : Performs g w p (.done a) a w p :=
  fun _ _ _ => .refl

theorem Performs.andThen {program : Engine α} {f : α → Engine β} {a : α} {b : β}
    (h : Performs g w p program a w' p') (later : Performs g w' p' (f a) b w'' p'') :
    Performs g w p (program.andThen f) b w'' p'' := by
  intro s next callers
  rw [Program.andThen_assoc]
  exact (h s _ callers).trans (later s next callers)

theorem performs_act {a : Action} {x : a.Reply} (does : a.perform w p = (x, w', p')) :
    Performs g w p (act a) x w' p' := by
  intro s next callers
  refine .single ?_
  rw [Machine.Moves]
  simp only [act, Program.ask_andThen, Program.done_andThen, Machine.step, does]

theorem performs_isCancelled (live : w.isCancelled p.token = false) : Performs g w p isCancelled false w p :=
  performs_act (by rw [Action.perform, live])

/-! ## Entering a node -/

/-- Letting flow into a node does what the activation of the node does. -/
theorem Performs.activate {n : NodeId} {depth : Nat}
    (h : Performs g w p (activation g ⟨n, depth⟩) () w' p') :
    Performs g w p (.ask (.activate n depth) .done) () w' p' := by
  intro s next callers
  have inside := h ⟨n, depth⟩ .done (.node s next :: callers)
  rw [Program.andThen_done] at inside
  refine .head ?_ (inside.tail ?_) <;> rfl

/-- Asking for the computation of a node does what the computation does. -/
theorem Performs.evaluate {n : NodeId} {depth : Nat}
    (h : Performs g w p (evaluation g ⟨n, depth⟩) () w' p') :
    Performs g w p (.ask (.evaluate n depth) .done) () w' p' := by
  intro s next callers
  have inside := h ⟨n, depth⟩ .done (.node s next :: callers)
  rw [Program.andThen_done] at inside
  refine .head ?_ (inside.tail ?_) <;> rfl

/-- The activation of a node by a live pulse does what its process does, if nothing holds it up. -/
theorem performs_activation (member : g.member? s.node = some m) (isOpen : m.IsOpen)
    (live : w.isCancelled p.token = false)
    (process : Performs g w (p.begin s.node g.config.recordActivations) (run g s m.node.process) () w' p') :
    Performs g w p (activation g s) () w' p' := by
  rw [activation, Engine.member, member]
  dsimp only [Program.pure_eq, Program.bind_eq, Program.done_andThen]
  refine (performs_isCancelled live).andThen ?_
  rw [if_neg Bool.false_ne_true, if_neg (by simp [isOpen.ungated]), admitted, isOpen.passes]
  exact (performs_act rfl).andThen process

/-- The computation of a node does what its process does, if nothing holds it up. -/
theorem performs_evaluation (member : g.member? s.node = some m) (passes : m.node.guard = .done true)
    (process : Performs g w p (run g s m.node.process) () w' p') :
    Performs g w p (evaluation g s) () w' p' := by
  rw [evaluation, Engine.member, member]
  dsimp only [Program.pure_eq, Program.bind_eq, Program.done_andThen]
  rw [passes]
  exact process

/-! ## Firing -/

theorem performs_activateAll_cons {n : NodeId} {rest : List NodeId} {depth : Nat}
    (live : w.isCancelled p.token = false) (first : Performs g w p (activation g ⟨n, depth⟩) () w' p')
    (later : Performs g w' p' (activateAll depth rest) () w'' p'') :
    Performs g w p (activateAll depth (n :: rest)) () w'' p'' := by
  rw [activateAll]
  exact (performs_isCancelled live).andThen (first.activate.andThen later)

/-- A live pulse that fires within the depth limit activates what is connected. -/
theorem performs_fire (member : g.member? s.node = some m) {index : Nat} {f : Flow}
    (declared : m.descriptor.flows[index]? = some f) (live : w.isCancelled p.token = false)
    (shallow : s.depth + 1 ≤ g.config.maxFlowDepth)
    (activates : Performs g w p (activateAll (s.depth + 1) (g.targets ⟨s.node, index⟩)) () w' p') :
    Performs g w p (answer g s (.fire index)) () w' p' := by
  rw [answer, fire, Engine.member, member]
  dsimp only [Program.pure_eq, Program.bind_eq, Program.done_andThen]
  rw [declared]
  refine (performs_isCancelled live).andThen ?_
  rw [if_neg Bool.false_ne_true, if_neg (Nat.not_lt_of_le shallow)]
  exact activates

/-! ## Reading and publishing -/

theorem performs_publish (driven : g.isPure s.node = false) (index : Nat) (v : Value) :
    Performs g w p (answer g s (.publish index v)) () w
      (p.publish ⟨s.node, index⟩ v (g.dependents ⟨s.node, index⟩)) := by
  rw [answer_publish driven]
  exact performs_act rfl

theorem performs_memoize (pure : g.isPure s.node = true) (index : Nat) (v : Value) :
    Performs g w p (answer g s (.publish index v)) () w (p.memoize ⟨s.node, index⟩ v) := by
  rw [answer, publish, if_pos pure]
  exact performs_act rfl

/-- Resolving what a node that is not pure has published. -/
theorem performs_resolve_published {output : Port} {o : Output} {v : Value}
    (member : g.member? output.node = some m) (declared : m.descriptor.outputs[output.index]? = some o)
    (driven : m.node.isPure = false) (published : p.published.get? output = some v) (depth : Nat) :
    Performs g w p (resolve g depth output) v w p := by
  rw [resolve, Engine.member, member]
  dsimp only [Program.pure_eq, Program.bind_eq, Program.done_andThen]
  rw [declared]
  dsimp only
  rw [if_neg (by simp [driven])]
  have told : Performs g w p (.done ((p.published.get? output).getD o.resting)) v w p := by
    rw [published]
    exact performs_done v
  exact (performs_act rfl).andThen told

/-- Resolving an output of a pure node that has to be computed. -/
theorem performs_resolve_computed {output : Port} {o : Output} {v : Value}
    (member : g.member? output.node = some m) (declared : m.descriptor.outputs[output.index]? = some o)
    (pure : m.node.isPure = true) (unknown : p.memo.get? output = none) {depth : Nat}
    (computes : Performs g w p (evaluation g ⟨output.node, depth⟩) () w' p')
    (computed : (p'.completeEvaluation (restingOutputs output.node m)).memo.get? output = some v) :
    Performs g w p (resolve g depth output) v w'
      (p'.completeEvaluation (restingOutputs output.node m)) := by
  rw [resolve, Engine.member, member]
  dsimp only [Program.pure_eq, Program.bind_eq, Program.done_andThen]
  rw [declared]
  dsimp only
  rw [if_pos pure]
  have told : Performs g w' (p'.completeEvaluation (restingOutputs output.node m))
      (.done (((p'.completeEvaluation (restingOutputs output.node m)).memo.get? output).getD o.resting)) v w'
      (p'.completeEvaluation (restingOutputs output.node m)) := by
    rw [computed]
    exact performs_done v
  refine (performs_act (by rw [Action.perform, unknown])).andThen ?_
  exact computes.evaluate.andThen ((performs_act rfl).andThen ((performs_act rfl).andThen told))

theorem performs_expect {index : Nat} {t : ValueType} {v : Option Value} {c : t.Carrier}
    (typed : v.bind (·.as? t) = some c) : Performs g w p (expect s index t v) c w p := by
  rw [expect, typed]
  exact performs_done c

/-- An input that something is connected to has the value of its first source. -/
theorem performs_input_connected {index : Nat} {i : Input} {source : Port} {others : List Port} {t : ValueType}
    {v : Value} {c : t.Carrier} (member : g.member? s.node = some m)
    (declared : m.descriptor.inputs[index]? = some i) (sources : g.sources ⟨s.node, index⟩ = source :: others)
    (resolves : Performs g w p (resolve g s.depth source) v w' p') (typed : v.as? t = some c) :
    Performs g w p (answer g s (.input index t)) c w' p' := by
  rw [answer, inputValue, declaredInput, Engine.member, member]
  dsimp only [Program.pure_eq, Program.bind_eq, Program.done_andThen]
  rw [declared, sources]
  refine Performs.andThen (a := some v) ?_ (performs_expect typed)
  exact (performs_done i).andThen (resolves.andThen (performs_done (some v)))

/-- An input that nothing is connected to has its resting value. -/
theorem performs_input_unconnected {index : Nat} {i : Input} {t : ValueType} {c : t.Carrier}
    (member : g.member? s.node = some m) (declared : m.descriptor.inputs[index]? = some i)
    (sources : g.sources ⟨s.node, index⟩ = []) (typed : i.resting?.bind (·.as? t) = some c) :
    Performs g w p (answer g s (.input index t)) c w p := by
  rw [answer, inputValue, declaredInput, Engine.member, member]
  dsimp only [Program.pure_eq, Program.bind_eq, Program.done_andThen]
  rw [declared, sources]
  refine Performs.andThen (a := i.resting?) ?_ (performs_expect typed)
  exact (performs_done i).andThen (performs_done _)

/-- A node that makes a request goes on with the reply. -/
theorem Performs.ask {r : NodeRequest} {next : r.Reply → NodeProgram α} {x : r.Reply} {a : α}
    (answers : Performs g w p (answer g s r) x w' p')
    (later : Performs g w' p' (run g s (next x)) a w'' p'') :
    Performs g w p (run g s (.ask r next)) a w'' p'' :=
  answers.andThen later

end Engine

/-! ## A whole pulse -/

/-- A pulse that the host starts does what the activation of its root does, and ends with its report. -/
theorem Session.triggerWith_of_performs {s : Session} (catalogue : s.graph.FromCatalogue) {n : NodeId}
    {m : Member} (triggerable : s.graph.root n = .ok m) {token : TokenId} {w : World} {p : Pulse}
    (performs : Engine.Performs s.graph (s.world.beginPulse n token).1 (s.world.beginPulse n token).2
      (Engine.activation s.graph ⟨n, 0⟩) () w p) :
    ∃ enough, ∀ budget, enough ≤ budget →
      s.triggerWith budget n token = .answer ({ s with world := w.giveUp token }, .ok (p.report w)) := by
  have path := performs ⟨n, 0⟩ .done []
  rw [Program.andThen_done] at path
  obtain ⟨moves, runs⟩ := runInTurn_of_moves catalogue
    (Graph.underWay_start catalogue triggerable s.world token) path
  refine ⟨moves + 1, fun budget enough => ?_⟩
  obtain ⟨budget, rfl⟩ := Nat.exists_eq_add_of_le' enough
  rw [Session.triggerWith, triggerable]
  dsimp only
  rw [← Nat.add_assoc, Nat.add_right_comm]
  have ran := runs (budget + 1) { s with world := (Machine.start s.graph s.world n token).1 } rfl rfl
  exact (congrArg (Waited.andThen · _) ran).trans rfl

end FlowGraph
