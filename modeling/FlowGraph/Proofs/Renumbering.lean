import FlowGraph.Proofs.Nodes
import FlowGraph.Proofs.Renaming

/-!
# Graphs whose nodes have other numbers

A renaming carries one graph over to another if everything that a pulse asks of a graph is carried over:
members, sources, targets and dependents. The rules by which a pulse runs nodes then make the same requests
in both graphs, up to the renaming, as long as the programs of the nodes do not ask for ids. Those of the
catalogue never do. So a machine that has been carried over moves as the original does, and what it does is
carried over.
-/

namespace FlowGraph

/-- A renaming that leads from one graph to another. -/
structure Renaming.Carries (π : Renaming) (g g' : Graph) : Prop where
  config : g'.config = g.config
  member : ∀ n, g'.member? (π n) = g.member? n
  id : ∀ name, g'.id? name = (g.id? name).map π
  sources : ∀ input, g'.sources (π.port input) = (g.sources input).map π.port
  targets : ∀ flow, g'.targets (π.port flow) = (g.targets flow).map π
  dependents : ∀ output, g'.dependents (π.port output) = π.inOrder (g.dependents output)

/-- The same place in the renumbered graph. -/
def Scope.rename (π : Renaming) (s : Scope) : Scope :=
  ⟨π s.node, s.depth⟩

namespace EngineRequest

variable (π : Renaming)

/-- The same request about what the nodes have become. -/
def rename : EngineRequest → EngineRequest
  | .act a => .act (a.rename π)
  | .evaluate n depth => .evaluate (π n) depth
  | .activate n depth => .activate (π n) depth
  | .sleep milliseconds => .sleep milliseconds
  | .rest => .rest
  | .restart => .restart
  | .abort cause => .abort (cause.rename π)
  | .pulse root => .pulse (π root)

/-- The reply to the original of a renamed request. -/
def unreply : (r : EngineRequest) → (r.rename π).Reply → r.Reply
  | .act a, x => cast (a.reply_rename π) x
  | .evaluate .., x | .activate .., x | .sleep _, x | .rest, x | .restart, x | .abort _, x => x
  | .pulse _, x => Renaming.result π.symm x

end EngineRequest

namespace Engine

variable {α β : Type} (π : Renaming)

/-- The program that makes the same requests about what the nodes have become. -/
def rename : Engine α → Engine α
  | .done a => .done a
  | .ask r next => .ask (r.rename π) fun x => rename (next (r.unreply π x))

variable {π}

/-- A request and what follows on its reply. -/
theorem rename_ask {r : EngineRequest} {f : r.Reply → Engine α} {k : (r.rename π).Reply → Engine α}
    (same : ∀ x, rename π (f (r.unreply π x)) = k x) : rename π (.ask r f) = .ask (r.rename π) k :=
  congrArg (Program.ask (r.rename π)) (funext same)

theorem rename_andThen (p : Engine α) (f : α → Engine β) :
    rename π (p.andThen f) = (rename π p).andThen fun a => rename π (f a) := by
  induction p with
  | done a => rfl
  | ask r next ih => exact rename_ask fun x => ih (r.unreply π x)

theorem rename_mapM (f : α → Engine β) (as : List α) :
    rename π (as.mapM f) = as.mapM fun a => rename π (f a) := by
  induction as with
  | nil => rfl
  | cons a as ih =>
      simp only [List.mapM_cons, Program.bind_eq, rename_andThen, ih]
      rfl

/-- An action and what follows on its reply. -/
theorem rename_act_andThen {a : Action} {f : a.Reply → Engine α} {f' : (a.rename π).Reply → Engine α}
    (same : ∀ x, rename π (f (cast (a.reply_rename π) x)) = f' x) :
    rename π ((act a).andThen f) = (act (a.rename π)).andThen f' :=
  rename_ask (r := .act a) (f := f) same

theorem rename_isCancelled_andThen {f f' : Bool → Engine α} (same : ∀ x, rename π (f x) = f' x) :
    rename π (isCancelled.andThen f) = isCancelled.andThen f' :=
  rename_act_andThen same

/-- Nothing follows on aborting. -/
theorem rename_abort_andThen (cause : NodeError) (f f' : α → Engine β) :
    rename π ((abort cause).andThen f) = (abort (cause.rename π)).andThen f' :=
  rename_ask (r := .abort cause) fun x => Empty.elim x

theorem rename_abort (cause : NodeError) :
    rename π (abort cause : Engine α) = abort (cause.rename π) :=
  rename_ask (r := .abort cause) fun x => Empty.elim x

/-! ## The rules of running nodes -/

variable {g g' : Graph} (h : π.Carries g g') {s : Scope}

include h

theorem rename_member_andThen (n : NodeId) {f f' : Member → Engine α}
    (same : ∀ m, g.member? n = some m → rename π (f m) = f' m) :
    rename π ((member g n).andThen f) = (member g' (π n)).andThen f' := by
  rw [member, member, h.member]
  cases found : g.member? n with
  | none => exact rename_abort_andThen _ _ _
  | some m => exact same m found

omit h in
theorem map_restingOutputs (n : NodeId) (m : Member) :
    (restingOutputs n m).map (fun (output, v) => (π.port output, v)) = restingOutputs (π n) m := by
  simp [restingOutputs]

theorem rename_resolve (depth : Nat) (output : Port) :
    rename π (resolve g depth output) = resolve g' depth (π.port output) := by
  refine rename_member_andThen h output.node fun m _ => ?_
  rw [Renaming.index_port]
  cases m.descriptor.outputs[output.index]? with
  | none => exact rename_abort _
  | some o =>
      dsimp only
      split
      · refine rename_act_andThen fun found => ?_
        cases found with
        | some v => rfl
        | none =>
            rw [Renaming.node_port, ← map_restingOutputs]
            rfl
      · rfl

theorem rename_resolveAll (depth : Nat) (outputs : List Port) :
    rename π (resolveAll g depth outputs) = resolveAll g' depth (outputs.map π.port) := by
  induction outputs with
  | nil => rfl
  | cons output outputs ih =>
      simp only [List.map_cons, resolveAll, Program.bind_eq, rename_andThen, rename_resolve h, ih]
      rfl

theorem rename_declaredInput (index : Nat) :
    rename π (declaredInput g s index) = declaredInput g' (s.rename π) index := by
  refine rename_member_andThen h s.node fun m _ => ?_
  cases m.descriptor.inputs[index]? with
  | none => exact rename_abort _
  | some i => rfl

theorem sources_rename (index : Nat) :
    g'.sources ⟨(s.rename π).node, index⟩ = (g.sources ⟨s.node, index⟩).map π.port :=
  h.sources ⟨s.node, index⟩

theorem rename_inputValue (index : Nat) :
    rename π (inputValue g s index) = inputValue g' (s.rename π) index := by
  simp only [inputValue, Program.bind_eq, rename_andThen, rename_declaredInput h, sources_rename h]
  congr 1
  funext i
  cases g.sources ⟨s.node, index⟩ with
  | nil => rfl
  | cons source rest =>
      simp only [List.map_cons, rename_andThen, rename_resolve h]
      rfl

omit h in
theorem rename_expect (index : Nat) (t : ValueType) (v : Option Value) :
    rename π (expect s index t v) = expect (s.rename π) index t v := by
  rw [expect, expect]
  cases v.bind (·.as? t) with
  | none => exact rename_abort _
  | some c => rfl

theorem rename_inputValues (index : Nat) (t : ValueType) :
    rename π (inputValues g s index t) = inputValues g' (s.rename π) index t := by
  simp only [inputValues, Program.bind_eq, rename_andThen, rename_declaredInput h, rename_resolveAll h,
    rename_mapM, rename_expect, sources_rename h]
  rfl

theorem rename_observeFrom (index : Nat) (inputs : List Input) :
    rename π (observeFrom g s index inputs) = observeFrom g' (s.rename π) index inputs := by
  induction inputs generalizing index with
  | nil => rfl
  | cons i rest ih =>
      have goesOn : ∀ changed, rename π ((observeFrom g s (index + 1) rest).andThen fun later =>
          .done (changed || later)) =
          (observeFrom g' (s.rename π) (index + 1) rest).andThen fun later => .done (changed || later) := by
        intro changed
        rw [rename_andThen, ih]
        rfl
      rw [observeFrom, observeFrom]
      split
      · simp only [Program.bind_eq, rename_andThen, rename_inputValue h]
        congr 1
        funext v
        cases v with
        | some v => exact rename_act_andThen fun changed => goesOn changed
        | none => exact goesOn false
      · exact ih (index + 1)

omit h in
theorem rename_activateAll (depth : Nat) (nodes : List NodeId) :
    rename π (activateAll depth nodes) = activateAll depth (nodes.map π) := by
  induction nodes with
  | nil => rfl
  | cons n rest ih =>
      refine rename_isCancelled_andThen fun cancelled => ?_
      cases cancelled with
      | true => rfl
      | false => exact rename_ask (r := .activate n depth) fun _ => ih

theorem rename_fire (index : Nat) : rename π (fire g s index) = fire g' (s.rename π) index := by
  refine rename_member_andThen h s.node fun m _ => ?_
  cases m.descriptor.flows[index]? with
  | none => exact rename_abort _
  | some flow =>
      refine rename_isCancelled_andThen fun cancelled => ?_
      have targets : g'.targets ⟨(s.rename π).node, index⟩ = (g.targets ⟨s.node, index⟩).map π :=
        h.targets ⟨s.node, index⟩
      have depth : (s.rename π).depth = s.depth := rfl
      cases cancelled with
      | true => rfl
      | false =>
          simp only [h.config, targets, depth, Bool.false_eq_true, if_false]
          split
          · exact rename_abort _
          · exact rename_activateAll _ _

theorem rename_publish (index : Nat) (v : Value) :
    rename π (publish g s index v) = publish g' (s.rename π) index v := by
  have pure : g'.isPure (s.rename π).node = g.isPure s.node := by
    rw [Graph.isPure, Graph.isPure, ← h.member s.node]
    rfl
  have dependents : g'.dependents ⟨(s.rename π).node, index⟩ =
      π.inOrder (g.dependents ⟨s.node, index⟩) := h.dependents ⟨s.node, index⟩
  rw [publish, publish, pure]
  split
  · rfl
  · have carried : ∀ nodes, nodes = π.inOrder (g.dependents ⟨s.node, index⟩) →
        rename π (act (.publish ⟨s.node, index⟩ v (g.dependents ⟨s.node, index⟩))) =
          act (.publish ⟨π s.node, index⟩ v nodes) := by
      rintro _ rfl
      rfl
    exact carried _ dependents

omit h in
theorem rename_delay (milliseconds : Nat) : rename π (delay milliseconds) = delay milliseconds := by
  have atEnd : rename π delayEnd = delayEnd := by
    refine rename_isCancelled_andThen fun cancelled => ?_
    cases cancelled <;> rfl
  have atStart : rename π (delayStart milliseconds) = delayStart milliseconds := by
    refine rename_isCancelled_andThen fun cancelled => ?_
    cases cancelled with
    | true => rfl
    | false =>
        dsimp only
        split
        · exact rename_ask (r := .sleep milliseconds) fun _ => atEnd
        · exact atEnd
  rw [delay_eq]
  refine rename_ask (r := .act .isTurnFull) fun full => ?_
  cases full with
  | true => exact rename_ask (r := .rest) fun _ => atStart
  | false => exact atStart

/-- What a request means does not depend on the numbers of the nodes, if it is about declared ports. -/
theorem rename_answer {k : Node} {r : NodeRequest} (suits : k.Suits r) :
    rename π (answer g s r) = answer g' (s.rename π) r := by
  cases suits with
  | input =>
      simp only [answer, Program.bind_eq, rename_andThen, rename_inputValue h, rename_expect]
  | inputs => exact rename_inputValues h _ _
  | publish => exact rename_publish h _ _
  | fire => exact rename_fire h _
  | push sink v =>
      have carried : ∀ sink', sink' = π.sink (sink.resolve s.node) →
          rename π (act (.push (sink.resolve s.node) v)) = act (.push sink' v) := by
        rintro _ rfl
        rfl
      exact carried _ (π.sink_resolve s.node sink).symm
  | delay milliseconds => exact rename_delay milliseconds
  | again => exact rename_ask (r := .restart) fun x => Empty.elim x
  | remembered | remember | update | isCancelled | rest => rfl

theorem rename_run {k : Node} {p : NodeProgram α} (asks : p.Asks k.Suits) :
    rename π (run g s p) = run g' (s.rename π) p := by
  induction p with
  | done a => rfl
  | ask r next ih =>
      refine (rename_andThen _ _).trans ?_
      rw [rename_answer h asks.1]
      exact congrArg (answer g' (s.rename π) r).andThen (funext fun x => ih x (asks.2 x))

variable (catalogue : g.FromCatalogue)

include catalogue

theorem rename_process : rename π (process g s) = process g' (s.rename π) :=
  rename_member_andThen h s.node fun _ member => rename_run h (catalogue.suits member).2

theorem rename_evaluation : rename π (evaluation g s) = evaluation g' (s.rename π) := by
  refine rename_member_andThen h s.node fun m member => ?_
  obtain ⟨guard, process⟩ := catalogue.suits member
  simp only [Program.bind_eq, rename_andThen, rename_run h guard]
  congr 1
  funext passed
  cases passed with
  | true => exact rename_run h process
  | false => rfl

theorem rename_admitted {m : Member} (member : g.member? s.node = some m) :
    rename π (admitted g s m) = admitted g' (s.rename π) m := by
  obtain ⟨guard, process⟩ := catalogue.suits member
  simp only [admitted, Program.bind_eq, rename_andThen, rename_run h guard]
  congr 1
  funext passed
  cases passed with
  | true =>
      rw [h.config]
      exact rename_act_andThen fun _ => rename_run h process
  | false => rfl

theorem rename_activation : rename π (activation g s) = activation g' (s.rename π) := by
  refine rename_member_andThen h s.node fun m member =>
    rename_isCancelled_andThen fun cancelled => ?_
  cases cancelled with
  | true => rfl
  | false =>
      simp only [Bool.false_eq_true, if_false]
      split
      · simp only [Program.bind_eq, rename_andThen, rename_observeFrom h]
        congr 1
        funext changed
        cases changed with
        | true => exact rename_admitted h catalogue member
        | false => rfl
      · exact rename_admitted h catalogue member

end Engine

/-! ## Machines -/

/-- A pulse that waits for another one goes on with what the result was before the renaming. -/
def Caller.rename (π : Renaming) : Caller → Caller
  | .node scope next => .node (scope.rename π) fun x => Engine.rename π (next x)
  | .pulse outer scope next =>
    .pulse (outer.rename π) (scope.rename π) fun r => Engine.rename π (next (Renaming.result π.symm r))

def Machine.rename (π : Renaming) (m : Machine) : Machine where
  pulse := m.pulse.rename π
  scope := m.scope.rename π
  program := Engine.rename π m.program
  callers := m.callers.map (Caller.rename π)

def Progress.rename (π : Renaming) : Progress → Progress
  | .running w m => .running (w.rename π) (m.rename π)
  | .sleeping w milliseconds m => .sleeping (w.rename π) milliseconds (m.rename π)
  | .resting w m => .resting (w.rename π) (m.rename π)
  | .ended w result => .ended (w.rename π) (π.result result)

namespace Machine

variable {π : Renaming} {g g' : Graph} (w : World) (m : Machine)

theorem rename_leave : (m.rename π).leave (w.rename π) = (m.leave w).rename π := by
  have report : Renaming.result π.symm (.ok ((m.rename π).pulse.report (w.rename π))) =
      .ok (m.pulse.report w) := by
    rw [rename, Pulse.report_rename]
    exact π.result_symm (.ok (m.pulse.report w))
  obtain ⟨pulse, scope, program, callers⟩ := m
  cases callers with
  | nil => exact congrArg (fun r => Progress.ended (w.rename π) (.ok r)) (pulse.report_rename w)
  | cons caller rest =>
      cases caller with
      | node scope next => rfl
      | pulse outer scope next =>
          have goesOn := congrArg (fun r => Engine.rename π (next r)) report
          rw [leave, leave, Progress.rename, World.rename_giveUp]
          exact congrArg (fun p => Progress.running ((w.rename π).giveUp pulse.token)
            ⟨outer.rename π, scope.rename π, p, rest.map (Caller.rename π)⟩) goesOn

theorem rename_unwind (token : TokenId) (error : PulseError) (callers : List Caller) :
    unwind (w.rename π) token (error.rename π) (callers.map (Caller.rename π)) =
      (unwind w token error callers).rename π := by
  induction callers with
  | nil => rfl
  | cons caller rest ih =>
      cases caller with
      | node scope next => exact ih
      | pulse outer scope next =>
          have goesOn := congrArg (fun r => Engine.rename π (next r)) (π.result_symm (.error error))
          rw [List.map_cons, unwind, Progress.rename, World.rename_giveUp]
          exact congrArg (fun p => Progress.running ((w.rename π).giveUp token)
            ⟨outer.rename π, scope.rename π, p, rest.map (Caller.rename π)⟩) goesOn

variable (h : π.Carries g g') (catalogue : g.FromCatalogue)

include h catalogue

theorem start_rename (root : NodeId) (token : TokenId) :
    start g' (w.rename π) (π root) token =
      ((start g w root token).1.rename π, (start g w root token).2.rename π) := by
  have program : Engine.rename π (Engine.activation g ⟨root, 0⟩) =
    Engine.activation g' ⟨π root, 0⟩ := Engine.rename_activation h catalogue
  simp only [start, World.rename_beginPulse, rename, program]
  rfl

/-- A machine that has been carried over moves as the original does. -/
theorem step_rename : (m.rename π).step g' (w.rename π) = (m.step g w).rename π := by
  obtain ⟨pulse, scope, program, callers⟩ := m
  cases program with
  | done x => exact rename_leave w ⟨pulse, scope, .done x, callers⟩
  | ask r next =>
      cases r with
      | act a =>
          have performed := a.perform_rename π w pulse
          simp only [rename, step, Engine.rename, EngineRequest.rename, EngineRequest.unreply, performed,
            Progress.rename, cast_cast, cast_eq]
      | evaluate n depth =>
          have program : Engine.rename π (Engine.evaluation g ⟨n, depth⟩) =
            Engine.evaluation g' ⟨π n, depth⟩ := Engine.rename_evaluation h catalogue
          simp only [step, enter, Progress.rename, rename, program]
          rfl
      | activate n depth =>
          have program : Engine.rename π (Engine.activation g ⟨n, depth⟩) =
            Engine.activation g' ⟨π n, depth⟩ := Engine.rename_activation h catalogue
          simp only [step, enter, Progress.rename, rename, program]
          rfl
      | sleep milliseconds => rfl
      | rest => rfl
      | restart =>
          have program : Engine.rename π (Engine.process g scope) = Engine.process g' (scope.rename π) :=
            Engine.rename_process h catalogue
          simp only [step, Progress.rename, rename, program]
          rfl
      | abort cause => exact rename_unwind w pulse.token (.aborted pulse.id cause) callers
      | pulse root =>
          have started := start_rename (w.addToken {}).1 h catalogue root (w.addToken {}).2
          exact congrArg (fun begun => Progress.running begun.1 { begun.2 with
            callers := (Caller.pulse pulse scope next).rename π :: callers.map (Caller.rename π) }) started

end Machine

end FlowGraph
