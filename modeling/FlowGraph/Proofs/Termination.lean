import FlowGraph.Proofs.Currency
import FlowGraph.Proofs.Limits
import FlowGraph.Proofs.Nesting
import FlowGraph.Proofs.Typing

/-!
# Reads and pulses end

A program is a well-founded tree of requests, so it can only go on for ever in what it enters. Computing a
pure node enters nodes that feed it, and feeding is well-founded. Letting flow into a node enters nodes one
step deeper, up to the limit, however the connections run: a loop that leads back to itself is entered
again, but deeper. What is left are the two loops of the catalogue that start over within their own
activation. Without them every pulse ends, whatever becomes of the world between its moves.
-/

namespace FlowGraph

namespace Program

variable {R : Type} {E : R → Type} {α : Type} {P Q : R → Prop}

theorem Asks.and {p : Program E α} (h : p.Asks P) (h' : p.Asks Q) : p.Asks fun r => P r ∧ Q r := by
  induction p with
  | done a => trivial
  | ask r next ih => exact ⟨⟨h.1, h'.1⟩, fun reply => ih reply (h.2 reply) (h'.2 reply)⟩

end Program

/-! ## Machines that end -/

namespace Machine

/-- Whatever becomes of the world between its moves, a machine comes to its end. -/
def Ends (g : Graph) (m : Machine) : Prop :=
  Acc (fun m' m => ∃ w w', (m.step g w).next? = some (w', m')) m

variable {g : Graph} {m : Machine}

/-- A machine that is alone comes to its end, then. -/
theorem Ends.concludes (h : m.Ends g) (w : World) :
    ∃ events w' result, Concludes g w m events w' result := by
  have stops (n : Machine) (ends : n.Ends g) (moves : Nat) (here : (alone g w m moves).machine = n) :
      ∃ moves, ((alone g w m moves).machine.step g (alone g w m moves).world).resumed? = none := by
    induction ends generalizing moves with
    | intro n _ ih =>
        cases progress : (alone g w m moves).machine.step g (alone g w m moves).world with
        | ended w' result => exact ⟨moves, by rw [progress]; rfl⟩
        | running w' n' | sleeping w' milliseconds n' | resting w' n' =>
            rw [here] at progress
            refine ih n' ⟨_, w', by rw [progress]; rfl⟩ (moves + 1) ?_
            rw [alone, here, progress]
            rfl
  obtain ⟨moves, none⟩ := stops m h 0 rfl
  cases progress : (alone g w m moves).machine.step g (alone g w m moves).world with
  | ended w' result => exact ⟨_, w', result, moves, rfl, progress⟩
  | running w' n' | sleeping w' milliseconds n' | resting w' n' =>
      rw [progress] at none
      cases none

end Machine

namespace Engine

/-- A program halts if a machine that would come to its end after the program comes to its end with the
program before that. -/
def Halts (g : Graph) {α : Type} (program : Engine α) : Prop :=
  ∀ p s (next : α → Engine Unit) callers,
    (∀ caller ∈ callers, ∃ scope next, caller = Caller.node scope next) →
    (∀ a p', Machine.Ends g ⟨p', s, next a, callers⟩) →
    Machine.Ends g ⟨p, s, program.andThen next, callers⟩

/-- A request that a program may make and still halt. -/
def Halting (g : Graph) : EngineRequest → Prop
  | .evaluate n depth => Halts g (evaluation g ⟨n, depth⟩)
  | .activate n depth => Halts g (activation g ⟨n, depth⟩)
  | .restart | .pulse _ => False
  | .act _ | .sleep _ | .rest | .abort _ => True

variable {g : Graph} {s : Scope} {α : Type}

/-- A program halts if everything that it enters does. -/
theorem halts_of_asks {program : Engine α} (asks : program.Asks (Halting g)) : Halts g program := by
  induction program with
  | done a => exact fun p s next callers _ ends => ends a p
  | ask r rest ih =>
      intro p s next callers single ends
      have goesOn (reply) (p') : Machine.Ends g ⟨p', s, (rest reply).andThen next, callers⟩ :=
        ih reply (asks.2 reply) p' s next callers single ends
      have enters {k : Scope} {entered : Engine Unit} {reply : Unit → Engine Unit}
          (halts : Halts g entered) (after : ∀ p', Machine.Ends g ⟨p', s, reply (), callers⟩) :
          Machine.Ends g ⟨p, k, entered, .node s reply :: callers⟩ := by
        rw [← entered.andThen_done]
        refine halts p k .done _ ?_ ?_
        · exact List.forall_mem_cons.mpr ⟨⟨s, reply, rfl⟩, single⟩
        · rintro ⟨⟩ p'
          refine .intro _ ?_
          rintro m' ⟨w, w', moves⟩
          cases moves
          exact after p'
      refine .intro _ ?_
      rintro m' ⟨w, w', moves⟩
      cases r with
      | act a =>
          cases moves
          exact goesOn _ _
      | evaluate n depth | activate n depth =>
          cases moves
          exact enters asks.1 (goesOn ())
      | sleep milliseconds | rest =>
          cases moves
          exact goesOn () p
      | restart | pulse root => exact asks.1.elim
      | abort cause =>
          have ended := Machine.unwind_eq_ended single w p.token (.aborted p.id cause)
          have moves : (Machine.unwind w p.token (.aborted p.id cause) callers).next? =
            some (w', m') := moves
          rw [ended] at moves
          cases moves

/-! ## What is entered -/

/-- A request that enters, if any, a pure node that feeds the current one or a node that flow comes to. -/
def Entering (g : Graph) (s : Scope) : EngineRequest → Prop
  | .evaluate n _ => g.isPure n = true ∧ Blueprint.Feeds g.valueEdges n s.node
  | .activate n _ | .pulse n => g.isPure n = false
  | .act _ | .sleep _ | .rest | .restart | .abort _ => True

theorem Looks.entering {lookup : Lookup} {p : Engine α} (h : Looks g s lookup p) :
    p.Asks (Entering g s) := by
  induction p generalizing lookup with
  | done a => trivial
  | ask r next ih =>
      cases r with
      | act a =>
          cases a with
          | memoized output =>
              refine ⟨trivial, fun reply => ?_⟩
              cases reply with
              | none => exact ih none h.2.2
              | some v => exact ih (some v) (h.2.1 v)
          | completeEvaluation resting =>
              obtain ⟨n, m, _, _, _, later⟩ := h
              exact ⟨trivial, fun reply => ih reply later⟩
          | _ => exact ⟨trivial, fun reply => ih reply (h.2.2 reply)⟩
      | evaluate n depth =>
          obtain ⟨_, pure, feeds, later⟩ := h
          exact ⟨⟨pure, feeds⟩, fun reply => ih reply later⟩
      | activate n depth => exact ⟨h.2.1.2, fun reply => ih reply (h.2.2 reply)⟩
      | pulse n => exact ⟨h.2.1, fun reply => ih reply (h.2.2 reply)⟩
      | restart => exact ⟨trivial, nofun⟩
      | sleep | rest | abort => exact ⟨trivial, fun reply => ih reply (h.2.2 reply)⟩

end Engine

/-- A request other than to start over or to run another pulse. -/
def NodeRequest.IsStraight : NodeRequest → Prop
  | .again | .pulse _ => False
  | _ => True

namespace CatalogueNode

theorem straight_guard (c : CatalogueNode) : c.guard.Asks NodeRequest.IsStraight := by
  cases c with
  | fireOnTrue => exact ⟨trivial, fun _ => trivial⟩
  | _ => trivial

theorem straight_iterate (remaining : Nat) (index : Int32) :
    (iterate remaining index).Asks NodeRequest.IsStraight := by
  induction remaining generalizing index with
  | zero =>
      refine ⟨trivial, fun cancelled => ?_⟩
      cases cancelled with
      | true => trivial
      | false => exact ⟨trivial, fun _ => trivial⟩
  | succ remaining ih =>
      refine ⟨trivial, fun cancelled => ?_⟩
      cases cancelled with
      | true => trivial
      | false => exact ⟨trivial, fun _ => ⟨trivial, fun _ => ih (index + 1)⟩⟩

/-- All but two nodes of the catalogue go through their process once each time they are activated. -/
theorem straight_process {c : CatalogueNode} (interval : c ≠ fireOnInterval) (condition : c ≠ fireWhileTrue) :
    c.process.Asks NodeRequest.IsStraight := by
  cases c with
  | fireOnInterval => exact absurd rfl interval
  | fireWhileTrue => exact absurd rfl condition
  | forLoop => exact ⟨trivial, fun _ => straight_iterate _ _⟩
  | delay =>
      refine ⟨trivial, fun _ => ⟨trivial, fun passed => ?_⟩⟩
      cases passed with
      | true => exact ⟨trivial, fun _ => trivial⟩
      | false => trivial
  | parseInt =>
      refine ⟨trivial, fun text => ?_⟩
      simp only [Program.done_andThen]
      split
      · exact ⟨trivial, fun _ => ⟨trivial, fun _ => trivial⟩⟩
      · exact ⟨trivial, fun _ => trivial⟩
  | constant | onTrigger | fireOnTrue => exact ⟨trivial, fun _ => trivial⟩
  | sum | branch => exact ⟨trivial, fun _ => ⟨trivial, fun _ => trivial⟩⟩
  | add | log | onChanged =>
      exact ⟨trivial, fun _ => ⟨trivial, fun _ => ⟨trivial, fun _ => trivial⟩⟩⟩
  | statefulBranch | counter =>
      exact ⟨trivial, fun _ => ⟨trivial, fun _ => ⟨trivial, fun _ => ⟨trivial, fun _ => trivial⟩⟩⟩⟩
  | branchWithState =>
      exact ⟨trivial, fun _ => ⟨trivial, fun _ => ⟨trivial, fun _ => ⟨trivial, fun _ =>
        ⟨trivial, fun _ => ⟨trivial, fun _ => trivial⟩⟩⟩⟩⟩⟩

end CatalogueNode

namespace Engine

/-- A request other than to start over or to run another pulse. -/
def Straight : EngineRequest → Prop
  | .restart | .pulse _ => False
  | .act _ | .evaluate .. | .activate .. | .sleep _ | .rest | .abort _ => True

variable {g : Graph} {s : Scope} {α : Type}

theorem ReadsAt.straight {depth : Nat} {r : EngineRequest} (h : ReadsAt g depth r) : Straight r := by
  cases r with
  | restart | pulse => exact h.elim
  | _ => trivial

theorem ObservesAt.straight {r : EngineRequest} (h : ObservesAt g s r) : Straight r := by
  cases h with
  | reads reads => exact reads.straight
  | observe index t v => trivial

theorem Plain.straight {r : EngineRequest} (h : Plain g s r) : Straight r := by
  cases r with
  | restart | pulse => exact h.elim
  | _ => trivial

theorem straight_answer (built : g.Built) {r : NodeRequest} (straight : r.IsStraight) :
    (answer g s r).Asks Straight := by
  cases r with
  | input index t => exact (readsAt_input index t).mono fun _ reads => reads.straight
  | inputs index t => exact (readsAt_inputs index t).mono fun _ reads => reads.straight
  | publish index v => exact (plain_publish (s := s) index v).mono fun _ plain => plain.straight
  | fire flow => exact (plain_fire (s := s) built flow).mono fun _ plain => plain.straight
  | delay milliseconds =>
      exact (plain_delay (g := g) (s := s) milliseconds).mono fun _ plain => plain.straight
  | refuse message =>
      have named := (plain_member (g := g) (s := s) s.node).mono fun _ plain => plain.straight
      exact named.andThen fun m => Engine.asks_abort trivial
  | again | pulse => exact straight.elim
  | rest | location | remembered | remember | update | push | isCancelled | cancel | shutDown | resetState
  | cell | setCell => exact ⟨trivial, fun _ => trivial⟩

theorem straight_run (built : g.Built) {p : NodeProgram α} (straight : p.Asks NodeRequest.IsStraight) :
    (run g s p).Asks Straight :=
  straight.interpret fun _ => straight_answer built

end Engine

namespace Graph

variable {g : Graph}

/-- A graph without the two loops of the catalogue that have no end of their own. -/
def WithoutEndlessLoops (g : Graph) : Prop :=
  ∀ m ∈ g.members, m.node ≠ CatalogueNode.fireOnInterval.node ∧ m.node ≠ CatalogueNode.fireWhileTrue.node

section

variable (catalogue : g.FromCatalogue) (loops : g.WithoutEndlessLoops)

include catalogue loops

theorem WithoutEndlessLoops.straight {m : Member} (member : m ∈ g.members) :
    m.node.guard.Asks NodeRequest.IsStraight ∧ m.node.process.Asks NodeRequest.IsStraight := by
  obtain ⟨c, node⟩ := catalogue.nodes m member
  obtain ⟨interval, condition⟩ := loops m member
  rw [node] at interval condition ⊢
  constructor
  · exact c.straight_guard
  · exact CatalogueNode.straight_process (fun same => interval (same ▸ rfl))
      fun same => condition (same ▸ rfl)

theorem straight_evaluation (s : Scope) : (Engine.evaluation g s).Asks Engine.Straight := by
  cases member : g.member? s.node with
  | none =>
      simp only [Engine.evaluation, Engine.member, member]
      exact Engine.asks_abort trivial
  | some m =>
      obtain ⟨guard, process⟩ := loops.straight catalogue (List.mem_of_getElem? member)
      simp only [Engine.evaluation, Engine.member, member, Program.pure_eq, Program.bind_eq,
        Program.done_andThen]
      apply (Engine.straight_run catalogue.built guard).andThen
      intro passed
      split
      · exact Engine.straight_run catalogue.built process
      · trivial

theorem straight_activation (s : Scope) : (Engine.activation g s).Asks Engine.Straight := by
  cases member : g.member? s.node with
  | none =>
      simp only [Engine.activation, Engine.member, member]
      exact Engine.asks_abort trivial
  | some m =>
      obtain ⟨guard, process⟩ := loops.straight catalogue (List.mem_of_getElem? member)
      have admitted : (Engine.admitted g s m).Asks Engine.Straight := by
        apply (Engine.straight_run catalogue.built guard).andThen
        intro passed
        split
        · exact ⟨trivial, fun _ => Engine.straight_run catalogue.built process⟩
        · trivial
      simp only [Engine.activation, Engine.member, member, Program.pure_eq, Program.bind_eq,
        Program.done_andThen]
      refine ⟨trivial, fun cancelled => ?_⟩
      cases cancelled with
      | true => trivial
      | false =>
          simp only [Program.done_andThen, Bool.false_eq_true, if_false]
          split
          · apply ((Engine.observesAt_observeFrom 0 m.descriptor.inputs).mono
              fun _ observes => observes.straight).andThen
            intro changed
            split
            · exact admitted
            · exact ⟨trivial, fun _ => trivial⟩
          · exact admitted

/-- Computing a pure node comes to its end, by the order of feeding. -/
theorem halts_evaluation {n : NodeId} (pure : g.isPure n = true) (depth : Nat) :
    Engine.Halts g (Engine.evaluation g ⟨n, depth⟩) := by
  induction n using catalogue.wellFounded.induction generalizing depth with
  | _ n ih =>
      have straight := straight_evaluation catalogue loops ⟨n, depth⟩
      have entering := (Engine.looks_evaluation (s := ⟨n, depth⟩) catalogue.built).entering
      have answering := Engine.answering_evaluation (g := g) (s := ⟨n, depth⟩)
      apply Engine.halts_of_asks
      refine ((straight.and entering).and answering).mono fun r h => ?_
      obtain ⟨⟨straight, entering⟩, answering⟩ := h
      cases r with
      | evaluate k depth' => exact ih k entering.2 entering.1 depth'
      | activate k depth' => exact absurd (answering.2.2.1.symm.trans pure) nofun
      | restart | pulse => exact straight.elim
      | act | sleep | rest | abort => trivial

theorem halts_activation_of_deeper {depth : Nat}
    (deeper : depth < g.config.maxFlowDepth → ∀ n, Engine.Halts g (Engine.activation g ⟨n, depth + 1⟩))
    (n : NodeId) : Engine.Halts g (Engine.activation g ⟨n, depth⟩) := by
  have straight := straight_activation catalogue loops ⟨n, depth⟩
  have asked := Engine.local_activation (g := g) (s := ⟨n, depth⟩)
  apply Engine.halts_of_asks
  refine (straight.and asked).mono fun r h => ?_
  obtain ⟨straight, asked⟩ := h
  cases r with
  | evaluate k depth' =>
      cases asked with
      | answering answers => exact halts_evaluation catalogue loops answers.1 depth'
  | activate k depth' =>
      obtain ⟨rfl, below, _⟩ : depth' = depth + 1 ∧ depth < g.config.maxFlowDepth ∧
          g.isPure n = false ∧ g.Leads n k := by
        cases asked with
        | answering answers => exact answers
      exact deeper below k
  | restart | pulse => exact straight.elim
  | act | sleep | rest | abort => trivial

/-- Letting flow into a node comes to its end, by what is left of the depth. -/
theorem halts_activation {depth : Nat} (left : Nat) (limit : g.config.maxFlowDepth ≤ depth + left) :
    ∀ n, Engine.Halts g (Engine.activation g ⟨n, depth⟩) := by
  induction left generalizing depth with
  | zero =>
      apply halts_activation_of_deeper catalogue loops
      exact fun below => absurd limit (Nat.not_le_of_lt below)
  | succ left ih =>
      apply halts_activation_of_deeper catalogue loops
      intro below
      exact ih (by omega)

/-- A pulse of a graph without endless loops comes to its end. -/
theorem ends_start (w : World) (root : NodeId) (token : TokenId) :
    (Machine.start g w root token).2.Ends g := by
  have limit : g.config.maxFlowDepth ≤ 0 + g.config.maxFlowDepth := Nat.le_add_left ..
  have halts := halts_activation catalogue loops _ limit root
  have ends := halts (Machine.start g w root token).2.pulse ⟨root, 0⟩ .done [] nofun ?_
  · rwa [Program.andThen_done] at ends
  · rintro ⟨⟩ p
    refine .intro _ ?_
    rintro m' ⟨w, w', moves⟩
    cases moves

end

end Graph

/-! ## Reads -/

namespace Engine

/-- A program comes to the point where it aborts the pulse, by moves that do not concern the world. -/
def Aborts (g : Graph) {α : Type} (p : Pulse) (program : Engine α) (cause : NodeError) (p' : Pulse) :
    Prop :=
  ∀ s (next : α → Engine Unit) callers, ∃ later,
    Relation.ReflTransGen (Machine.Goes g) ⟨p, s, program.andThen next, callers⟩
      ⟨p', s, .ask (.abort cause) later, callers⟩

/-- A program comes to its end with a result or by aborting the pulse, whatever becomes of the world. -/
def Settles (g : Graph) {α : Type} (p : Pulse) (program : Engine α) : Prop :=
  (∃ a p', Returns g p program a p') ∨ ∃ cause p', Aborts g p program cause p'

variable {g : Graph} {s : Scope} {α β : Type} {p p' : Pulse}

theorem settles_done (a : α) : Settles g p (.done a : Engine α) :=
  .inl ⟨a, p, fun _ _ _ => .refl⟩

theorem settles_abort (cause : NodeError) (next : Empty → Engine α) :
    Settles g p (.ask (.abort cause) next) :=
  .inr ⟨cause, p, fun _ _ _ => ⟨_, .refl⟩⟩

/-- A program whose parts settle settles. -/
theorem Settles.andThen {program : Engine α} (h : Settles g p program) {f : α → Engine β}
    (later : ∀ a p', Returns g p program a p' → Settles g p' (f a)) :
    Settles g p (program.andThen f) := by
  rcases h with ⟨a, p', returns⟩ | ⟨cause, p', aborts⟩
  · rcases later a p' returns with ⟨b, p'', returns'⟩ | ⟨cause, p'', aborts⟩
    · refine .inl ⟨b, p'', fun s next callers => ?_⟩
      rw [Program.andThen_assoc]
      exact (returns s _ callers).trans (returns' s next callers)
    · refine .inr ⟨cause, p'', fun s next callers => ?_⟩
      obtain ⟨after, goes⟩ := aborts s next callers
      rw [Program.andThen_assoc]
      exact ⟨after, (returns s _ callers).trans goes⟩
  · refine .inr ⟨cause, p', fun s next callers => ?_⟩
    rw [Program.andThen_assoc]
    exact aborts s _ callers

theorem settles_expect (index : Nat) (t : ValueType) (v : Option Value) :
    Settles g p (expect s index t v) := by
  rw [expect]
  split
  · exact settles_done _
  · exact settles_abort ..

theorem settles_mapM_expect (index : Nat) (t : ValueType) (values : List Value) :
    Settles g p (values.mapM fun v => expect s index t (some v)) := by
  induction values generalizing p with
  | nil => exact settles_done _
  | cons v values ih =>
      rw [List.mapM_cons]
      exact (settles_expect index t _).andThen fun c p' _ => ih.andThen fun cs p'' _ => settles_done _

end Engine

namespace Graph

open Engine (Settles)

variable {g : Graph} {p : Pulse} {s : Scope}

/-- An input that is not declared aborts before anything is read. -/
theorem declaredInput_cases (g : Graph) (s : Scope) (index : Nat) :
    (∃ i, g.Takes ⟨s.node, index⟩ i ∧ Engine.declaredInput g s index = .done i) ∨
      ∃ cause, Engine.declaredInput g s index = Engine.abort cause := by
  cases member : g.member? s.node with
  | none =>
      simp only [Engine.declaredInput, Engine.member, member]
      exact .inr ⟨.unknownNode s.node, congrArg (Program.ask _) (funext fun reply => reply.elim)⟩
  | some m =>
      simp only [Engine.declaredInput, Engine.member, member, Program.pure_eq, Program.bind_eq,
        Program.done_andThen]
      cases declared : m.descriptor.inputs[index]? with
      | some i => exact .inl ⟨i, ⟨m, member, declared⟩, rfl⟩
      | none => exact .inr ⟨_, rfl⟩

section

variable (catalogue : g.FromCatalogue)

include catalogue

/-- A program that only reads settles. -/
theorem settles_of_wp {α : Type} {program : Engine α}
    (keeps : program.wp ((g.reading False fun _ => True).Spec s fun _ => True) (fun _ _ => True) p) :
    Settles g p program := by
  obtain ⟨a, p', returns, _⟩ :=
    reading_returns catalogue carries_hasRead keeps
  exact .inl ⟨a, p', returns⟩

variable (fresh : g.Fresh p)

include fresh

/-- Resolving an output settles, be it declared or not. -/
theorem settles_resolve (depth : Nat) (output : Port) : Settles g p (Engine.resolve g depth output) := by
  by_cases declared : ∃ o, g.Declares output o
  · obtain ⟨o, declares⟩ := declared
    obtain ⟨v, p', returns, _⟩ := resolve_returns catalogue fresh declares depth
    exact .inl ⟨v, p', returns⟩
  · unfold Engine.resolve Engine.member
    split
    next m member =>
      have none : m.descriptor.outputs[output.index]? = none := by
        cases found : m.descriptor.outputs[output.index]? with
        | none => rfl
        | some o => exact absurd ⟨o, m, member, found⟩ declared
      simp only [none, Program.pure_eq, Program.bind_eq, Program.done_andThen]
      exact Engine.settles_abort ..
    next => exact Engine.settles_abort ..

/-- Reading an input settles, be it declared or not. -/
theorem settles_inputValue (index : Nat) : Settles g p (Engine.inputValue g s index) := by
  rcases declaredInput_cases g s index with ⟨i, takes, _⟩ | ⟨cause, undeclared⟩
  · apply settles_of_wp catalogue (s := s)
    exact wp_inputValue catalogue fresh takes (fun _ _ => trivial) fun _ _ _ _ => trivial
  · rw [Engine.inputValue, undeclared]
    exact Engine.settles_abort ..

theorem settles_input (index : Nat) (t : ValueType) :
    Settles g p (Engine.answer g s (.input index t)) :=
  (settles_inputValue catalogue fresh index).andThen fun v _ _ => Engine.settles_expect index t v

theorem settles_inputs (index : Nat) (t : ValueType) :
    Settles g p (Engine.answer g s (.inputs index t)) := by
  rw [Engine.answer, Engine.inputValues]
  rcases declaredInput_cases g s index with ⟨i, ⟨m, member, declared⟩, eq⟩ | ⟨cause, undeclared⟩
  · rw [eq]
    have declares (source) (connected : source ∈ g.sources ⟨s.node, index⟩) : ∃ o, g.Declares source o := by
      obtain ⟨o, declares, _⟩ := catalogue.source member declared connected
      exact ⟨o, declares⟩
    have resolved : Settles g p (Engine.resolveAll g s.depth (g.sources ⟨s.node, index⟩)) := by
      apply settles_of_wp catalogue (s := s)
      exact wp_resolveAll fresh declares (fun _ _ => trivial) fun _ _ _ _ => trivial
    exact resolved.andThen fun vs _ _ => Engine.settles_mapM_expect index t vs
  · rw [undeclared]
    exact Engine.settles_abort ..

end

/-! ## Every pulse -/

/-- What can be said of reading at some point of a pulse: whatever is read, for whichever node, the read
comes to its end, and of the nodes that are being computed none is so twice. -/
structure ReadsEnd (g : Graph) (m : Machine) : Prop where
  output : ∀ depth output, Settles g m.pulse (Engine.resolve g depth output)
  input : ∀ s index t, Settles g m.pulse (Engine.answer g s (.input index t))
  inputs : ∀ s index t, Settles g m.pulse (Engine.answer g s (.inputs index t))
  nodup : (Machine.evaluating g m.scope m.callers).Nodup
  length_le : (Machine.evaluating g m.scope m.callers).length ≤ g.size

/-- A pulse that is started in some world comes to its end: whatever becomes of the world between its
moves, with a report or because its flow has become too deep, and by itself if it is alone. -/
structure PulseEnds (g : Graph) (w : World) (root : NodeId) (token : TokenId) : Prop where
  ends : (Machine.start g w root token).2.Ends g
  result : ∀ {others : World → World → Prop} {events w₁ w₂ m result},
    Machine.Run g others (Machine.start g w root token).1 (Machine.start g w root token).2 events w₁ m →
    m.step g w₁ = .ended w₂ result →
    (∃ report, result = .ok report) ∨
      ∃ name limit, result = .error (.aborted m.pulse.id (.flowDepthExceeded name limit))
  concludes : ∃ events w' result, Machine.Concludes g (Machine.start g w root token).1
    (Machine.start g w root token).2 events w' result

variable {root : NodeId} {r : Member}

theorem readsEnd_of_run (catalogue : g.FromCatalogue) (triggerable : g.root root = .ok r)
    {others : World → World → Prop} {w₀ w : World} {token : TokenId} {events : List Event} {m : Machine}
    (run : Machine.Run g others (Machine.start g w₀ root token).1 (Machine.start g w₀ root token).2
      events w m) : g.ReadsEnd m := by
  obtain ⟨lookup, nested⟩ := Machine.nested_of_run catalogue.built run
  have fresh := (underWay_of_run catalogue triggerable run).fresh
  constructor
  · exact settles_resolve catalogue fresh
  · exact fun s => settles_input catalogue fresh
  · exact fun s => settles_inputs catalogue fresh
  · exact nested.callers.nodup_evaluating catalogue.built
  · exact nested.callers.length_evaluating_le catalogue.built

theorem pulseEnds (catalogue : g.FromCatalogue) (loops : g.WithoutEndlessLoops)
    (triggerable : g.root root = .ok r) (w : World) (token : TokenId) : g.PulseEnds w root token where
  ends := ends_start catalogue loops w root token
  result := by
    intro others events w₁ w₂ m result run ends
    have underWay := underWay_of_run catalogue triggerable run
    obtain ⟨_, aborts⟩ := underWay.fits.ended ends
    cases result with
    | ok report => exact .inl ⟨report, rfl⟩
    | error error =>
        obtain ⟨cause, rfl, allowed⟩ := aborts error rfl
        obtain ⟨name, limit, rfl⟩ := allowed.2.2
        exact .inr ⟨name, limit, rfl⟩
  concludes := (ends_start catalogue loops w root token).concludes _

/-- Every read of every pulse comes to its end, and if there is no endless loop every pulse does. -/
theorem reads_and_pulses_end (catalogue : g.FromCatalogue) (triggerable : g.root root = .ok r) (w : World)
    (token : TokenId) :
    (∀ {others : World → World → Prop} {events w' m},
      Machine.Run g others (Machine.start g w root token).1 (Machine.start g w root token).2 events w' m →
      g.ReadsEnd m) ∧
    (g.WithoutEndlessLoops → g.PulseEnds w root token) :=
  ⟨fun run => readsEnd_of_run catalogue triggerable run,
    fun loops => pulseEnds catalogue loops triggerable w token⟩

/-- A loop whose body leads back to the loop itself. -/
def echo : Graph where
  name := "echo"
  config := { maxFlowDepth := 3 }
  members := [⟨"loop", CatalogueNode.forLoop.node⟩, ⟨"count", (CatalogueNode.constant (.int 2)).node⟩]
  valueEdges := [⟨⟨⟨1⟩, 0⟩, ⟨⟨0⟩, 0⟩⟩]
  flowEdges := [⟨⟨⟨0⟩, 0⟩, ⟨0⟩⟩]

theorem echo_fromCatalogue : echo.FromCatalogue where
  built := ⟨"echo", { maxFlowDepth := 3 },
    [.add "loop" CatalogueNode.forLoop.node, .add "count" (CatalogueNode.constant (.int 2)).node,
      .connectValue ⟨"count", "Value", "loop", "Count"⟩, .connectFlow ⟨"loop", "Loop", "loop"⟩], by cbv⟩
  nodes m member := by
    simp only [echo, List.mem_cons, List.not_mem_nil, or_false] at member
    rcases member with rfl | rfl <;> exact ⟨_, rfl⟩

theorem echo_withoutEndlessLoops : echo.WithoutEndlessLoops := by
  intro m member
  simp only [echo, List.mem_cons, List.not_mem_nil, or_false] at member
  rcases member with rfl | rfl <;> constructor <;> (intro same; cases CatalogueNode.node_injective same)

/-- The loop that leads back to itself ends all the same. -/
theorem reads_and_pulses_end_echo :
    ∃ r, echo.root ⟨0⟩ = .ok r ∧ ⟨0⟩ ∈ echo.targets ⟨⟨0⟩, 0⟩ ∧ echo.WithoutEndlessLoops ∧
      (∀ {others : World → World → Prop} {events w m},
        Machine.Run echo others (Machine.start echo {} ⟨0⟩ ⟨0⟩).1 (Machine.start echo {} ⟨0⟩ ⟨0⟩).2
          events w m → echo.ReadsEnd m) ∧
      echo.PulseEnds {} ⟨0⟩ ⟨0⟩ := by
  have triggerable : echo.root ⟨0⟩ = .ok ⟨"loop", CatalogueNode.forLoop.node⟩ := rfl
  obtain ⟨reads, pulses⟩ := reads_and_pulses_end echo_fromCatalogue triggerable {} ⟨0⟩
  exact ⟨_, triggerable, by decide, echo_withoutEndlessLoops, reads, pulses echo_withoutEndlessLoops⟩

end Graph

end FlowGraph
