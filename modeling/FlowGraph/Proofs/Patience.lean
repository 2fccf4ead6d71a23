import FlowGraph.Pulse.Machine
import FlowGraph.Proofs.Built
import FlowGraph.Proofs.Contract
import FlowGraph.Proofs.Requests

/-!
# What the rules of a pulse ask for

Whether a turn is full is asked at one place only, at the beginning of a delay, and all that comes of it
is a rest before the delay goes on. So a pulse does the same whether its turns are long or short; it only
rests more or less often. Reading, moreover, asks for nothing that anybody else could notice.
-/

namespace FlowGraph

namespace Program

variable {R : Type} {E : R → Type} {α β : Type} {P : R → Prop}

theorem Asks.mapM {f : α → Program E β} (asks : ∀ a, (f a).Asks P) (as : List α) :
    (as.mapM f).Asks P := by
  induction as with
  | nil => trivial
  | cons a as ih =>
      rw [List.mapM_cons]
      exact (asks a).andThen fun b => ih.andThen fun bs => trivial

end Program

namespace Engine

/-- A request that reads, computes a pure node, or keeps what has been read. -/
def Quiet (g : Graph) : EngineRequest → Prop
  | .act (.memoized _) | .act (.published _) | .act .countHit | .act (.completeEvaluation _)
  | .act (.memoize ..) | .abort _ => True
  | .evaluate n _ => g.isPure n = true
  | _ => False

/-- What reading at some depth asks for. Pure nodes are computed at the depth of their reader, and
nothing that is read makes flow too deep. -/
def ReadsAt (g : Graph) (depth : Nat) : EngineRequest → Prop
  | .act (.memoized _) | .act (.published _) | .act .countHit | .act (.completeEvaluation _) => True
  | .evaluate n d => g.isPure n = true ∧ d = depth
  | .abort (.flowDepthExceeded ..) => False
  | .abort _ => True
  | _ => False

section

variable {g : Graph} {s : Scope} {depth : Nat}

theorem ReadsAt.quiet {r : EngineRequest} (h : ReadsAt g depth r) : Quiet g r := by
  cases r with
  | act a => cases a <;> trivial
  | evaluate n d => exact h.1
  | abort cause => trivial
  | activate | sleep | rest | restart | pulse => exact h.elim

/-- Nothing is asked for after an abort. -/
theorem asks_abort {α : Type} {P : EngineRequest → Prop} {cause : NodeError} {next : Empty → Engine α}
    (h : P (.abort cause)) : Program.Asks P (.ask (.abort cause) next : Engine α) :=
  ⟨h, nofun⟩

theorem readsAt_member (n : NodeId) : (member g n).Asks (ReadsAt g depth) := by
  rw [member]
  split
  · trivial
  · exact asks_abort trivial

theorem readsAt_resolve (output : Port) : (resolve g depth output).Asks (ReadsAt g depth) := by
  unfold resolve member
  split
  next m member =>
    simp only [Program.pure_eq, Program.bind_eq, Program.done_andThen]
    split
    next => exact asks_abort trivial
    next o _ =>
      split
      next pure =>
        have isPure : g.isPure output.node = true := by simpa [Graph.isPure, member] using pure
        refine ⟨trivial, ?_⟩
        intro found
        cases found with
        | some v => exact ⟨trivial, fun _ => trivial⟩
        | none =>
            exact ⟨⟨isPure, rfl⟩, fun _ => ⟨trivial, fun _ => ⟨trivial, fun _ => trivial⟩⟩⟩
      next => exact ⟨trivial, fun _ => trivial⟩
  next => exact asks_abort trivial

theorem readsAt_resolveAll (outputs : List Port) :
    (resolveAll g depth outputs).Asks (ReadsAt g depth) := by
  induction outputs with
  | nil => trivial
  | cons output outputs ih =>
      exact (readsAt_resolve output).andThen fun v => ih.andThen fun vs => trivial

theorem readsAt_declaredInput (index : Nat) : (declaredInput g s index).Asks (ReadsAt g depth) := by
  apply (readsAt_member s.node).andThen
  intro m
  split
  · trivial
  · exact asks_abort trivial

theorem readsAt_inputValue (index : Nat) : (inputValue g s index).Asks (ReadsAt g s.depth) := by
  apply (readsAt_declaredInput index).andThen
  intro i
  split
  · exact (readsAt_resolve _).andThen fun v => trivial
  · trivial

theorem readsAt_expect (index : Nat) (t : ValueType) (v : Option Value) :
    (expect s index t v).Asks (ReadsAt g depth) := by
  rw [expect]
  split
  · trivial
  · exact asks_abort trivial

theorem readsAt_input (index : Nat) (t : ValueType) :
    (answer g s (.input index t)).Asks (ReadsAt g s.depth) :=
  (readsAt_inputValue index).andThen fun v => readsAt_expect index t v

theorem readsAt_inputs (index : Nat) (t : ValueType) :
    (answer g s (.inputs index t)).Asks (ReadsAt g s.depth) :=
  (readsAt_declaredInput index).andThen fun _ =>
    (readsAt_resolveAll _).andThen fun vs => Program.Asks.mapM (fun _ => readsAt_expect index t _) vs

theorem quiet_member (n : NodeId) : (member g n).Asks (Quiet g) :=
  have reads : (member g n).Asks (ReadsAt g 0) := readsAt_member n
  reads.mono fun _ reads => reads.quiet

theorem quiet_input (index : Nat) (t : ValueType) : (answer g s (.input index t)).Asks (Quiet g) :=
  (readsAt_input index t).mono fun _ reads => reads.quiet

theorem quiet_inputs (index : Nat) (t : ValueType) : (answer g s (.inputs index t)).Asks (Quiet g) :=
  (readsAt_inputs index t).mono fun _ reads => reads.quiet

end

theorem quiet_guard {g : Graph} {s : Scope} (c : CatalogueNode) :
    (run g s c.guard).Asks (Quiet g) := by
  cases c with
  | fireOnTrue => exact (quiet_input 0 .bool).andThen fun _ => trivial
  | _ => trivial

/-- Computing a pure node is no more than reading. -/
theorem quiet_evaluation {g : Graph} {s : Scope} (catalogue : g.FromCatalogue)
    (pure : g.isPure s.node = true) : (evaluation g s).Asks (Quiet g) := by
  obtain ⟨m, member, isPure⟩ : ∃ m, g.member? s.node = some m ∧ m.node.isPure = true := by
    simpa [Graph.isPure, Option.any_eq_true] using pure
  obtain ⟨c, node⟩ := catalogue.kind member
  have publishes : ∀ v, (answer g s (.publish 0 v)).Asks (Quiet g) := by
    intro v
    simp only [answer, publish, pure, if_true]
    exact ⟨trivial, fun _ => trivial⟩
  have process : (run g s c.process).Asks (Quiet g) := by
    rw [node] at isPure
    cases c with
    | constant v => exact (publishes v).andThen fun _ => trivial
    | add t =>
        exact (quiet_input 0 _).andThen fun a => (quiet_input 1 _).andThen fun b =>
          (publishes _).andThen fun _ => trivial
    | sum t => exact (quiet_inputs 0 _).andThen fun values => (publishes _).andThen fun _ => trivial
    | _ => cases isPure
  simp only [evaluation, Engine.member, member, node, Program.pure_eq, Program.bind_eq,
    Program.done_andThen]
  apply (quiet_guard c).andThen
  intro passed
  split
  · exact process
  · trivial

/-- What the gate of a node asks for: it reads, and compares the node's own inputs with their last
observations. -/
inductive ObservesAt (g : Graph) (s : Scope) : EngineRequest → Prop where
  | reads {r} (reads : ReadsAt g s.depth r) : ObservesAt g s r
  | observe (index t v) : ObservesAt g s (.act (.observe ⟨s.node, index⟩ t v))

theorem observesAt_observeFrom {g : Graph} {s : Scope} (index : Nat) (inputs : List Input) :
    (observeFrom g s index inputs).Asks (ObservesAt g s) := by
  induction inputs generalizing index with
  | nil => trivial
  | cons i rest ih =>
      rw [observeFrom]
      split
      · refine ((readsAt_inputValue index).mono fun _ reads => .reads reads).andThen fun v => ?_
        cases v with
        | some v => exact ⟨.observe .., fun _ => (ih _).andThen fun _ => trivial⟩
        | none => exact (ih _).andThen fun _ => trivial
      · exact ih _

/-- A request that a delay makes. -/
def Pausing : EngineRequest → Prop
  | .act .isTurnFull | .act .isCancelled | .act .endWait | .sleep _ | .rest => True
  | _ => False

theorem pausing_delay (milliseconds : Nat) : (delay milliseconds).Asks Pausing := by
  have ends : delayEnd.Asks Pausing := by
    refine ⟨trivial, fun cancelled => ?_⟩
    cases cancelled with
    | true => trivial
    | false => exact ⟨trivial, fun _ => trivial⟩
  have starts : (delayStart milliseconds).Asks Pausing := by
    refine ⟨trivial, fun cancelled => ?_⟩
    cases cancelled with
    | true => trivial
    | false =>
        simp only [Bool.false_eq_true, if_false]
        split
        · exact ⟨trivial, fun _ => ends⟩
        · exact ends
  rw [delay_eq]
  refine ⟨trivial, fun full => ?_⟩
  cases full with
  | true => exact ⟨trivial, fun _ => starts⟩
  | false => exact starts

/-- A request that is quiet or compares an input with its last observation. -/
def Observing (g : Graph) (r : EngineRequest) : Prop :=
  Quiet g r ∨ ∃ input t v, r = .act (.observe input t v)

theorem ObservesAt.observing {g : Graph} {s : Scope} {r : EngineRequest} (h : ObservesAt g s r) :
    Observing g r := by
  cases h with
  | reads reads => exact .inl reads.quiet
  | observe index t v => exact .inr ⟨_, _, _, rfl⟩

theorem observing_observeFrom {g : Graph} {s : Scope} (index : Nat) (inputs : List Input) :
    (observeFrom g s index inputs).Asks (Observing g) :=
  (observesAt_observeFrom index inputs).mono fun _ observes => observes.observing

/-! ## Patience -/

/-- If a request asks whether the turn is full, what comes of it is a rest and nothing else. -/
def RestsFirst {α : Type} : (r : EngineRequest) → (next : r.Reply → Engine α) → Prop
  | .act .isTurnFull, next => next true = .ask .rest fun _ => next false
  | _, _ => True

/-- A program goes on in the same way whether turns are full or not. -/
def Patient {α : Type} : Engine α → Prop
  | .done _ => True
  | .ask r next => RestsFirst r next ∧ ∀ reply, Patient (next reply)

/-- A request other than whether the turn is full. -/
def Unhurried (r : EngineRequest) : Prop :=
  r ≠ .act .isTurnFull

section

variable {α β : Type} {g : Graph} {s : Scope}

theorem Quiet.unhurried {r : EngineRequest} (h : Quiet g r) : Unhurried r := by
  rintro rfl
  exact h

theorem Observing.unhurried {r : EngineRequest} (h : Observing g r) : Unhurried r := by
  rcases h with quiet | ⟨_, _, _, rfl⟩
  · exact quiet.unhurried
  · nofun

theorem Unhurried.restsFirst {r : EngineRequest} (h : Unhurried r) (next : r.Reply → Engine α) :
    RestsFirst r next := by
  unfold RestsFirst
  split
  · exact absurd rfl h
  · trivial

theorem RestsFirst.andThen {r : EngineRequest} {next : r.Reply → Engine α} (h : RestsFirst r next)
    (f : α → Engine β) : RestsFirst r fun reply => (next reply).andThen f := by
  by_cases asksTurn : r = .act .isTurnFull
  · subst asksTurn
    simp only [RestsFirst] at h ⊢
    rw [h, Program.ask_andThen]
  · exact Unhurried.restsFirst asksTurn _

theorem patient_of_asks {p : Engine α} (h : p.Asks Unhurried) : Patient p := by
  induction p with
  | done => trivial
  | ask r next ih => exact ⟨h.1.restsFirst next, fun reply => ih reply (h.2 reply)⟩

theorem Patient.andThen {p : Engine α} {f : α → Engine β} (h : Patient p)
    (later : ∀ a, Patient (f a)) : Patient (p.andThen f) := by
  induction p with
  | done a => exact later a
  | ask r next ih => exact ⟨h.1.andThen f, fun reply => ih reply (h.2 reply)⟩

theorem patient_of_quiet {p : Engine α} (h : p.Asks (Quiet g)) : Patient p :=
  patient_of_asks (h.mono fun _ quiet => quiet.unhurried)

theorem patient_act (a : Action) (other : a ≠ .isTurnFull) : Patient (act a) :=
  patient_of_asks ⟨fun same => other (EngineRequest.act.inj same), fun _ => trivial⟩

theorem patient_abort (cause : NodeError) : Patient (abort cause : Engine α) :=
  ⟨trivial, nofun⟩

theorem patient_member (n : NodeId) : Patient (member g n) :=
  patient_of_quiet (quiet_member n)

theorem patient_activateAll (depth : Nat) (targets : List NodeId) :
    Patient (activateAll depth targets) := by
  induction targets with
  | nil => trivial
  | cons n rest ih =>
      apply (patient_act .isCancelled nofun).andThen
      intro cancelled
      split
      · trivial
      · exact ⟨trivial, fun _ => ih⟩

theorem patient_fire (index : Nat) : Patient (fire g s index) := by
  apply (patient_member s.node).andThen
  intro m
  split
  · exact patient_abort _
  · apply (patient_act .isCancelled nofun).andThen
    intro cancelled
    split
    · trivial
    · split
      · exact patient_abort _
      · exact patient_activateAll _ _

theorem patient_publish (index : Nat) (v : Value) : Patient (publish g s index v) := by
  unfold publish
  dsimp only
  split <;> exact patient_act _ nofun

/-- A delay is the place where the length of a turn is asked for. -/
theorem patient_delay (milliseconds : Nat) : Patient (delay milliseconds) := by
  have ends : delayEnd.Asks Unhurried := by
    refine ⟨nofun, ?_⟩
    intro cancelled
    cases cancelled with
    | true => trivial
    | false => exact ⟨nofun, fun _ => trivial⟩
  have starts : Patient (delayStart milliseconds) := by
    refine patient_of_asks ⟨nofun, fun cancelled => ?_⟩
    cases cancelled with
    | true => trivial
    | false =>
        simp only [Bool.false_eq_true, if_false]
        split
        · exact ⟨nofun, fun _ => ends⟩
        · exact ends
  rw [delay_eq]
  constructor
  · exact rfl
  · intro full
    cases full with
    | true => exact ⟨trivial, fun _ => starts⟩
    | false => exact starts

theorem patient_pulse (name : String) : Patient (pulse g name) := by
  rw [pulse]
  split
  · trivial
  · split
    · trivial
    · exact ⟨trivial, fun _ => trivial⟩

theorem patient_answer (r : NodeRequest) : Patient (answer g s r) := by
  cases r with
  | input index t => exact patient_of_quiet (quiet_input index t)
  | inputs index t => exact patient_of_quiet (quiet_inputs index t)
  | publish index v => exact patient_publish index v
  | fire flow => exact patient_fire flow
  | delay milliseconds => exact patient_delay milliseconds
  | refuse message => exact (patient_member s.node).andThen fun _ => patient_abort _
  | location => exact (patient_act .pulseId nofun).andThen fun _ => trivial
  | pulse root => exact patient_pulse root
  | rest | again => exact ⟨trivial, fun _ => trivial⟩
  | remembered t | remember v | update t f | push sink v | isCancelled | cancel | shutDown | resetState
  | cell name | setCell name d => exact patient_act _ nofun

theorem patient_run (p : NodeProgram α) : Patient (run g s p) := by
  induction p with
  | done => trivial
  | ask r next ih => exact (patient_answer r).andThen ih

/-! ### Entering a node -/

theorem patient_process : Patient (process g s) :=
  (patient_member s.node).andThen fun _ => patient_run _

theorem patient_evaluation : Patient (evaluation g s) := by
  refine (patient_member s.node).andThen fun m => (patient_run _).andThen fun passed => ?_
  split
  · exact patient_run _
  · trivial

theorem patient_admitted (m : Member) : Patient (admitted g s m) := by
  apply (patient_run _).andThen
  intro passed
  split
  · exact (patient_act (.begin ..) nofun).andThen fun _ => patient_run _
  · trivial

theorem patient_activation : Patient (activation g s) := by
  apply (patient_member s.node).andThen
  intro m
  apply (patient_act .isCancelled nofun).andThen
  intro cancelled
  split
  · trivial
  · split
    · have observes := (observing_observeFrom (g := g) (s := s) 0 m.descriptor.inputs).mono
        fun _ observing => observing.unhurried
      apply (patient_of_asks observes).andThen
      intro changed
      split
      · exact patient_admitted m
      · exact patient_act _ nofun
    · exact patient_admitted m

end

end Engine

end FlowGraph
