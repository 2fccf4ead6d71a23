import FlowGraph.Proofs.Currency
import FlowGraph.Proofs.Frames
import FlowGraph.Proofs.Heeding
import FlowGraph.Proofs.Turns
import FlowGraph.Script

/-!
# Beginning an activation

An activation asks once, at its start, whether its pulse is cancelled, and does not ask again after the
gate and the guard have passed. So what has been found lasts until the node's process begins if nothing
in between makes the pulse wait: the guards of the nodes, and the pure nodes that they and the gate read.
A guard that waits lets a cancelled pulse begin an activation.
-/

namespace FlowGraph

/-- A request that is answered within the turn, by nobody else's doing, and cancels nothing. -/
def NodeRequest.IsPrompt : NodeRequest → Prop
  | .fire _ | .delay _ | .rest | .again | .cancel | .shutDown | .pulse _ => False
  | _ => True

/-- Nothing that happens before the process of a node makes a pulse wait or cancels it. -/
structure Graph.Prompt (g : Graph) : Prop where
  guards : ∀ m ∈ g.members, m.node.guard.Asks NodeRequest.IsPrompt
  pure : ∀ m ∈ g.members, m.node.isPure = true → m.node.process.Asks NodeRequest.IsPrompt

namespace Engine

/-- A request that leaves alone whether the pulse is cancelled, and begins no activation. -/
def Quick (g : Graph) : EngineRequest → Prop
  | .act .cancel | .act .shutDown | .act (.begin ..) => False
  | .act _ | .abort _ => True
  | .evaluate n _ => g.isPure n = true
  | .activate .. | .sleep _ | .rest | .restart | .pulse _ => False

variable {g : Graph} {s : Scope} {α : Type}

theorem ReadsAt.quick {depth : Nat} {r : EngineRequest} (h : ReadsAt g depth r) : Quick g r := by
  cases r with
  | act a => cases a <;> trivial
  | evaluate n d => exact h.1
  | abort cause => trivial
  | activate | sleep | rest | restart | pulse => exact h.elim

theorem ObservesAt.quick {r : EngineRequest} (h : ObservesAt g s r) : Quick g r := by
  cases h with
  | reads reads => exact reads.quick
  | observe index t v => trivial

theorem quick_answer {r : NodeRequest} (prompt : r.IsPrompt) : (answer g s r).Asks (Quick g) := by
  cases r with
  | input index t => exact (readsAt_input index t).mono fun _ reads => reads.quick
  | inputs index t => exact (readsAt_inputs index t).mono fun _ reads => reads.quick
  | publish index v =>
      simp only [answer, publish]
      split <;> exact ⟨trivial, fun _ => trivial⟩
  | refuse message =>
      have reads : (member g s.node).Asks (ReadsAt g 0) := readsAt_member s.node
      have named := reads.mono fun _ reads => reads.quick
      exact named.andThen fun m => asks_abort trivial
  | remembered | remember | update | push | isCancelled | location | resetState | cell | setCell =>
      exact ⟨trivial, fun _ => trivial⟩
  | fire | delay | rest | again | cancel | shutDown | pulse => exact prompt.elim

theorem quick_run {p : NodeProgram α} (prompt : p.Asks NodeRequest.IsPrompt) :
    (run g s p).Asks (Quick g) :=
  prompt.interpret fun _ => quick_answer

theorem quick_evaluation (prompt : g.Prompt) (pure : g.isPure s.node = true) :
    (evaluation g s).Asks (Quick g) := by
  obtain ⟨m, member, isPure⟩ : ∃ m, g.member? s.node = some m ∧ m.node.isPure = true := by
    simpa [Graph.isPure, Option.any_eq_true] using pure
  have mem : m ∈ g.members := List.mem_of_getElem? member
  simp only [evaluation, Engine.member, member, Program.pure_eq, Program.bind_eq, Program.done_andThen]
  apply (quick_run (prompt.guards m mem)).andThen
  intro passed
  split
  · exact quick_run (prompt.pure m mem isPure)
  · trivial

/-! ## What is known of the cancellation -/

/-- What a request needs, given whether the pulse is known not to be cancelled at the moment: an activation
may begin only if it is. Looking tells; whatever may let others move or cancels something makes it
unknown. -/
def knowing (g : Graph) : (r : EngineRequest) → (r.Reply → Bool → Prop) → Bool → Prop
  | .act .isCancelled, next, live => ∀ reply, (live = true → reply = false) → next reply !reply
  | .act (.begin ..), next, live => live = true ∧ next () live
  | .act .cancel, next, _ | .act .shutDown, next, _ => next () false
  | .act _, next, live => ∀ reply, next reply live
  | .evaluate n _, next, live => g.isPure n = true ∧ next () live
  | .activate .., next, _ | .sleep _, next, _ | .rest, next, _ => next () false
  | .pulse _, next, _ => ∀ result, next result false
  | .restart, _, _ | .abort _, _, _ => True

/-- Every activation that a program begins is one of a pulse that is known not to be cancelled. -/
def Knows (g : Graph) (live : Bool) (p : Engine α) : Prop :=
  p.wp (knowing g) (fun _ _ => True) live

variable {live : Bool}

/-- Knowing more does no harm. -/
theorem Knows.of_unknown {p : Engine α} (h : Knows g false p) (live : Bool) : Knows g live p := by
  induction p generalizing live with
  | done a => trivial
  | ask r next ih =>
      cases r with
      | act a =>
          cases a with
          | isCancelled => exact fun reply _ => h reply nofun
          | begin n list => exact absurd h.1 Bool.false_ne_true
          | cancel | shutDown => exact h
          | _ => exact fun reply => ih reply (h reply) live
      | evaluate n depth => exact ⟨h.1, ih () h.2 live⟩
      | _ => exact h

/-- What is known stays known while nothing but quick requests are made. -/
theorem wp_quick {p : Engine α} {Q : α → Bool → Prop} (quick : p.Asks (Quick g))
    (next : ∀ a, Q a true) : p.wp (knowing g) Q true := by
  induction p with
  | done a => exact next a
  | ask r rest ih =>
      cases r with
      | act a =>
          cases a with
          | isCancelled =>
              intro reply found
              obtain rfl := found rfl
              exact ih false (quick.2 false)
          | begin | cancel | shutDown => exact quick.1.elim
          | _ => exact fun reply => ih reply (quick.2 reply)
      | evaluate n depth => exact ⟨quick.1, ih () (quick.2 ())⟩
      | abort cause => trivial
      | _ => exact quick.1.elim

/-- The programs of a node begin no activation themselves. -/
theorem knows_of_answering {p : Engine α} (answering : p.Asks (Answering g s)) (live : Bool) :
    Knows g live p := by
  induction p generalizing live with
  | done a => trivial
  | ask r next ih =>
      have later (reply) (live) : Knows g live (next reply) := ih reply (answering.2 reply) live
      cases r with
      | act a =>
          cases a with
          | isCancelled => exact fun reply _ => later reply _
          | begin n list => exact answering.1.elim
          | cancel | shutDown => exact later () false
          | _ => exact fun reply => later reply live
      | evaluate n depth => exact ⟨answering.1.1, later () live⟩
      | activate n depth => exact later () false
      | sleep milliseconds => exact later () false
      | rest => exact later () false
      | restart | abort => trivial
      | pulse root => exact fun result => later result false

theorem knows_process (live : Bool) : Knows g live (process g s) :=
  knows_of_answering answering_process live

theorem knows_admitted (prompt : g.Prompt) {m : Member} (mem : m ∈ g.members) :
    Knows g true (admitted g s m) := by
  rw [Knows, admitted, Program.bind_eq, Program.wp_andThen]
  apply wp_quick (quick_run (prompt.guards m mem))
  intro passed
  split
  · exact ⟨rfl, knows_of_answering (answering_run (s := s) m.node.process) true⟩
  · trivial

/-- What an activation finds at its start lasts until the process of the node begins. -/
theorem knows_activation (prompt : g.Prompt) (live : Bool) : Knows g live (activation g s) := by
  refine Knows.of_unknown ?_ live
  cases member : g.member? s.node with
  | none =>
      simp only [activation, Engine.member, member]
      trivial
  | some m =>
      have mem : m ∈ g.members := List.mem_of_getElem? member
      simp only [activation, Engine.member, member, Program.pure_eq, Program.bind_eq,
        Program.done_andThen]
      intro cancelled _
      cases cancelled with
      | true => trivial
      | false =>
          -- From here on nobody else gets to move, neither in the gate nor in the guard.
          simp only [Bool.false_eq_true, if_false, Program.done_andThen]
          split
          · rw [Program.wp_andThen]
            have observes := (observesAt_observeFrom (g := g) (s := s) 0 m.descriptor.inputs).mono
              fun _ observes => observes.quick
            apply wp_quick observes
            intro changed
            split
            · exact knows_admitted prompt mem
            · exact fun _ => trivial
          · exact knows_admitted prompt mem

end Engine

/-- Only cancelling and shutting down change whether a token is cancelled. -/
theorem Action.isCancelled_perform_eq {a : Action} (cancels : a ≠ .cancel) (shutsDown : a ≠ .shutDown)
    (w : World) (p : Pulse) (t : TokenId) :
    (a.perform w p).2.1.isCancelled t = w.isCancelled t := by
  cases a with
  | observe input type v =>
      simp only [perform, World.observe]
      split <;> rfl
  | cancel => exact absurd rfl cancels
  | shutDown => exact absurd rfl shutsDown
  | reset resets => exact w.reset_keeps (·.isCancelled t) resets fun _ _ _ => rfl
  | _ => rfl

/-- Whether a pulse is not cancelled. -/
def Pulse.isLive (w : World) (p : Pulse) : Bool :=
  !w.isCancelled p.token

namespace Machine

open Engine (Knows Quick)

/-- A machine begins an activation only if its pulse is known not to be cancelled. While it reads, what the
reader knows stays known; whoever else waits for a reply knows nothing when it comes. -/
inductive Guarded (g : Graph) (live : Bool) : Engine Unit → List Caller → Prop where
  | driving {program callers} (root : NodeId) (knows : Knows g live program)
      (waits : Waits (fun _ _ => Knows g false) root callers) : Guarded g live program callers
  | reading {program scope next callers} (quick : program.Asks (Quick g))
      (rest : Guarded g live (next ()) callers) : Guarded g live program (.node scope next :: callers)

variable {g : Graph} {w w' : World} {m m' : Machine} {live : Bool} {program : Engine Unit}
  {callers : List Caller}

theorem Guarded.of_unknown (h : Guarded g false program callers) (live : Bool) :
    Guarded g live program callers := by
  induction h with
  | driving root knows waits => exact .driving root (knows.of_unknown live) waits
  | reading quick _ ih => exact .reading quick ih

/-- Where an error is handed to, nothing is known. -/
theorem Guarded.unwind (h : Guarded g live program callers) {token : TokenId} {error : PulseError}
    (moves : Machine.unwind w token error callers = .running w' m') :
    Guarded g false m'.program m'.callers := by
  induction h with
  | driving root knows waits =>
      have framed := waits.unwind (by rw [moves]; rfl)
      exact .driving _ framed.program framed.callers
  | reading quick _ ih => exact ih moves

/-- An action leads to what is known then. -/
theorem Guarded.act {p : Pulse} {a : Action} {next : a.Reply → Engine Unit}
    (h : Guarded g (p.isLive w) (.ask (.act a) next) callers) :
    Guarded g ((a.perform w p).2.2.isLive (a.perform w p).2.1) (next (a.perform w p).1) callers := by
  have still (cancels : a ≠ .cancel) (shutsDown : a ≠ .shutDown) :
      (a.perform w p).2.2.isLive (a.perform w p).2.1 = p.isLive w := by
    simp only [Pulse.isLive, a.token_perform, Action.isCancelled_perform_eq cancels shutsDown]
  generalize asks : (.ask (.act a) next : Engine Unit) = program at h
  cases h with
  | driving root knows waits =>
      subst asks
      refine .driving root ?_ waits
      cases a with
      | isCancelled => exact knows (w.isCancelled p.token) (by simp [Pulse.isLive])
      | begin n list => exact knows.2
      | cancel | shutDown => exact Knows.of_unknown knows _
      | _ => exact still nofun nofun ▸ knows _
  | reading quick rest =>
      subst asks
      have quiet : a ≠ .cancel ∧ a ≠ .shutDown := by
        constructor <;> (rintro rfl; exact quick.1)
      rw [still quiet.1 quiet.2]
      exact .reading (quick.2 _) rest

/-- A machine that is done goes back to a caller that knows what it needs. -/
theorem Guarded.leave (h : Guarded g (m.pulse.isLive w) program m.callers)
    (moves : m.leave w = .running w' m') : Guarded g (m'.pulse.isLive w') m'.program m'.callers := by
  rw [Machine.leave] at moves
  split at moves
  next => cases moves
  next scope next callers eq =>
    rw [eq] at h
    cases moves
    cases h with
    | driving root knows waits => exact .of_unknown (.driving root (waits.1 ()) waits.2) _
    | reading quick rest => exact rest
  next outer scope next callers eq =>
    rw [eq] at h
    cases moves
    cases h with
    | driving root knows waits => exact .of_unknown (.driving outer.root (waits.1 _) waits.2) _

/-- A machine within its turn always knows what it needs. -/
theorem Guarded.move (prompt : g.Prompt) (h : Guarded g (m.pulse.isLive w) m.program m.callers)
    (moves : m.step g w = .running w' m') : Guarded g (m'.pulse.isLive w') m'.program m'.callers := by
  obtain ⟨p, s, program, callers⟩ := m
  cases program with
  | done => exact h.leave moves
  | ask r next =>
      cases r with
      | act a =>
          cases moves
          exact h.act
      | evaluate n depth =>
          cases moves
          cases h with
          | driving root knows waits =>
              exact .reading (Engine.quick_evaluation prompt knows.1) (.driving root knows.2 waits)
          | reading quick rest =>
              exact .reading (Engine.quick_evaluation prompt quick.1) (.reading (quick.2 ()) rest)
      | activate n depth =>
          cases moves
          cases h with
          | driving root knows waits =>
              exact .driving root (Engine.knows_activation prompt _) ⟨fun _ => knows, waits⟩
          | reading quick rest => exact quick.1.elim
      | sleep milliseconds | rest => cases moves
      | restart =>
          cases moves
          cases h with
          | driving root knows waits => exact .driving root (Engine.knows_process _) waits
          | reading quick rest => exact quick.1.elim
      | abort cause => exact (h.unwind moves).of_unknown _
      | pulse root =>
          cases moves
          cases h with
          | driving outer knows waits =>
              exact .driving root (Engine.knows_activation prompt _) ⟨knows, waits.of_root p.root⟩
          | reading quick rest => exact quick.1.elim

/-- A machine that waits knows nothing when it goes on. -/
theorem Guarded.pause {r : EngineRequest} {next : r.Reply → Engine Unit} (asks : program = .ask r next)
    (h : Guarded g live program callers) (slow : ¬ Quick g r)
    (forgets : Knows g live (.ask r next) → ∀ reply, Knows g false (next reply)) (reply : r.Reply) :
    Guarded g false (next reply) callers := by
  cases h with
  | driving root knows waits =>
      subst asks
      exact .driving root (forgets knows reply) waits
  | reading quick rest =>
      subst asks
      exact absurd quick.1 slow

/-- Only a pulse that is not cancelled begins an activation. -/
theorem Guarded.isLive_of_begin (h : Guarded g live program callers) {n : NodeId} {list : Bool}
    {next : Unit → Engine Unit} (begins : program = .ask (.act (.begin n list)) next) : live = true := by
  subst begins
  cases h with
  | driving root knows waits => exact knows.1
  | reading quick rest => exact quick.1.elim

end Machine

namespace Graph

variable {g : Graph} {w₀ : World} {stage : Stage}

/-- Whoever has the turn knows what it needs, and whoever waits relies on nothing. -/
theorem guarded_of_reachable (prompt : g.Prompt)
    (reachable : Relation.ReflTransGen g.Turns { world := w₀ } stage) :
    stage.Holds (fun w m => Machine.Guarded g (m.pulse.isLive w) m.program m.callers)
      (fun m => Machine.Guarded g false m.program m.callers) := by
  induction reachable with
  | refl => exact ⟨nofun, List.forall_mem_nil _⟩
  | tail _ turns ih =>
      refine ih.turns turns ?starts ?resumes ?moves ?sleeps ?rests
      case starts =>
        intro w root r token _
        exact .driving root (Engine.knows_activation prompt _) trivial
      case resumes => exact fun h => h.of_unknown _
      case moves => exact fun h moves => h.move prompt moves
      case sleeps =>
        intro w m w' milliseconds m' h sleeps
        obtain ⟨next, asks, _, rfl⟩ := Machine.step_sleeping sleeps
        exact h.pause asks id (fun knows _ => knows) ()
      case rests =>
        intro w m w' m' h rests
        obtain ⟨next, asks, _, rfl⟩ := Machine.step_resting rests
        exact h.pause asks id (fun knows _ => knows) ()

/-- Where nothing makes a pulse wait before the process of a node, no pulse begins an activation when it
is cancelled, whatever the nodes do, and whoever cancels it at whatever point. -/
theorem begins_uncancelled (prompt : g.Prompt)
    (reachable : Relation.ReflTransGen g.Turns { world := w₀ } stage) {m : Machine}
    (turn : stage.turn = some m) {n : NodeId} {list : Bool} {next : Unit → Engine Unit}
    (begins : m.program = .ask (.act (.begin n list)) next) :
    stage.world.isCancelled m.pulse.token = false := by
  have live := ((guarded_of_reachable prompt reachable).turn m turn).isLive_of_begin begins
  simpa [Pulse.isLive] using live

/-- The nodes of the catalogue decide at once whether they go ahead. -/
theorem FromCatalogue.prompt (catalogue : g.FromCatalogue) : g.Prompt where
  guards m member := by
    obtain ⟨c, node⟩ := catalogue.nodes m member
    rw [node]
    cases c with
    | fireOnTrue => exact ⟨trivial, fun _ => trivial⟩
    | _ => trivial
  pure m member isPure := by
    obtain ⟨c, node⟩ := catalogue.nodes m member
    rw [node] at isPure ⊢
    cases c with
    | constant v => exact ⟨trivial, fun _ => trivial⟩
    | add t => exact ⟨trivial, fun a => ⟨trivial, fun b => ⟨trivial, fun _ => trivial⟩⟩⟩
    | sum t => exact ⟨trivial, fun values => ⟨trivial, fun _ => trivial⟩⟩
    | _ => cases isPure

/-- A pulse of the loop of two rounds is about to begin its first activation. -/
theorem begins_uncancelled_rounds :
    ∃ stage m n list next, rounds.Prompt ∧ Relation.ReflTransGen rounds.Turns {} stage ∧
      stage.turn = some m ∧ m.program = .ask (.act (.begin n list)) next ∧
      stage.world.isCancelled m.pulse.token = false := by
  have prompt := rounds_fromCatalogue.prompt
  have started : Relation.ReflTransGen rounds.Turns {} _ := .single (.start ⟨0⟩ ⟨0⟩ rfl)
  have reachable := started.trans (Stage.turns_advance 1 _)
  exact ⟨_, _, _, _, _, prompt, reachable, rfl, rfl, begins_uncancelled prompt reachable rfl rfl⟩

/-- A node whose guard waits for ten milliseconds. -/
def hesitantNode : Node :=
  ({ declarations := [.continuation "Next"], guard := [.delay 10 "x"] } : Script).node

def hesitant : Graph where
  name := "hesitant"
  config := {}
  members := [⟨"slow", hesitantNode⟩]
  valueEdges := []
  flowEdges := []

/-- A pulse that is cancelled while the guard waits begins an activation all the same. -/
theorem begins_cancelled_hesitant :
    (({ name := "hesitant" } : Blueprint).callAll [.add "slow" hesitantNode]).build = .ok hesitant ∧
      ∃ w stage m n list next, Relation.ReflTransGen hesitant.Turns { world := w } stage ∧
        stage.turn = some m ∧ m.program = .ask (.act (.begin n list)) next ∧
        stage.world.isCancelled m.pulse.token = true := by
  refine ⟨by cbv, ?_⟩
  let w := (({} : World).addToken {}).1
  have started : Relation.ReflTransGen hesitant.Turns { world := w } _ :=
    .single (.start ⟨0⟩ ⟨0⟩ rfl)
  have paused := started.trans (Stage.turns_advance 4 _)
  have cancelled : Relation.ReflTransGen hesitant.Turns { world := w } ⟨_, none, [_]⟩ :=
    paused.tail (.host (.cancel ⟨0⟩))
  have resumed := cancelled.tail (.resume _ [] _ [])
  have reachable := resumed.trans (Stage.turns_advance 1 _)
  exact ⟨w, _, _, _, _, _, reachable, rfl, rfl, by cbv⟩

end Graph

end FlowGraph
