import FlowGraph.Proofs.Pursuing
import FlowGraph.Proofs.Restoring
import FlowGraph.Proofs.Silence
import FlowGraph.Proofs.Updating

/-!
# Visits to a node

A node that keeps something in its store looks at it, puts something else there and then fires one of its flow
outputs. Up to there it needs nobody else, so this takes place within one turn, and whatever flow leads to,
back to the same node or anywhere else, comes after it. So such a visit can be spoken of as a single step.
Whoever watches a graph in use can note down the visits to a node, and strike them out when the graph is
reset. All that pulses and hosts do besides leaves the store of the node alone.
-/

namespace FlowGraph

/-- What an activation of a node has asked for, with the replies, when it fires a flow output as the last thing
that it does. -/
structure Visit where
  told : List ((r : NodeRequest) × r.Reply)
  edge : Nat

namespace Engine

/-- What is left of a node's process reads, remembers and publishes, and then it fires a flow output as the
last thing that it does. -/
inductive Visits (g : Graph) (s : Scope) : NodeProgram Unit → World → Pulse → Visit → World → Pulse → Prop where
  | fires {edge next w p} (last : next () = .done ()) : Visits g s (.ask (.fire edge) next) w p ⟨[], edge⟩ w p
  | input {index t next c w p p₁ told edge w' p'} (reads : Returns g p (answer g s (.input index t)) c p₁)
      (later : Visits g s (next c) w p₁ ⟨told, edge⟩ w' p') :
      Visits g s (.ask (.input index t) next) w p ⟨⟨.input index t, c⟩ :: told, edge⟩ w' p'
  | remembered {t next w p told edge w' p'}
      (later : Visits g s (next (w.store s.node t).read) w p ⟨told, edge⟩ w' p') :
      Visits g s (.ask (.remembered t) next) w p ⟨⟨.remembered t, (w.store s.node t).read⟩ :: told, edge⟩ w' p'
  | remember {v next w p told edge w' p'}
      (later : Visits g s (next ()) (w.remember s.node v) p ⟨told, edge⟩ w' p') :
      Visits g s (.ask (.remember v) next) w p ⟨⟨.remember v, ()⟩ :: told, edge⟩ w' p'
  | update {t f next w p told edge w' p'}
      (later : Visits g s (next (f (w.store s.node t).read)) (w.update s.node t f) p ⟨told, edge⟩ w' p') :
      Visits g s (.ask (.update t f) next) w p ⟨⟨.update t f, f (w.store s.node t).read⟩ :: told, edge⟩ w' p'
  | publish {index v next w p told edge w' p'}
      (later : Visits g s (next ()) w (p.publish ⟨s.node, index⟩ v (g.dependents ⟨s.node, index⟩)) ⟨told, edge⟩
        w' p') :
      Visits g s (.ask (.publish index v) next) w p ⟨⟨.publish index v, ()⟩ :: told, edge⟩ w' p'

end Engine

namespace Machine

variable {g : Graph} {n : NodeId} {k : Member} {w w' : World} {m m' : Machine}

/-- The arrival of a live pulse at a node that has no gate begins an activation. -/
theorem Arrives.begins (h : m.Arrives g n) (member : g.member? n = some k) (isOpen : k.IsOpen)
    (live : w.isCancelled m.pulse.token = false) :
    m.step g w = .running w { m with
      program := .ask (.act (.begin n g.config.recordActivations)) fun _ =>
        Engine.run g m.scope k.node.process } := by
  obtain ⟨rfl, program⟩ := h
  rw [step, program]
  simp only [Engine.activation, Engine.member, member, isOpen.ungated, Engine.admitted, isOpen.passes, Engine.run,
    Program.interpret, Program.pure_eq, Program.bind_eq, Program.done_andThen, if_true, Engine.isCancelled,
    Engine.act, Program.ask_andThen, Action.perform, live, Bool.false_eq_true, if_false]

/-- A move that does not depend on the world does not let flow into a node: an arrival would be over in a world
where the pulse is cancelled, and goes on where it is not. -/
theorem Goes.not_arrives (member : g.member? n = some k) (isOpen : k.IsOpen) (goes : Goes g m m') :
    ¬ m.Arrives g n := by
  intro arrives
  have cancelled : ({ isShutDown := true } : World).isCancelled m.pulse.token = true := by
    simp [World.isCancelled]
  have live : ({} : World).isCancelled m.pulse.token = false := by simp [World.isCancelled]
  have ends := (goes _).symm.trans (arrives.of_cancelled member cancelled)
  have goesOn := (goes {}).symm.trans (arrives.begins member isOpen live)
  cases ends
  cases goesOn

/-- A move that carries out an action other than to look at the cancellation is not an arrival. -/
theorem aside_act (member : g.member? n = some k) (a : Action) (looks : a ≠ .isCancelled) (p : Pulse)
    (s : Scope) (next : a.Reply → Engine Unit) (callers : List Caller) :
    Aside g n (w, ⟨p, s, .ask (.act a) next, callers⟩)
      ((a.perform w p).2.1, ⟨(a.perform w p).2.2, s, next (a.perform w p).1, callers⟩) := by
  refine ⟨fun arrives => ?_, rfl⟩
  obtain ⟨_, asks, _⟩ := arrives.looks member
  cases asks
  exact looks rfl

end Machine

namespace Engine

variable {g : Graph} {s : Scope} {k : Member} {w w' : World} {p p' : Pulse} {rest : NodeProgram Unit}
  {visit : Visit}

/-- A visit takes moves within the turn, and no flow is let into the node before it is over. -/
theorem Visits.aside (member : g.member? s.node = some k) (isOpen : k.IsOpen)
    (h : Visits g s rest w p visit w' p') (callers : List Caller) :
    Relation.ReflTransGen (Machine.Aside g s.node) (w, ⟨p, s, run g s rest, callers⟩)
      (w', ⟨p', s, fire g s visit.edge, callers⟩) := by
  have pure : g.isPure s.node = false := by
    rw [Graph.isPure, member]
    exact isOpen.driven
  induction h with
  | @fires edge next w p last =>
      have program : run g s (.ask (.fire edge) next) = fire g s edge := by
        have ends : (fun x => run g s (next x)) = .done := by
          funext x
          rw [last]
          rfl
        exact (congrArg (fire g s edge).andThen ends).trans (Program.andThen_done _)
      rw [program]
  | @input index t next c w p p₁ _ _ _ _ reads _ ih =>
      refine .trans ?_ ih
      exact (reads s (fun x => run g s (next x)) callers).lift (w, ·) fun m m' goes =>
        ⟨goes.not_arrives member isOpen, goes w⟩
  | remembered _ ih => exact .head (Machine.aside_act member (.remembered s.node _) (by simp) ..) ih
  | remember _ ih => exact .head (Machine.aside_act member (.remember s.node _) (by simp) ..) ih
  | @update t f _ w _ _ _ _ _ _ ih =>
      rw [← w.read_update s.node t f] at ih
      exact .head (Machine.aside_act member (.update s.node t f) (by simp) ..) ih
  | @publish index v next w p _ _ _ _ _ ih =>
      have program : run g s (.ask (.publish index v) next) =
          .ask (.act (.publish ⟨s.node, index⟩ v (g.dependents ⟨s.node, index⟩))) fun x => run g s (next x) :=
        congrArg (·.andThen fun x => run g s (next x)) (answer_publish pure index v)
      rw [program]
      exact .head (Machine.aside_act member (.publish ⟨s.node, index⟩ v _) (by simp) ..) ih

/-- A visit cancels nobody. -/
theorem Visits.isCancelled (h : Visits g s rest w p visit w' p') (t : TokenId) :
    w'.isCancelled t = w.isCancelled t := by
  induction h with
  | fires => rfl
  | input _ _ ih | remembered _ ih | remember _ ih | update _ ih | publish _ ih => exact ih

/-- A visit concerns the store of no other node. -/
theorem Visits.kept_of_ne {n : NodeId} (other : s.node ≠ n) (h : Visits g s rest w p visit w' p') :
    w'.kept.get? n = w.kept.get? n := by
  induction h with
  | fires => rfl
  | input _ _ ih | remembered _ ih | publish _ ih => exact ih
  | remember _ ih => rw [ih, World.kept_remember, Table.get?_insert_of_ne _ _ other.symm]
  | update _ ih => rw [ih, World.kept_update, Table.get?_insert_of_ne _ _ other.symm]

/-- Whatever is entered leaves the store of a driven node alone, unless flow is let into that node. -/
theorem Enters.mute {n root root' : NodeId} {s s' : Scope} {r : EngineRequest} {program : Engine Unit}
    (built : g.Built) (driven : g.isPure n = false) (h : Enters g root s r root' s' program) (mute : Mute n s r) :
    program.Asks (Mute n s') ∨ s'.node = n ∧ program = activation g s' := by
  have entered (s' : Scope) : (activation g s').Asks (Mute n s') ∨
      s'.node = n ∧ activation g s' = activation g s' := by
    by_cases here : s'.node = n
    · exact .inr ⟨here, rfl⟩
    · exact .inl ((looks_activation built).mute driven here)
  cases h with
  | evaluate => exact .inl ((looks_evaluation built).mute driven mute)
  | activate | pulse => exact entered _
  | restart => exact .inl ((looks_process built).mute driven mute)

end Engine

namespace Machine

open Engine (Mute)

/-- Nothing that is left for a machine to do puts something into the store of a node, other than by letting flow
into it. -/
abbrev Clear (n : NodeId) (m : Machine) : Prop :=
  m.Framed fun _ s program => program.Asks (Mute n s)

/-- A machine that leaves the store of a node alone, or is about to let flow into the node. -/
structure Approaches (g : Graph) (n : NodeId) (m : Machine) : Prop where
  program : m.program.Asks (Mute n m.scope) ∨ m.Arrives g n
  callers : Waits (fun _ s program => program.Asks (Mute n s)) m.pulse.root m.callers

variable {g : Graph} {n : NodeId} {k : Member} {w w' : World} {m m' : Machine}

theorem Clear.approaches (h : m.Clear n) : m.Approaches g n :=
  ⟨.inl h.program, h.callers⟩

theorem approaches_start (built : g.Built) (driven : g.isPure n = false) (w : World) (root : NodeId)
    (token : TokenId) : (start g w root token).2.Approaches g n where
  program := by
    have enters : Engine.Enters g root ⟨root, 0⟩ (.pulse root) root ⟨root, 0⟩ _ := .pulse root
    exact (enters.mute built driven trivial).imp_right fun ⟨here, _⟩ => ⟨here, rfl⟩
  callers := trivial

/-- Unless a live pulse arrives, a move leads away from the node or to where one may arrive. -/
theorem Approaches.move (h : m.Approaches g n) (built : g.Built) (driven : g.isPure n = false)
    (member : g.member? n = some k) (elsewhere : m.Arrives g n → w.isCancelled m.pulse.token = true)
    (moves : m.step g w = .running w' m') : m'.Approaches g n := by
  rcases h.program with mute | arrives
  · have clear : m.Clear n := ⟨mute, h.callers⟩
    obtain ⟨callers, program | ⟨r, next, asks, entered⟩⟩ :=
      clear.step (fun asks reply => asks.2 reply) (by rw [moves]; rfl)
    · exact ⟨.inl program, callers⟩
    · rw [asks] at mute
      exact ⟨entered.mute built driven mute.1, callers⟩
  · rw [arrives.of_cancelled member (elsewhere arrives)] at moves
    cases moves
    exact ⟨.inl trivial, h.callers⟩

/-- A machine that has to wait leaves the store of the node alone. -/
theorem Approaches.pause (h : m.Approaches g n) (member : g.member? n = some k) {r : EngineRequest}
    {next : r.Reply → Engine Unit} (asks : m.program = .ask r next) (waits : r ≠ .act .isCancelled)
    (reply : r.Reply) : { m with program := next reply }.Clear n := by
  rcases h.program with mute | arrives
  · rw [asks] at mute
    exact ⟨mute.2 reply, h.callers⟩
  · obtain ⟨_, looks, _⟩ := arrives.looks member
    cases asks.symm.trans looks
    exact absurd rfl waits

/-- A move that is no arrival at the node leaves the store of the node as it is. -/
theorem Approaches.kept_step (h : m.Approaches g n) (underWay : g.UnderWay m) (member : g.member? n = some k)
    (w : World) : (m.step g w).world.kept.get? n = w.kept.get? n := by
  rcases underWay.world_step w with ⟨a, next, asks, same⟩ | ⟨same, _⟩
  · rw [same]
    have permits := (underWay.fits.allowed asks).2
    have mute : Mute n m.scope (.act a) ∨ a = .isCancelled := by
      rcases h.program with mute | arrives
      · rw [asks] at mute
        exact .inl mute.1
      · obtain ⟨_, looks, _⟩ := arrives.looks member
        cases asks.symm.trans looks
        exact .inr rfl
    cases a with
    | remember node v =>
        have other : node ≠ n := mute.resolve_right (by simp)
        rw [Action.perform, World.kept_remember, Table.get?_insert_of_ne _ _ other.symm]
    | update node t f =>
        have other : node ≠ n := mute.resolve_right (by simp)
        rw [Action.perform, World.kept_update, Table.get?_insert_of_ne _ _ other.symm]
    | observe input t v =>
        simp only [Action.perform, World.observe]
        split <;> rfl
    | cancel | shutDown | reset => exact permits.elim
    | _ => rfl
  · rw [same]

/-- Where an activation goes on when its visit is over. -/
def fires (g : Graph) (m : Machine) (p : Pulse) (edge : Nat) : Machine :=
  { m with pulse := p, program := Engine.fire g m.scope edge }

/-- A visit is over within the turn, and no other flow is let into the node before it is. -/
theorem Arrives.visits (h : m.Arrives g n) (member : g.member? n = some k) (isOpen : k.IsOpen)
    (live : w.isCancelled m.pulse.token = false) {visit : Visit} {p : Pulse}
    (visits : Engine.Visits g m.scope k.node.process w (m.pulse.begin n g.config.recordActivations) visit w' p) :
    m.Settles g n w (w', m.fires g p visit.edge) := by
  refine ⟨_, h.begins member isOpen live, ?_⟩
  obtain ⟨rfl, _⟩ := h
  exact .head (aside_act member (.begin m.scope.node _) (by simp) ..)
    (visits.aside member isOpen m.callers)

end Machine

namespace Graph

/-- A graph in use is watched from the start: `history` is what the activations of a node have done since the
start and since the graph was last reset, one visit each. A visit counts as one step, from where flow is let
into the node to where it fires. -/
inductive Recorded (g : Graph) (n : NodeId) (k : Member) (w₀ : World) : (history : List Visit) → Stage → Prop where
  | new : Recorded g n k w₀ [] { world := w₀ }
  | forgets {history stage stage'} (recorded : Recorded g n k w₀ history stage)
      (forgets : g.Forgets stage stage') : Recorded g n k w₀ [] stage'
  | otherwise {history stage stage'} (recorded : Recorded g n k w₀ history stage)
      (serves : g.Serves stage stage') (keeps : ¬ g.Forgets stage stage')
      (elsewhere : ∀ m, stage.turn = some m → m.Arrives g n → stage.world.isCancelled m.pulse.token = true) :
      Recorded g n k w₀ history stage'
  | visits {history w m waiting visit w' p} (recorded : Recorded g n k w₀ history ⟨w, some m, waiting⟩)
      (arrives : m.Arrives g n) (live : w.isCancelled m.pulse.token = false)
      (visits : Engine.Visits g m.scope k.node.process w (m.pulse.begin n g.config.recordActivations) visit w' p) :
      Recorded g n k w₀ (history ++ [visit]) ⟨w', some (m.fires g p visit.edge), waiting⟩

/-- Where a graph is that is watched: between visits to a node, or within one. -/
inductive Attended (g : Graph) (n : NodeId) (k : Member) (w₀ : World) : (history : List Visit) → Stage → Prop where
  | between {history stage} (recorded : Recorded g n k w₀ history stage) : Attended g n k w₀ history stage
  | within {history w m waiting visit w' p moved} (recorded : Recorded g n k w₀ history ⟨w, some m, waiting⟩)
      (arrives : m.Arrives g n) (live : w.isCancelled m.pulse.token = false)
      (visits : Engine.Visits g m.scope k.node.process w (m.pulse.begin n g.config.recordActivations) visit w' p)
      (goesOn : Relation.TransGen (Machine.Aside g n) moved (w', m.fires g p visit.edge)) :
      Attended g n k w₀ history ⟨moved.1, some moved.2, waiting⟩

/-- Whenever flow of a live pulse is let into a node, the activation is a visit, and the pulse is still live when
the node fires. -/
def AlwaysVisits (g : Graph) (n : NodeId) (k : Member) (w₀ : World) : Prop :=
  ∀ stage m, Relation.ReflTransGen g.Serves { world := w₀ } stage → stage.turn = some m → m.Arrives g n →
    stage.world.isCancelled m.pulse.token = false → ∃ visit w' p, Engine.Visits g m.scope k.node.process
      stage.world (m.pulse.begin n g.config.recordActivations) visit w' p ∧ w'.isCancelled m.pulse.token = false

variable {g : Graph} {n : NodeId} {k : Member} {w₀ w w' : World} {m : Machine} {stage stage' : Stage}
  {history : List Visit}

/-- Whatever hosts do leaves the store of a node as it is, unless they reset the graph. -/
theorem HostActs.kept (h : g.HostActs w w') : w'.kept = w.kept ∨ w' = w.reset g.resets := by
  cases h with
  | resetState => exact .inr rfl
  | giveUp token =>
      refine .inl ?_
      rw [World.giveUp]
      split
      · split <;> rfl
      · rfl
  | _ => exact .inl rfl

/-- Steps other than arrivals of live pulses leave every machine where it may arrive or away from the
node. -/
theorem approaches_of_turns (built : g.Built) (driven : g.isPure n = false) (member : g.member? n = some k)
    (approaches : stage.Holds (fun _ m => m.Approaches g n) (·.Clear n)) (turns : g.Turns stage stage')
    (elsewhere : ∀ m, stage.turn = some m → m.Arrives g n → stage.world.isCancelled m.pulse.token = true) :
    stage'.Holds (fun _ m => m.Approaches g n) (·.Clear n) := by
  have now : stage.Holds (fun w m => m.Approaches g n ∧
      (m.Arrives g n → w.isCancelled m.pulse.token = true)) (·.Clear n) :=
    ⟨fun m turn => ⟨approaches.turn m turn, elsewhere m turn⟩, approaches.waiting⟩
  refine now.turns turns ?starts ?resumes ?moves ?sleeps ?rests
  case starts => exact fun token _ => Machine.approaches_start built driven ..
  case resumes => exact fun clear => clear.approaches
  case moves => exact fun h moves => h.1.move built driven member h.2 moves
  case sleeps =>
    intro w m w' milliseconds m' h sleeps
    obtain ⟨next, asks, _, rfl⟩ := Machine.step_sleeping sleeps
    exact h.1.pause member asks (by simp) ()
  case rests =>
    intro w m w' m' h rests
    obtain ⟨next, asks, _, rfl⟩ := Machine.step_resting rests
    exact h.1.pause member asks (by simp) ()

/-- Steps that do not arrive or forget leave the store of the node as it is. -/
theorem kept_of_serves (underWay : stage.Holds (fun _ => g.UnderWay) g.UnderWay)
    (member : g.member? n = some k) (approaches : stage.Holds (fun _ m => m.Approaches g n) (·.Clear n))
    (serves : g.Serves stage stage') (keeps : ¬ g.Forgets stage stage') :
    stage'.world.kept.get? n = stage.world.kept.get? n := by
  have step {m : Machine} (turn : stage.turn = some m) :
      (m.step g stage.world).world.kept.get? n = stage.world.kept.get? n :=
    (approaches.turn m turn).kept_step (underWay.turn m turn) member stage.world
  obtain ⟨turns, host⟩ := serves
  cases turns with
  | @host w w' waiting changes =>
      rcases (host rfl rfl).kept with same | rfl
      · exact congrArg (·.get? n) same
      · exact absurd (.host w waiting) keeps
  | start | resume => rfl
  | move progress | sleep progress | rest progress | finish progress =>
      have kept := step rfl
      rwa [progress] at kept

/-- Pulses of catalogue nodes are all under way, whatever hosts do. -/
theorem underWay_of_serves (catalogue : g.FromCatalogue)
    (reachable : Relation.ReflTransGen g.Serves { world := w₀ } stage) :
    stage.Holds (fun _ => g.UnderWay) g.UnderWay :=
  underWay_of_reachable catalogue (precedes_of_serves catalogue .refl reachable).1

theorem Forgets.serves (h : g.Forgets stage stage') : g.Serves stage stage' := by
  refine ⟨h.turns, fun idle _ => ?_⟩
  cases h with
  | host => exact .resetState
  | node => cases idle

/-- A store that resetting clears is empty once the graph has been reset, which only hosts do. -/
theorem Forgets.kept (h : g.Forgets stage stage') (underWay : stage.Holds (fun _ => g.UnderWay) g.UnderWay)
    {t : ValueType} (restores : g.Restores n t) : stage'.world.kept.get? n = none := by
  cases h with
  | host w waiting => exact restores.get?_kept_reset w
  | node asks moves => exact ((underWay.turn _ rfl).fits.allowed asks).2.elim

/-- A host does nothing while a pulse has the turn. -/
theorem Turns.serves (h : g.Turns ⟨w, some m, waiting⟩ stage') : g.Serves ⟨w, some m, waiting⟩ stage' := by
  refine ⟨h, fun idle => ?_⟩
  cases idle

/-- What is reached when the pulse that has the turn makes some moves. -/
theorem serves_advance (moves : Nat) (stage : Stage) :
    Relation.ReflTransGen g.Serves stage (stage.advance g moves) := by
  induction moves generalizing stage with
  | zero => exact .refl
  | succ moves ih =>
      obtain ⟨w, turn, waiting⟩ := stage
      cases turn with
      | none => exact .refl
      | some m =>
          rw [Stage.advance]
          dsimp only
          split
          next progress => exact .head (Turns.move progress).serves (ih _)
          next progress => exact .single (Turns.sleep progress).serves
          next progress => exact .single (Turns.rest progress).serves
          next progress => exact .single (Turns.finish progress).serves

/-- Settling takes steps of the graph. -/
theorem serves_of_settles {decision : World × Machine} (settles : m.Settles g n w decision)
    (waiting : List Machine) :
    Relation.ReflTransGen g.Serves ⟨w, some m, waiting⟩ ⟨decision.1, some decision.2, waiting⟩ := by
  obtain ⟨looked, looks, aside⟩ := settles
  refine .head (Turns.move looks).serves ?_
  induction aside with
  | refl => exact .refl
  | tail _ move ih => exact ih.tail (Turns.move move.2).serves

/-- What is recorded has taken place, and every machine leaves the store of the node alone, or is about to let
flow into the node. -/
theorem Recorded.approaches (catalogue : g.FromCatalogue) (member : g.member? n = some k) (isOpen : k.IsOpen)
    (h : g.Recorded n k w₀ history stage) :
    Relation.ReflTransGen g.Serves { world := w₀ } stage ∧
      stage.Holds (fun _ m => m.Approaches g n) (·.Clear n) := by
  have driven : g.isPure n = false := by
    rw [Graph.isPure, member]
    exact isOpen.driven
  induction h with
  | new => exact ⟨.refl, by simp, List.forall_mem_nil _⟩
  | forgets _ forgets ih =>
      refine ⟨ih.1.tail forgets.serves, ?_⟩
      exact approaches_of_turns catalogue.built driven member ih.2 forgets.turns fun m turn arrives =>
        absurd arrives (forgets.elsewhere member turn)
  | otherwise _ serves _ elsewhere ih =>
      exact ⟨ih.1.tail serves, approaches_of_turns catalogue.built driven member ih.2 serves.turns elsewhere⟩
  | @visits _ w m waiting visit w' p _ arrives live visits ih =>
      have settles := arrives.visits member isOpen live visits
      refine ⟨ih.1.trans (serves_of_settles settles waiting), ?_, ih.2.waiting⟩
      rintro _ ⟨⟩
      exact ⟨.inl (Engine.mute_fire visit.edge), (ih.2.turn _ rfl).callers.of_root p.root⟩

/-- What one visit after the other keeps true of the visits so far and of what the node has in its store, is true
of all that is recorded, if resetting the node clears the store. -/
theorem Recorded.invariant (catalogue : g.FromCatalogue) (member : g.member? n = some k) (isOpen : k.IsOpen)
    (unkept : w₀.kept = ∅) {t : ValueType} (cleared : .store t ∈ k.node.reset)
    {I : List Visit → Option Value → Prop} (new : I [] none)
    (grows : ∀ {history s w p visit w' p'}, s.node = n → I history (w.kept.get? n) →
      Engine.Visits g s k.node.process w p visit w' p' → I (history ++ [visit]) (w'.kept.get? n))
    (h : g.Recorded n k w₀ history stage) : I history (stage.world.kept.get? n) := by
  induction h with
  | new => rwa [unkept, Table.get?_empty]
  | forgets recorded forgets =>
      have underWay := underWay_of_serves catalogue (recorded.approaches catalogue member isOpen).1
      rwa [forgets.kept underWay ⟨k, member, cleared⟩]
  | otherwise recorded serves keeps _ ih =>
      obtain ⟨reachable, approaches⟩ := recorded.approaches catalogue member isOpen
      have underWay := underWay_of_serves catalogue reachable
      rwa [kept_of_serves underWay member approaches serves keeps]
  | visits _ arrives _ visits ih => exact grows arrives.1 ih visits

/-- Every activation of a node is a visit if its process reads an input and then, whatever it has read, only looks
at its store, puts something there, publishes and fires. -/
theorem alwaysVisits_of_input (catalogue : g.FromCatalogue) (member : g.member? n = some k) {index : Nat} {i : Input}
    (declared : k.descriptor.inputs[index]? = some i) (single : i.isList = false)
    {rest : i.type.Carrier → NodeProgram Unit} (process : k.node.process = .ask (.input index i.type) rest)
    (visits : ∀ s w p c, ∃ visit w' p', Engine.Visits g s (rest c) w p visit w' p') (w₀ : World) :
    g.AlwaysVisits n k w₀ := by
  intro stage m reachable turn arrives live
  have underWay := (underWay_of_serves catalogue reachable).turn m turn
  obtain ⟨rfl, _⟩ := arrives
  have fresh := underWay.fresh.begin m.scope.node g.config.recordActivations
  obtain ⟨c, p₁, reads, _⟩ := input_returns catalogue carries_hasRead fresh ⟨k, member, declared⟩ single
  obtain ⟨⟨told, edge⟩, w', p', later⟩ := visits m.scope stage.world p₁ c
  have whole := Engine.Visits.input reads later
  rw [process]
  exact ⟨_, w', p', whole, (whole.isCancelled m.pulse.token).trans live⟩

/-- After a move within a visit, the visit is over or still goes on. -/
theorem attended_of_aside {waiting : List Machine} {visit : Visit} {p : Pulse} {moved : World × Machine}
    (recorded : g.Recorded n k w₀ history ⟨w, some m, waiting⟩) (arrives : m.Arrives g n)
    (live : w.isCancelled m.pulse.token = false)
    (visits : Engine.Visits g m.scope k.node.process w (m.pulse.begin n g.config.recordActivations) visit w' p)
    (aside : Relation.ReflTransGen (Machine.Aside g n) moved (w', m.fires g p visit.edge)) :
    ∃ history, g.Attended n k w₀ history ⟨moved.1, some moved.2, waiting⟩ := by
  rcases Relation.reflTransGen_iff_eq_or_transGen.mp aside with isOver | goesOn
  · cases isOver
    exact ⟨_, .between (.visits recorded arrives live visits)⟩
  · exact ⟨_, .within recorded arrives live visits goesOn⟩

/-- Whatever pulses and hosts do is recorded, if all activations of the node are visits. -/
theorem attended_of_serves (member : g.member? n = some k) (isOpen : k.IsOpen) (always : g.AlwaysVisits n k w₀)
    (reachable : Relation.ReflTransGen g.Serves { world := w₀ } stage) :
    ∃ history, g.Attended n k w₀ history stage := by
  induction reachable with
  | refl => exact ⟨_, .between .new⟩
  | @tail stage stage' reachable serves ih =>
      obtain ⟨history, attended⟩ := ih
      cases attended with
      | between recorded =>
          by_cases forgets : g.Forgets stage stage'
          · exact ⟨_, .between (.forgets recorded forgets)⟩
          -- A visit is the one thing that takes more than a step to be over.
          by_cases arriving : ∃ m, stage.turn = some m ∧ m.Arrives g n ∧
              stage.world.isCancelled m.pulse.token = false
          · obtain ⟨m, turn, arrives, live⟩ := arriving
            obtain ⟨visit, w', p, visits, _⟩ := always stage m reachable turn arrives live
            obtain ⟨w, turn', waiting⟩ := stage
            cases turn
            obtain ⟨looked, looks, aside⟩ := arrives.visits member isOpen live visits
            rw [serves.turns.of_running looks]
            exact attended_of_aside recorded arrives live visits aside
          · refine ⟨_, .between (.otherwise recorded serves forgets fun m turn arrives => ?_)⟩
            by_contra live
            exact arriving ⟨m, turn, arrives, by simpa using live⟩
      | @within w m waiting visit w' p moved recorded arrives live visits goesOn =>
          obtain ⟨next, moves, aside⟩ := Relation.TransGen.head'_iff.mp goesOn
          rw [serves.turns.of_running moves.2]
          exact attended_of_aside recorded arrives live visits aside

/-- Between turns everything is recorded. -/
theorem Attended.recorded (h : g.Attended n k w₀ history stage) (idle : stage.turn = none) :
    g.Recorded n k w₀ history stage := by
  cases h with
  | between recorded => exact recorded
  | within => cases idle

end Graph

end FlowGraph
