import FlowGraph.Proofs.Judging
import FlowGraph.Proofs.Scheduling
import FlowGraph.Proofs.Territory

/-!
# Update nodes

No flow enters an update node, so its inputs are compared only by a pulse that starts there, before that
pulse has published anything. What it reads then depends on neither stores nor observations, and on no
other pulse: it is always the same. A live pulse that starts at the node leaves observations behind that
count as unchanged from it, unless it is a NaN, and whatever pulses do afterwards, it stays at that.
-/

namespace FlowGraph

/-- A value counts as unchanged from itself unless it is a NaN. -/
theorem Value.unchanged_self {t : ValueType} {v : Value} (typed : v.type = t)
    (number : ∀ x, v = .float x → x.isNaN = false) : unchanged t v v = true := by
  subst typed
  cases v with
  | float x =>
      have self : x.equal x = true := by rw [Single.equal_self, number x rfl, Bool.not_false]
      exact self
  | bool | int | text => exact beq_self_eq_true _

/-- Every reactive input is among the places that an arrival reads. -/
theorem Input.mem_reactivePlaces {inputs : List Input} {j : Nat} {i : Input} (declared : inputs[j]? = some i)
    (reactive : i.isReactive = true) (index : Nat) : (index + j, i.type) ∈ reactivePlaces index inputs := by
  induction inputs generalizing index j with
  | nil => cases declared
  | cons first inputs ih =>
      rw [reactivePlaces]
      cases j with
      | zero =>
          cases declared
          rw [if_pos reactive]
          exact List.mem_cons_self
      | succ j =>
          have later := ih declared (index + 1)
          rw [Nat.add_right_comm] at later
          split
          · exact List.mem_cons_of_mem _ later
          · exact later

/-- Whatever is entered asks for what its node may ask for. -/
theorem Engine.Enters.local {g : Graph} {root root' : NodeId} {s s' : Scope} {r : EngineRequest}
    {p : Engine Unit} (h : Enters g root s r root' s' p) : p.Asks (Local g s') := by
  cases h with
  | evaluate => exact answering_evaluation.mono fun _ answers => .answering answers
  | activate | pulse => exact local_activation
  | restart => exact answering_process.mono fun _ answers => .answering answers

namespace Graph

/-- A reactive input of a node reads a NaN in a pulse that has published nothing. -/
def ReadsNaN (g : Graph) (n : NodeId) : Prop :=
  ∃ index i x, g.Takes ⟨n, index⟩ i ∧ i.isReactive = true ∧
    g.InputIs (fun _ => none) ⟨n, index⟩ i (some (.float x)) ∧ x.isNaN = true

/-- What is kept for the reactive inputs of a node counts as unchanged from what a pulse reads there that
has published nothing. -/
def UpToDate (g : Graph) (n : NodeId) (w : World) : Prop :=
  ∀ index i v, g.Takes ⟨n, index⟩ i → i.isReactive = true →
    g.InputIs (fun _ => none) ⟨n, index⟩ i (some v) →
    ∃ u, w.observed.get? ⟨n, index⟩ = some u ∧ Value.unchanged i.type u v = true

/-- A pulse under way in which nodes ask for what they may ask for. -/
structure Proper (g : Graph) (m : Machine) : Prop where
  underWay : g.UnderWay m
  framed : m.Framed fun _ s program => program.Asks (Engine.Local g s)

/-- A pulse that will not compare inputs of update nodes any more. -/
def PastGates (g : Graph) (m : Machine) : Prop :=
  ∀ n ∈ g.updateNodes, m.Away n

/-- A pulse will be past the gates of all update nodes within its turn, and some nodes will be up to date by
then. -/
inductive Passes (g : Graph) (nodes : List NodeId) : World → Machine → Prop where
  | past {w m} (past : g.PastGates m) (upToDate : ∀ n ∈ nodes, g.UpToDate n w) : Passes g nodes w m
  | move {w m w' m'} (moves : m.step g w = .running w' m') (later : Passes g nodes w' m') :
      Passes g nodes w m

variable {g : Graph} {n root : NodeId} {k : Member} {w w' : World} {m m' : Machine} {p p' : Pulse}
  {nodes : List NodeId} {published : Port → Option Value}

theorem mem_updateNodes : n ∈ g.updateNodes ↔ ∃ k, g.member? n = some k ∧ k.descriptor.isUpdate = true := by
  have known {k : Member} (member : g.member? n = some k) : n ∈ g.ids :=
    List.mem_map.mpr ⟨n.index, List.mem_range.mpr (List.getElem?_eq_some_iff.mp member).1, rfl⟩
  rw [updateNodes, List.mem_filter, Option.any_eq_true]
  refine and_iff_right_of_imp ?_
  rintro ⟨k, member, _⟩
  exact known member

/-- No flow enters an update node. -/
theorem not_leads_of_update (built : g.Built) (update : n ∈ g.updateNodes) (k : NodeId) : ¬ g.Leads k n := by
  rintro ⟨flow, connected⟩
  obtain ⟨m, member, opened⟩ := built.target connected
  obtain ⟨m', member', update⟩ := mem_updateNodes.mp update
  obtain rfl := Option.some.inj (member.symm.trans member')
  simp [Descriptor.isUpdate, opened] at update

/-- Pulses can start at update nodes. -/
theorem root_of_update (update : n ∈ g.updateNodes) : ∃ k, g.root n = .ok k := by
  obtain ⟨k, member, update⟩ := mem_updateNodes.mp update
  have driven : k.node.isPure = false := by
    simp only [Descriptor.isUpdate, Bool.and_eq_true, Bool.not_eq_true'] at update
    have flows : k.node.descriptor.flows.isEmpty = false := update.1.2
    simp [Node.isPure, Descriptor.isPure, flows]
  exact ⟨k, by simp [Graph.root, member, driven]⟩

theorem Takes.unique {input : Port} {i i' : Input} (h : g.Takes input i) (h' : g.Takes input i') : i = i' := by
  obtain ⟨m, member, declared⟩ := h
  obtain ⟨m', member', declared'⟩ := h'
  obtain rfl := Option.some.inj (member.symm.trans member')
  exact Option.some.inj (declared.symm.trans declared')

/-- An input is worth one value. -/
theorem InputIs.unique {input : Port} {i : Input} {v v' : Option Value} (h : g.InputIs published input i v)
    (h' : g.InputIs published input i v') : v = v' := by
  rcases h with ⟨source, u, first, value, _, rfl⟩ | ⟨unconnected, rfl⟩
  · rcases h' with ⟨source', u', first', value', _, rfl⟩ | ⟨unconnected', _⟩
    · obtain rfl := Option.some.inj (first.symm.trans first')
      rw [value.unique value']
    · cases first.symm.trans unconnected'
  · rcases h' with ⟨_, _, first', _⟩ | ⟨_, rfl⟩
    · cases unconnected.symm.trans first'
    · rfl

theorem UpToDate.of_same (h : g.UpToDate n w)
    (same : ∀ j, w'.observed.get? ⟨n, j⟩ = w.observed.get? ⟨n, j⟩) : g.UpToDate n w' := by
  intro index i v takes reactive worth
  rw [same]
  exact h index i v takes reactive worth

/-! ## What pulses do to update nodes -/

theorem proper_start (catalogue : g.FromCatalogue) {r : Member} (triggerable : g.root root = .ok r)
    (w : World) (token : TokenId) : g.Proper (Machine.start g w root token).2 :=
  ⟨underWay_start catalogue triggerable w token, Engine.local_activation, trivial⟩

theorem Proper.next (catalogue : g.FromCatalogue) (h : g.Proper m)
    (moves : (m.step g w).next? = some (w', m')) : g.Proper m' := by
  refine ⟨h.underWay.next catalogue moves, ?_⟩
  obtain ⟨callers, program | ⟨_, _, _, enters⟩⟩ := h.framed.step (fun asks reply => asks.2 reply) moves
  · exact ⟨program, callers⟩
  · exact ⟨enters.local, callers⟩

/-- Within a pulse no update node is entered again. -/
theorem PastGates.next (built : g.Built) (h : g.PastGates m) (proper : g.Proper m)
    (moves : (m.step g w).next? = some (w', m')) : g.PastGates m' := by
  intro n update
  obtain ⟨callers, program | ⟨r, next, asks, enters⟩⟩ := (h n update).step (fun asks reply => asks.2 reply) moves
  · exact ⟨program, callers⟩
  refine ⟨?_, callers⟩
  have asked := proper.framed.program
  rw [asks] at asked
  rcases enters.spares n with spares | ⟨rfl, entered⟩
  · exact spares
  generalize m'.scope = s', m'.program = program, m'.pulse.root = root' at *
  cases enters with
  | evaluate n depth => exact Engine.answering_evaluation.mono fun _ answers => answers.spares
  | activate n depth =>
      cases asked.1 with
      | answering answers => exact absurd answers.2.2.2 (not_leads_of_update built update _)
  | restart => exact Engine.answering_process.mono fun _ answers => answers.spares
  | pulse n => exact absurd asks (proper.underWay.alone _ next)

/-- What is kept for update nodes stays as it is when a pulse moves that is past the gates. -/
theorem PastGates.observed_move (h : g.PastGates m) (underWay : g.UnderWay m) (update : n ∈ g.updateNodes)
    (moves : m.step g w = .running w' m') (j : Nat) :
    w'.observed.get? ⟨n, j⟩ = w.observed.get? ⟨n, j⟩ := by
  obtain ⟨k, member, _⟩ := mem_updateNodes.mp update
  have keeps (resets) (next) (asks : m.program = .ask (.act (.reset resets)) next) : False :=
    (underWay.fits.allowed asks).2
  exact (h n update).attends.observed_move member keeps moves j

/-- A pulse that will be past the gates still will be after a move. -/
theorem Passes.running (built : g.Built) (h : g.Passes nodes w m) (proper : g.Proper m)
    (updates : ∀ n ∈ nodes, n ∈ g.updateNodes) (moves : m.step g w = .running w' m') :
    g.Passes nodes w' m' := by
  cases h with
  | past past upToDate =>
      refine .past (past.next built proper (by rw [moves]; rfl)) fun n node => ?_
      exact (upToDate n node).of_same (past.observed_move proper.underWay (updates n node) moves)
  | move moves' later =>
      cases moves.symm.trans moves'
      exact later

/-- A pulse whose turn ends is past the gates. -/
theorem Passes.stops (h : g.Passes nodes w m) (stops : (Phase.ofProgress (m.step g w)).2.running? = none) :
    g.PastGates m ∧ ∀ n ∈ nodes, g.UpToDate n w := by
  cases h with
  | past past upToDate => exact ⟨past, upToDate⟩
  | move moves =>
      rw [moves] at stops
      cases stops

/-- Where an arrival has been settled, what it has read is up to date. -/
theorem upToDate_of_observes (member : g.member? n = some k) (number : ¬ g.ReadsNaN n) {s : Scope}
    (here : s.node = n) {readings : List Reading} {passed : Bool} (unpublished : p.published = ∅)
    (observes : g.Observes s 0 k.descriptor.inputs w p readings passed w' p')
    (perceives : g.Perceives s.node w p readings passed w' p') : g.UpToDate n w' := by
  subst here
  intro index i v takes reactive worth
  have declared : k.descriptor.inputs[index]? = some i := by
    obtain ⟨k', member', declared⟩ := takes
    obtain rfl := Option.some.inj (member.symm.trans member')
    exact declared
  have place := Input.mem_reactivePlaces declared reactive 0
  rw [← observes.places, Nat.zero_add] at place
  obtain ⟨r, read, same⟩ := List.mem_map.mp place
  obtain ⟨rfl, typed⟩ := Prod.mk.inj same
  obtain ⟨i', takes', _, _, worth'⟩ := perceives.worth r read
  obtain rfl := takes.unique takes'
  rw [unpublished] at worth'
  obtain ⟨c, known⟩ := worth.exists_of (Input.isList_of_isReactive reactive)
  obtain ⟨u, kept, alike⟩ := observes.stands r read
  refine ⟨u, kept, ?_⟩
  rw [← typed, alike v, Option.some.inj (worth'.unique worth), typed]
  refine Value.unchanged_self ?_ fun x float => ?_
  · rw [Option.some.inj known, Value.type_of]
  · rw [float] at worth
    simpa using fun nan => number ⟨_, i, x, takes, reactive, worth, nan⟩

/-- A gate that has decided is passed. -/
theorem pastGates_decided (m : Machine) (alone : m.callers = []) (k : Member) (p : Pulse) (passed : Bool) :
    g.PastGates (m.decided g k p passed) := by
  intro n update
  constructor
  · cases passed with
    | true => exact Engine.spares_admitted k
    | false => exact ⟨nofun, fun _ => trivial⟩
  · have none : (m.decided g k p passed).callers = [] := alone
    rw [none]
    trivial

theorem Passes.of_settles {decision : World × Machine} (settles : m.Settles g n w decision)
    (decided : g.Passes nodes decision.1 decision.2) : g.Passes nodes w m := by
  obtain ⟨looked, looks, aside⟩ := settles
  have later (moved : World × Machine) (aside : Relation.ReflTransGen (Machine.Aside g n) moved decision) :
      g.Passes nodes moved.1 moved.2 := by
    induction aside using Relation.ReflTransGen.head_induction_on with
    | refl => exact decided
    | head move _ ih => exact .move move.2 ih
  exact .move looks (later _ aside)

/-- A pulse that starts will be past the gates within its turn; if it starts live at an update node, this node
will be up to date by then. -/
theorem passes_start (catalogue : g.FromCatalogue) (root : NodeId) (token : TokenId)
    (numbers : ∀ n ∈ nodes, ¬ g.ReadsNaN n) (upToDate : ∀ n ∈ nodes, g.UpToDate n w) :
    g.Passes nodes (Machine.start g w root token).1 (Machine.start g w root token).2 ∧
      (root ∈ g.updateNodes → w.isCancelled token = false → ¬ g.ReadsNaN root →
        g.Passes (root :: nodes) (Machine.start g w root token).1 (Machine.start g w root token).2) := by
  have kept : ∀ n ∈ nodes, g.UpToDate n (Machine.start g w root token).1 := upToDate
  by_cases update : root ∈ g.updateNodes
  swap
  · refine ⟨.past (fun n elsewhere => ?_) kept, fun here => absurd here update⟩
    obtain ⟨program, callers⟩ := Machine.attends_start g n w root token
    refine ⟨program.resolve_right fun arrives => ?_, callers⟩
    obtain rfl : root = n := arrives.1
    exact update elsewhere
  obtain ⟨k, member, isUpdate⟩ := mem_updateNodes.mp update
  have gated : k.descriptor.hasReactiveInput = true := by
    simp only [Descriptor.isUpdate, Bool.and_eq_true] at isUpdate
    exact isUpdate.2
  have arrives : (Machine.start g w root token).2.Arrives g root := ⟨rfl, rfl⟩
  have start : (Machine.start g w root token).1.isCancelled (Machine.start g w root token).2.pulse.token =
    w.isCancelled token := rfl
  cases cancelled : w.isCancelled token with
  | true =>
      rw [cancelled] at start
      refine ⟨.move (arrives.of_cancelled member start) (.past (fun _ _ => ⟨trivial, trivial⟩) kept), ?_⟩
      exact fun _ live => absurd live Bool.false_ne_true.symm
  | false =>
      rw [cancelled] at start
      obtain ⟨readings, passed, w', p', observes, perceives⟩ := observes_of_fresh catalogue
        (s := ⟨root, 0⟩) member gated List.drop_zero (Machine.start g w root token).1
        (fresh_start w root token)
      have settles := arrives.settles member gated start observes
      have past := pastGates_decided (g := g) (Machine.start g w root token).2 rfl k p' passed
      have here (number : ¬ g.ReadsNaN root) : g.UpToDate root w' :=
        upToDate_of_observes member number rfl rfl observes perceives
      have there : ∀ n ∈ nodes, g.UpToDate n w' := by
        intro n node
        by_cases same : n = root
        · exact same ▸ here (same ▸ numbers n node)
        · exact (kept n node).of_same fun j => perceives.elsewhere ⟨n, j⟩ same
      refine ⟨.of_settles settles (.past past there), fun _ _ number => ?_⟩
      exact .of_settles settles (.past past (List.forall_mem_cons.mpr ⟨here number, there⟩))

/-! ## Stages at which update nodes are up to date -/

/-- A graph in use, shut down or not. Some nodes are up to date, or will be when the pulse that has the turn
is past the gates, as the others are. -/
structure Calm (g : Graph) (nodes : List NodeId) (down : Bool) (stage : Stage) : Prop where
  isShutDown : stage.world.isShutDown = down
  turn : ∀ m, stage.turn = some m → g.Proper m ∧ g.Passes nodes stage.world m
  upToDate : stage.turn = none → ∀ n ∈ nodes, g.UpToDate n stage.world
  waiting : ∀ m ∈ stage.waiting, g.Proper m ∧ g.PastGates m

variable {down : Bool}

/-- Update nodes that are up to date stay so whatever pulses do. -/
theorem calm_lasts (catalogue : g.FromCatalogue) (updates : ∀ n ∈ nodes, n ∈ g.updateNodes)
    (numbers : ∀ n ∈ nodes, ¬ g.ReadsNaN n) : g.Lasts (g.Calm nodes down) where
  fewer h among := ⟨h.isShutDown, h.turn, h.upToDate, fun m member => h.waiting m (among.subset member)⟩
  notes h notes := by
    refine ⟨notes.isShutDown.trans h.isShutDown, nofun, fun _ n node => ?_, h.waiting⟩
    exact (h.upToDate rfl n node).of_same fun j => by rw [notes.state.observed]
  starts h triggerable token := by
    refine ⟨h.isShutDown, ?_, nofun, h.waiting⟩
    rintro _ ⟨⟩
    exact ⟨proper_start catalogue triggerable _ token,
      (passes_start catalogue _ token numbers (h.upToDate rfl)).1⟩
  resumes h := by
    obtain ⟨⟨proper, past⟩, others⟩ := List.forall_mem_cons.mp h.waiting
    refine ⟨h.isShutDown, ?_, nofun, others⟩
    rintro _ ⟨⟩
    exact ⟨proper, .past past (h.upToDate rfl)⟩
  moves {w m waiting} h := by
    obtain ⟨proper, passes⟩ := h.turn m rfl
    have isShutDown := (proper.underWay.isShutDown_step w).trans h.isShutDown
    have stops := passes.stops
    cases progress : m.step g w with
    | running w' m' =>
        rw [progress] at isShutDown
        refine ⟨isShutDown, ?_, nofun, h.waiting⟩
        rintro _ ⟨⟩
        exact ⟨proper.next catalogue (by rw [progress]; rfl),
          passes.running catalogue.built proper updates progress⟩
    | sleeping w' milliseconds m' =>
        obtain ⟨past, upToDate⟩ := stops (by rw [progress]; rfl)
        obtain ⟨_, _, rfl, _⟩ := Machine.step_sleeping progress
        have waits : g.Proper m' ∧ g.PastGates m' :=
          ⟨proper.next catalogue (by rw [progress]; rfl),
            past.next catalogue.built proper (by rw [progress]; rfl)⟩
        exact ⟨h.isShutDown, nofun, fun _ => upToDate, List.forall_mem_cons.mpr ⟨waits, h.waiting⟩⟩
    | resting w' m' =>
        obtain ⟨past, upToDate⟩ := stops (by rw [progress]; rfl)
        obtain ⟨_, _, rfl, _⟩ := Machine.step_resting progress
        have waits : g.Proper m' ∧ g.PastGates m' :=
          ⟨proper.next catalogue (by rw [progress]; rfl),
            past.next catalogue.built proper (by rw [progress]; rfl)⟩
        exact ⟨h.isShutDown, nofun, fun _ => upToDate, List.forall_mem_cons.mpr ⟨waits, h.waiting⟩⟩
    | ended w' result =>
        obtain ⟨_, upToDate⟩ := stops (by rw [progress]; rfl)
        obtain rfl := Machine.step_ended progress
        exact ⟨h.isShutDown, nofun, fun _ => upToDate, h.waiting⟩

/-- Pulses that take turns are past the gates of all update nodes when they wait, whatever hosts do. -/
theorem past_of_reachable (catalogue : g.FromCatalogue) {w₀ : World} {stage : Stage}
    (reachable : Relation.ReflTransGen g.Turns { world := w₀ } stage) :
    stage.Holds (fun w m => g.Proper m ∧ g.Passes [] w m) (fun m => g.Proper m ∧ g.PastGates m) := by
  induction reachable with
  | refl => exact ⟨nofun, List.forall_mem_nil _⟩
  | tail _ turns ih =>
      refine ih.turns turns ?starts ?resumes ?moves ?sleeps ?rests
      case starts =>
        intro w root r token triggerable
        exact ⟨proper_start catalogue triggerable w token,
          (passes_start catalogue root token (List.forall_mem_nil _) (List.forall_mem_nil _)).1⟩
      case resumes => exact fun ⟨proper, past⟩ => ⟨proper, .past past (List.forall_mem_nil _)⟩
      case moves =>
        exact fun ⟨proper, passes⟩ moves =>
          ⟨proper.next catalogue (by rw [moves]; rfl),
            passes.running catalogue.built proper (List.forall_mem_nil _) moves⟩
      case sleeps =>
        intro w m w' milliseconds m' ⟨proper, passes⟩ sleeps
        have moves : (m.step g w).next? = some (w', m') := by rw [sleeps]; rfl
        have past := (passes.stops (by rw [sleeps]; rfl)).1
        exact ⟨proper.next catalogue moves, past.next catalogue.built proper moves⟩
      case rests =>
        intro w m w' m' ⟨proper, passes⟩ rests
        have moves : (m.step g w).next? = some (w', m') := by rw [rests]; rfl
        have past := (passes.stops (by rw [rests]; rfl)).1
        exact ⟨proper.next catalogue moves, past.next catalogue.built proper moves⟩

/-- Where nobody has the turn, all pulses are past the gates of all update nodes. -/
theorem calm_of_attainable (catalogue : g.FromCatalogue) {w₀ : World} {waiting : List Machine}
    (h : g.Attainable w₀ ⟨w, none, waiting⟩) : g.Calm [] w.isShutDown ⟨w, none, waiting⟩ := by
  obtain ⟨all, here, reachable⟩ := h
  have holds := past_of_reachable catalogue reachable
  exact ⟨rfl, nofun, nofun, fun m member => holds.waiting m (here.subset member)⟩

end Graph

end FlowGraph
