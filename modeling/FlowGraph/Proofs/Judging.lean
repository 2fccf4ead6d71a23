import FlowGraph.Proofs.Currency
import FlowGraph.Proofs.Gate

/-!
# What the gate lets through

At a node whose reactive inputs are read at once, every arrival of a live pulse reads all of them. It is let
through if it is the first one since the start or since the observations were last forgotten, or if an input
reads something else than at the arrival before. Otherwise it is counted, and that is all. The values of
catalogue nodes are always read at once.
-/

namespace FlowGraph

namespace Graph

/-- Whenever a live pulse arrives at a node, the reactive inputs of the node are read within the turn. -/
def ReadsAtOnce (g : Graph) (n : NodeId) (k : Member) (w₀ : World) : Prop :=
  ∀ stage m, Relation.ReflTransGen g.Turns { world := w₀ } stage → stage.turn = some m →
    m.Arrives g n → stage.world.isCancelled m.pulse.token = false →
    ∃ readings passed w' p, g.Observes m.scope 0 k.descriptor.inputs stage.world m.pulse readings passed w' p

/-- Where a graph is that has been watched: between arrivals of live pulses at a node, or within one. -/
inductive Accounted (g : Graph) (n : NodeId) (k : Member) (w₀ : World) : Stage → Prop where
  | between {last stage} (watched : g.Watched n k w₀ last stage) : Accounted g n k w₀ stage
  | within {last w m waiting readings passed w' p moved}
      (watched : g.Watched n k w₀ last ⟨w, some m, waiting⟩) (arrives : m.Arrives g n)
      (live : w.isCancelled m.pulse.token = false)
      (observes : g.Observes m.scope 0 k.descriptor.inputs w m.pulse readings passed w' p)
      (settles : Relation.TransGen (Machine.Aside g n) moved (w', m.decided g k p passed)) :
      Accounted g n k w₀ ⟨moved.1, some moved.2, waiting⟩

variable {g : Graph} {n : NodeId} {k : Member} {w₀ w w' : World} {m : Machine} {p p' : Pulse}
  {last : Option (List Reading)} {readings : List Reading} {passed : Bool} {stage stage' : Stage}

/-- Within a turn nothing but the next move can take place. -/
theorem Turns.of_running {waiting : List Machine} {m' : Machine} (moves : m.step g w = .running w' m')
    (turns : g.Turns ⟨w, some m, waiting⟩ stage') : stage' = ⟨w', some m', waiting⟩ := by
  cases turns with
  | move moves' =>
      cases moves.symm.trans moves'
      rfl
  | sleep progress | rest progress | finish progress => cases moves.symm.trans progress

/-- After a move within an arrival, the arrival is over or still goes on. -/
theorem accounted_of_settles {waiting : List Machine} {moved : World × Machine}
    (watched : g.Watched n k w₀ last ⟨w, some m, waiting⟩) (arrives : m.Arrives g n)
    (live : w.isCancelled m.pulse.token = false)
    (observes : g.Observes m.scope 0 k.descriptor.inputs w m.pulse readings passed w' p)
    (settles : Relation.ReflTransGen (Machine.Aside g n) moved (w', m.decided g k p passed)) :
    g.Accounted n k w₀ ⟨moved.1, some moved.2, waiting⟩ := by
  rcases Relation.reflTransGen_iff_eq_or_transGen.mp settles with decided | goesOn
  · cases decided
    exact .between (.arrives watched arrives live observes)
  · exact .within watched arrives live observes goesOn

/-- Whatever pulses and hosts do, it is accounted for. -/
theorem accounted_of_reachable (member : g.member? n = some k)
    (gated : k.descriptor.hasReactiveInput = true) (atOnce : g.ReadsAtOnce n k w₀)
    (reachable : Relation.ReflTransGen g.Turns { world := w₀ } stage) : g.Accounted n k w₀ stage := by
  induction reachable with
  | refl => exact .between .new
  | @tail stage stage' reachable turns ih =>
      cases ih with
      | @between last _ watched =>
          by_cases forgets : g.Forgets stage stage'
          · exact .between (.forgets watched forgets)
          -- An arrival of a live pulse is the one thing that takes more than a step to be over.
          by_cases arriving : ∃ m, stage.turn = some m ∧ m.Arrives g n ∧
              stage.world.isCancelled m.pulse.token = false
          · obtain ⟨m, turn, arrives, live⟩ := arriving
            obtain ⟨readings, passed, w', p, observes⟩ := atOnce stage m reachable turn arrives live
            obtain ⟨w, turn', waiting⟩ := stage
            cases turn
            obtain ⟨looked, looks, settles⟩ := arrives.settles member gated live observes
            rw [turns.of_running looks]
            exact accounted_of_settles watched arrives live observes settles
          · refine .between (.otherwise watched turns forgets fun m turn arrives => ?_)
            by_contra live
            exact arriving ⟨m, turn, arrives, by simpa using live⟩
      | @within last w m waiting readings passed w' p moved watched arrives live observes settles =>
          obtain ⟨next, moves, settles⟩ := Relation.TransGen.head'_iff.mp settles
          rw [turns.of_running moves.2]
          exact accounted_of_settles watched arrives live observes settles

/-- No arrival at the node takes place within another one. -/
theorem Accounted.watched_of_arrives (h : g.Accounted n k w₀ stage) (turn : stage.turn = some m)
    (arrives : m.Arrives g n) : ∃ last, g.Watched n k w₀ last stage := by
  cases h with
  | between watched => exact ⟨_, watched⟩
  | within _ _ _ _ settles =>
      obtain ⟨_, aside, _⟩ := Relation.TransGen.head'_iff.mp settles
      cases turn
      exact absurd arrives aside.1

/-- What the gate makes of an arrival that reads the reactive inputs, when the arrival before it has read
`last`, if there was one. -/
structure Decides (g : Graph) (n : NodeId) (k : Member) (last : Option (List Reading)) (w : World)
    (m : Machine) (readings : List Reading) (passed : Bool) (w' : World) (p : Pulse) : Prop where
  reads : readings.map (·.place) = k.descriptor.reactiveInputs
  settles : m.Settles g n w (w', m.decided g k p passed)
  passes : passed = true ↔ last = none ∨ ∃ previous, last = some previous ∧ Changed previous readings
  suppresses : passed = false →
    (m.decided g k p passed).step g w' =
      .running w' { m with pulse := { p with suppressed := p.suppressed + 1 }, program := .done () } ∧
    ∀ j, w'.observed.get? ⟨n, j⟩ = w.observed.get? ⟨n, j⟩

/-- What becomes of an arrival at a graph that is watched. -/
structure Judges (g : Graph) (n : NodeId) (k : Member) (w₀ : World) (stage : Stage) (m : Machine) :
    Prop where
  cancelled : stage.world.isCancelled m.pulse.token = true →
    m.step g stage.world = .running stage.world { m with program := .done () }
  watched : ∃ last, g.Watched n k w₀ last stage
  observes : stage.world.isCancelled m.pulse.token = false →
    ∃ readings passed w' p, g.Observes m.scope 0 k.descriptor.inputs stage.world m.pulse readings passed w' p
  decides : stage.world.isCancelled m.pulse.token = false → ∀ last, g.Watched n k w₀ last stage →
    ∀ readings passed w' p,
      g.Observes m.scope 0 k.descriptor.inputs stage.world m.pulse readings passed w' p →
      g.Decides n k last stage.world m readings passed w' p

/-- The gate decides by what it keeps as if it compared with the arrival before. -/
theorem Kept.passes_iff (kept : Kept n k last w) (gated : k.descriptor.hasReactiveInput = true)
    {s : Scope} (here : s.node = n)
    (observes : g.Observes s 0 k.descriptor.inputs w p readings passed w' p') :
    passed = true ↔ last = none ∨ ∃ previous, last = some previous ∧ Changed previous readings := by
  subst here
  rw [observes.changed_iff]
  cases last with
  | none =>
      obtain ⟨r, member⟩ : ∃ r, r ∈ readings := by
        apply List.exists_mem_of_ne_nil
        rintro rfl
        exact Input.reactivePlaces_ne_nil gated 0 observes.places.symm
      have new : r.isNew w s.node = true := isNew_of_unobserved (kept.unobserved rfl) r
      exact iff_of_true ⟨r, member, new⟩ (.inl rfl)
  | some previous =>
      have places := (kept.places previous rfl).trans observes.places.symm
      rw [exists_isNew_iff (kept.stands previous rfl) places]
      simp

/-- Of the arrivals of live pulses at a node whose reactive inputs are read at once, the gate lets through
exactly the first one since the start or since the observations were last forgotten, and each one that reads
something else at some reactive input than the one before it. An arrival of a cancelled pulse is over at
once. -/
theorem gate_compares_with_previous_arrival (member : g.member? n = some k)
    (gated : k.descriptor.hasReactiveInput = true) (unobserved : w₀.observed = ∅)
    (atOnce : g.ReadsAtOnce n k w₀) (reachable : Relation.ReflTransGen g.Turns { world := w₀ } stage)
    (turn : stage.turn = some m) (arrives : m.Arrives g n) : g.Judges n k w₀ stage m where
  cancelled := arrives.of_cancelled member
  watched := (accounted_of_reachable member gated atOnce reachable).watched_of_arrives turn arrives
  observes := atOnce stage m reachable turn arrives
  decides live last watched readings passed w' p observes := by
    have noted := watched.noted member gated unobserved
    constructor
    · exact observes.places
    · exact arrives.settles member gated live observes
    · exact noted.kept.passes_iff gated arrives.1 observes
    · rintro rfl
      exact ⟨Machine.suppressed_step .., arrives.1 ▸ observes.unchanged rfl⟩

/-! ## Values of catalogue nodes -/

/-- Resolving an output takes a request. -/
theorem resolve_ne_done (depth : Nat) (output : Port) {α : Type} (f : Value → Engine α) (a : α) :
    (Engine.resolve g depth output).andThen f ≠ .done a := by
  unfold Engine.resolve Engine.member
  simp only [Program.pure_eq, Program.bind_eq]
  split
  · rw [Program.done_andThen]
    split
    · nofun
    · split <;> nofun
  · nofun

/-- Observing a reactive input takes a request. -/
theorem observeFrom_ne_done {s : Scope} (member : g.member? s.node = some k) {index : Nat}
    {inputs : List Input} (declared : k.descriptor.inputs.drop index = inputs)
    (reactive : inputs.any (·.isReactive) = true) {α : Type} (f : Bool → Engine α) (a : α) :
    (Engine.observeFrom g s index inputs).andThen f ≠ .done a := by
  induction inputs generalizing index with
  | nil => cases reactive
  | cons i inputs ih =>
      rw [Engine.observeFrom]
      split
      next single =>
        have here : k.descriptor.inputs[index]? = some i := by
          rw [← Nat.add_zero index, ← List.getElem?_drop, declared]
          rfl
        obtain ⟨name, type, arity⟩ := i
        cases arity with
        | list => cases single
        | single resting required reactive =>
            simp only [Engine.inputValue, Engine.declaredInput, Engine.member, member, here, Program.pure_eq,
              Program.bind_eq, Program.done_andThen, Program.andThen_assoc]
            split
            · rw [Program.andThen_assoc]
              exact resolve_ne_done _ _ _ _
            · intro same
              cases same
      next unreactive =>
        rw [List.any_cons, Bool.or_eq_true] at reactive
        refine ih ?_ (reactive.resolve_left unreactive)
        rw [← List.tail_drop, declared, List.tail_cons]


/-- A move that does not depend on the world does not let flow into a node with reactive inputs: an arrival
would be over in a world where the pulse is cancelled, and goes on where it is not. -/
theorem not_arrives_of_goes (member : g.member? n = some k)
    (gated : k.descriptor.hasReactiveInput = true) {m' : Machine} (goes : Machine.Goes g m m') :
    ¬ m.Arrives g n := by
  intro arrives
  have cancelled : ({ isShutDown := true } : World).isCancelled m.pulse.token = true := by
    simp [World.isCancelled]
  have live : ({} : World).isCancelled m.pulse.token = false := by simp [World.isCancelled]
  have ends := (goes _).symm.trans (arrives.of_cancelled member cancelled)
  have goesOn := (goes {}).symm.trans (arrives.of_live member gated live)
  cases ends
  injection goesOn with _ goesOn
  injection goesOn with _ _ goesOn
  exact observeFrom_ne_done (arrives.1 ▸ member) (List.drop_zero ..) gated _ _ goesOn.symm

/-- Reading does not concern the world, and lets no flow into a node with reactive inputs. -/
theorem yields_of_returns (member : g.member? n = some k) (gated : k.descriptor.hasReactiveInput = true)
    {α : Type} {program : Engine α} {a : α} (returns : Engine.Returns g p program a p') (w : World) :
    Engine.Yields g n w p program a w p' := by
  intro s next callers
  exact (returns s next callers).lift (w, ·) fun m m' goes =>
    ⟨not_arrives_of_goes member gated goes, goes w⟩

/-- What reading the reactive inputs of a node at once comes to: each reads what it is worth, what is kept for
other nodes stays as it is, and nothing changes in the world if nothing has changed at the inputs. -/
structure Perceives (g : Graph) (n : NodeId) (w : World) (p : Pulse) (readings : List Reading)
    (changed : Bool) (w' : World) (p' : Pulse) : Prop where
  read : p.HasRead p'
  worth : ∀ r ∈ readings, ∃ i, g.Takes ⟨n, r.index⟩ i ∧ i.isReactive = true ∧ r.type = i.type ∧
    g.InputIs p.published.get? ⟨n, r.index⟩ i (some r.value)
  world : ∃ observed, w' = { w with observed }
  elsewhere : ∀ input : Port, input.node ≠ n → w'.observed.get? input = w.observed.get? input
  unchanged : changed = false → w' = w

/-- An input that has been compared comes before those that are perceived after it. -/
theorem Perceives.after {input : Port} {i : Input} {v : Value} {p₁ : Pulse} (read : p.HasRead p₁)
    (published : p₁.published = p.published) (takes : g.Takes input i) (reactive : i.isReactive = true)
    (worth : g.InputIs p.published.get? input i (some v))
    (h : g.Perceives input.node (w.observe input i.type v).1 p₁ readings passed w' p') :
    g.Perceives input.node w p (⟨input.index, i.type, v⟩ :: readings)
      ((w.observe input i.type v).2 || passed) w' p' where
  read := read.trans h.read
  worth := by
    refine List.forall_mem_cons.mpr ⟨⟨i, takes, reactive, rfl, worth⟩, ?_⟩
    rw [← published]
    exact h.worth
  world := by
    obtain ⟨observed, rfl⟩ := h.world
    rw [World.observe]
    split <;> exact ⟨observed, rfl⟩
  elsewhere other apart := by
    rw [h.elsewhere other apart, World.observed_observe_of_ne]
    rintro rfl
    exact apart rfl
  unchanged same := by
    obtain ⟨here, later⟩ := Bool.or_eq_false_iff.mp same
    rw [h.unchanged later, World.observed_observe_of_unchanged here]

/-- The reactive inputs of a node are read by a fresh pulse, whatever the world is. -/
theorem observes_of_fresh (catalogue : g.FromCatalogue) {s : Scope} (member : g.member? s.node = some k)
    (gated : k.descriptor.hasReactiveInput = true) {index : Nat} {inputs : List Input}
    (declared : k.descriptor.inputs.drop index = inputs) (w : World) (fresh : g.Fresh p) :
    ∃ readings passed w' p', g.Observes s index inputs w p readings passed w' p' ∧
      g.Perceives s.node w p readings passed w' p' := by
  induction inputs generalizing index w p with
  | nil =>
      refine ⟨[], false, w, p, .nil index w p, ⟨_, _, _, rfl⟩, List.forall_mem_nil _, ⟨_, rfl⟩, ?_, ?_⟩
      · exact fun _ _ => rfl
      · exact fun _ => rfl
  | cons i inputs ih =>
      have later : k.descriptor.inputs.drop (index + 1) = inputs := by
        rw [← List.tail_drop, declared, List.tail_cons]
      by_cases reactive : i.isReactive = true
      · have takes : g.Takes ⟨s.node, index⟩ i := by
          refine ⟨k, member, ?_⟩
          rw [← Nat.add_zero index, ← List.getElem?_drop, declared]
          rfl
        have keeps : (Engine.inputValue g s index).wp
            ((g.reading False fun _ => True).Spec s fun _ => True)
            (fun v p' => g.ReadFrom p p' ∧ g.InputIs p.published.get? ⟨s.node, index⟩ i v) p :=
          wp_inputValue catalogue fresh takes (fun _ _ => trivial) fun _ _ read worth => ⟨read, worth⟩
        obtain ⟨_, p₁, returns, read, from', worth⟩ := reading_returns catalogue carries_hasRead keeps
        obtain ⟨c, rfl⟩ := worth.exists_of (Input.isList_of_isReactive reactive)
        have reads := yields_of_returns member gated returns w
        obtain ⟨readings, passed, w', p', observes, perceives⟩ :=
          ih later (w.observe ⟨s.node, index⟩ i.type (.of i.type c)).1 from'.fresh
        exact ⟨_, _, w', p', .reactive reactive reads (fun _ => rfl) observes,
          perceives.after read from'.published takes reactive worth⟩
      · obtain ⟨readings, passed, w', p', observes, perceives⟩ := ih later w fresh
        exact ⟨readings, passed, w', p', .other (by simpa using reactive) observes, perceives⟩

/-- In a graph of catalogue nodes all reactive inputs are read at once. -/
theorem FromCatalogue.readsAtOnce (catalogue : g.FromCatalogue) (member : g.member? n = some k)
    (gated : k.descriptor.hasReactiveInput = true) (w₀ : World) : g.ReadsAtOnce n k w₀ := by
  intro stage m reachable turn arrives live
  have underWay := (underWay_of_reachable catalogue reachable).turn m turn
  obtain ⟨readings, passed, w', p', observes, _⟩ :=
    observes_of_fresh catalogue (arrives.1 ▸ member) gated rfl stage.world underWay.fresh
  exact ⟨readings, passed, w', p', observes⟩

/-- A constant is watched for changes. -/
def steady : Graph where
  name := "steady"
  config := {}
  members := [⟨"seven", (CatalogueNode.constant (.int 7)).node⟩,
    ⟨"changed", (CatalogueNode.onChanged .int).node⟩]
  valueEdges := [⟨⟨⟨0⟩, 0⟩, ⟨⟨1⟩, 0⟩⟩]
  flowEdges := []

theorem steady_fromCatalogue : steady.FromCatalogue where
  built := ⟨"steady", {}, [.add "seven" (CatalogueNode.constant (.int 7)).node,
    .add "changed" (CatalogueNode.onChanged .int).node,
    .connectValue ⟨"seven", "Value", "changed", "Value"⟩], by cbv⟩
  nodes m member := by
    simp only [steady, List.mem_cons, List.not_mem_nil, or_false] at member
    rcases member with rfl | rfl <;> exact ⟨_, rfl⟩

/-- When a second pulse arrives, there is something to compare with. -/
theorem gate_compares_with_previous_arrival_steady :
    ∃ k stage m, steady.member? ⟨1⟩ = some k ∧ k.descriptor.hasReactiveInput = true ∧
      steady.ReadsAtOnce ⟨1⟩ k {} ∧ Relation.ReflTransGen steady.Turns {} stage ∧ stage.turn = some m ∧
      m.Arrives steady ⟨1⟩ ∧ stage.world.isCancelled m.pulse.token = false ∧
      stage.world.observed.get? ⟨⟨1⟩, 0⟩ = some (.int 7) ∧ steady.Judges ⟨1⟩ k {} stage m := by
  have atOnce := steady_fromCatalogue.readsAtOnce (n := ⟨1⟩) rfl rfl {}
  have started : Relation.ReflTransGen steady.Turns {} _ := .single (.start ⟨1⟩ ⟨0⟩ rfl)
  have finished := started.trans (Stage.turns_advance 40 _)
  have again := finished.tail (.start ⟨1⟩ ⟨0⟩ rfl)
  exact ⟨_, _, _, rfl, rfl, atOnce, again, rfl, ⟨rfl, rfl⟩, by cbv, by cbv,
    gate_compares_with_previous_arrival rfl rfl rfl atOnce again rfl ⟨rfl, rfl⟩⟩

end Graph

end FlowGraph
