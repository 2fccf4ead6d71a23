import FlowGraph.Proofs.Currency
import FlowGraph.Proofs.Heeding

/-!
# Cancelling cuts a pulse short

Two runs of a pulse are compared, one that may be cancelled at any moment and one that never is. Until
the first look finds the pulse cancelled they do the same: what they are replied with comes from values
and states on which they agree, and whatever else differs, such as the clock or the length of a turn,
only makes one of them rest before it goes on. After that look the first run has no effect any more. So
what it has done is where the second one has been.
-/

namespace FlowGraph

namespace World

/-- Nodes find the same in both worlds: what was observed, remembered and logged. -/
structure SameState (w v : World) : Prop where
  observed : w.observed = v.observed
  kept : w.kept = v.kept
  sinks : w.sinks = v.sinks

/-- A change of the world that leaves what nodes find there alone and takes no cancellation back. -/
structure Aside (w w' : World) : Prop where
  state : w.SameState w'
  cancelled : ∀ t, w.isCancelled t = true → w'.isCancelled t = true

variable {w v u : World}

theorem SameState.refl (w : World) : w.SameState w :=
  ⟨rfl, rfl, rfl⟩

theorem SameState.symm (h : w.SameState v) : v.SameState w :=
  ⟨h.observed.symm, h.kept.symm, h.sinks.symm⟩

theorem SameState.trans (h : w.SameState v) (h' : v.SameState u) : w.SameState u :=
  ⟨h.observed.trans h'.observed, h.kept.trans h'.kept, h.sinks.trans h'.sinks⟩

/-- Shutting down may happen at any time. -/
theorem aside_shutDown (w : World) : w.Aside w.shutDown :=
  ⟨⟨rfl, rfl, rfl⟩, fun _ cancelled => isCancelled_shutDown cancelled⟩

end World

/-- Two states of pulses agree on all values. -/
structure Pulse.SameValues (p q : Pulse) : Prop where
  published : p.published = q.published
  memo : p.memo = q.memo

/-- A permitted action leaves the tokens alone. -/
theorem Graph.tokens_perform_of_permits {g : Graph} {flow : Prop} {p q : Pulse} {a : Action}
    (permits : g.Permits flow p a) (w : World) : (a.perform w q).2.1.tokens = w.tokens := by
  cases a with
  | cancel | shutDown | reset => exact permits.elim
  | observe input type v =>
      simp only [Action.perform, World.observe]
      split <;> rfl
  | _ => rfl

/-- A permitted action does not shut down the graph. -/
theorem Graph.isShutDown_perform_of_permits {g : Graph} {flow : Prop} {p q : Pulse} {a : Action}
    (permits : g.Permits flow p a) (w : World) : (a.perform w q).2.1.isShutDown = w.isShutDown := by
  cases a with
  | cancel | shutDown | reset => exact permits.elim
  | observe input type v =>
      simp only [Action.perform, World.observe]
      split <;> rfl
  | _ => rfl

/-- A permitted action cancels nothing. -/
theorem Graph.isCancelled_perform_of_permits {g : Graph} {flow : Prop} {p q : Pulse} {a : Action}
    (permits : g.Permits flow p a) (w : World) (t : TokenId) :
    (a.perform w q).2.1.isCancelled t = w.isCancelled t := by
  rw [World.isCancelled, tokens_perform_of_permits permits, isShutDown_perform_of_permits permits]
  rfl

/-- What a permitted action leads to depends on values and state only, unless it asks about the
cancellation or the turn. -/
theorem Graph.perform_same_of_permits {g : Graph} {flow : Prop} {w v : World} {p q : Pulse} {a : Action}
    (permits : g.Permits flow p a) (state : w.SameState v) (values : p.SameValues q)
    (looks : a ≠ .isCancelled) (turns : a ≠ .isTurnFull) :
    (a.perform w p).1 = (a.perform v q).1 ∧ (a.perform w p).2.1.SameState (a.perform v q).2.1 ∧
      (a.perform w p).2.2.SameValues (a.perform v q).2.2 := by
  obtain ⟨observed, kept, sinks⟩ := state
  obtain ⟨published, memo⟩ := values
  cases a with
  | isCancelled => exact absurd rfl looks
  | isTurnFull => exact absurd rfl turns
  | published output =>
      exact ⟨congrArg (·.get? output) published, ⟨observed, kept, sinks⟩, published, memo⟩
  | memoized output => exact ⟨congrArg (·.get? output) memo, ⟨observed, kept, sinks⟩, published, memo⟩
  | endWait | countHit | countSuppression | begin =>
      exact ⟨rfl, ⟨observed, kept, sinks⟩, published, memo⟩
  | memoize output v =>
      exact ⟨rfl, ⟨observed, kept, sinks⟩, published, congrArg (·.insertNew output v) memo⟩
  | completeEvaluation resting =>
      have written : ∀ e ∈ resting, q.memo.contains e.1 = true := memo ▸ permits
      simp only [Action.perform, Pulse.completeEvaluation_of_written permits,
        Pulse.completeEvaluation_of_written written]
      exact ⟨trivial, ⟨observed, kept, sinks⟩, published, memo⟩
  | publish output v dependents =>
      exact ⟨rfl, ⟨observed, kept, sinks⟩, congrArg (·.insert output v) published,
        congrArg (·.filterKeys fun port => !dependents.contains port.node) memo⟩
  | observe input t v =>
      simp only [Action.perform, World.observe, observed]
      split
      · exact ⟨rfl, ⟨observed, kept, sinks⟩, published, memo⟩
      · exact ⟨rfl, ⟨rfl, kept, sinks⟩, published, memo⟩
  | remembered n t =>
      refine ⟨?_, ⟨observed, kept, sinks⟩, published, memo⟩
      simp only [Action.perform, World.store, kept]
  | remember n v =>
      refine ⟨rfl, ⟨observed, ?_, sinks⟩, published, memo⟩
      simp only [Action.perform, World.kept_remember, kept]
  | update n t f =>
      have read : (w.store n t).read = (v.store n t).read := by simp only [World.store, kept]
      refine ⟨?_, ⟨observed, ?_, sinks⟩, published, memo⟩
      · simp only [Action.perform, World.read_update, read]
      · simp only [Action.perform, World.kept_update, kept, read]
  | push sink v =>
      refine ⟨rfl, ⟨observed, kept, ?_⟩, published, memo⟩
      simp only [Action.perform, World.push, World.sink, sinks]
  | pulseId | cell | setCell | cancel | shutDown | reset => exact permits.elim

namespace Machine

/-- Two machines are at the same point, with the same values. -/
structure Alike (m n : Machine) : Prop where
  program : m.program = n.program
  scope : m.scope = n.scope
  callers : m.callers = n.callers
  values : m.pulse.SameValues n.pulse

/-- A machine that will be at the same point as another one when it has rested. -/
def RestsBefore (m n : Machine) : Prop :=
  ∃ k : Machine, k.Alike n ∧ m = { k with program := .ask .rest fun _ => k.program }

/-- All that is left for a machine to do goes on in the same way whether turns are full or not. -/
structure Patient (m : Machine) : Prop where
  program : Engine.Patient m.program
  callers : ∀ scope next, .node scope next ∈ m.callers → Engine.Patient (next ())

variable {g : Graph} {w w' v v' : World} {m m' n n' : Machine}

theorem Alike.symm (h : m.Alike n) : n.Alike m :=
  ⟨h.program.symm, h.scope.symm, h.callers.symm, ⟨h.values.published.symm, h.values.memo.symm⟩⟩

/-- Resting is all that a machine does that rests before another one. -/
theorem RestsBefore.step (h : m.RestsBefore n) :
    ∃ k : Machine, k.Alike n ∧ m.step g w = .resting w k ∧ m.event? w = none := by
  obtain ⟨k, alike, rfl⟩ := h
  exact ⟨k, alike, rfl, rfl⟩

/-- A patient machine that enters a node stays patient. -/
theorem Patient.enter (h : n.Patient) {next : Unit → Engine Unit} (rest : Engine.Patient (next ()))
    {s : Scope} {program : Engine Unit} (patient : Engine.Patient program) : (n.enter s program next).Patient where
  program := patient
  callers scope next' member := by
    rcases List.mem_cons.mp member with same | older
    · cases same
      exact rest
    · exact h.callers scope next' older

/-- Two machines that are alike enter the same node. -/
theorem Alike.enter (h : m.Alike n) (s : Scope) (program : Engine Unit) (next : Unit → Engine Unit) :
    (m.enter s program next).Alike (n.enter s program next) where
  program := rfl
  scope := rfl
  callers := by simp only [Machine.enter, h.scope, h.callers]
  values := h.values

/-- Two machines that are alike go on with the same program or, if they have asked whether their turns are
full and have had different replies, one of them rests first. -/
theorem Alike.afterTurn (h : m.Alike n) {next : Bool → Engine Unit}
    (restsFirst : next true = .ask .rest fun _ => next false) (full full' : Bool) :
    ({ m with program := next full } : Machine).Alike { n with program := next full' } ∨
      ({ m with program := next full } : Machine).RestsBefore { n with program := next full' } ∨
      ({ n with program := next full' } : Machine).RestsBefore { m with program := next full } := by
  have back := h.symm
  cases full <;> cases full'
  case false.false | true.true => exact .inl ⟨rfl, h.scope, h.callers, h.values⟩
  case true.false =>
    refine .inr (.inl ⟨{ m with program := next false }, ?_, by rw [restsFirst]⟩)
    exact ⟨rfl, h.scope, h.callers, h.values⟩
  case false.true =>
    refine .inr (.inr ⟨{ n with program := next false }, ?_, by rw [restsFirst]⟩)
    exact ⟨rfl, back.scope, back.callers, back.values⟩

/-- A machine that is not cancelled moves as another one has, whose move has had an event and has led
elsewhere: with the same effect and to the same point, except that one of them may have to rest first. -/
structure KeepsUp (g : Graph) (event : Option Event) (w' : World) (m' : Machine) (v : World)
    (n : Machine) (v' : World) (n' : Machine) : Prop where
  moves : (n.step g v).resumed? = some (v', n')
  effects : effects event.toList = effects (n.event? v).toList
  state : w'.SameState v'
  live : v'.isCancelled n'.pulse.token = false
  patient : n'.Patient
  together : m'.Alike n' ∨ m'.RestsBefore n' ∨ n'.RestsBefore m'

/-- Two machines that are alike go on with the same program after a wait. -/
theorem Alike.goesOn (alike : m.Alike n) (patient : n.Patient) {program : Engine Unit}
    (moves : (n.step g v).resumed? = some (v', { n with program })) (event : m.event? w = n.event? v)
    (passed : w.SameState v') (live' : v'.isCancelled n.pulse.token = false)
    (rest : Engine.Patient program) :
    KeepsUp g (m.event? w) w { m with program } v n v' { n with program } where
  moves := moves
  effects := by rw [event]
  state := passed
  live := live'
  patient := ⟨rest, patient.callers⟩
  together := .inl ⟨rfl, alike.scope, alike.callers, alike.values⟩

section

variable (alike : m.Alike n) (state : w.SameState v) (live : v.isCancelled n.pulse.token = false)
  (patient : n.Patient)

include alike state live patient

/-- Two machines that are alike carry out the same action with the same reply, unless it finds one of
them cancelled. -/
theorem Alike.act {a : Action} {next : a.Reply → Engine Unit}
    (asks : m.program = .ask (.act a) next) (permits : g.Permits True m.pulse a)
    (unseen : m.event? w ≠ some (.did .isCancelled true)) :
    ∃ v' n', KeepsUp g (m.event? w) (a.perform w m.pulse).2.1
      { m with
        pulse := (a.perform w m.pulse).2.2
        program := next (a.perform w m.pulse).1 } v n v' n' := by
  have asks' : n.program = .ask (.act a) next := alike.program ▸ asks
  have event : m.event? w = some (.did a (a.perform w m.pulse).1) := by simp only [event?, asks]
  have event' : n.event? v = some (.did a (a.perform v n.pulse).1) := by simp only [event?, asks']
  have patientNext : ∀ reply, Engine.Patient (next reply) := by
    have program := patient.program
    rw [asks'] at program
    exact program.2
  have live' : (a.perform v n.pulse).2.1.isCancelled (a.perform v n.pulse).2.2.token = false := by
    rw [a.token_perform, Graph.isCancelled_perform_of_permits permits]
    exact live
  have goesOn
      (effects : effects [.did a (a.perform w m.pulse).1] = effects [.did a (a.perform v n.pulse).1])
      (state : (a.perform w m.pulse).2.1.SameState (a.perform v n.pulse).2.1)
      (together : _) : ∃ v' n', KeepsUp g (m.event? w) (a.perform w m.pulse).2.1
        { m with
          pulse := (a.perform w m.pulse).2.2
          program := next (a.perform w m.pulse).1 } v n v' n' :=
    ⟨(a.perform v n.pulse).2.1,
      { n with pulse := (a.perform v n.pulse).2.2, program := next (a.perform v n.pulse).1 }, {
      moves := by simp only [step, asks', Progress.resumed?]
      effects := by rw [event, event']; exact effects
      state
      live := live'
      patient := ⟨patientNext _, patient.callers⟩
      together }⟩
  by_cases looks : a = .isCancelled
  · subst looks
    have uncancelled : w.isCancelled m.pulse.token = false := by
      cases found : w.isCancelled m.pulse.token with
      | false => rfl
      | true =>
          rw [event] at unseen
          simp only [Action.perform, found] at unseen
          exact absurd rfl unseen
    refine goesOn rfl state (.inl ⟨?_, alike.scope, alike.callers, alike.values⟩)
    simp only [Action.perform, uncancelled, live]
  · by_cases turns : a = .isTurnFull
    · subst turns
      have restsFirst : next true = .ask .rest fun _ => next false := by
        have program := patient.program
        rw [asks'] at program
        exact program.1
      exact goesOn rfl state (alike.afterTurn restsFirst w.isTurnFull v.isTurnFull)
    · obtain ⟨reply, state', values⟩ :=
        Graph.perform_same_of_permits permits state alike.values looks turns
      refine goesOn (by rw [reply]) state' (.inl ⟨?_, alike.scope, alike.callers, values⟩)
      simp only [reply]

/-- Two machines that are alike enter the same node. -/
theorem Alike.enters {s : Scope} {program : Engine Unit} {next : Unit → Engine Unit}
    (moves : n.step g v = .running v (n.enter s program next)) (event : m.event? w = n.event? v)
    (rest : Engine.Patient (next ())) (entered : Engine.Patient program) :
    KeepsUp g (m.event? w) w (m.enter s program next) v n v (n.enter s program next) where
  moves := by rw [moves, Progress.resumed?]
  effects := by rw [event]
  state := state
  live := live
  patient := patient.enter rest entered
  together := .inl (alike.enter s program next)

/-- Two machines that are alike go back to the same caller. -/
theorem Alike.leaves (single : m.IsSingle) (finished : m.program = .done ())
    (moves : (m.leave w).next? = some (w', m')) :
    ∃ v' n', KeepsUp g (m.event? w) w' m' v n v' n' := by
  have finished' : n.program = .done () := alike.program ▸ finished
  rw [Machine.leave] at moves
  split at moves
  next => cases moves
  next scope next callers eq =>
    have eq' : n.callers = .node scope next :: callers := alike.callers ▸ eq
    cases moves
    exact ⟨v, { n with scope, program := next (), callers }, {
      moves := by simp only [step, finished', leave, eq', Progress.resumed?]
      effects := by simp only [event?, finished, finished']
      state, live
      patient := ⟨patient.callers scope next (eq' ▸ List.mem_cons_self ..),
        fun s k older => patient.callers s k (eq' ▸ List.mem_cons_of_mem _ older)⟩
      together := .inl ⟨rfl, rfl, rfl, alike.values⟩ }⟩
  next outer scope next callers eq =>
    obtain ⟨_, _, node⟩ := single (.pulse outer scope next) (eq ▸ List.mem_cons_self ..)
    cases node

/-- A move of a machine that has not been seen to be cancelled is one of any machine that is alike. -/
theorem Alike.step (single : m.IsSingle)
    (allowed : ∀ r next, m.program = .ask r next → g.conduct.pre m.scope.node r m.pulse)
    (moves : (m.step g w).next? = some (w', m'))
    (unseen : m.event? w ≠ some (.did .isCancelled true)) :
    ∃ v' n', KeepsUp g (m.event? w) w' m' v n v' n' := by
  have program := patient.program
  rw [← alike.program] at program
  rw [Machine.step] at moves
  split at moves
  next finished => exact alike.leaves state live patient single finished moves
  next action next asks =>
    cases moves
    exact alike.act state live patient asks (allowed _ _ asks).2 unseen
  next k depth next asks =>
    have asks' : n.program = .ask (.evaluate k depth) next := alike.program ▸ asks
    rw [asks] at program
    cases moves
    exact ⟨v, _, alike.enters state live patient (by simp only [step, asks'])
      (by simp only [event?, asks, asks']) (program.2 ()) Engine.patient_evaluation⟩
  next k depth next asks =>
    have asks' : n.program = .ask (.activate k depth) next := alike.program ▸ asks
    rw [asks] at program
    cases moves
    exact ⟨v, _, alike.enters state live patient (by simp only [step, asks'])
      (by simp only [event?, asks, asks']) (program.2 ()) Engine.patient_activation⟩
  next milliseconds next asks =>
    have asks' : n.program = .ask (.sleep milliseconds) next := alike.program ▸ asks
    rw [asks] at program
    cases moves
    exact ⟨{ v with now := v.now + milliseconds }.beginTurn, _, alike.goesOn patient
      (by simp only [step, asks', Progress.resumed?]) (by simp only [event?, asks, asks'])
      ⟨state.observed, state.kept, state.sinks⟩ live (program.2 ())⟩
  next next asks =>
    have asks' : n.program = .ask .rest next := alike.program ▸ asks
    rw [asks] at program
    cases moves
    exact ⟨v.beginTurn, _, alike.goesOn patient
      (by simp only [step, asks', Progress.resumed?]) (by simp only [event?, asks, asks'])
      ⟨state.observed, state.kept, state.sinks⟩ live (program.2 ())⟩
  next next asks =>
    have asks' : n.program = .ask .restart next := alike.program ▸ asks
    cases moves
    exact ⟨v, _, alike.goesOn patient
      (by simp only [step, asks', Progress.resumed?, alike.scope]) (by simp only [event?, asks, asks'])
      state live Engine.patient_process⟩
  next cause next asks =>
    rw [unwind_eq_ended single] at moves
    cases moves
  next root next asks => exact absurd (allowed _ _ asks).2 id

end

end Machine

namespace Graph

variable {g : Graph} {w w' v : World} {m m' : Machine} {events : List Event}

/-- A run of a pulse can go on as a reference does, which may have rested already. -/
structure Together (w : World) (m : Machine) (t : Trace) : Prop where
  state : w.SameState t.world
  patient : t.machine.Patient
  point : m.Alike t.machine ∨ m.RestsBefore t.machine

/-- A run of a pulse has come as far as a reference that is not cancelled: it has had the same effects,
and it can go on in the same way as long as no look has found it cancelled. -/
structure Tracks (events : List Event) (w : World) (m : Machine) (t : Trace) : Prop where
  same : effects events = effects t.events
  live : t.world.isCancelled t.machine.pulse.token = false
  together : .did .isCancelled true ∉ events → Together w m t

/-- What machines that are alone do next. -/
theorem alone_succ {v : World} {n : Machine} (moves : Nat)
    (goesOn : ((Machine.alone g v n moves).machine.step g (Machine.alone g v n moves).world).resumed? =
      some (w', m')) :
    Machine.alone g v n (moves + 1) =
      ⟨(Machine.alone g v n moves).events ++
          ((Machine.alone g v n moves).machine.event? (Machine.alone g v n moves).world).toList,
        w', m'⟩ := by
  simp only [Machine.alone, goesOn]

theorem effects_append (events later : List Event) :
    effects (events ++ later) = effects events ++ effects later :=
  List.filter_append ..

/-- A reference keeps up with a move of the run, with the help of a rest if need be. -/
theorem Tracks.move {v₀ : World} {n₀ : Machine} {moves : Nat}
    (h : Tracks events w m (Machine.alone g v₀ n₀ moves)) (single : m.IsSingle)
    (allowed : ∀ r next, m.program = .ask r next → g.conduct.pre m.scope.node r m.pulse)
    (goesOn : (m.step g w).next? = some (w', m'))
    (heeded : .did .isCancelled true ∈ events → effects (m.event? w).toList = []) :
    ∃ moves, Tracks (events ++ (m.event? w).toList) w' m' (Machine.alone g v₀ n₀ moves) := by
  -- Once a look has told, there is nothing left to keep up with.
  have stays (quiet : effects (m.event? w).toList = [])
      (seen : .did .isCancelled true ∈ events ++ (m.event? w).toList) :
      Tracks (events ++ (m.event? w).toList) w' m' (Machine.alone g v₀ n₀ moves) :=
    ⟨by rw [effects_append, quiet, List.append_nil, h.same], h.live, fun unseen => absurd seen unseen⟩
  by_cases seen : .did .isCancelled true ∈ events
  · exact ⟨moves, stays (heeded seen) (List.mem_append_left _ seen)⟩
  · obtain ⟨state, patient, alike | rests⟩ := h.together seen
    · by_cases looks : m.event? w = some (.did .isCancelled true)
      · exact ⟨moves, stays (by rw [looks]; rfl) (by simp [looks])⟩
      · obtain ⟨v', n', keepsUp⟩ := alike.step state h.live patient single allowed goesOn looks
        have next := alone_succ moves keepsUp.moves
        have same : effects (events ++ (m.event? w).toList) =
            effects (Machine.alone g v₀ n₀ (moves + 1)).events := by
          rw [next, effects_append, effects_append, h.same, keepsUp.effects]
        have reached (point : m'.Alike n' ∨ m'.RestsBefore n') :
            Tracks (events ++ (m.event? w).toList) w' m' (Machine.alone g v₀ n₀ (moves + 1)) := by
          refine ⟨same, ?_, fun _ => ?_⟩ <;> rw [next]
          · exact keepsUp.live
          · exact ⟨keepsUp.state, keepsUp.patient, point⟩
        rcases keepsUp.together with alike' | rests' | rests'
        · exact ⟨moves + 1, reached (.inl alike')⟩
        · exact ⟨moves + 1, reached (.inr rests')⟩
        · -- The reference's turn is full and the run's is not: the reference rests at once.
          obtain ⟨k, alike', rfl⟩ := rests'
          have rests : ((Machine.alone g v₀ n₀ (moves + 1)).machine.step g
              (Machine.alone g v₀ n₀ (moves + 1)).world).resumed? = some (v'.beginTurn, k) := by
            rw [next]
            rfl
          have rested := alone_succ (moves + 1) rests
          refine ⟨moves + 2, ?_, ?_, fun _ => ?_⟩
          · rw [rested, same, next]
            exact (congrArg effects (List.append_nil _)).symm
          · rw [rested]
            exact keepsUp.live
          · rw [rested]
            have state' := keepsUp.state
            exact ⟨⟨state'.observed, state'.kept, state'.sinks⟩,
              ⟨keepsUp.patient.program.2 (), keepsUp.patient.callers⟩, .inl alike'.symm⟩
    · obtain ⟨k, alike, resting, eventless⟩ := rests.step (g := g) (w := w)
      rw [resting] at goesOn
      cases goesOn
      rw [eventless]
      exact ⟨moves, by simpa using h.same, h.live, fun _ => ⟨state, patient, .inl alike⟩⟩

/-- A pulse and a reference that find the same state start in the same way. -/
theorem together_start {w₀ v₀ : World} (state : w₀.SameState v₀) (root : NodeId)
    (token token' : TokenId) :
    Together (Machine.start g w₀ root token).1 (Machine.start g w₀ root token).2
      ⟨[], (Machine.start g v₀ root token').1, (Machine.start g v₀ root token').2⟩ where
  state := ⟨state.observed, state.kept, state.sinks⟩
  patient := ⟨Engine.patient_activation, fun _ _ member => absurd member List.not_mem_nil⟩
  point := .inl ⟨rfl, rfl, rfl, rfl, rfl⟩

/-- In every run of a pulse, no look that has found the pulse cancelled is followed by an effect. -/
theorem heeded_of_run (catalogue : g.FromCatalogue) {root : NodeId} {w₀ : World} {token : TokenId}
    {others : World → World → Prop}
    (cancelled : ∀ {w w' t}, others w w' → w.isCancelled t = true → w'.isCancelled t = true)
    (run : Machine.Run g others (Machine.start g w₀ root token).1 (Machine.start g w₀ root token).2
      events w m) :
    events.Pairwise fun earlier later => earlier = .did .isCancelled true → later.isEffect = false := by
  have verified := Heeding.verified_heeding catalogue
  have fits : g.heeding.Fits (Machine.start g w₀ root token).2 false :=
    Contract.fits_start verified root rfl
  have start : Heeded [] (Machine.start g w₀ root token).1
      (Machine.start g w₀ root token).2.pulse false :=
    ⟨nofun, fun _ => List.not_mem_nil, .nil⟩
  obtain ⟨_, _, heeded⟩ := fits.run verified follows_heeding
    (fun change h => ⟨fun seen => cancelled change (h.cancelled seen), h.unseen, h.heeded⟩) start run
  exact heeded.heeded

/-- What comes after a look that has found the pulse cancelled has no effect. -/
theorem effects_of_heeded {before after : List Event}
    (heeded : (before ++ .did .isCancelled true :: after).Pairwise fun earlier later =>
      earlier = .did .isCancelled true → later.isEffect = false) : effects after = [] := by
  obtain ⟨_, looked, _⟩ := List.pairwise_append.mp heeded
  have quiet := (List.pairwise_cons.mp looked).1
  exact List.filter_eq_nil_iff.mpr fun e later => by simp [quiet e later rfl]

/-- A reference keeps up with every run of a pulse. -/
theorem tracks_of_run (catalogue : g.FromCatalogue) {root : NodeId} {r : Member}
    (triggerable : g.root root = .ok r) {w₀ v₀ : World} {token token' : TokenId}
    (state : w₀.SameState v₀) (uncancelled : v₀.isCancelled token' = false)
    (run : Machine.Run g World.Aside (Machine.start g w₀ root token).1
      (Machine.start g w₀ root token).2 events w m) :
    ∃ moves, Tracks events w m (Machine.alone g (Machine.start g v₀ root token').1
      (Machine.start g v₀ root token').2 moves) := by
  induction run with
  | refl => exact ⟨0, rfl, uncancelled, fun _ => together_start state root token token'⟩
  | others _ change ih =>
      obtain ⟨moves, tracks⟩ := ih
      refine ⟨moves, tracks.same, tracks.live, fun unseen => ?_⟩
      have together := tracks.together unseen
      exact ⟨change.state.symm.trans together.state, together.patient, together.point⟩
  | move before goesOn ih =>
      obtain ⟨moves, tracks⟩ := ih
      have fits := fits_conduct catalogue triggerable w₀ token
      obtain ⟨_, fits, rfl, _⟩ := fits.run (verified_conduct catalogue) (follows_conduct catalogue)
        (fun _ seen => seen) ⟨rfl, fresh_start w₀ root token⟩ before
      have heeded := heeded_of_run catalogue (fun change => change.cancelled _) (before.move goesOn)
      apply tracks.move fits.single (fun _ _ asks => fits.allowed asks) goesOn
      intro seen
      obtain ⟨earlier, later, rfl⟩ := List.append_of_mem seen
      rw [List.append_assoc, List.cons_append] at heeded
      exact (List.append_eq_nil_iff.mp (effects_append .. ▸ effects_of_heeded heeded)).2

/-- The effects of a pulse that is cancelled at any moment, or never, are where the effects of the same
pulse begin if it is alone and never cancelled; and once a look has found the pulse cancelled there are
no further ones, so that no node is activated any more. -/
theorem cancellation_truncates (catalogue : g.FromCatalogue) {root : NodeId} {r : Member}
    (triggerable : g.root root = .ok r) {w₀ v₀ : World} {token token' : TokenId}
    (state : w₀.SameState v₀) (uncancelled : v₀.isCancelled token' = false)
    (run : Machine.Run g World.Aside (Machine.start g w₀ root token).1
      (Machine.start g w₀ root token).2 events w m) :
    (∃ moves, (Machine.alone g (Machine.start g v₀ root token').1
          (Machine.start g v₀ root token').2 moves).isCancelled = false ∧
        effects events <+: effects (Machine.alone g (Machine.start g v₀ root token').1
          (Machine.start g v₀ root token').2 moves).events) ∧
      ∀ before after, events = before ++ .did .isCancelled true :: after → effects after = [] := by
  constructor
  · obtain ⟨moves, tracks⟩ := tracks_of_run catalogue triggerable state uncancelled run
    exact ⟨moves, tracks.live, by rw [tracks.same]⟩
  · rintro before after rfl
    exact effects_of_heeded (heeded_of_run catalogue (fun change => change.cancelled _) run)

/-- The graph of the two rounds is shut down when the first round has logged its number; the second round
comes to its first look and no further. -/
theorem cancellation_truncates_second_round :
    ∃ r events w m, rounds.root ⟨0⟩ = .ok r ∧
      Machine.Run rounds World.Aside (Machine.start rounds {} ⟨0⟩ ⟨0⟩).1
        (Machine.start rounds {} ⟨0⟩ ⟨0⟩).2 events w m ∧
      w.isCancelled m.pulse.token = true ∧ (effects events).length = 5 ∧
      (∃ moves, (Machine.alone rounds (Machine.start rounds {} ⟨0⟩ ⟨0⟩).1
            (Machine.start rounds {} ⟨0⟩ ⟨0⟩).2 moves).isCancelled = false ∧
          effects events <+: effects (Machine.alone rounds (Machine.start rounds {} ⟨0⟩ ⟨0⟩).1
            (Machine.start rounds {} ⟨0⟩ ⟨0⟩).2 moves).events) ∧
        ∀ before after, events = before ++ .did .isCancelled true :: after → effects after = [] := by
  have triggerable : rounds.root ⟨0⟩ = .ok ⟨"loop", CatalogueNode.forLoop.node⟩ := rfl
  have waits (w : World) (milliseconds : Nat) :
      w.Aside { w with now := w.now + milliseconds }.beginTurn :=
    ⟨⟨rfl, rfl, rfl⟩, fun _ cancelled => cancelled⟩
  have first : Machine.Run rounds World.Aside _ _ _ _ _ :=
    Machine.run_alone rounds waits (Machine.start rounds {} ⟨0⟩ ⟨0⟩).1
      (Machine.start rounds {} ⟨0⟩ ⟨0⟩).2 30
  have run := (first.others (World.aside_shutDown _)).trans (Machine.run_alone rounds waits _ _ 40)
  exact ⟨_, _, _, _, triggerable, run, by cbv, by cbv,
    cancellation_truncates rounds_fromCatalogue triggerable (World.SameState.refl {}) rfl run⟩

end Graph

end FlowGraph
