import Mathlib.Logic.Function.Basic
import FlowGraph.Proofs.Hosting
import FlowGraph.Proofs.Limits
import FlowGraph.Proofs.Territory

/-!
# Pulses that keep apart

Tasks share the graph and its world, and they move in any order. What a pulse has published and memoised is
its own, so all that one pulse can notice of another one is what that has observed and remembered, and this
belongs to the nodes that flow has reached. If no node can be reached by two of the pulses, each of them
finds what it would find if it were alone: it takes the same moves to the same end. Only the rests that full
turns ask for may fall elsewhere, which is why moves are counted up to such a rest.
-/

namespace FlowGraph

namespace Task

/-- The world in which a task moves: it begins its turn unless it is running. -/
def turn (w : World) (t : Task) : World :=
  if t.isRunning then w else w.beginTurn

/-- The event of a task's next move. -/
def event? (w : World) (t : Task) : Option Event :=
  t.phase.machine?.bind (·.event? (t.turn w))

variable {g : Graph} {w : World} {t : Task} {m : Machine}

theorem sameState_turn (w : World) (t : Task) : w.SameState (t.turn w) := by
  rw [turn]
  split <;> exact ⟨rfl, rfl, rfl⟩

theorem isCancelled_turn (w : World) (t : Task) (token : TokenId) :
    (t.turn w).isCancelled token = w.isCancelled token := by
  rw [turn]
  split <;> rfl

/-- A task whose pulse is under way moves by one move of its machine. -/
theorem move_of_machine? (under : t.phase.machine? = some m) :
    t.move g w = Phase.ofProgress (m.step g (t.turn w)) ∧ t.event? w = m.event? (t.turn w) := by
  obtain ⟨id, token, phase, isKept⟩ := t
  cases phase with
  | starting | ended => cases under
  | running | resting | sleeping =>
      cases under
      exact ⟨rfl, rfl⟩

end Task

section

variable {ι : Type} [DecidableEq ι]

/-- Tasks move in one world, in any order. In between the world may change in any way that no node finds
anything of and that cancels none of the tasks. Each move is entered in a log, with its event. -/
inductive Interleaving (g : Graph) (w₀ : World) (tasks₀ : ι → Task) :
    List (ι × Option Event) → World → (ι → Task) → Prop where
  | refl : Interleaving g w₀ tasks₀ [] w₀ tasks₀
  | passes {log w w' tasks} (before : Interleaving g w₀ tasks₀ log w tasks) (state : w.SameState w')
      (cancelled : ∀ i, w'.isCancelled (tasks i).token = w.isCancelled (tasks i).token) :
      Interleaving g w₀ tasks₀ log w' tasks
  | move {log w tasks} (before : Interleaving g w₀ tasks₀ log w tasks) (i : ι) :
      Interleaving g w₀ tasks₀ (log ++ [(i, (tasks i).event? w)]) ((tasks i).move g w).1
        (Function.update tasks i { tasks i with phase := ((tasks i).move g w).2 })

/-- How often a task has moved. -/
def movesOf (i : ι) (log : List (ι × Option Event)) : Nat :=
  (log.map Prod.fst).count i

/-- The events of a task's moves. -/
def eventsOf (i : ι) (log : List (ι × Option Event)) : List Event :=
  log.filterMap fun entry => if entry.1 = i then entry.2 else none

theorem movesOf_append (i j : ι) (log : List (ι × Option Event)) (event : Option Event) :
    movesOf i (log ++ [(j, event)]) = movesOf i log + if j = i then 1 else 0 := by
  simp [movesOf, List.count_append, List.count_singleton]

theorem eventsOf_append (i j : ι) (log : List (ι × Option Event)) (event : Option Event) :
    eventsOf i (log ++ [(j, event)]) = eventsOf i log ++ if j = i then event.toList else [] := by
  rw [eventsOf, List.filterMap_append]
  congr 1
  by_cases same : j = i
  · cases event <;> simp [same]
  · simp [same]

end

/-- A move leads on, after which a pulse that is alone resumes at once, or it is the last one. -/
theorem Progress.cases_next (progress : Progress) :
    (∃ m u, progress.next? = some (progress.world, m) ∧ progress.resumed? = some (u, m) ∧
      (Phase.ofProgress progress).2.machine? = some m ∧ progress.world.SameState u ∧
      ∀ t, u.isCancelled t = progress.world.isCancelled t) ∨
    ∃ w result, progress = .ended w result := by
  cases progress with
  | running w m | sleeping w milliseconds m | resting w m =>
      exact .inl ⟨m, _, rfl, rfl, rfl, ⟨rfl, rfl, rfl⟩, fun _ => rfl⟩
  | ended w result => exact .inr ⟨w, result, rfl⟩

theorem Phase.machine?_ofProgress (progress : Progress) :
    (Phase.ofProgress progress).2.machine? = progress.next?.map Prod.snd := by
  cases progress <;> rfl

namespace Graph

variable {g : Graph} {root : NodeId} {r : Member} {w w' : World} {m m' : Machine}

/-- The token of a pulse is the one that it has been started with. -/
theorem token_of_run (catalogue : g.FromCatalogue) (triggerable : g.root root = .ok r)
    {others : World → World → Prop} {w₀ : World} {token : TokenId} {events : List Event}
    (run : Machine.Run g others (Machine.start g w₀ root token).1 (Machine.start g w₀ root token).2
      events w m) : m.pulse.token = token := by
  induction run with
  | refl => rfl
  | others _ _ ih => exact ih
  | move before moves ih =>
      exact ((underWay_of_run catalogue triggerable before).token_step moves).trans ih

/-! ## A pulse alone -/

/-- A pulse that is alone, after some moves. -/
abbrev aloneFrom (g : Graph) (w : World) (root : NodeId) (token : TokenId) (moves : Nat) : Trace :=
  Machine.alone g (Machine.start g w root token).1 (Machine.start g w root token).2 moves

section

variable {w₀ : World} {token : TokenId}

theorem run_aloneFrom (g : Graph) (w₀ : World) (root : NodeId) (token : TokenId) (moves : Nat) :
    Machine.Run g (fun _ _ => True) (Machine.start g w₀ root token).1 (Machine.start g w₀ root token).2
      (g.aloneFrom w₀ root token moves).events (g.aloneFrom w₀ root token moves).world
      (g.aloneFrom w₀ root token moves).machine :=
  Machine.run_alone g (fun _ _ => trivial) _ _ moves

/-- A pulse that is alone is cancelled at any time only if it was from the beginning. -/
theorem isCancelled_aloneFrom (catalogue : g.FromCatalogue) (triggerable : g.root root = .ok r)
    (moves : Nat) : (g.aloneFrom w₀ root token moves).isCancelled = w₀.isCancelled token := by
  induction moves with
  | zero => rfl
  | succ moves ih =>
      have underWay := underWay_of_run catalogue triggerable (run_aloneFrom g w₀ root token moves)
      rcases Progress.cases_next ((g.aloneFrom w₀ root token moves).machine.step g
        (g.aloneFrom w₀ root token moves).world) with ⟨m', u, next, resumed, _, _, same⟩ | ⟨v, result, ends⟩
      · rw [aloneFrom, alone_succ moves resumed]
        calc u.isCancelled m'.pulse.token
            = (g.aloneFrom w₀ root token moves).isCancelled := by
              rw [same, underWay.token_step next, underWay.isCancelled_step, Trace.isCancelled]
          _ = w₀.isCancelled token := ih
      · rw [aloneFrom, Machine.alone, ends]
        exact ih

/-- A pulse that is alone and has come to its end makes no move any more. -/
theorem alone_of_ended {v : World} {n : Machine} {moves later : Nat} {result : Except PulseError Report}
    (ends : (Machine.alone g v n moves).machine.step g (Machine.alone g v n moves).world = .ended w result)
    (after : moves ≤ later) : Machine.alone g v n later = Machine.alone g v n moves := by
  induction later, after using Nat.le_induction with
  | base => rfl
  | succ later after ih => rw [Machine.alone, ih, ends, Progress.resumed?]

end

end Graph

namespace Machine

/-- The last move of a machine has no event. -/
theorem event?_of_ended {g : Graph} {w w' : World} {m : Machine} {result : Except PulseError Report}
    (ends : m.step g w = .ended w' result) : m.event? w = none := by
  rw [step] at ends
  split at ends <;> first | cases ends | simp only [event?, *]

/-- The last move of a machine reports on the pulse as it is. -/
theorem report_of_ended {g : Graph} {w w' : World} {m : Machine} {report : Report}
    (ends : m.step g w = .ended w' (.ok report)) : report = m.pulse.report w := by
  obtain ⟨p, s, program, callers⟩ := m
  cases program with
  | done =>
      rcases leave_cases w ⟨p, s, .done (), callers⟩ with ⟨_, _, eq⟩ | eq <;> cases eq.symm.trans ends
      rfl
  | ask r next =>
      cases r with
      | abort cause =>
          rcases unwind_cases w p.token (.aborted p.id cause) callers with ⟨_, _, eq⟩ | eq <;>
            cases eq.symm.trans ends
      | _ => cases ends

/-- A machine has to rest before it is at the same point as another one. -/
def Tarries (m n : Machine) : Prop :=
  ∃ k : Machine, k.Twin n ∧ m = { k with program := .ask .rest fun _ => k.program }

variable {m n : Machine} {R : World → World → Prop} {p q : Progress} {w v : World}

theorem Twin.withProgram (h : m.Twin n) (program : Engine Unit) :
    ({ m with program } : Machine).Twin { n with program } :=
  ⟨h.pulse, h.scope, rfl, h.callers⟩

/-- Two machines in lockstep go on together or end together. -/
theorem Lockstep.cases_next (h : Lockstep R p q) :
    (∃ m n, p.next? = some (p.world, m) ∧ q.next? = some (q.world, n) ∧ R p.world q.world ∧ m.Twin n) ∨
      ∃ w v result result', p = .ended w result ∧ q = .ended v result' ∧ R w v ∧
        SameOutcome result result' := by
  cases h with
  | running worlds twin | sleeping worlds _ twin | resting worlds twin =>
      exact .inl ⟨_, _, rfl, rfl, worlds, twin⟩
  | ended worlds same => exact .inr ⟨_, _, _, _, rfl, rfl, worlds, same⟩

end Machine

namespace Graph

variable {g : Graph}

/-- How far a pulse among others has come, measured by the moves of the same pulse alone. Every move leads
on, except that a rest may be due at each of them. -/
structure Pace (alone : Nat → Trace) (own : NodeId → Prop) (w : World) (m : Machine) (events : List Event)
    (moves k : Nat) : Prop where
  same : effects events = effects (alone k).events
  state : w.SameAt own (alone k).world
  point : m.Twin (alone k).machine ∧ moves ≤ 2 * k + 1 ∨ m.Tarries (alone k).machine ∧ moves ≤ 2 * k

variable {root : NodeId} {r : Member} {w₀ w v w' : World} {token : TokenId} {m : Machine}
  {events : List Event} {moves k last : Nat} {result : Except PulseError Report} {own : NodeId → Prop}
  {alone : Nat → Trace}

/-- Resting is all that a machine does that has to rest first. -/
theorem Pace.rest (h : Pace alone own w m events moves k) (tarries : m.Tarries (alone k).machine)
    (count : moves ≤ 2 * k) :
    ∃ m', (m.step g w).next? = some ((m.step g w).world, m') ∧
      Pace alone own (m.step g w).world m' (events ++ (m.event? w).toList) (moves + 1) k := by
  obtain ⟨n, twin, rfl⟩ := tarries
  refine ⟨n, rfl, ?_, h.state, .inl ⟨twin, Nat.succ_le_succ count⟩⟩
  rw [← h.same]
  exact congrArg effects (List.append_nil events)

/-- A pulse that has not come to its last move has more moves to make. -/
theorem lt_of_resumed (ends : (g.aloneFrom w₀ root token last).machine.step g
      (g.aloneFrom w₀ root token last).world = .ended w' result) (within : k ≤ last)
    {next : World × Machine} (resumed : ((g.aloneFrom w₀ root token k).machine.step g
      (g.aloneFrom w₀ root token k).world).resumed? = some next) : k + 1 ≤ last := by
  refine Nat.lt_of_le_of_ne within ?_
  rintro rfl
  rw [ends] at resumed
  cases resumed

section

variable (catalogue : g.FromCatalogue) (triggerable : g.root root = .ok r)
  (ends : (g.aloneFrom w₀ root token last).machine.step g (g.aloneFrom w₀ root token last).world =
    .ended w' result)
  (within : k ≤ last)
  (h : Pace (g.aloneFrom w₀ root token) (g.Reaches root) w m events moves k)
  (twin : m.Twin (g.aloneFrom w₀ root token k).machine) (count : moves ≤ 2 * k + 1)

include ends within h twin count

/-- Two machines at the same point have asked whether their turns are full. If only the one that is alone
has to rest it does so at once. -/
theorem Pace.turn {next : Bool → Engine Unit} (asks : m.program = .ask (.act .isTurnFull) next) :
    ∃ k' ≤ last, ∃ m', (m.step g w).next? = some ((m.step g w).world, m') ∧
      Pace (g.aloneFrom w₀ root token) (g.Reaches root) (m.step g w).world m'
        (events ++ (m.event? w).toList) (moves + 1) k' := by
  have asks' := twin.program ▸ asks
  have restsFirst : next true = .ask .rest fun _ => next false := by
    have patient := (patient_of_run (run_aloneFrom g w₀ root token k)).program
    rw [asks'] at patient
    exact patient.1
  have step : m.step g w = .running w { m with program := next w.isTurnFull } := by
    simp only [Machine.step, asks, Action.perform]
  have eventless : effects (m.event? w).toList = [] := by
    rw [Machine.event?, asks]
    rfl
  have moved : ((g.aloneFrom w₀ root token k).machine.step g (g.aloneFrom w₀ root token k).world).resumed? =
      some ((g.aloneFrom w₀ root token k).world, { (g.aloneFrom w₀ root token k).machine with
        program := next (g.aloneFrom w₀ root token k).world.isTurnFull }) := by
    rw [Machine.step, asks']
    rfl
  have first := alone_succ k moved
  have same : effects (events ++ (m.event? w).toList) =
      effects (g.aloneFrom w₀ root token (k + 1)).events := by
    rw [aloneFrom, first, effects_append, effects_append, h.same, eventless, Machine.event?, asks']
    rfl
  have below := lt_of_resumed ends within moved
  rw [step]
  cases full : w.isTurnFull <;> cases full' : (g.aloneFrom w₀ root token k).world.isTurnFull
  case false.false | true.true =>
    refine ⟨k + 1, below, _, rfl, same, ?_, .inl ⟨?_, by omega⟩⟩
    · rw [aloneFrom, first]
      exact h.state
    · rw [aloneFrom, first, full']
      exact twin.withProgram _
  case true.false =>
    refine ⟨k + 1, below, _, rfl, same, ?_, .inr ⟨?_, by omega⟩⟩
    · rw [aloneFrom, first]
      exact h.state
    · rw [aloneFrom, first, full', restsFirst]
      exact ⟨_, twin.withProgram (next false), rfl⟩
  case false.true =>
    have rested : ((g.aloneFrom w₀ root token (k + 1)).machine.step g
        (g.aloneFrom w₀ root token (k + 1)).world).resumed? =
        some ((g.aloneFrom w₀ root token k).world.beginTurn,
          { (g.aloneFrom w₀ root token k).machine with program := next false }) := by
      rw [aloneFrom, first, full', restsFirst]
      rfl
    have second := alone_succ (k + 1) rested
    refine ⟨k + 2, lt_of_resumed ends below rested, _, rfl, ?_, ?_, .inl ⟨?_, by omega⟩⟩
    · rw [aloneFrom, second, same, aloneFrom, first, full', restsFirst]
      exact (congrArg effects (List.append_nil _)).symm
    · rw [aloneFrom, second]
      exact ⟨h.state.observed, h.state.kept⟩
    · rw [aloneFrom, second]
      exact twin.withProgram _

include catalogue triggerable

/-- Two machines at the same point that do not ask about their turns make the same move, or have both come
to the end. -/
theorem Pace.go {others : World → World → Prop} {w₁ u : World}
    (run : Machine.Run g others (Machine.start g w₁ root token).1 (Machine.start g w₁ root token).2
      events u m)
    (uncancelled : w₀.isCancelled token = false) (live : w.isCancelled token = false)
    (turns : ∀ next, m.program ≠ .ask (.act .isTurnFull) next) :
    (∃ k' ≤ last, ∃ m', (m.step g w).next? = some ((m.step g w).world, m') ∧
      Pace (g.aloneFrom w₀ root token) (g.Reaches root) (m.step g w).world m'
        (events ++ (m.event? w).toList) (moves + 1) k') ∨
    ∃ result', m.step g w = .ended w result' ∧ SameOutcome result' result ∧
      effects events = effects (g.aloneFrom w₀ root token last).events ∧ w.SameAt (g.Reaches root) w' := by
  have underWay := underWay_of_run catalogue triggerable run
  have sameToken : m.pulse.token = token := token_of_run catalogue triggerable run
  have live' : (g.aloneFrom w₀ root token k).isCancelled = _ :=
    isCancelled_aloneFrom catalogue triggerable k
  have cancelled : w.isCancelled m.pulse.token = false := sameToken ▸ live
  have cancelled' := live'.trans uncancelled
  rw [Trace.isCancelled] at cancelled'
  obtain ⟨lockstep, event⟩ := twin.step (g := g) underWay.fits.single underWay.alone h.state
    (cancelled.trans cancelled'.symm) fun a next asks => by
      by_cases looks : a = .isCancelled
      · subst looks
        exact ⟨cancelled.trans cancelled'.symm, h.state⟩
      · have otherwise : a ≠ .isTurnFull := by
          rintro rfl
          exact turns next asks
        exact h.state.perform (concerns_of_run catalogue triggerable run asks)
          (underWay.fits.allowed asks).2 twin.pulse looks otherwise
  rcases lockstep.cases_next with
    ⟨m', n', next, next', worlds, twin'⟩ | ⟨_, v, result', result'', eq, eq', _, outcome⟩
  · refine .inl ?_
    rcases Progress.cases_next ((g.aloneFrom w₀ root token k).machine.step g
      (g.aloneFrom w₀ root token k).world) with ⟨n'', u', next'', resumed, _, state, _⟩ | ⟨v, _, ended⟩
    · obtain ⟨-, rfl⟩ := Prod.mk.inj (Option.some.inj (next'.symm.trans next''))
      refine ⟨k + 1, lt_of_resumed ends within resumed, m', next, ?_, ?_, ?_⟩
      · rw [aloneFrom, alone_succ k resumed, effects_append, effects_append, h.same, event]
      · rw [aloneFrom, alone_succ k resumed]
        exact worlds.trans (state.sameAt _)
      · rw [aloneFrom, alone_succ k resumed]
        exact .inl ⟨twin', by omega⟩
    · rw [ended] at next'
      cases next'
  · refine .inr ⟨result', ?_, ?_⟩
    · rw [eq, Machine.step_ended eq]
    · have stays := alone_of_ended eq' within
      rw [aloneFrom, stays, eq'] at ends
      cases ends
      refine ⟨outcome, ?_, ?_⟩
      · rw [aloneFrom, stays, h.same]
      · rw [Machine.step_ended eq']
        exact h.state

end

/-! ## Pulses among others -/

/-- A task from its start on: its pulse has not begun, is at some point of a run of its own, or has ended. -/
inductive Stands (g : Graph) (root : NodeId) (token : TokenId) : Phase → List Event → Prop where
  | starting : Stands g root token (.starting root) []
  | underWay {phase : Phase} {m : Machine} {w₁ u : World} {events : List Event}
      (under : phase.machine? = some m)
      (run : Machine.Run g (fun _ _ => True) (Machine.start g w₁ root token).1
        (Machine.start g w₁ root token).2 events u m) : Stands g root token phase events
  | ended (result : Except PulseError Report) (events : List Event) :
      Stands g root token (.ended result) events

/-- A move of a task stays within the nodes of its pulse: all others find what they found, nobody is
cancelled, and what it logs is in its event. -/
structure StaysWithin (g : Graph) (own : NodeId → Prop) (w w' : World) (event? : Option Event) : Prop where
  apart : ∀ others : NodeId → Prop, (∀ n, others n → ¬ own n) → w.SameAt others w'
  cancelled : ∀ t, w'.isCancelled t = w.isCancelled t
  sink : ∀ s, (w'.sink s).toList = (w.sink s).toList ++ logged s event?.toList

theorem StaysWithin.of_sameState {own : NodeId → Prop} {event? : Option Event} (state : w.SameState v)
    (cancelled : ∀ t, v.isCancelled t = w.isCancelled t) (silent : ∀ s, logged s event?.toList = []) :
    StaysWithin g own w v event? where
  apart others _ := state.sameAt others
  cancelled := cancelled
  sink s := by rw [silent, List.append_nil, World.sink, World.sink, state.sinks]

/-- A move of a task continues its run and stays within the nodes of its pulse. -/
theorem Stands.move (catalogue : g.FromCatalogue) (triggerable : g.root root = .ok r) {t : Task}
    (h : g.Stands root t.token t.phase events) (w : World) :
    g.Stands root t.token (t.move g w).2 (events ++ (t.event? w).toList) ∧
      StaysWithin g (g.Reaches root) w (t.move g w).1 (t.event? w) := by
  obtain ⟨id, token, phase, isKept⟩ := t
  cases h with
  | starting =>
      simp only [Task.move, triggerable, Task.event?, Phase.machine?, Option.bind_none, Option.toList_none,
        List.append_nil]
      refine ⟨.underWay rfl .refl, .of_sameState ?_ ?_ ?_⟩
      · exact ⟨rfl, rfl, rfl⟩
      · exact fun _ => rfl
      · exact fun _ => rfl
  | ended result events =>
      refine ⟨.ended result _, .of_sameState (.refl w) (fun _ => rfl) fun _ => rfl⟩
  | underWay under run =>
      have state := Task.sameState_turn w ⟨id, token, phase, isKept⟩
      have live := Task.isCancelled_turn w ⟨id, token, phase, isKept⟩
      obtain ⟨eq, event⟩ := Task.move_of_machine? (g := g) (w := w) (t := ⟨id, token, phase, isKept⟩) under
      generalize Task.turn w ⟨id, token, phase, isKept⟩ = turn at eq event state live
      have run : Machine.Run g _ _ _ _ turn _ := run.others trivial
      have underWay := underWay_of_run catalogue triggerable run
      rw [eq, event, Phase.world_ofProgress]
      constructor
      · rcases Progress.cases_next (Machine.step g turn _) with
          ⟨m', _, next, _, under', _⟩ | ⟨v, result, ends⟩
        · exact .underWay under' (run.move next)
        · rw [ends]
          exact .ended result _
      · rcases underWay.world_step turn with ⟨a, next, asks, world⟩ | ⟨world, silent⟩
        · have concerns := concerns_of_run catalogue triggerable run asks
          rw [world]
          constructor
          · intro others apart
            exact (state.sameAt others).trans
              (World.sameAt_perform (concerns.mono fun n here other => apart n other here) turn _)
          · intro t
            rw [← world, underWay.isCancelled_step, live]
          · intro s
            rw [a.sink_perform, Machine.event?, asks, World.sink, World.sink, state.sinks]
            rfl
        · rw [world]
          exact .of_sameState state live silent

/-- What has become of a pulse among others by some moment, compared with what becomes of it alone: it has
not begun, it has come as far as it alone has at some time, or it has ended in the same way. -/
inductive Follows (g : Graph) (root : NodeId) (token : TokenId) (w₀ : World) (last : Nat) (w' : World)
    (outcome : Except PulseError Report) (w : World) : Phase → List Event → Nat → Prop where
  | starting (state : w.SameAt (g.Reaches root) w₀) :
      Follows g root token w₀ last w' outcome w (.starting root) [] 0
  | underWay {phase : Phase} {m : Machine} {events : List Event} {moves k : Nat}
      (under : phase.machine? = some m) (within : k ≤ last)
      (pace : Pace (g.aloneFrom w₀ root token) (g.Reaches root) w m events moves k) :
      Follows g root token w₀ last w' outcome w phase events moves
  | ended {result : Except PulseError Report} {events : List Event} {moves : Nat}
      (same : SameOutcome result outcome)
      (effects : effects events = effects (g.aloneFrom w₀ root token last).events)
      (state : w.SameAt (g.Reaches root) w') :
      Follows g root token w₀ last w' outcome w (.ended result) events moves

/-- What happens at other nodes makes no difference. -/
theorem Follows.others {phase : Phase}
    (h : g.Follows root token w₀ last w' result w phase events moves) (state : v.SameAt (g.Reaches root) w) :
    g.Follows root token w₀ last w' result v phase events moves := by
  cases h with
  | starting state' => exact .starting (state.trans state')
  | underWay under within pace => exact .underWay under within ⟨pace.same, state.trans pace.state, pace.point⟩
  | ended same effects state' => exact .ended same effects (state.trans state')

/-- What a pulse among others has done so far is how it begins alone. -/
theorem Follows.begins {phase : Phase}
    (h : g.Follows root token w₀ last w' result w phase events moves) :
    effects events <+: effects (g.aloneFrom w₀ root token last).events := by
  cases h with
  | starting => exact List.nil_prefix
  | underWay under within pace =>
      rw [pace.same]
      exact (Machine.events_alone_prefix _ _ _ within).filter _
  | ended same effects state => rw [effects]

/-- A pulse that has made enough moves has ended. -/
theorem Follows.isEnded {t : Task} (h : g.Follows root token w₀ last w' result w t.phase events moves)
    (enough : 2 * last + 2 ≤ moves) : t.isEnded = true := by
  obtain ⟨id, token', phase, isKept⟩ := t
  cases h with
  | starting => omega
  | underWay under within pace => rcases pace.point with ⟨_, count⟩ | ⟨_, count⟩ <;> omega
  | ended => rfl

section

variable (catalogue : g.FromCatalogue) (triggerable : g.root root = .ok r)
  (ends : (g.aloneFrom w₀ root token last).machine.step g (g.aloneFrom w₀ root token last).world =
    .ended w' result)
  (uncancelled : w₀.isCancelled token = false) (live : w.isCancelled token = false)

include catalogue triggerable ends uncancelled live

/-- With each move of its machine a pulse among others goes on as it does alone. -/
theorem Pace.move {others : World → World → Prop} {w₁ u : World}
    (h : Pace (g.aloneFrom w₀ root token) (g.Reaches root) w m events moves k) (within : k ≤ last)
    (run : Machine.Run g others (Machine.start g w₁ root token).1 (Machine.start g w₁ root token).2
      events u m) :
    g.Follows root token w₀ last w' result (m.step g w).world (Phase.ofProgress (m.step g w)).2
      (events ++ (m.event? w).toList) (moves + 1) := by
  have goesOn {m' : Machine} {k' : Nat} (within : k' ≤ last)
      (next : (m.step g w).next? = some ((m.step g w).world, m'))
      (pace : Pace (g.aloneFrom w₀ root token) (g.Reaches root) (m.step g w).world m'
        (events ++ (m.event? w).toList) (moves + 1) k') :
      g.Follows root token w₀ last w' result (m.step g w).world (Phase.ofProgress (m.step g w)).2
        (events ++ (m.event? w).toList) (moves + 1) := by
    refine .underWay ?_ within pace
    rw [Phase.machine?_ofProgress, next]
    rfl
  rcases h.point with ⟨twin, count⟩ | ⟨tarries, count⟩
  · by_cases turns : ∃ next, m.program = .ask (.act .isTurnFull) next
    · obtain ⟨next, asks⟩ := turns
      obtain ⟨k', within', m', next, pace⟩ := h.turn ends within twin count asks
      exact goesOn within' next pace
    · rcases h.go catalogue triggerable ends within twin count run uncancelled live
        (fun next asks => turns ⟨next, asks⟩) with
        ⟨k', within', m', next, pace⟩ | ⟨result', eq, same, effects, state⟩
      · exact goesOn within' next pace
      · rw [eq, Machine.event?_of_ended eq]
        exact .ended same ((congrArg FlowGraph.effects (List.append_nil events)).trans effects) state
  · obtain ⟨m', next, pace⟩ := h.rest tarries count
    exact goesOn within next pace

/-- With each of its moves a pulse among others goes on as it does alone. -/
theorem Follows.move {t : Task} (sameToken : t.token = token) (stands : g.Stands root token t.phase events)
    (h : g.Follows root token w₀ last w' result w t.phase events moves) :
    g.Follows root token w₀ last w' result (t.move g w).1 (t.move g w).2 (events ++ (t.event? w).toList)
      (moves + 1) := by
  have atTurn := (Task.sameState_turn w t).symm.sameAt (g.Reaches root)
  have liveTurn := (Task.isCancelled_turn w t token).trans live
  obtain ⟨id, token', phase, isKept⟩ := t
  cases h with
  | starting state =>
      simp only [Task.move, triggerable, Task.event?, Phase.machine?, Option.bind_none, Option.toList_none,
        List.append_nil]
      refine .underWay rfl (Nat.zero_le last) ⟨rfl, ⟨state.observed, state.kept⟩, .inl ⟨?_, Nat.le_refl 1⟩⟩
      exact Machine.twin_start g _ _ root _ _
  | ended same effects state =>
      exact .ended same ((congrArg FlowGraph.effects (List.append_nil events)).trans effects) state
  | underWay under within pace =>
      obtain ⟨eq, event⟩ := Task.move_of_machine? (g := g) (w := w) (t := ⟨id, token', phase, isKept⟩) under
      rw [eq, event, Phase.world_ofProgress]
      cases stands with
      | starting => cases under
      | ended => cases under
      | underWay under' run =>
          cases under.symm.trans under'
          have pace : Pace _ _ _ _ _ _ _ := ⟨pace.same, atTurn.trans pace.state, pace.point⟩
          exact pace.move catalogue triggerable ends uncancelled liveTurn within run

end

/-! ## All of them together -/

/-- A pulse among others ends as it does alone: with the same report, with the same effects in the same
order, having logged the same, and with the same observations and stores of its nodes. -/
structure EndsAs (g : Graph) (root : NodeId) (alone : List Event) (report : Report) (w' : World)
    (own : List Event) (result : Except PulseError Report) (w : World) : Prop where
  report : ∃ report', result = .ok report' ∧ report'.Twin report
  effects : effects own = effects alone
  logged : ∀ s, logged s own = logged s alone
  state : w.SameAt (g.Reaches root) w'

/-- What can be said of a pulse among others, with the events that it has alone and the report and the world
in which it then ends: at any time it has done how it begins alone, and it ends as it does alone. -/
structure Undisturbed (g : Graph) (root : NodeId) (alone : List Event) (report : Report) (w' : World)
    (own : List Event) (t : Task) (w : World) : Prop where
  begins : effects own <+: effects alone
  ends : ∀ result, t.result? = some result → g.EndsAs root alone report w' own result w

theorem Follows.endsAs {t : Task} {report : Report}
    (h : g.Follows root token w₀ last w' (.ok report) w t.phase events moves)
    (ended : t.result? = some result) :
    g.EndsAs root (g.aloneFrom w₀ root token last).events report w' events result w := by
  obtain ⟨id, token', phase, isKept⟩ := t
  cases h with
  | starting => cases ended
  | underWay under =>
      cases phase with
      | ended => cases under
      | _ => cases ended
  | ended same effects state =>
      cases ended
      cases same with
      | ok twin =>
          refine ⟨⟨_, rfl, twin⟩, effects, fun s => ?_, state⟩
          rw [← logged_effects, effects, logged_effects]

section

variable {ι : Type} [DecidableEq ι] {roots : ι → NodeId} {tasks₀ tasks : ι → Task}
  {log : List (ι × Option Event)}

section

variable (catalogue : g.FromCatalogue) (triggerable : ∀ i, ∃ r, g.root (roots i) = .ok r)
  (starts : ∀ i, (tasks₀ i).phase = .starting (roots i))

include catalogue triggerable starts

/-- Each of the tasks is at some point of a run of its own. -/
theorem stands_of_interleaving (interleaving : Interleaving g w₀ tasks₀ log w tasks) (i : ι) :
    (tasks i).token = (tasks₀ i).token ∧
      g.Stands (roots i) (tasks i).token (tasks i).phase (eventsOf i log) := by
  induction interleaving generalizing i with
  | refl =>
      rw [starts]
      exact ⟨rfl, .starting⟩
  | passes _ _ _ ih => exact ih i
  | @move log w tasks _ j ih =>
      obtain ⟨token, stands⟩ := ih i
      obtain ⟨r, triggerable⟩ := triggerable i
      rw [eventsOf_append]
      by_cases same : j = i
      · subst same
        rw [Function.update_self, if_pos rfl]
        exact ⟨token, (stands.move catalogue triggerable w).1⟩
      · rw [Function.update_of_ne (Ne.symm same), if_neg same, List.append_nil]
        exact ⟨token, stands⟩

/-- Each move of a task stays within the nodes of its pulse. -/
theorem staysWithin_of_interleaving (interleaving : Interleaving g w₀ tasks₀ log w tasks) (i : ι) :
    StaysWithin g (g.Reaches (roots i)) w ((tasks i).move g w).1 ((tasks i).event? w) := by
  obtain ⟨r, triggerable'⟩ := triggerable i
  obtain ⟨_, stands⟩ := stands_of_interleaving catalogue triggerable starts interleaving i
  exact (stands.move catalogue triggerable' w).2

/-- The tasks cancel nobody. -/
theorem isCancelled_of_interleaving (interleaving : Interleaving g w₀ tasks₀ log w tasks) (i : ι) :
    w.isCancelled (tasks₀ i).token = w₀.isCancelled (tasks₀ i).token := by
  induction interleaving with
  | refl => rfl
  | passes before _ same ih =>
      rw [← ih, ← (stands_of_interleaving catalogue triggerable starts before i).1, same]
  | move before j ih =>
      rw [(staysWithin_of_interleaving catalogue triggerable starts before j).cancelled, ih]

/-- In each sink there is what all of the tasks have logged to it, in the order of their moves. -/
theorem sink_of_interleaving (interleaving : Interleaving g w₀ tasks₀ log w tasks) (s : SinkId) :
    (w.sink s).toList = (w₀.sink s).toList ++ logged s (log.filterMap Prod.snd) := by
  induction interleaving with
  | refl => exact (List.append_nil _).symm
  | passes _ state _ ih => rw [← ih, World.sink, World.sink, state.sinks]
  | @move log w tasks before j ih =>
      rw [(staysWithin_of_interleaving catalogue triggerable starts before j).sink, ih, List.filterMap_append,
        logged_append, List.append_assoc]
      cases (tasks j).event? w <;> rfl

/-- Each of the pulses goes on as it does alone. -/
theorem follows_of_interleaving
    (apart : ∀ i j, i ≠ j → ∀ n, g.Reaches (roots i) n → ¬ g.Reaches (roots j) n) {i : ι}
    (ends : (g.aloneFrom w₀ (roots i) (tasks₀ i).token last).machine.step g
      (g.aloneFrom w₀ (roots i) (tasks₀ i).token last).world = .ended w' result)
    (uncancelled : w₀.isCancelled (tasks₀ i).token = false)
    (interleaving : Interleaving g w₀ tasks₀ log w tasks) :
    g.Follows (roots i) (tasks₀ i).token w₀ last w' result w (tasks i).phase (eventsOf i log)
      (movesOf i log) := by
  induction interleaving with
  | refl =>
      rw [starts]
      exact .starting ((World.SameState.refl w₀).sameAt _)
  | passes _ state _ ih => exact ih.others (state.symm.sameAt _)
  | @move log w tasks before j ih =>
      obtain ⟨r, triggerable'⟩ := triggerable i
      obtain ⟨token, stands⟩ := stands_of_interleaving catalogue triggerable starts before i
      have live := (isCancelled_of_interleaving catalogue triggerable starts before i).trans uncancelled
      rw [eventsOf_append, movesOf_append]
      by_cases same : j = i
      · subst same
        rw [Function.update_self, if_pos rfl, if_pos rfl]
        exact ih.move catalogue triggerable' ends uncancelled live token (token ▸ stands)
      · rw [Function.update_of_ne (Ne.symm same), if_neg same, if_neg same, List.append_nil]
        have within := staysWithin_of_interleaving catalogue triggerable starts before j
        exact ih.others (within.apart _ (apart i j (Ne.symm same))).symm

end

/-- Pulses that do not reach a common node keep apart. In whatever order they move, each of them does what it
does alone and, when it has moved often enough, it ends with the same report, the times and the pulse's id
aside; its nodes have logged, observed and remembered the same. The sinks hold what all of them log. -/
theorem undisturbed_of_apart (catalogue : g.FromCatalogue)
    (triggerable : ∀ i, ∃ r, g.root (roots i) = .ok r)
    (starts : ∀ i, (tasks₀ i).phase = .starting (roots i))
    (apart : ∀ i j, i ≠ j → ∀ n, g.Reaches (roots i) n → ¬ g.Reaches (roots j) n) {i : ι} {report : Report}
    (alone : Machine.Concludes g (Machine.start g w₀ (roots i) (tasks₀ i).token).1
      (Machine.start g w₀ (roots i) (tasks₀ i).token).2 events w' (.ok report))
    (uncancelled : report.cancelled = false) :
    (∀ {log w tasks}, Interleaving g w₀ tasks₀ log w tasks →
      g.Undisturbed (roots i) events report w' (eventsOf i log) (tasks i) w) ∧
    (∃ enough, ∀ {log w tasks}, Interleaving g w₀ tasks₀ log w tasks → enough ≤ movesOf i log →
      (tasks i).isEnded = true) ∧
    ∀ {log w tasks}, Interleaving g w₀ tasks₀ log w tasks → ∀ s,
      (w.sink s).toList = (w₀.sink s).toList ++ logged s (log.filterMap Prod.snd) := by
  obtain ⟨last, rfl, ends⟩ := alone
  obtain ⟨r, triggerable'⟩ := triggerable i
  have live : w₀.isCancelled (tasks₀ i).token = false := by
    rw [← isCancelled_aloneFrom catalogue triggerable' last, Trace.isCancelled, ← uncancelled,
      Machine.report_of_ended ends, Pulse.report]
  have follows {log w tasks} (interleaving : Interleaving g w₀ tasks₀ log w tasks) :=
    follows_of_interleaving catalogue triggerable starts apart ends live interleaving
  refine ⟨fun interleaving => ?_, ⟨2 * last + 2, fun interleaving enough => ?_⟩, fun interleaving s => ?_⟩
  · constructor
    · exact (follows interleaving).begins
    · intro result ended
      exact (follows interleaving).endsAs ended
  · exact (follows interleaving).isEnded enough
  · exact sink_of_interleaving catalogue triggerable starts interleaving s

end

/-- Two pauses. A counter counts after the first, and a log reads the counter after the second. -/
def pauses : Graph where
  name := "pauses"
  config := {}
  members := [⟨"time", (CatalogueNode.constant (.int 5)).node⟩, ⟨"first", CatalogueNode.delay.node⟩,
    ⟨"counter", CatalogueNode.counter.node⟩, ⟨"second", CatalogueNode.delay.node⟩,
    ⟨"log", (CatalogueNode.log .int .own).node⟩]
  valueEdges := [⟨⟨⟨0⟩, 0⟩, ⟨⟨1⟩, 0⟩⟩, ⟨⟨⟨0⟩, 0⟩, ⟨⟨3⟩, 0⟩⟩, ⟨⟨⟨2⟩, 0⟩, ⟨⟨4⟩, 0⟩⟩]
  flowEdges := [⟨⟨⟨1⟩, 0⟩, ⟨2⟩⟩, ⟨⟨⟨3⟩, 0⟩, ⟨4⟩⟩]

theorem pauses_fromCatalogue : pauses.FromCatalogue where
  built := ⟨"pauses", {},
    [.add "time" (CatalogueNode.constant (.int 5)).node, .add "first" CatalogueNode.delay.node,
      .add "counter" CatalogueNode.counter.node, .add "second" CatalogueNode.delay.node,
      .add "log" (CatalogueNode.log .int .own).node,
      .connectValue ⟨"time", "Value", "first", "Milliseconds"⟩,
      .connectValue ⟨"time", "Value", "second", "Milliseconds"⟩,
      .connectValue ⟨"counter", "Count", "log", "Value"⟩, .connectFlow ⟨"first", "Next", "counter"⟩,
      .connectFlow ⟨"second", "Next", "log"⟩], by cbv⟩
  nodes m member := by
    simp only [pauses, List.mem_cons, List.not_mem_nil, or_false] at member
    rcases member with rfl | rfl | rfl | rfl | rfl <;> exact ⟨_, rfl⟩

/-- The pulse of the first pause, or that of the second one. -/
def pauseRoot (first : Bool) : NodeId :=
  if first then ⟨1⟩ else ⟨3⟩

def pauseTask (first : Bool) : Task where
  id := ⟨if first then 0 else 1⟩
  token := ⟨if first then 0 else 1⟩
  phase := .starting (pauseRoot first)

theorem leads_pauses {n k : NodeId} (leads : pauses.Leads n k) : n = ⟨1⟩ ∧ k = ⟨2⟩ ∨ n = ⟨3⟩ ∧ k = ⟨4⟩ := by
  obtain ⟨flow, target⟩ := leads
  obtain ⟨e, member, rfl⟩ := List.mem_map.mp target
  obtain ⟨edge, source⟩ := List.mem_filter.mp member
  have here := congrArg Port.node (of_decide_eq_true source)
  simp only [pauses, List.mem_cons, List.not_mem_nil, or_false] at edge
  rcases edge with rfl | rfl
  · exact .inl ⟨here.symm, rfl⟩
  · exact .inr ⟨here.symm, rfl⟩

/-- Neither pause leads to where the other one does. -/
theorem pauses_apart (i j : Bool) (different : i ≠ j) (n : NodeId)
    (reaches : pauses.Reaches (pauseRoot i) n) : ¬ pauses.Reaches (pauseRoot j) n := by
  have ofFirst (reaches : pauses.Reaches ⟨1⟩ n) : n = ⟨1⟩ ∨ n = ⟨2⟩ := by
    refine reaches.of_closed (fun n => n = ⟨1⟩ ∨ n = ⟨2⟩) (.inl rfl) fun here leads => ?_
    rcases leads_pauses leads with ⟨rfl, rfl⟩ | ⟨rfl, rfl⟩
    · exact .inr rfl
    · simp at here
  have ofSecond (reaches : pauses.Reaches ⟨3⟩ n) : n = ⟨3⟩ ∨ n = ⟨4⟩ := by
    refine reaches.of_closed (fun n => n = ⟨3⟩ ∨ n = ⟨4⟩) (.inl rfl) fun here leads => ?_
    rcases leads_pauses leads with ⟨rfl, rfl⟩ | ⟨rfl, rfl⟩
    · simp at here
    · exact .inr rfl
  intro reaches'
  cases i <;> cases j
  case false.false | true.true => exact different rfl
  case false.true => rcases ofSecond reaches with rfl | rfl <;> simpa using ofFirst reaches'
  case true.false => rcases ofFirst reaches with rfl | rfl <;> simpa using ofSecond reaches'

/-- The log that follows the second pause reads the counter, and it reads the same however often the counter
has counted in the pulse of the first pause. -/
theorem undisturbed_of_apart_pauses :
    ∃ events report w',
      Machine.Concludes pauses (Machine.start pauses {} ⟨3⟩ ⟨1⟩).1 (Machine.start pauses {} ⟨3⟩ ⟨1⟩).2
        events w' (.ok report) ∧
      report.cancelled = false ∧ logged (.own ⟨4⟩) events = [.int 0] ∧
      (∀ {log w tasks}, Interleaving pauses {} pauseTask log w tasks →
        pauses.Undisturbed ⟨3⟩ events report w' (eventsOf false log) (tasks false) w) ∧
      (∃ enough, ∀ {log w tasks}, Interleaving pauses {} pauseTask log w tasks →
        enough ≤ movesOf false log → (tasks false).isEnded = true) ∧
      ∀ {log w tasks}, Interleaving pauses {} pauseTask log w tasks → ∀ s,
        (w.sink s).toList = (World.sink {} s).toList ++ logged s (log.filterMap Prod.snd) := by
  have alone : Machine.Concludes pauses (Machine.start pauses {} ⟨3⟩ ⟨1⟩).1
      (Machine.start pauses {} ⟨3⟩ ⟨1⟩).2 _ _ (.ok _) := ⟨22, rfl, rfl⟩
  have triggerable (first : Bool) : ∃ r, pauses.root (pauseRoot first) = .ok r := by
    cases first <;> exact ⟨_, rfl⟩
  exact ⟨_, _, _, alone, rfl, by cbv,
    undisturbed_of_apart (i := false) pauses_fromCatalogue triggerable (fun _ => rfl) pauses_apart alone rfl⟩

end Graph

end FlowGraph
