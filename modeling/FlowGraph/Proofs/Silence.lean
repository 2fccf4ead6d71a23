import FlowGraph.Proofs.Arrivals
import FlowGraph.Proofs.Completing

/-!
# Pulses that are cancelled stay silent

Hosts act while no pulse has the turn, so a pulse is cancelled while it waits or before it starts, and the
first thing that it does with its next turn is to look. From then on it finds its way out: it activates
nothing, logs, remembers and observes nothing, and reports that it was cancelled. Nothing that hosts are
offered to do takes a cancellation back, and shutting down cancels every attached token, those to come
included.
-/

namespace FlowGraph

namespace World

/-- A token that shutting down cancels. -/
def Attached (w : World) (t : TokenId) : Prop :=
  ∃ token, w.tokens[t.index]? = some token ∧ token.isDetached = false

/-- A token that shutting down does not cancel. -/
def Detached (w : World) (t : TokenId) : Prop :=
  ∃ token, w.tokens[t.index]? = some token ∧ token.isDetached = true

/-- A world may come before another one: tokens are there to stay, and neither a cancellation nor a shutdown
is taken back. -/
structure Precedes (w w' : World) : Prop where
  tokens : ∀ (i : Nat) (token : Token), w.tokens[i]? = some token → ∃ token' : Token,
    w'.tokens[i]? = some token' ∧ token'.isDetached = token.isDetached ∧ (token.isCancelled = true → token'.isCancelled = true)
  isShutDown : w.isShutDown = true → w'.isShutDown = true

variable {w w' w'' : World} {t : TokenId}

theorem precedes_of_same (tokens : w'.tokens = w.tokens) (isShutDown : w'.isShutDown = w.isShutDown) :
    w.Precedes w' where
  tokens i token found := ⟨token, by rw [tokens, found], rfl, id⟩
  isShutDown down := by rw [isShutDown, down]

theorem Precedes.trans (h : w.Precedes w') (h' : w'.Precedes w'') : w.Precedes w'' where
  tokens i token found := by
    obtain ⟨token', found', detached, cancelled⟩ := h.tokens i token found
    obtain ⟨token'', found'', detached', cancelled'⟩ := h'.tokens i token' found'
    exact ⟨token'', found'', detached'.trans detached, fun here => cancelled' (cancelled here)⟩
  isShutDown down := h'.isShutDown (h.isShutDown down)

/-- A cancellation of a token that there is lasts. -/
theorem Precedes.isCancelled (h : w.Precedes w') (known : t.index < w.tokens.length)
    (cancelled : w.isCancelled t = true) : w'.isCancelled t = true := by
  obtain ⟨token', found', detached, stays⟩ := h.tokens _ _ (List.getElem?_eq_getElem known)
  rw [World.isCancelled, List.getElem?_eq_getElem known] at cancelled
  rw [World.isCancelled, found']
  simp only [Bool.or_eq_true, Bool.and_eq_true] at cancelled ⊢
  exact cancelled.imp stays fun here => ⟨detached ▸ here.1, h.isShutDown here.2⟩

/-- Shutting down cancels the tokens that are attached. -/
theorem Attached.isCancelled (h : w.Attached t) (down : w.isShutDown = true) : w.isCancelled t = true := by
  obtain ⟨token, found, attached⟩ := h
  rw [World.isCancelled, found]
  simp only [attached, down, Bool.not_false, Bool.and_self, Bool.or_true]

end World

namespace Graph

/-- What hosts are offered to do to the world of a graph, besides starting pulses. -/
inductive HostActs (g : Graph) (w : World) : World → Prop where
  | addToken (token : Token) : HostActs g w (w.addToken token).1
  | giveUp (token : TokenId) : HostActs g w (w.giveUp token)
  | cancel (token : TokenId) : HostActs g w (w.cancel token)
  | shutDown : HostActs g w w.shutDown
  | resetState : HostActs g w (w.reset g.resets)
  | setClock (now : Nat) : HostActs g w { w with now }
  | beginTurn : HostActs g w w.beginTurn
  | endWait : HostActs g w w.endWait
  | clear (sink : SinkId) : HostActs g w (w.clear sink)

/-- One step of a graph whose pulses take turns and whose hosts do what they are offered to do. -/
structure Serves (g : Graph) (stage stage' : Stage) : Prop where
  turns : g.Turns stage stage'
  host : stage.turn = none → stage'.turn = none → g.HostActs stage.world stage'.world

variable {g : Graph} {w w₀ w' : World} {m m' : Machine} {stage stage' later : Stage}

theorem HostActs.precedes (h : g.HostActs w w') : w.Precedes w' := by
  cases h with
  | addToken token =>
      refine ⟨fun i old found => ⟨old, ?_, rfl, id⟩, id⟩
      rw [World.addToken, List.getElem?_append_left (List.getElem?_eq_some_iff.mp found).1, found]
  | giveUp token =>
      rw [World.giveUp]
      split
      · split <;> exact World.precedes_of_same rfl rfl
      · exact World.precedes_of_same rfl rfl
  | cancel token =>
      refine ⟨fun i old found => ?_, id⟩
      rw [World.cancel, List.getElem?_modify, found]
      by_cases same : token.index = i
      · exact ⟨{ old with isCancelled := true }, by simp [same], rfl, fun _ => rfl⟩
      · exact ⟨old, by simp [same], rfl, id⟩
  | shutDown => exact ⟨fun i old found => ⟨old, found, rfl, id⟩, fun _ => rfl⟩
  | resetState =>
      exact World.precedes_of_same (w.reset_keeps (·.tokens) _ fun _ _ _ => rfl)
        (w.reset_keeps (·.isShutDown) _ fun _ _ _ => rfl)
  | setClock | beginTurn | endWait | clear => exact World.precedes_of_same rfl rfl

/-- A pulse under way leaves the tokens alone. -/
theorem UnderWay.precedes_step (h : g.UnderWay m) (w : World) : w.Precedes (m.step g w).world := by
  refine World.precedes_of_same ?_ (h.isShutDown_step w)
  rcases h.world_step w with ⟨a, next, asks, eq⟩ | ⟨eq, _⟩
  · rw [eq, tokens_perform_of_permits (h.fits.allowed asks).2]
  · rw [eq]

/-- One step takes no cancellation back. -/
theorem Serves.precedes (h : g.Serves stage stage')
    (underWay : stage.Holds (fun _ => g.UnderWay) g.UnderWay) : stage.world.Precedes stage'.world := by
  obtain ⟨turns, host⟩ := h
  cases turns with
  | host changes => exact (host rfl rfl).precedes
  | start root token triggerable => exact World.precedes_of_same rfl rfl
  | resume => exact World.precedes_of_same rfl rfl
  | @move w _ _ _ _ moves =>
      have step := (underWay.turn _ rfl).precedes_step w
      rwa [moves] at step
  | @sleep w _ _ _ _ _ sleeps =>
      have step := (underWay.turn _ rfl).precedes_step w
      rwa [sleeps] at step
  | @rest w _ _ _ _ rests =>
      have step := (underWay.turn _ rfl).precedes_step w
      rwa [rests] at step
  | @finish w _ _ _ _ ends =>
      have step := (underWay.turn _ rfl).precedes_step w
      rwa [ends] at step

/-- Steps lead to where pulses that take turns can get, and take no cancellation back. -/
theorem precedes_of_serves (catalogue : g.FromCatalogue)
    (reachable : Relation.ReflTransGen g.Turns { world := w₀ } stage)
    (serves : Relation.ReflTransGen g.Serves stage later) :
    Relation.ReflTransGen g.Turns { world := w₀ } later ∧ stage.world.Precedes later.world := by
  induction serves with
  | refl => exact ⟨reachable, World.precedes_of_same rfl rfl⟩
  | tail _ step ih =>
      obtain ⟨reached, precedes⟩ := ih
      have underWay := underWay_of_reachable catalogue reached
      exact ⟨reached.tail step.turns, precedes.trans (step.precedes underWay)⟩

/-- What is left for a pulse to do heeds its cancellation. -/
structure Minds (g : Graph) (w : World) (m : Machine) : Prop where
  underWay : g.UnderWay m
  fits : g.heeding.Fits m (w.isCancelled m.pulse.token)

/-- A pulse keeps to what it knows within its turn: it cancels nobody. -/
theorem follows_minding : g.heeding.Follows fun _ w p cancelled => cancelled = w.isCancelled p.token where
  act := by
    rintro n a events w p _ allowed rfl
    have same : (a.perform w p).2.1.isCancelled (a.perform w p).2.2.token = w.isCancelled p.token := by
      rw [a.token_perform]
      cases a with
      | cancel | shutDown | reset => exact allowed.elim
      | observe input t v =>
          simp only [Action.perform, World.observe]
          split <;> rfl
      | _ => rfl
    refine ⟨w.isCancelled p.token, ?_, same.symm⟩
    cases a with
    | isCancelled => exact ⟨rfl, id⟩
    | _ => rfl
  enter _ seen := seen
  sleep _ seen := ⟨_, trivial, seen⟩
  rest _ seen := ⟨_, trivial, seen⟩

theorem Minds.next (catalogue : g.FromCatalogue) (h : g.Minds w m)
    (moves : (m.step g w).next? = some (w', m')) : g.Minds w' m' := by
  obtain ⟨_, fits, rfl⟩ := h.fits.step [] (Heeding.verified_heeding catalogue) follows_minding rfl moves
  exact ⟨h.underWay.next catalogue moves, fits⟩

end Graph

/-- Two states of a pulse have counted the same activations and suppressions. -/
structure Pulse.SameCounts (p q : Pulse) : Prop where
  activations : p.activations = q.activations
  activationCount : p.activationCount = q.activationCount
  suppressed : p.suppressed = q.suppressed

theorem Pulse.SameCounts.trans {p q r : Pulse} (h : p.SameCounts q) (h' : q.SameCounts r) :
    p.SameCounts r :=
  ⟨h.activations.trans h'.activations, h.activationCount.trans h'.activationCount,
    h.suppressed.trans h'.suppressed⟩

/-- A pulse that has seen that it is cancelled does nothing that is kept or counted. -/
theorem Action.Heeds.silent {a : Action} (h : a.Heeds true) (w : World) (p : Pulse) :
    w.SameState (a.perform w p).2.1 ∧ (a.perform w p).2.2.SameCounts p := by
  cases a with
  | begin | publish | push | remember | update | observe | countSuppression => cases h
  | cancel | shutDown | reset | setCell => exact h.elim
  | completeEvaluation resting =>
      refine ⟨.refl w, ?_, ?_, ?_⟩
      · exact p.completeEvaluation_keeps (·.activations) resting (fun _ _ => rfl) fun _ _ _ => rfl
      · exact p.completeEvaluation_keeps (·.activationCount) resting (fun _ _ => rfl) fun _ _ _ => rfl
      · exact p.completeEvaluation_keeps (·.suppressed) resting (fun _ _ => rfl) fun _ _ _ => rfl
  | _ => exact ⟨⟨rfl, rfl, rfl⟩, rfl, rfl, rfl⟩

/-- Where a pulse that was cancelled has got to: it has had no effect and counted nothing since, its next
move changes nothing that is kept, and if it ends it reports no more than it would have before. -/
structure Machine.Silent (g : Graph) (before : Pulse) (events : List Event) (w : World) (m : Machine) :
    Prop where
  effects : effects events = []
  counts : m.pulse.SameCounts before
  state : w.SameState (m.step g w).world
  report : ∀ w' report, m.step g w = .ended w' (.ok report) → report.cancelled = true ∧
    report.activations = before.activations.toList ∧
    report.activationCount = before.activationCount ∧ report.suppressed = before.suppressed

namespace Graph

variable {g : Graph} {w w₀ w' : World} {m m' : Machine} {stage later : Stage}

/-- What a cancelled pulse does next changes nothing that is kept or counted. -/
theorem Minds.silent (h : g.Minds w m) (cancelled : w.isCancelled m.pulse.token = true) :
    w.SameState (m.step g w).world ∧ effects (m.event? w).toList = [] ∧
      ∀ w' m', (m.step g w).next? = some (w', m') → m'.pulse.SameCounts m.pulse := by
  have fits := h.fits
  rw [cancelled] at fits
  have state : w.SameState (m.step g w).world := by
    rcases h.underWay.world_step w with ⟨a, next, asks, eq⟩ | ⟨eq, _⟩
    · rw [eq]
      exact (Action.Heeds.silent (fits.allowed asks) w m.pulse).1
    · rw [eq]
      exact .refl w
  have event : effects (m.event? w).toList = [] := by
    rw [Machine.event?]
    split
    next a next asks =>
      have quiet := Action.Heeds.isEffect_eq_false (fits.allowed asks) rfl
      simp [FlowGraph.effects, Event.isEffect, quiet]
    next n depth next asks => cases (fits.allowed asks : true = false)
    next => rfl
  refine ⟨state, event, fun w' m' moves => ?_⟩
  rcases Machine.pulse_step h.underWay.fits.single h.underWay.alone moves with ⟨a, does, eq⟩ | ⟨eq, _⟩
  · rw [Machine.event?] at does
    split at does
    next a' next asks =>
      obtain ⟨rfl, _⟩ := Event.did.inj (Option.some.inj does)
      rw [eq]
      exact (Action.Heeds.silent (fits.allowed asks) w m.pulse).2
    next => cases does
    next => cases does
  · rw [eq]
    exact ⟨rfl, rfl, rfl⟩

end Graph

end FlowGraph
