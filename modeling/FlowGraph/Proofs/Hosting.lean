import FlowGraph.Proofs.Currency
import FlowGraph.Proofs.Traffic
import FlowGraph.Session.Waiting

/-!
# Sessions that do not go wrong

A session decides who moves next; it is one of the orders in which a graph can be used. All that its
operations add to the moves of its tasks is bookkeeping, which leaves alone what pulses rely on. So a
session that has not gone wrong stays that way under everything that a host asks of it, and whatever the
host is told is no abort, unless flow became too deep.
-/

namespace FlowGraph

theorem Harmless.map {α β : Type} {result : Except PulseError α} (h : Harmless result) (f : α → β) :
    Harmless (result.map f) := by
  cases result with
  | ok a => nofun
  | error e =>
      rintro id cause ⟨⟩
      exact h id cause rfl

namespace Waited

variable {α β : Type} {P : α → Prop} {Q : β → Prop}

/-- If there is an answer, it passes a test. -/
def Ensures (P : α → Prop) : Waited α → Prop
  | answer a => P a
  | outOfSteps => True

theorem Ensures.andThen {w : Waited α} {f : α → Waited β} (h : w.Ensures P)
    (next : ∀ a, P a → (f a).Ensures Q) : (w.andThen f).Ensures Q := by
  cases w with
  | answer a => exact next a h
  | outOfSteps => trivial

end Waited

/-- The machine of a pulse that has begun and has not ended. -/
def Phase.machine? : Phase → Option Machine
  | .running m | .resting m | .sleeping _ m => some m
  | .starting _ | .ended _ => none

/-- A pulse that has not begun, is under way, or has ended as it may. -/
def Phase.Sound (g : Graph) : Phase → Prop
  | .starting _ => True
  | .running m | .resting m | .sleeping _ m => g.UnderWay m
  | .ended result => Harmless result

theorem Phase.Sound.of_machine? {g : Graph} {phase : Phase} (h : phase.Sound g) {m : Machine}
    (under : phase.machine? = some m) : g.UnderWay m := by
  cases phase with
  | running k | resting k | sleeping deadline k =>
      cases under
      exact h
  | starting root | ended result => cases under

theorem Phase.Sound.of_result? {g : Graph} {t : Task} (h : t.phase.Sound g)
    {result : Except PulseError Report} (ended : t.result? = some result) : Harmless result := by
  rw [Task.result?] at ended
  split at ended
  next hasEnded =>
    cases ended
    rw [hasEnded] at h
    exact h
  next => cases ended

/-- Where a pulse may come to, it has not gone wrong. -/
theorem Graph.Lands.phase {g : Graph} {progress : Progress} (h : g.Lands progress) :
    g.ObservedTyped (Phase.ofProgress progress).1 ∧ (Phase.ofProgress progress).2.Sound g := by
  cases progress with
  | running w m | sleeping w milliseconds m | resting w m | ended w result => exact h

namespace Session

/-- What a host asks of a session. -/
inductive Operation where
  | trigger (root : NodeId)
  | triggerWith (root : NodeId) (token : Token)
  | update
  | spawn (root : NodeId)
  | join (task : TaskId)
  | forget (task : TaskId)
  | cancel (task : TaskId)
  | shutDown
  | resetState
  | sleep (milliseconds : Nat)
  | settle

/-- Does what a host asks for. Some operations end in reports or an error. -/
def operate (budget : Nat) (s : Session) :
    Operation → Waited (Session × Option (Except PulseError (List Report)))
  | .trigger root =>
    (s.trigger budget root).andThen fun (s, result) => .answer (s, some (result.map ([·])))
  | .triggerWith root token =>
    let (s, token) := s.addToken token
    (s.triggerWith budget root token).andThen fun (s, result) => .answer (s, some (result.map ([·])))
  | .update => (s.update budget).andThen fun (s, result) => .answer (s, some result)
  | .spawn root => .answer ((s.spawn root).1, none)
  | .join task => (s.join budget task).andThen fun (s, result) => .answer (s, some (result.map ([·])))
  | .forget task => .answer (s.forget task, none)
  | .cancel task => .answer (s.cancel task, none)
  | .shutDown => .answer (s.shutDown, none)
  | .resetState => .answer (s.resetState, none)
  | .sleep milliseconds => (s.sleep budget milliseconds).andThen fun s => .answer (s, none)
  | .settle => (s.settle budget).andThen fun s => .answer (s, none)

/-- Does one thing after the other, and keeps what the host is told. -/
def operateAll (budget : Nat) (s : Session) :
    List Operation → Waited (Session × List (Except PulseError (List Report)))
  | [] => .answer (s, [])
  | operation :: rest =>
    (s.operate budget operation).andThen fun (s, result) =>
      (s.operateAll budget rest).andThen fun (s, results) => .answer (s, result.toList ++ results)

/-- No pulse of a session has gone wrong, and none that is under way can. -/
structure Sound (g : Graph) (s : Session) : Prop where
  graph : s.graph = g
  observed : g.ObservedTyped s.world
  tasks : ∀ t ∈ s.tasks, t.phase.Sound g

/-- A session that has not gone wrong, and a result that the host may be told. -/
abbrev Answers {α : Type} (g : Graph) (told : Session × Except PulseError α) : Prop :=
  told.1.Sound g ∧ Harmless told.2

variable {g : Graph} {s s' : Session} {t : Task} {m : Machine}

/-! ## Bookkeeping -/

/-- Who stands in the queue, what the time is and who holds a token is of no importance. -/
theorem Sound.of (h : s.Sound g) (graph : s'.graph = s.graph)
    (observed : s'.world.observed = s.world.observed)
    (tasks : ∀ t ∈ s'.tasks, ∃ u ∈ s.tasks, t.phase = u.phase) : s'.Sound g where
  graph := graph.trans h.graph
  observed := h.observed.of_observed observed
  tasks t member := by
    obtain ⟨u, older, same⟩ := tasks t member
    rw [same]
    exact h.tasks u older

theorem Sound.of_world (h : s.Sound g) {w : World} (observed : g.ObservedTyped w) :
    { s with world := w }.Sound g :=
  ⟨h.graph, observed, h.tasks⟩

theorem Sound.enqueue (h : s.Sound g) (tasks : List Task) : (s.enqueue tasks).Sound g :=
  h.of rfl rfl fun t member => ⟨t, member, rfl⟩

theorem Sound.wake (h : s.Sound g) (tokens : List TokenId) : (s.wake tokens).Sound g :=
  h.enqueue _

theorem Sound.heedShutDown (h : s.Sound g) (before : World) : (s.heedShutDown before).Sound g := by
  rw [Session.heedShutDown]
  split
  · exact h.wake _
  · exact h

theorem Sound.put (h : s.Sound g) (phase : t.phase.Sound g) : (s.put t).Sound g where
  graph := h.graph
  observed := h.observed
  tasks := by
    have others : ∀ u ∈ s.tasks.filter (·.id ≠ t.id), u.phase.Sound g := by
      intro u other
      exact h.tasks u (List.mem_filter.mp other).1
    exact List.forall_mem_append.mpr ⟨others, List.forall_mem_singleton.mpr phase⟩

theorem Sound.remove (h : s.Sound g) (t : Task) : (s.remove t).Sound g :=
  h.of rfl (World.observed_giveUp ..) fun u member => ⟨u, (List.mem_filter.mp member).1, rfl⟩

theorem Sound.giveUp (h : s.Sound g) (token : TokenId) : (s.giveUp token).Sound g :=
  h.of_world (h.observed.of_observed (World.observed_giveUp ..))

theorem Sound.addToken (h : s.Sound g) (token : Token) : (s.addToken token).1.Sound g :=
  h.of_world (h.observed.of_observed rfl)

theorem Sound.endTurn (h : s.Sound g) (t : Task) : (s.endTurn t).Sound g := by
  have left : { s with queue := s.queue.tail }.Sound g := h.of rfl rfl fun t member => ⟨t, member, rfl⟩
  rw [Session.endTurn]
  split
  · exact h
  · dsimp only
    split
    · exact left.remove t
    · exact left

theorem Sound.rouse (h : s.Sound g) : s.rouse.Sound g :=
  h.enqueue _

theorem Sound.beginTurn (h : s.Sound g) : s.beginTurn.Sound g :=
  h.of_world (h.observed.of_observed rfl)

theorem Sound.endWait (h : s.Sound g) : s.endWait.Sound g :=
  h.of_world (h.observed.of_observed rfl)

theorem Sound.setClock (h : s.Sound g) (now : Nat) : (s.setClock now).Sound g := by
  have set : { s with world := { s.world with now } }.Sound g := h.of_world (h.observed.of_observed rfl)
  exact set.enqueue _

theorem Sound.resume? (h : s.Sound g) {deadline? : Option Nat}
    (resumes : s.resume? deadline? = some s') : s'.Sound g := by
  rw [Session.resume?] at resumes
  split at resumes
  · obtain ⟨now, _, rfl⟩ := Option.map_eq_some_iff.mp resumes
    exact h.setClock now
  · cases resumes
    exact h

theorem Sound.forget (h : s.Sound g) (id : TaskId) : (s.forget id).Sound g := by
  rw [Session.forget]
  split
  next => exact h
  next t _ =>
    split
    · exact h.remove t
    · refine h.of rfl rfl ?_
      intro u member
      obtain ⟨v, older, rfl⟩ := List.mem_map.mp member
      refine ⟨v, older, ?_⟩
      split <;> rfl

theorem Sound.cancel (h : s.Sound g) (id : TaskId) : (s.cancel id).Sound g := by
  rw [Session.cancel]
  split
  · exact Sound.wake (h.of_world (h.observed.hostChanges (.cancel _))) _
  · exact h

theorem Sound.shutDown (h : s.Sound g) : s.shutDown.Sound g :=
  Sound.heedShutDown (h.of_world (h.observed.hostChanges .shutDown)) _

theorem Sound.resetState (h : s.Sound g) : s.resetState.Sound g :=
  h.of_world (Graph.observedTyped_of_forgotten (World.observed_reset ..))

theorem Sound.spawn (h : s.Sound g) (root : NodeId) : (s.spawn root).1.Sound g := by
  have added : { (s.addToken {}).1 with created := s.created + 1 }.Sound g :=
    (h.addToken {}).of rfl rfl fun t member => ⟨t, member, rfl⟩
  exact (added.put (t := { phase := .starting root, .. }) trivial).enqueue _

/-! ## Moves -/

section

variable (catalogue : g.FromCatalogue)

include catalogue

/-- Moving a task leaves its pulse under way or ends it as it may. -/
theorem move_sound (phase : t.phase.Sound g) {w : World} (observed : g.ObservedTyped w) :
    g.ObservedTyped (t.move g w).1 ∧ (t.move g w).2.Sound g := by
  obtain ⟨id, token, current, isKept⟩ := t
  cases current with
  | starting root =>
      rw [Task.move]
      dsimp only
      split
      next e refused => exact ⟨observed, Graph.harmless_of_root refused⟩
      next r triggerable =>
        exact ⟨observed.of_observed rfl, Graph.underWay_start catalogue triggerable _ _⟩
  | running m => exact (phase.lands catalogue observed).phase
  | resting m | sleeping deadline m =>
      have turned : g.ObservedTyped w.beginTurn := observed.of_observed rfl
      exact (phase.lands catalogue turned).phase
  | ended result => exact ⟨observed, phase⟩

theorem Sound.step? (h : s.Sound g) (moves : s.step? = some s') : s'.Sound g := by
  rw [Session.step?] at moves
  split at moves
  next => cases moves
  next id rest _ =>
    split at moves
    next =>
      cases moves
      exact h.of rfl rfl fun t member => ⟨t, member, rfl⟩
    next t found =>
      obtain rfl := h.graph
      obtain ⟨observed, phase⟩ :=
        move_sound catalogue (h.tasks t (List.mem_of_find?_eq_some found)) h.observed
      cases moves
      exact (((h.of_world observed).put phase).endTurn _).heedShutDown _

/-! ## Waiting -/

theorem Sound.haveTurns (h : s.Sound g) (turns budget : Nat) :
    (s.haveTurns turns budget).Ensures (Sound g) := by
  induction budget generalizing s turns with
  | zero =>
      cases turns with
      | zero => exact h
      | succ turns => trivial
  | succ budget ih =>
      cases turns with
      | zero => exact h
      | succ turns =>
          rw [Session.haveTurns]
          split
          next next moves => exact ih (h.step? catalogue moves) _
          next => exact h

theorem Sound.giveWay (h : s.Sound g) (budget : Nat) : (s.giveWay budget).Ensures (Sound g) :=
  (h.haveTurns catalogue _ _).andThen fun _ h => h.rouse.beginTurn

theorem Sound.leaveTurn (h : s.Sound g) (budget : Nat) : (s.leaveTurn budget).Ensures (Sound g) := by
  rw [Session.leaveTurn]
  split
  · exact h.giveWay catalogue budget
  · exact h

theorem Sound.settle (h : s.Sound g) (budget : Nat) : (s.settle budget).Ensures (Sound g) := by
  induction budget generalizing s with
  | zero => trivial
  | succ budget ih =>
      apply (h.giveWay catalogue budget).andThen
      intro s h
      split
      · exact h
      · exact ih h

theorem Sound.waitUntil (h : s.Sound g) (canGoOn : Session → Bool) (deadline? : Option Nat)
    (budget : Nat) : (waitUntil canGoOn deadline? budget s).Ensures (Sound g) := by
  induction budget generalizing s with
  | zero => trivial
  | succ budget ih =>
      rw [Session.waitUntil]
      split
      · exact h
      · apply (h.giveWay catalogue budget).andThen
        intro s h
        split
        · exact h
        · split
          next s' resumes => exact ih (h.resume? resumes)
          next => trivial

theorem Sound.sleep (h : s.Sound g) (budget milliseconds : Nat) :
    (s.sleep budget milliseconds).Ensures (Sound g) :=
  (h.leaveTurn catalogue budget).andThen fun _ h =>
    (h.waitUntil catalogue _ _ budget).andThen fun _ h => h.endWait

theorem Sound.join (h : s.Sound g) (budget : Nat) (id : TaskId) :
    (s.join budget id).Ensures (Answers g) := by
  refine (h.leaveTurn catalogue budget).andThen fun _ h =>
    (h.waitUntil catalogue _ _ budget).andThen fun s h => ?_
  split
  next t result found =>
    obtain ⟨u, isTask, ends⟩ := Option.bind_eq_some_iff.mp found
    obtain ⟨r, ended, same⟩ := Option.map_eq_some_iff.mp ends
    cases same
    exact ⟨h.endWait.remove t, (h.tasks t (List.mem_of_find?_eq_some isTask)).of_result? ended⟩
  next => trivial

/-! ## Pulses in the host's turn -/

theorem Sound.runInTurn (h : s.Sound g) (underWay : g.UnderWay m) (budget : Nat) :
    (runInTurn budget s m).Ensures (Answers g) := by
  induction budget generalizing s m with
  | zero => trivial
  | succ budget ih =>
      obtain rfl := h.graph
      have lands := underWay.lands catalogue h.observed
      rw [Session.runInTurn]
      split
      next w m' progress =>
        rw [progress] at lands
        exact ih ((h.of_world lands.1).heedShutDown _) lands.2
      next w m' progress =>
        rw [progress] at lands
        exact ((h.of_world lands.1).giveWay catalogue budget).andThen fun s h => ih h lands.2
      next w milliseconds m' progress =>
        rw [progress] at lands
        exact ((h.of_world lands.1).waitUntil catalogue _ _ budget).andThen fun s h => ih h lands.2
      next w result progress =>
        rw [progress] at lands
        exact ⟨h.of_world lands.1, lands.2⟩

theorem Sound.triggerWith (h : s.Sound g) (budget : Nat) (root : NodeId) (token : TokenId) :
    (s.triggerWith budget root token).Ensures (Answers g) := by
  obtain rfl := h.graph
  rw [Session.triggerWith]
  split
  next e refused => exact ⟨h.giveUp token, Graph.harmless_of_root refused⟩
  next r triggerable =>
    have begun : { s with world := (Machine.start s.graph s.world root token).1 }.Sound s.graph :=
      h.of_world (h.observed.of_observed rfl)
    have underWay := Graph.underWay_start catalogue triggerable s.world token
    exact (begun.runInTurn catalogue underWay budget).andThen fun (s, result) told =>
      ⟨told.1.giveUp token, told.2⟩

theorem Sound.trigger (h : s.Sound g) (budget : Nat) (root : NodeId) :
    (s.trigger budget root).Ensures (Answers g) :=
  (h.addToken {}).triggerWith catalogue budget root _

theorem Sound.triggerAll (h : s.Sound g) (budget : Nat) (roots : List NodeId) :
    (s.triggerAll budget roots).Ensures (Answers g) := by
  induction roots generalizing s with
  | nil => exact ⟨h, nofun⟩
  | cons n rest ih =>
      apply (h.trigger catalogue budget n).andThen
      intro (s, result) ⟨h, harmless⟩
      cases result with
      | error e => exact ⟨h, harmless.map fun _ => []⟩
      | ok report => exact (ih h).andThen fun (s, reports) told => ⟨told.1, told.2.map _⟩

theorem Sound.operate (h : s.Sound g) (budget : Nat) (operation : Operation) :
    (s.operate budget operation).Ensures fun (s, result) =>
      s.Sound g ∧ ∀ told, result = some told → Harmless told := by
  have answered : ∀ {w : Waited (Session × Except PulseError Report)}, w.Ensures (Answers g) →
      (w.andThen fun (s, result) => .answer (s, some (result.map ([·])))).Ensures fun (s, result) =>
        s.Sound g ∧ ∀ told, result = some told → Harmless told := by
    intro w ensures
    refine ensures.andThen fun (s, result) ⟨h, harmless⟩ => ⟨h, ?_⟩
    rintro _ ⟨⟩
    exact harmless.map _
  cases operation with
  | trigger root => exact answered (h.trigger catalogue budget root)
  | triggerWith root token => exact answered ((h.addToken token).triggerWith catalogue budget root _)
  | update =>
      refine (h.triggerAll catalogue budget _).andThen fun (s, result) ⟨h, harmless⟩ => ⟨h, ?_⟩
      rintro _ ⟨⟩
      exact harmless
  | spawn root => exact ⟨h.spawn root, nofun⟩
  | join task => exact answered (h.join catalogue budget task)
  | forget task => exact ⟨h.forget task, nofun⟩
  | cancel task => exact ⟨h.cancel task, nofun⟩
  | shutDown => exact ⟨h.shutDown, nofun⟩
  | resetState => exact ⟨h.resetState, nofun⟩
  | sleep milliseconds =>
      exact (h.sleep catalogue budget milliseconds).andThen fun s h => ⟨h, nofun⟩
  | settle => exact (h.settle catalogue budget).andThen fun s h => ⟨h, nofun⟩

/-- A session that has not gone wrong never does, whatever a host asks of it. -/
theorem Sound.operateAll (h : s.Sound g) (budget : Nat) (operations : List Operation) :
    (s.operateAll budget operations).Ensures fun (s, results) =>
      s.Sound g ∧ ∀ told ∈ results, Harmless told := by
  induction operations generalizing s with
  | nil => exact ⟨h, fun _ member => absurd member List.not_mem_nil⟩
  | cons operation rest ih =>
      refine (h.operate catalogue budget operation).andThen fun (s, result) ⟨h, harmless⟩ =>
        (ih h).andThen fun (s, results) ⟨h, harmless'⟩ => ⟨h, fun told member => ?_⟩
      rcases List.mem_append.mp member with first | later
      · exact harmless told (Option.mem_toList.mp first)
      · exact harmless' told later

end

end Session

namespace Graph

variable {g : Graph}

/-- Whatever hosts do with a graph and in whatever order its pulses move, no pulse ends other than with a
report or because its flow became too deep, and every value that is kept for a pulse under way can be
taken for what its readers take it for. The sessions that hosts work with are no exception. -/
theorem ends_harmlessly (catalogue : g.FromCatalogue) {w : World} (unobserved : w.observed = ∅) :
    (∀ t, Relation.ReflTransGen g.Proceeds { world := w } t →
      (∀ result ∈ t.results, Harmless result) ∧ ∀ m ∈ t.pulses, g.Readable t.world m.pulse) ∧
    ∀ budget operations s results,
      Session.operateAll budget { graph := g, world := w } operations = .answer (s, results) →
        (∀ result ∈ results, Harmless result) ∧
        (∀ t ∈ s.tasks, ∀ result, t.result? = some result → Harmless result) ∧
        ∀ t ∈ s.tasks, ∀ m, t.phase.machine? = some m → g.Readable s.world m.pulse := by
  constructor
  · intro t reachable
    have orderly := orderly_of_reachable catalogue unobserved reachable
    exact ⟨orderly.results, fun m member =>
      (orderly.pulses m member).readable catalogue orderly.observed⟩
  · intro budget operations s results answers
    have start : Session.Sound g { graph := g, world := w } :=
      ⟨rfl, observedTyped_of_forgotten unobserved, List.forall_mem_nil _⟩
    have ensures := start.operateAll catalogue budget operations
    rw [answers] at ensures
    obtain ⟨sound, harmless⟩ := ensures
    refine ⟨harmless, ?_, ?_⟩
    · intro t member result ended
      exact (sound.tasks t member).of_result? ended
    · intro t member m under
      exact ((sound.tasks t member).of_machine? under).readable catalogue sound.observed

/-- The loop of two rounds is run beside the host and by the host, before and after shutting down. -/
theorem ends_harmlessly_rounds :
    ∃ s results, Session.operateAll 1000 { graph := rounds }
        [.spawn ⟨0⟩, .trigger ⟨0⟩, .update, .shutDown, .trigger ⟨0⟩, .trigger ⟨1⟩] =
          .answer (s, results) ∧
      results.length = 4 ∧ ∀ result ∈ results, Harmless result := by
  have length : (match Session.operateAll 1000 { graph := rounds }
      [.spawn ⟨0⟩, .trigger ⟨0⟩, .update, .shutDown, .trigger ⟨0⟩, .trigger ⟨1⟩] with
    | .answer (_, results) => results.length
    | .outOfSteps => 0) = 4 := by cbv
  cases answers : Session.operateAll 1000 { graph := rounds }
      [.spawn ⟨0⟩, .trigger ⟨0⟩, .update, .shutDown, .trigger ⟨0⟩, .trigger ⟨1⟩] with
  | answer told =>
      rw [answers] at length
      have ends := ends_harmlessly rounds_fromCatalogue (w := {}) rfl
      exact ⟨told.1, told.2, rfl, length, (ends.2 _ _ _ _ answers).1⟩
  | outOfSteps =>
      rw [answers] at length
      cases length

end Graph

end FlowGraph
