import FlowGraph.Proofs.Isolation
import FlowGraph.Proofs.Stepping

/-!
# A reset graph is as good as new

When all pulses have ended and the graph is reset, what is left of the time before is a past that nothing
looks at. That no store has anything in it is owed to the nodes: each one clears what it keeps. So whatever is
done from then on has the same results as on a newly built graph.
-/

namespace FlowGraph

@[simp] theorem TokenId.after_zero (t : TokenId) : t.after 0 = t := by
  rw [after, Nat.zero_add]

@[simp] theorem TaskId.after_zero (id : TaskId) : id.after 0 = id := by
  rw [after, Nat.zero_add]

@[simp] theorem Deed.after_zero (deed : Deed) : deed.after 0 0 = deed := by
  cases deed <;> simp [after]

@[simp] theorem Session.Operation.after_zero (operation : Session.Operation) :
    operation.after 0 = operation := by
  cases operation <;> simp [after]

namespace Past

variable {g : Graph} {s : Session}

theorem inStep_new (g : Graph) (now endedWaits : Nat) :
    ({} : Past).InStep g False (Session.new g now endedWaits) (Session.new g now endedWaits) where
  toSessions := sessions_new g now endedWaits
  queue := rfl
  regular := .inr ⟨List.nodup_nil, List.nodup_nil, fun _ member => absurd member List.not_mem_nil⟩

/-- When all tasks have ended, nobody of the past stands in the queue. -/
theorem InStep.reset (h : ({} : Past).InStep g False s s) (newClock : Nat)
    (ended : ∀ t ∈ s.tasks, t.isEnded = true) (down : Prop) :
    (Past.of s newClock ended h.numbered h.worlds.seated).InStep g down s.resetState
      (Session.new g newClock s.world.endedWaits) where
  toSessions := h.toSessions.reset newClock ended down
  queue := (h.regular.resolve_left id).queue_eq_nil ended
  regular := .inr ⟨List.nodup_nil, List.nodup_nil, fun _ member => absurd member List.not_mem_nil⟩

/-- Those who are told of a shutdown are those who have seats, if nobody among them is cancelled. -/
theorem calm_of {newClock : Nat} {ended : ∀ t ∈ s.tasks, t.isEnded = true}
    {numbered : ∀ t ∈ s.tasks, t.id.number < s.created}
    {seated : ∀ t ∈ s.world.seats, t.index < s.world.tokens.length}
    (live : ∀ seat ∈ s.world.seats, s.world.isCancelled seat = false) :
    (Past.of s newClock ended numbered seated).Calm := by
  intro seat sits token found
  have uncancelled := live seat sits
  rw [World.isCancelled, show s.world.tokens[seat.index]? = some token from found] at uncancelled
  exact (Bool.or_eq_false_iff.mp uncancelled).1

end Past

namespace Graph

variable {g : Graph}

/-- A graph that has been in use, but not shut down, and that is reset when all pulses have ended cannot be
told from a newly built one. In whatever order hosts act and pulses move, pulses that are started afterwards
have the same results, and counters, branches, observations and sinks show the same, the values that had been
logged before aside. In sessions even the turns and the steps that are needed are the same. Only if somebody
of the past has been cancelled and still has a seat, shutting down may wake the others in another order. -/
theorem reset_is_as_new (catalogue : g.FromCatalogue) (now newClock endedWaits : Nat) :
    (∀ history s, (Session.new g now endedWaits).undergoAll history = s → .shutDown ∉ history →
      (∀ t ∈ s.tasks, t.isEnded = true) → ∀ deeds,
        Session.Agrees s (s.resetState.undergoAll (deeds.map (·.after s.world.tokens.length s.created)))
          ((Session.new g newClock s.world.endedWaits).undergoAll deeds)) ∧
    ∀ budget history s results,
      Session.operateAll budget (Session.new g now endedWaits) history = .answer (s, results) →
      .shutDown ∉ history → (∀ t ∈ s.tasks, t.isEnded = true) → ∀ budget operations,
        (.shutDown ∈ operations → ∀ seat ∈ s.world.seats, s.world.isCancelled seat = false) →
        (Session.operateAll budget s.resetState (operations.map (·.after s.created))).Alike
          (fun told told' => Session.Agrees s told.1 told'.1 ∧ List.Forall₂ SameReports told.2 told'.2)
          (Session.operateAll budget (Session.new g newClock s.world.endedWaits) operations) := by
  constructor
  · rintro history s rfl awake ended deeds
    have used := (Past.sessions_new g now endedWaits).undergoAll catalogue history awake
    simp only [List.length_nil, Deed.after_zero, List.map_id'] at used
    have renewed := (used.reset newClock ended True).undergoAll catalogue deeds fun _ => trivial
    exact renewed.agrees rfl fun _ => rfl
  · intro budget history s results answers awake ended budget' operations calm
    have used := (Past.inStep_new g now endedWaits).operateAll catalogue budget history
      fun shutDown => absurd shutDown awake
    simp only [Session.Operation.after_zero, List.map_id'] at used
    rw [answers] at used
    cases used with
    | answer told =>
        have renewed := told.1.reset newClock ended (.shutDown ∈ operations)
        have operated := renewed.operateAll catalogue budget' operations fun shutDown =>
          ⟨shutDown, Past.calm_of (calm shutDown)⟩
        exact operated.mono fun told => ⟨told.1.toSessions.agrees rfl fun _ => rfl, told.2⟩

/-- A pulse of the first pause, moved until it has ended. -/
def firstPause : List Deed :=
  [.addToken {}, .start ⟨1⟩ ⟨0⟩] ++ List.replicate 30 (.move ⟨0⟩)

/-- Two pulses of the first pause, of which the second one is cancelled. -/
def twoPauses : List Session.Operation :=
  [.trigger ⟨1⟩, .spawn ⟨1⟩, .cancel ⟨0⟩, .join ⟨0⟩]

/-- The counter has counted, and when it has been reset it counts as if it had not. -/
theorem reset_is_as_new_pauses :
    (∃ s, (Session.new pauses 0 0).undergoAll firstPause = s ∧ s.counter? "counter" = some 1 ∧
      ∀ deeds,
        Session.Agrees s (s.resetState.undergoAll (deeds.map (·.after s.world.tokens.length s.created)))
          ((Session.new pauses 7 s.world.endedWaits).undergoAll deeds)) ∧
    ∃ s results, Session.operateAll 200 (Session.new pauses 0 0) twoPauses = .answer (s, results) ∧
      s.counter? "counter" = some 1 ∧ results.length = 2 ∧ ∀ budget operations,
        (Session.operateAll budget s.resetState (operations.map (·.after s.created))).Alike
          (fun told told' => Session.Agrees s told.1 told'.1 ∧ List.Forall₂ SameReports told.2 told'.2)
          (Session.operateAll budget (Session.new pauses 7 s.world.endedWaits) operations) := by
  have history : (match Session.operateAll 200 (Session.new pauses 0 0) twoPauses with
      | .answer (s, results) => s.counter? "counter" = some 1 ∧ results.length = 2 ∧
          s.tasks.all (·.isEnded) = true ∧ s.world.seats = []
      | .outOfSteps => False) :=
    ⟨rfl, rfl, rfl, rfl⟩
  have renewed := reset_is_as_new pauses_fromCatalogue 0 7 0
  constructor
  · have ended : ((Session.new pauses 0 0).undergoAll firstPause).tasks.all (·.isEnded) = true := by cbv
    have awake : .shutDown ∉ firstPause := by simp [firstPause]
    exact ⟨_, rfl, by cbv, renewed.1 _ _ rfl awake (List.all_eq_true.mp ended)⟩
  · have awake : .shutDown ∉ twoPauses := by simp [twoPauses]
    cases answers : Session.operateAll 200 (Session.new pauses 0 0) twoPauses with
    | outOfSteps =>
        rw [answers] at history
        exact history.elim
    | answer told =>
        rw [answers] at history
        obtain ⟨counted, length, ended, seats⟩ := history
        refine ⟨told.1, told.2, rfl, counted, length, fun budget operations => ?_⟩
        have ended := List.all_eq_true.mp ended
        refine renewed.2 _ _ _ _ answers awake ended budget operations fun _ seat sits => ?_
        rw [seats] at sits
        exact absurd sits List.not_mem_nil

end Graph

end FlowGraph
