import FlowGraph.Proofs.Frames
import FlowGraph.Proofs.Heeding

/-!
# One pulse under two names

A pulse has an id, a token and a time at which it started, and the rules use none of them except to say who
was aborted, to look whether the pulse is cancelled, and to report. So two machines that differ in nothing
else go on side by side, in whatever worlds they are, as long as the worlds give them the same replies. What
they end with is the same up to these names and times.
-/

namespace FlowGraph

/-- Two reports tell the same, but for the id of the pulse and the times. -/
def Report.Twin (r r' : Report) : Prop :=
  ∃ pulse startedAt finishedAt, r' = { r with pulse, startedAt, finishedAt }

/-- Two errors are the same, but for the id of the pulse that was aborted. -/
inductive PulseError.Twin : PulseError → PulseError → Prop where
  | refl (e) : Twin e e
  | aborted (id id' cause) : Twin (.aborted id cause) (.aborted id' cause)

/-- Two pulses have come to the same, but for their ids and times. -/
inductive SameOutcome : Except PulseError Report → Except PulseError Report → Prop where
  | ok {r r'} (twin : r.Twin r') : SameOutcome (.ok r) (.ok r')
  | error {e e'} (twin : e.Twin e') : SameOutcome (.error e) (.error e')

/-- Two states of pulses are the same, but for the id, the token and the time of the start. -/
def Pulse.Twin (p q : Pulse) : Prop :=
  ∃ id token startedAt, q = { p with id, token, startedAt }

namespace Pulse

variable {p q : Pulse} {w v : World}

theorem twin_start (w v : World) (root : NodeId) (token token' : TokenId) :
    (w.beginPulse root token).2.Twin (v.beginPulse root token').2 :=
  ⟨_, _, _, rfl⟩

theorem completeEvaluation_named (p : Pulse) (id : PulseId) (token : TokenId) (startedAt : Nat)
    (resting : List (Port × Value)) :
    ({ p with id, token, startedAt } : Pulse).completeEvaluation resting =
      { p.completeEvaluation resting with id, token, startedAt } := by
  simp only [completeEvaluation]
  generalize p.evaluations + 1 = n
  rw [show ({ p with id, token, startedAt, evaluations := n } : Pulse) =
    { ({ p with evaluations := n } : Pulse) with id, token, startedAt } from rfl]
  generalize ({ p with evaluations := n } : Pulse) = q
  induction resting generalizing q with
  | nil => rfl
  | cons entry rest ih => exact ih (q.memoize entry.1 entry.2)

/-- What an action makes of a pulse depends neither on the names nor on the world. -/
theorem Twin.perform (h : p.Twin q) (a : Action) (w v : World) :
    (a.perform w p).2.2.Twin (a.perform v q).2.2 := by
  obtain ⟨id, token, startedAt, rfl⟩ := h
  cases a with
  | completeEvaluation resting =>
      exact ⟨id, token, startedAt, p.completeEvaluation_named id token startedAt resting⟩
  | _ => exact ⟨id, token, startedAt, rfl⟩

/-- Two such pulses report the same if both are cancelled or neither is. -/
theorem Twin.report (h : p.Twin q) (cancelled : w.isCancelled p.token = v.isCancelled q.token) :
    (p.report w).Twin (q.report v) := by
  obtain ⟨id, token, startedAt, rfl⟩ := h
  refine ⟨id, .ofMillis startedAt, .ofMillis v.now, ?_⟩
  simp only [Pulse.report, cancelled]

end Pulse

namespace Machine

/-- Two machines are at the same point of pulses that differ in their names only. -/
structure Twin (m n : Machine) : Prop where
  pulse : m.pulse.Twin n.pulse
  scope : m.scope = n.scope
  program : m.program = n.program
  callers : m.callers = n.callers

/-- Two machines have moved to the same point, in worlds that stand in some relation. -/
inductive Lockstep (R : World → World → Prop) : Progress → Progress → Prop where
  | running {w v m n} (worlds : R w v) (twin : m.Twin n) : Lockstep R (.running w m) (.running v n)
  | sleeping {w v m n} (worlds : R w v) (milliseconds) (twin : m.Twin n) :
      Lockstep R (.sleeping w milliseconds m) (.sleeping v milliseconds n)
  | resting {w v m n} (worlds : R w v) (twin : m.Twin n) : Lockstep R (.resting w m) (.resting v n)
  | ended {w v result result'} (worlds : R w v) (same : SameOutcome result result') :
      Lockstep R (.ended w result) (.ended v result')

variable {g : Graph} {w v : World} {m n : Machine} {R : World → World → Prop}

/-- The state of a pulse that runs no other pulse changes by its actions only. -/
theorem pulse_step (single : m.IsSingle) (alone : ∀ root next, m.program ≠ .ask (.pulse root) next)
    {w' : World} {m' : Machine} (moves : (m.step g w).next? = some (w', m')) :
    (∃ a, m.event? w = some (.did a (a.perform w m.pulse).1) ∧ m'.pulse = (a.perform w m.pulse).2.2) ∨
      m'.pulse = m.pulse ∧ ∀ a reply, m.event? w ≠ some (.did a reply) := by
  obtain ⟨p, s, program, callers⟩ := m
  cases program with
  | done =>
      cases callers with
      | nil => cases moves
      | cons caller callers =>
          obtain ⟨scope, next, rfl⟩ := single caller (List.mem_cons_self ..)
          cases moves
          exact .inr ⟨rfl, nofun⟩
  | ask r next =>
      cases r with
      | act a =>
          cases moves
          exact .inl ⟨a, rfl, rfl⟩
      | pulse root => exact absurd rfl (alone root next)
      | abort cause =>
          simp only [Machine.step, unwind_eq_ended single] at moves
          cases moves
      | evaluate | activate | sleep | rest | restart =>
          cases moves
          refine .inr ⟨rfl, fun a reply did => ?_⟩
          cases did

/-- A machine that runs no other pulse keeps its token. -/
theorem token_step (single : m.IsSingle) (alone : ∀ root next, m.program ≠ .ask (.pulse root) next)
    {w' : World} {m' : Machine} (moves : (m.step g w).next? = some (w', m')) :
    m'.pulse.token = m.pulse.token := by
  rcases pulse_step single alone moves with ⟨a, _, eq⟩ | ⟨eq, _⟩
  · rw [eq, a.token_perform]
  · rw [eq]

theorem twin_start (g : Graph) (w v : World) (root : NodeId) (token token' : TokenId) :
    (start g w root token).2.Twin (start g v root token').2 :=
  ⟨Pulse.twin_start w v root token token', rfl, rfl, rfl⟩

/-- Two machines that have reached their ends go back to the same caller. -/
theorem Twin.leave (h : m.Twin n) (single : m.IsSingle) (worlds : R w v)
    (cancelled : w.isCancelled m.pulse.token = v.isCancelled n.pulse.token) :
    Lockstep R (m.leave w) (n.leave v) := by
  obtain ⟨p, s, program, callers⟩ := m
  obtain ⟨q, s', program', callers'⟩ := n
  obtain ⟨pulse, rfl, rfl, rfl⟩ := h
  cases callers with
  | nil => exact .ended worlds (.ok (pulse.report cancelled))
  | cons caller callers =>
      obtain ⟨scope, next, rfl⟩ := single caller (List.mem_cons_self ..)
      exact .running worlds ⟨pulse, rfl, rfl, rfl⟩

/-- Two machines that differ in names only go on in the same way, if the actions that they ask for have the
same replies. -/
theorem Twin.step (h : m.Twin n) (single : m.IsSingle)
    (alone : ∀ root next, m.program ≠ .ask (.pulse root) next) (worlds : R w v)
    (cancelled : w.isCancelled m.pulse.token = v.isCancelled n.pulse.token)
    (acts : ∀ a next, m.program = .ask (.act a) next →
      (a.perform w m.pulse).1 = (a.perform v n.pulse).1 ∧
        R (a.perform w m.pulse).2.1 (a.perform v n.pulse).2.1) :
    Lockstep R (m.step g w) (n.step g v) ∧ m.event? w = n.event? v := by
  have leaves := h.leave single worlds cancelled
  obtain ⟨p, s, program, callers⟩ := m
  obtain ⟨q, s', program', callers'⟩ := n
  obtain ⟨pulse, rfl, rfl, rfl⟩ := h
  cases program with
  | done => exact ⟨leaves, rfl⟩
  | ask r next =>
      cases r with
      | act a =>
          obtain ⟨reply, worlds⟩ := acts a next rfl
          simp only [Machine.step, event?, reply]
          exact ⟨.running worlds ⟨pulse.perform a w v, rfl, rfl, rfl⟩, trivial⟩
      | evaluate | activate | restart => exact ⟨.running worlds ⟨pulse, rfl, rfl, rfl⟩, rfl⟩
      | sleep milliseconds => exact ⟨.sleeping worlds milliseconds ⟨pulse, rfl, rfl, rfl⟩, rfl⟩
      | rest => exact ⟨.resting worlds ⟨pulse, rfl, rfl, rfl⟩, rfl⟩
      | abort cause =>
          simp only [Machine.step, unwind_eq_ended single]
          exact ⟨.ended worlds (.error (.aborted p.id q.id cause)), rfl⟩
      | pulse root => exact absurd rfl (alone root next)

end Machine

end FlowGraph
