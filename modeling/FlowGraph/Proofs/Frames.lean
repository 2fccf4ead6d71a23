import FlowGraph.Proofs.Answers
import FlowGraph.Proofs.Run

/-!
# What a machine keeps on the way back

A machine that enters a node keeps the program that it leaves, and a machine that starts a pulse within
a pulse keeps the whole outer pulse. So what holds of the program that a machine is in holds of all that
it will come back to, if it did when each of them was left. Nothing new comes in except by a request that
enters a node, and there are only four ways to enter one.
-/

namespace FlowGraph

/-- What a request lets a machine enter: for which root, at which node, and with which program. -/
inductive Engine.Enters (g : Graph) (root : NodeId) (s : Scope) :
    EngineRequest → NodeId → Scope → Engine Unit → Prop where
  | evaluate (n depth) :
      Enters g root s (.evaluate n depth) root ⟨n, depth⟩ (Engine.evaluation g ⟨n, depth⟩)
  | activate (n depth) :
      Enters g root s (.activate n depth) root ⟨n, depth⟩ (Engine.activation g ⟨n, depth⟩)
  | restart : Enters g root s .restart root s (Engine.process g s)
  | pulse (n) : Enters g root s (.pulse n) n ⟨n, 0⟩ (Engine.activation g ⟨n, 0⟩)

theorem Action.root_perform (a : Action) (w : World) (p : Pulse) :
    (a.perform w p).2.2.root = p.root := by
  cases a with
  | completeEvaluation resting =>
      exact p.completeEvaluation_keeps (·.root) resting (fun _ _ => rfl) fun _ _ _ => rfl
  | _ => rfl

namespace Machine

variable {P : NodeId → Scope → Engine Unit → Prop} {g : Graph} {w w' : World} {m m' : Machine}

/-- Whatever reply is waited for, what comes after it has a property. -/
def Waits (P : NodeId → Scope → Engine Unit → Prop) : NodeId → List Caller → Prop
  | _, [] => True
  | root, .node s next :: callers => (∀ reply, P root s (next reply)) ∧ Waits P root callers
  | _, .pulse outer s next :: callers =>
    (∀ result, P outer.root s (next result)) ∧ Waits P outer.root callers

/-- A property of programs and their scopes does not depend on the root of the pulse. -/
theorem Waits.of_root {Q : Scope → Engine Unit → Prop} {root : NodeId} {callers : List Caller}
    (h : Waits (fun _ => Q) root callers) (root' : NodeId) : Waits (fun _ => Q) root' callers := by
  induction callers with
  | nil => trivial
  | cons caller callers ih =>
      cases caller with
      | node s next => exact ⟨h.1, ih h.2⟩
      | pulse outer s next => exact h

/-- All that is left for a machine to do has a property. -/
structure Framed (P : NodeId → Scope → Engine Unit → Prop) (m : Machine) : Prop where
  program : P m.pulse.root m.scope m.program
  callers : Waits P m.pulse.root m.callers

/-- An error is handed to a pulse that waits for it. -/
theorem Waits.unwind {root : NodeId} {callers : List Caller} (h : Waits P root callers)
    {token : TokenId} {error : PulseError}
    (moves : (Machine.unwind w token error callers).next? = some (w', m')) : Framed P m' := by
  induction callers with
  | nil => cases moves
  | cons caller callers ih =>
      cases caller with
      | node s next => exact ih h.2 moves
      | pulse outer s next =>
          cases moves
          exact ⟨h.1 _, h.2⟩

/-- A program that is done leaves the machine with what waited for it. -/
theorem Waits.leave (h : Waits P m.pulse.root m.callers)
    (moves : (m.leave w).next? = some (w', m')) : Framed P m' := by
  rw [Machine.leave] at moves
  split at moves
  next => cases moves
  next s next callers eq =>
    rw [eq] at h
    cases moves
    exact ⟨h.1 _, h.2⟩
  next outer s next callers eq =>
    rw [eq] at h
    cases moves
    exact ⟨h.1 _, h.2⟩

/-- An error is handed over or ends everything, but never waits. -/
theorem unwind_cases (w : World) (token : TokenId) (error : PulseError) (callers : List Caller) :
    (∃ w' m', unwind w token error callers = .running w' m') ∨
      unwind w token error callers = .ended w (.error error) := by
  induction callers with
  | nil => exact .inr rfl
  | cons caller callers ih =>
      cases caller with
      | node s next => exact ih
      | pulse outer s next => exact .inl ⟨_, _, rfl⟩

/-- Going back to a caller never waits. -/
theorem leave_cases (w : World) (m : Machine) :
    (∃ w' m', m.leave w = .running w' m') ∨ m.leave w = .ended w (.ok (m.pulse.report w)) := by
  rw [leave]
  split
  · exact .inr rfl
  · exact .inl ⟨_, _, rfl⟩
  · exact .inl ⟨_, _, rfl⟩

/-- A machine sleeps because its program asks for it. -/
theorem step_sleeping {milliseconds : Nat} (sleeps : m.step g w = .sleeping w' milliseconds m') :
    ∃ next, m.program = .ask (.sleep milliseconds) next ∧ w' = w ∧
      m' = { m with program := next () } := by
  obtain ⟨p, s, program, callers⟩ := m
  cases program with
  | done =>
      rcases leave_cases w ⟨p, s, .done (), callers⟩ with ⟨_, _, eq⟩ | eq <;> cases eq.symm.trans sleeps
  | ask r next =>
      cases r with
      | sleep milliseconds =>
          cases sleeps
          exact ⟨next, rfl, rfl, rfl⟩
      | abort cause =>
          rcases unwind_cases w p.token (.aborted p.id cause) callers with ⟨_, _, eq⟩ | eq <;>
            cases eq.symm.trans sleeps
      | _ => cases sleeps

/-- A machine rests because its program asks for it. -/
theorem step_resting (rests : m.step g w = .resting w' m') :
    ∃ next, m.program = .ask .rest next ∧ w' = w ∧ m' = { m with program := next () } := by
  obtain ⟨p, s, program, callers⟩ := m
  cases program with
  | done =>
      rcases leave_cases w ⟨p, s, .done (), callers⟩ with ⟨_, _, eq⟩ | eq <;> cases eq.symm.trans rests
  | ask r next =>
      cases r with
      | rest =>
          cases rests
          exact ⟨next, rfl, rfl, rfl⟩
      | abort cause =>
          rcases unwind_cases w p.token (.aborted p.id cause) callers with ⟨_, _, eq⟩ | eq <;>
            cases eq.symm.trans rests
      | _ => cases rests

/-- The end of a machine leaves the world as it is. -/
theorem step_ended {result : Except PulseError Report} (ends : m.step g w = .ended w' result) : w' = w := by
  obtain ⟨p, s, program, callers⟩ := m
  cases program with
  | done =>
      rcases leave_cases w ⟨p, s, .done (), callers⟩ with ⟨_, _, eq⟩ | eq <;> cases eq.symm.trans ends
      rfl
  | ask r next =>
      cases r with
      | abort cause =>
          rcases unwind_cases w p.token (.aborted p.id cause) callers with ⟨_, _, eq⟩ | eq <;>
            cases eq.symm.trans ends
          rfl
      | _ => cases ends

/-- After a move, what waits still has a property, and so has the program unless it has just been
entered. -/
theorem Framed.step
    (goesOn : ∀ {root s r next}, P root s (.ask r next) → ∀ reply, P root s (next reply))
    (h : Framed P m) (moves : (m.step g w).next? = some (w', m')) :
    Waits P m'.pulse.root m'.callers ∧
      (P m'.pulse.root m'.scope m'.program ∨
        ∃ r next, m.program = .ask r next ∧
          Engine.Enters g m.pulse.root m.scope r m'.pulse.root m'.scope m'.program) := by
  have program := h.program
  rw [Machine.step] at moves
  split at moves
  next finished =>
    have framed := h.callers.leave moves
    exact ⟨framed.callers, .inl framed.program⟩
  next action next asks =>
    rw [asks] at program
    have root := action.root_perform w m.pulse
    cases moves
    exact ⟨root.symm ▸ h.callers, .inl (root.symm ▸ goesOn program _)⟩
  next n depth next asks =>
    rw [asks] at program
    cases moves
    exact ⟨⟨goesOn program, h.callers⟩, .inr ⟨_, _, asks, .evaluate n depth⟩⟩
  next n depth next asks =>
    rw [asks] at program
    cases moves
    exact ⟨⟨goesOn program, h.callers⟩, .inr ⟨_, _, asks, .activate n depth⟩⟩
  next milliseconds next asks =>
    rw [asks] at program
    cases moves
    exact ⟨h.callers, .inl (goesOn program ())⟩
  next next asks =>
    rw [asks] at program
    cases moves
    exact ⟨h.callers, .inl (goesOn program ())⟩
  next next asks =>
    cases moves
    exact ⟨h.callers, .inr ⟨_, _, asks, .restart⟩⟩
  next cause next asks =>
    have framed := h.callers.unwind moves
    exact ⟨framed.callers, .inl framed.program⟩
  next root next asks =>
    rw [asks] at program
    cases moves
    exact ⟨⟨goesOn program, h.callers⟩, .inr ⟨_, _, asks, .pulse root⟩⟩

/-- A property of what is left to do is kept by every run, if nothing without it can be entered. -/
theorem Framed.run {others : World → World → Prop} {w₀ : World} {m₀ : Machine} {events : List Event}
    (goesOn : ∀ {root s r next}, P root s (.ask r next) → ∀ reply, P root s (next reply))
    (enters : ∀ {root s r next root' s' p}, P root s (.ask r next) →
      Engine.Enters g root s r root' s' p → P root' s' p)
    (h : Framed P m₀) (run : Machine.Run g others w₀ m₀ events w m) : Framed P m := by
  induction run with
  | refl => exact h
  | others _ _ ih => exact ih
  | @move _ _ _ m _ _ moves ih =>
      obtain ⟨callers, program | ⟨r, next, asks, entered⟩⟩ := ih.step goesOn moves
      · exact ⟨program, callers⟩
      · exact ⟨enters (asks ▸ ih.program) entered, callers⟩

end Machine

end FlowGraph
