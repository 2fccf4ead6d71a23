import FlowGraph.Proofs.Composing
import FlowGraph.Proofs.Limits
import FlowGraph.Proofs.Recomputing

/-!
# Listing activations or not

Whether activations are listed is asked in one place, where an activation begins, and the list is read in one
place, where the pulse reports. A node that runs another pulse is told its id and nothing else of the report.
So the same pulse does the same whether its activations are listed or not, move by move, in the same world,
and reports the same apart from the list.
-/

namespace FlowGraph

/-- The same graph, except that it does not list activations. -/
def Graph.unlisted (g : Graph) : Graph :=
  { g with config := { g.config with recordActivations := false } }

def Report.unlisted (r : Report) : Report :=
  { r with activations := [] }

def EngineRequest.unlisted : EngineRequest → EngineRequest
  | .act (.begin n _) => .act (.begin n false)
  | r => r

/-- The same requests, as they are made where activations are not listed. -/
def Log.unlisted (log : Log) : Log :=
  log.map fun entry => (entry.1, entry.2.unlisted)

namespace Pulse

def unlisted (p : Pulse) : Pulse :=
  { p with activations := #[] }

theorem foldl_memoize (p : Pulse) (resting : List (Port × Value)) :
    resting.foldl (fun p e => p.memoize e.1 e.2) p =
      { p with memo := resting.foldl (fun memo e => memo.insertNew e.1 e.2) p.memo } := by
  induction resting generalizing p with
  | nil => rfl
  | cons e rest ih => exact ih _

theorem completeEvaluation_eq (p : Pulse) (resting : List (Port × Value)) :
    p.completeEvaluation resting =
      { p with
        evaluations := p.evaluations + 1
        memo := resting.foldl (fun memo e => memo.insertNew e.1 e.2) p.memo } :=
  foldl_memoize { p with evaluations := p.evaluations + 1 } resting

end Pulse

namespace Engine

/-- A request that is made in the same way whether activations are listed or not, and gets the same reply. -/
def Common : EngineRequest → Prop
  | .act (.begin ..) | .pulse _ => False
  | _ => True

theorem Common.unlisted_eq {r : EngineRequest} (h : Common r) : r.unlisted = r := by
  cases r with
  | act a => cases a <;> first | exact h.elim | rfl
  | _ => rfl

/-- What a common action does has nothing to do with the list. -/
theorem Common.perform {a : Action} (h : Common (.act a)) (w : World) (p : Pulse) :
    a.perform w p.unlisted =
      ((a.perform w p).1, (a.perform w p).2.1, (a.perform w p).2.2.unlisted) := by
  cases a with
  | begin n list => exact h.elim
  | completeEvaluation resting =>
      simp only [Action.perform, Pulse.completeEvaluation_eq]
      rfl
  | _ => rfl

variable {g : Graph} {s : Scope} {α β : Type}

/-- Two programs are the same, except that the second one lists no activations and is told of pulses that list
none. -/
inductive Unlists : Engine α → Engine α → Prop where
  | done (a) : Unlists (.done a) (.done a)
  | ask {r next next'} (common : Common r) (later : ∀ reply, Unlists (next reply) (next' reply)) :
      Unlists (.ask r next) (.ask r next')
  | begin (n list) {next next'} (later : Unlists (next ()) (next' ())) :
      Unlists (.ask (.act (.begin n list)) next) (.ask (.act (.begin n false)) next')
  | pulse (n) {next next'} (later : ∀ result, Unlists (next result) (next' (result.map Report.unlisted))) :
      Unlists (.ask (.pulse n) next) (.ask (.pulse n) next')

theorem Unlists.andThen {p q : Engine α} (h : Unlists p q) {f f' : α → Engine β}
    (later : ∀ a, Unlists (f a) (f' a)) : Unlists (p.andThen f) (q.andThen f') := by
  induction h with
  | done a => exact later a
  | ask common _ ih => exact .ask common ih
  | begin n list _ ih => exact .begin n list ih
  | pulse n _ ih => exact .pulse n ih

theorem unlists_of_common {p : Engine α} (common : p.Asks Common) : Unlists p p := by
  induction p with
  | done a => exact .done a
  | ask r next ih => exact .ask common.1 fun reply => ih reply (common.2 reply)

theorem Ordinary.common {r : EngineRequest} (h : Ordinary g s r) : Common r := by
  cases r with
  | act a => cases a <;> first | exact h.elim | trivial
  | pulse => exact h.elim
  | _ => trivial

theorem ReadsAt.common {depth : Nat} {r : EngineRequest} (h : ReadsAt g depth r) : Common r := by
  cases r with
  | act a => cases a <;> first | exact h.elim | trivial
  | pulse => exact h.elim
  | _ => trivial

/-- Nothing that is composed of readings and ordinary requests has to do with the list. -/
theorem Composed.unlists {p : Engine α} (h : Composed g s p) : Unlists p p := by
  induction h with
  | done a => exact .done a
  | ask ordinary _ ih => exact .ask ordinary.common ih
  | read depth output _ ih =>
      have common : (resolve g depth output).Asks Common :=
        (readsAt_resolve output).mono fun _ reads => reads.common
      exact (unlists_of_common common).andThen ih
  | restart next => exact .ask trivial fun reply => reply.elim
  | @pulse n next _ ih =>
      apply Unlists.pulse
      intro result
      have ids : (result.map Report.unlisted).map (·.pulse) = result.map (·.pulse) := by
        cases result <;> rfl
      rw [ids]
      exact ih _

/-! ## The rules -/

theorem answer_unlisted (r : NodeRequest) : answer g.unlisted s r = answer g s r := by
  cases r with
  | publish index v =>
      have dependents (output : Port) : g.unlisted.dependents output = g.dependents output :=
        Graph.dependents_withConfig output
      rw [answer, answer, publish, publish, dependents]
      rfl
  | inputs index t =>
      have values (depth : Nat) (outputs : List Port) :
          resolveAll g.unlisted depth outputs = resolveAll g depth outputs :=
        resolveAll_withConfig depth outputs
      simp only [answer, inputValues, values]
      rfl
  | _ => rfl

theorem run_unlisted (p : NodeProgram α) : run g.unlisted s p = run g s p := by
  rw [run, run, funext answer_unlisted]

theorem process_unlisted : process g.unlisted s = process g s := by
  simp only [process, run_unlisted]
  rfl

theorem evaluation_unlisted : evaluation g.unlisted s = evaluation g s := by
  simp only [evaluation, run_unlisted]
  rfl

theorem unlists_of_member {n : NodeId} {f f' : Member → Engine α}
    (later : ∀ m, g.member? n = some m → Unlists (f m) (f' m)) :
    Unlists ((member g n).andThen f) ((member g n).andThen f') := by
  rw [member]
  cases found : g.member? n with
  | some m => exact later m found
  | none => exact .ask trivial fun reply => reply.elim

section

variable (conforms : g.Conforming)

include conforms

theorem unlists_process : Unlists (process g s) (process g.unlisted s) :=
  process_unlisted (g := g) ▸ (composed_process conforms).unlists

theorem unlists_evaluation : Unlists (evaluation g s) (evaluation g.unlisted s) :=
  evaluation_unlisted (g := g) ▸ (composed_evaluation conforms).unlists

theorem unlists_admitted {m : Member} (member : g.member? s.node = some m) :
    Unlists (admitted g s m) (admitted g.unlisted s m) := by
  have writes := conforms.writesDeclared member
  simp only [admitted, run_unlisted]
  apply (composed_run member writes.guard).unlists.andThen
  intro passed
  split
  · exact .begin _ _ (composed_run member writes.process).unlists
  · exact .done _

theorem unlists_activation : Unlists (activation g s) (activation g.unlisted s) := by
  have observes (inputs : List Input) :
      observeFrom g.unlisted s 0 inputs = observeFrom g s 0 inputs := observeFrom_withConfig 0 inputs
  have same : Engine.member g.unlisted s.node = Engine.member g s.node := rfl
  simp only [activation, observes, same]
  apply unlists_of_member
  intro m member
  refine Unlists.ask (r := .act .isCancelled) trivial fun cancelled => ?_
  cases cancelled with
  | true => exact .done _
  | false =>
      simp only [Program.pure_eq, Program.bind_eq, Program.done_andThen, Bool.false_eq_true, if_false]
      split
      · apply (composed_observeFrom 0 m.descriptor.inputs).unlists.andThen
        intro changed
        split
        · exact unlists_admitted conforms member
        · exact .ask trivial fun _ => .done _
      · exact unlists_admitted conforms member

end

end Engine

namespace Machine

/-- Callers that go on in the same way, except that the second ones list no activations. -/
inductive CallersUnlist : List Caller → List Caller → Prop where
  | nil : CallersUnlist [] []
  | node (scope) {next next' callers callers'} (later : (next ()).Unlists (next' ()))
      (rest : CallersUnlist callers callers') :
      CallersUnlist (.node scope next :: callers) (.node scope next' :: callers')
  | pulse (outer : Pulse) (scope) {next next' callers callers'}
      (later : ∀ result, (next result).Unlists (next' (result.map Report.unlisted)))
      (rest : CallersUnlist callers callers') :
      CallersUnlist (.pulse outer scope next :: callers) (.pulse outer.unlisted scope next' :: callers')

/-- Two machines are at the same point of the same pulse, and the second one lists no activations. -/
structure Unlists (m n : Machine) : Prop where
  pulse : n.pulse = m.pulse.unlisted
  scope : m.scope = n.scope
  program : m.program.Unlists n.program
  callers : CallersUnlist m.callers n.callers

end Machine

/-- Two moves lead to the same, except that the second machine lists no activations. -/
inductive Progress.Unlists : Progress → Progress → Prop where
  | running (w) {m n} (same : Machine.Unlists m n) : Unlists (.running w m) (.running w n)
  | sleeping (w milliseconds) {m n} (same : Machine.Unlists m n) :
      Unlists (.sleeping w milliseconds m) (.sleeping w milliseconds n)
  | resting (w) {m n} (same : Machine.Unlists m n) : Unlists (.resting w m) (.resting w n)
  | ended (w result) : Unlists (.ended w result) (.ended w (result.map Report.unlisted))

theorem Progress.Unlists.next {p q : Progress} {w : World} {m : Machine} (h : p.Unlists q)
    (moves : p.next? = some (w, m)) : ∃ n, q.next? = some (w, n) ∧ m.Unlists n := by
  cases h with
  | running w same | sleeping w milliseconds same | resting w same =>
      cases moves
      exact ⟨_, rfl, same⟩
  | ended w result => cases moves

namespace Machine

variable {g : Graph} {log : Log} {w w' : World} {m m' n : Machine} {callers callers' : List Caller}

theorem CallersUnlist.unwind (h : CallersUnlist callers callers') (w : World) (token : TokenId)
    (error : PulseError) : (unwind w token error callers).Unlists (unwind w token error callers') := by
  induction h with
  | nil => exact .ended w (.error error)
  | node scope later rest ih => exact ih
  | pulse outer scope later rest => exact .running _ ⟨rfl, rfl, later (.error error), rest⟩

theorem Unlists.leave (h : m.Unlists n) (w : World) : (m.leave w).Unlists (n.leave w) := by
  obtain ⟨p, s, program, callers⟩ := m
  obtain ⟨_, _, program', callers'⟩ := n
  obtain ⟨rfl, rfl, _, waiting⟩ := h
  cases waiting with
  | nil => exact .ended w (.ok (p.report w))
  | node scope later rest => exact .running w ⟨rfl, rfl, later, rest⟩
  | pulse outer scope later rest => exact .running _ ⟨rfl, rfl, later (.ok (p.report w)), rest⟩

/-- Two such machines move together. -/
theorem Unlists.step (h : m.Unlists n) (conforms : g.Conforming) (w : World) :
    (m.step g w).Unlists (n.step g.unlisted w) ∧
      n.asking? = m.asking?.map fun entry => (entry.1, entry.2.unlisted) := by
  have left := h.leave w
  obtain ⟨p, s, program, callers⟩ := m
  obtain ⟨_, _, program', callers'⟩ := n
  obtain ⟨rfl, rfl, same, waiting⟩ := h
  cases same with
  | done => exact ⟨left, rfl⟩
  | begin k list later => exact ⟨.running w ⟨rfl, rfl, later, waiting⟩, rfl⟩
  | pulse k later =>
      exact ⟨.running _ ⟨rfl, rfl, Engine.unlists_activation conforms, .pulse p s later waiting⟩, rfl⟩
  | @ask r _ _ common later =>
      refine ⟨?_, by simp only [asking?, Option.map_some, common.unlisted_eq]; rfl⟩
      cases r with
      | act a =>
          have performed := common.perform w p
          simp only [Machine.step, performed]
          exact .running _ ⟨rfl, rfl, later _, waiting⟩
      | evaluate k depth =>
          exact .running w ⟨rfl, rfl, Engine.unlists_evaluation conforms, .node s (later ()) waiting⟩
      | activate k depth =>
          exact .running w ⟨rfl, rfl, Engine.unlists_activation conforms, .node s (later ()) waiting⟩
      | sleep milliseconds => exact .sleeping w _ ⟨rfl, rfl, later (), waiting⟩
      | rest => exact .resting w ⟨rfl, rfl, later (), waiting⟩
      | restart => exact .running w ⟨rfl, rfl, Engine.unlists_process conforms, waiting⟩
      | abort cause => exact waiting.unwind w p.token (.aborted p.id cause)
      | pulse k => exact common.elim

/-- Whatever a pulse has done by now, it does without listing activations as well. -/
theorem Unlists.course (conforms : g.Conforming) {w₀ : World} {m₀ n₀ : Machine} (h : m₀.Unlists n₀)
    (course : Course g w₀ m₀ log w m) :
    ∃ n, Course g.unlisted w₀ n₀ log.unlisted w n ∧ m.Unlists n := by
  induction course with
  | refl => exact ⟨n₀, .refl, h⟩
  | others _ later ih =>
      obtain ⟨n, course, same⟩ := ih
      exact ⟨n, course.others later, same⟩
  | @move log w w' m m' _ moves ih =>
      obtain ⟨n, course, same⟩ := ih
      obtain ⟨progress, asks⟩ := same.step conforms w
      obtain ⟨n', moves', same'⟩ := progress.next moves
      refine ⟨n', ?_, same'⟩
      have logs : log.unlisted ++ n.asking?.toList = Log.unlisted (log ++ m.asking?.toList) := by
        rw [asks, Log.unlisted, Log.unlisted, List.map_append]
        cases m.asking? <;> rfl
      exact logs ▸ course.move moves'

theorem unlists_start (conforms : g.Conforming) (w : World) (root : NodeId) (token : TokenId) :
    (start g w root token).2.Unlists (start g.unlisted w root token).2 :=
  ⟨rfl, rfl, Engine.unlists_activation conforms, .nil⟩

end Machine

end FlowGraph
