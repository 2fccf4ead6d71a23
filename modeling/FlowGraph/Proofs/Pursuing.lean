import FlowGraph.Proofs.Unfolding

/-!
# How far programs have come

A program that a machine has started may be over, or it may be under way: in the middle of something that it
has entered, or between two requests. Either way it has got from one state of the pulse to another one, with
certain events. Any run of a machine is made of this: the programs that wait for each other are pursued one
after the other, each of them once what it waits for is over.
-/

namespace FlowGraph

theorem lastPublished_cons (event : Event) (later : List Event) (output : Port) :
    lastPublished (event :: later) output = (lastPublished later output).or (event.valueAt? output) := by
  rw [← List.singleton_append, lastPublished_append, lastPublished_singleton]

theorem lastPublished_entered (n : NodeId) (depth : Nat) (later : List Event) (output : Port) :
    lastPublished (.entered n depth :: later) output = lastPublished later output := by
  rw [lastPublished_cons]
  exact Option.or_none

/-- A node that flow can be let into without being held up there. -/
structure Member.IsOpen (m : Member) : Prop where
  ungated : m.descriptor.hasReactiveInput = false
  passes : m.node.guard = .done true
  driven : m.node.isPure = false

/-- Flow that is let into a node of the catalogue is not held up there. -/
theorem Graph.FromCatalogue.isOpen {g : Graph} (h : g.FromCatalogue) {n : NodeId} {m : Member}
    (member : g.member? n = some m) (accepts : m.descriptor.flowInput = true) : m.IsOpen := by
  obtain ⟨c, node⟩ := h.kind member
  rw [Member.descriptor, node] at accepts
  obtain ⟨ungated, passes⟩ := c.open_of_flowInput accepts
  constructor
  · rw [Member.descriptor, node]
    exact ungated
  · rw [node]
    exact passes
  · simp [Node.isPure, Descriptor.isPure, node, accepts]

/-- Flow has not been let into a node. -/
def Unentered (n : NodeId) (events : List Event) : Prop :=
  ∀ depth, .entered n depth ∉ events

namespace Unentered

variable {n k : NodeId} {depth : Nat} {event : Event} {events later : List Event}

theorem split (h : Unentered n (events ++ later)) : Unentered n events ∧ Unentered n later :=
  ⟨fun depth here => h depth (List.mem_append_left _ here),
    fun depth there => h depth (List.mem_append_right _ there)⟩

theorem tail (h : Unentered n (event :: later)) : Unentered n later :=
  fun depth there => h depth (List.mem_cons_of_mem _ there)

theorem head (h : Unentered n (.entered k depth :: later)) : k ≠ n := by
  rintro rfl
  exact h depth (List.mem_cons_self ..)

end Unentered

/-- A program of a node is pursued from a state of the pulse to another one, in so many steps and with these
events, whatever the world is each time that an action is carried out. It may be left off anywhere; only if it
has come to its end it has a result. -/
inductive Engine.Pursued (g : Graph) :
    {α : Type} → Scope → Engine α → (steps : Nat) → Pulse → List Event → Pulse → (result : Option α) →
      Prop where
  | done {α s p} (a : α) : Pursued g s (.done a) 0 p [] p (some a)
  | leftOff {α s p} (program : Engine α) : Pursued g s program 0 p [] p none
  | act {α s a steps p later p' result} {next : a.Reply → Engine α} (w : World)
      (rest : Pursued g s (next (a.perform w p).1) steps (a.perform w p).2.2 later p' result) :
      Pursued g s (.ask (.act a) next) (steps + 1) p (.did a (a.perform w p).1 :: later) p' result
  | evaluating {α s n depth inner p within p'} {next : Unit → Engine α}
      (entered : Pursued g ⟨n, depth⟩ (Engine.evaluation g ⟨n, depth⟩) inner p within p' none) :
      Pursued g s (.ask (.evaluate n depth) next) (inner + 1) p within p' none
  | evaluate {α s n depth inner steps p within p₁ later p' result} {next : Unit → Engine α}
      (entered : Pursued g ⟨n, depth⟩ (Engine.evaluation g ⟨n, depth⟩) inner p within p₁ (some ()))
      (rest : Pursued g s (next ()) steps p₁ later p' result) :
      Pursued g s (.ask (.evaluate n depth) next) (inner + steps + 1) p (within ++ later) p' result
  | activating {α s n depth inner p within p'} {next : Unit → Engine α}
      (entered : Pursued g ⟨n, depth⟩ (Engine.activation g ⟨n, depth⟩) inner p within p' none) :
      Pursued g s (.ask (.activate n depth) next) (inner + 1) p (.entered n depth :: within) p' none
  | activate {α s n depth inner steps p within p₁ later p' result} {next : Unit → Engine α}
      (entered : Pursued g ⟨n, depth⟩ (Engine.activation g ⟨n, depth⟩) inner p within p₁ (some ()))
      (rest : Pursued g s (next ()) steps p₁ later p' result) :
      Pursued g s (.ask (.activate n depth) next) (inner + steps + 1) p
        (.entered n depth :: (within ++ later)) p' result
  | sleep {α s milliseconds steps p later p' result} {next : Unit → Engine α}
      (rest : Pursued g s (next ()) steps p later p' result) :
      Pursued g s (.ask (.sleep milliseconds) next) (steps + 1) p later p' result
  | rest {α s steps p later p' result} {next : Unit → Engine α}
      (rest : Pursued g s (next ()) steps p later p' result) :
      Pursued g s (.ask .rest next) (steps + 1) p later p' result
  | restart {s steps p later p' result} {next : Empty → Engine Unit}
      (again : Pursued g s (Engine.process g s) steps p later p' result) :
      Pursued g s (.ask .restart next) (steps + 1) p later p' result

namespace Engine

variable {g : Graph} {s : Scope} {α β : Type} {steps : Nat} {events : List Event} {p p' : Pulse}

theorem Pursued.eq_of_done {a b : α} (h : Pursued g s (.done a) steps p events p' (some b)) :
    b = a ∧ events = [] ∧ p' = p := by
  cases h
  exact ⟨rfl, rfl, rfl⟩

theorem Pursued.of_act {a : Action} {next : a.Reply → Engine α} {b : α}
    (h : Pursued g s (.ask (.act a) next) steps p events p' (some b)) :
    ∃ w fewer later, events = .did a (a.perform w p).1 :: later ∧
      Pursued g s (next (a.perform w p).1) fewer (a.perform w p).2.2 later p' (some b) := by
  cases h with
  | act w rest => exact ⟨w, _, _, rfl, rest⟩

/-- A wait that is over is followed by the rest. -/
theorem Pursued.of_sleep {milliseconds : Nat} {next : Unit → Engine α} {b : α}
    (h : Pursued g s (.ask (.sleep milliseconds) next) steps p events p' (some b)) :
    ∃ fewer, Pursued g s (next ()) fewer p events p' (some b) := by
  cases h with
  | sleep rest => exact ⟨_, rest⟩

/-- A turn that has passed to the others is followed by the rest. -/
theorem Pursued.of_rest {next : Unit → Engine α} {b : α}
    (h : Pursued g s (.ask .rest next) steps p events p' (some b)) :
    ∃ fewer, Pursued g s (next ()) fewer p events p' (some b) := by
  cases h with
  | rest rest => exact ⟨_, rest⟩

/-- An action is a single event. -/
theorem Pursued.eq_of_act {a : Action} {reply : a.Reply}
    (h : Pursued g s (Engine.act a) steps p events p' (some reply)) : events = [.did a reply] := by
  obtain ⟨w, _, later, rfl, rest⟩ := h.of_act
  obtain ⟨rfl, rfl, _⟩ := rest.eq_of_done
  rfl

/-- A program that does not start over is under way, or it is over and what follows it is pursued. -/
theorem Pursued.split {program : Engine α} {f : α → Engine β} {result : Option β}
    (once : program.Asks (· ≠ .restart))
    (h : Pursued g s (program.andThen f) steps p events p' result) :
    (result = none ∧ Pursued g s program steps p events p' none) ∨
      ∃ a first second before after p₁, Pursued g s program first p before p₁ (some a) ∧
        Pursued g s (f a) second p₁ after p' result ∧ events = before ++ after ∧ steps = first + second := by
  induction program generalizing steps p events with
  | done a => exact .inr ⟨a, 0, steps, [], events, p, .done a, h, rfl, (Nat.zero_add _).symm⟩
  | ask r next ih =>
      rw [Program.ask_andThen] at h
      cases h with
      | leftOff => exact .inl ⟨rfl, .leftOff _⟩
      | act w rest =>
          rcases ih _ (once.2 _) rest with ⟨rfl, here⟩ | ⟨a, i, j, before, after, p₁, here, there, rfl, rfl⟩
          · exact .inl ⟨rfl, .act w here⟩
          · exact .inr ⟨a, _, j, _, after, p₁, .act w here, there, rfl, by omega⟩
      | evaluating entered => exact .inl ⟨rfl, .evaluating entered⟩
      | evaluate entered rest =>
          rcases ih _ (once.2 _) rest with ⟨rfl, here⟩ | ⟨a, i, j, before, after, p₁, here, there, rfl, rfl⟩
          · exact .inl ⟨rfl, .evaluate entered here⟩
          · exact .inr ⟨a, _, j, _, after, p₁, .evaluate entered here, there, (List.append_assoc ..).symm,
              by omega⟩
      | activating entered => exact .inl ⟨rfl, .activating entered⟩
      | activate entered rest =>
          rcases ih _ (once.2 _) rest with ⟨rfl, here⟩ | ⟨a, i, j, before, after, p₁, here, there, rfl, rfl⟩
          · exact .inl ⟨rfl, .activate entered here⟩
          · exact .inr ⟨a, _, j, _, after, p₁, .activate entered here, there, by simp, by omega⟩
      | sleep rest =>
          rcases ih _ (once.2 _) rest with ⟨rfl, here⟩ | ⟨a, i, j, before, after, p₁, here, there, rfl, rfl⟩
          · exact .inl ⟨rfl, .sleep here⟩
          · exact .inr ⟨a, _, j, _, after, p₁, .sleep here, there, rfl, by omega⟩
      | rest rest =>
          rcases ih _ (once.2 _) rest with ⟨rfl, here⟩ | ⟨a, i, j, before, after, p₁, here, there, rfl, rfl⟩
          · exact .inl ⟨rfl, .rest here⟩
          · exact .inr ⟨a, _, j, _, after, p₁, .rest here, there, rfl, by omega⟩
      | restart again => exact absurd rfl once.1

/-- What is published in the end is what has been published before and meanwhile. -/
theorem Pursued.published {program : Engine α} {result : Option α}
    (h : Pursued g s program steps p events p' result) (output : Port) :
    p'.published.get? output = (lastPublished events output).or (p.published.get? output) := by
  induction h with
  | done | leftOff => rfl
  | @act _ _ a _ p later _ _ _ w _ ih =>
      rw [ih, a.published_perform, lastPublished_cons, Option.or_assoc]
  | evaluating _ ih => exact ih
  | evaluate _ _ ih ih' => rw [ih', ih, lastPublished_append, Option.or_assoc]
  | activating _ ih => rw [ih, lastPublished_entered]
  | activate _ _ ih ih' => rw [ih', ih, lastPublished_entered, lastPublished_append, Option.or_assoc]
  | sleep _ ih | rest _ ih | restart _ ih => exact ih

/-- A program that has come to its end has established what the contract of a whole pulse says. -/
theorem Pursued.ensures (catalogue : g.FromCatalogue) {program : Engine α} {a : α} {back : Pulse → Prop}
    {Q : α → Pulse → Prop} (keeps : program.wp (g.conduct.Spec s back) Q p)
    (leaves : ∀ a p', back p' → Q a p') (h : Pursued g s program steps p events p' (some a)) : Q a p' := by
  have verified := Graph.verified_conduct catalogue
  generalize same : some a = result at h
  induction h generalizing back with
  | done b =>
      cases same
      exact keeps
  | leftOff | evaluating | activating => cases same
  | act w _ ih =>
      have fresh := keeps.allowed.1.perform (w := w) catalogue keeps.allowed.2
      exact ih (keeps.goesOn _ _ ⟨fresh, w, rfl, rfl⟩) leaves same
  | evaluate _ _ ih ih' =>
      have within := ih (verified.evaluation keeps.allowed fun _ post => post) (fun _ _ post => post) rfl
      exact ih' (keeps.goesOn () _ within) leaves same
  | activate _ _ ih ih' =>
      have within := ih (verified.activation keeps.allowed fun _ post => post) (fun _ _ post => post) rfl
      exact ih' (keeps.goesOn () _ within) leaves same
  | sleep _ ih | rest _ ih => exact ih (keeps.goesOn () _ rfl) leaves same
  | restart _ ih =>
      cases same
      have back' := ih (verified.process keeps.allowed keeps.startsOver) (fun _ _ post => post) rfl
      exact leaves () _ back'

/-! ## Who publishes -/

/-- A driven node publishes in a single action. -/
theorem answer_publish (driven : g.isPure s.node = false) (index : Nat) (v : Value) :
    answer g s (.publish index v) = act (.publish ⟨s.node, index⟩ v (g.dependents ⟨s.node, index⟩)) := by
  simp [answer, publish, driven]

/-- A request that publishes nothing at the outputs of a node and puts nothing into its store, unless it lets
flow into that node. -/
def Mute (n : NodeId) (s : Scope) : EngineRequest → Prop
  | .act (.publish output ..) => output.node ≠ n
  | .act (.remember k _) | .act (.update k _ _) => k ≠ n
  | .evaluate k _ => k ≠ n
  | .restart => s.node ≠ n
  | _ => True

variable {n : NodeId}

/-- Another node publishes nothing at the outputs of a driven node and puts nothing into its store. -/
theorem Looks.mute {lookup : Lookup} {program : Engine α} (h : Looks g s lookup program)
    (driven : g.isPure n = false) (other : s.node ≠ n) : program.Asks (Mute n s) := by
  induction program generalizing lookup with
  | done => trivial
  | ask r next ih =>
      cases r with
      | act a =>
          cases a with
          | memoized output =>
              refine ⟨trivial, fun found => ?_⟩
              cases found with
              | some v => exact ih _ (h.2.1 v)
              | none => exact ih _ h.2.2
          | completeEvaluation resting =>
              obtain ⟨_, _, _, _, _, later⟩ := h
              exact ⟨trivial, fun _ => ih _ later⟩
          | publish output v dependents =>
              have own : output.node = s.node := h.2.1.1
              exact ⟨fun same => other (own.symm.trans same), fun _ => ih _ (h.2.2 ())⟩
          | remember k v =>
              have own : k = s.node := h.2.1
              exact ⟨fun same => other (own.symm.trans same), fun _ => ih _ (h.2.2 ())⟩
          | update k t f =>
              have own : k = s.node := h.2.1
              exact ⟨fun same => other (own.symm.trans same), fun reply => ih _ (h.2.2 reply)⟩
          | _ => exact ⟨trivial, fun reply => ih _ (h.2.2 reply)⟩
      | evaluate k depth =>
          have apart : k ≠ n := by
            rintro rfl
            cases driven.symm.trans h.2.1
          exact ⟨apart, fun _ => ih _ h.2.2.2⟩
      | restart => exact ⟨other, nofun⟩
      | pulse root => exact ⟨trivial, fun result => ih _ (h.2.2 result)⟩
      | _ => exact ⟨trivial, fun reply => ih _ (h.2.2 reply)⟩

/-- Firing only lets flow into nodes. -/
theorem mute_fire (flow : Nat) : (fire g s flow).Asks (Mute n s) := by
  have lets (targets : List NodeId) : (activateAll (s.depth + 1) targets).Asks (Mute n s) := by
    induction targets with
    | nil => trivial
    | cons k rest ih =>
        refine ⟨trivial, fun cancelled => ?_⟩
        cases cancelled with
        | true => trivial
        | false => exact ⟨trivial, fun _ => ih⟩
  unfold fire member
  simp only [Program.pure_eq, Program.bind_eq]
  split
  · simp only [Program.done_andThen]
    split
    · exact asks_abort trivial
    · refine ⟨trivial, fun cancelled => ?_⟩
      cases cancelled with
      | true => trivial
      | false =>
          simp only [Program.done_andThen, Bool.false_eq_true, if_false]
          split
          · exact asks_abort trivial
          · exact lets _
  · exact ⟨trivial, nofun⟩

/-- As long as flow is not let into a driven node, what other programs do publishes nothing there. -/
theorem Pursued.unpublished (built : g.Built) (driven : g.isPure n = false) {program : Engine α}
    {result : Option α} (mute : program.Asks (Mute n s))
    (h : Pursued g s program steps p events p' result) (unentered : Unentered n events) (index : Nat) :
    lastPublished events ⟨n, index⟩ = none := by
  induction h with
  | done | leftOff => rfl
  | @act _ _ a _ _ _ _ _ _ w _ ih =>
      rw [lastPublished_cons, ih (mute.2 _) unentered.tail]
      cases a with
      | publish output v dependents =>
          have apart : output ≠ ⟨n, index⟩ := fun same => mute.1 (congrArg Port.node same)
          simp [Event.valueAt?, apart]
      | _ => rfl
  | evaluating _ ih => exact ih ((looks_evaluation built).mute driven mute.1) unentered
  | evaluate _ _ ih ih' =>
      obtain ⟨within, later⟩ := unentered.split
      rw [lastPublished_append, ih' (mute.2 _) later, ih ((looks_evaluation built).mute driven mute.1) within]
      rfl
  | activating _ ih =>
      rw [lastPublished_entered, ih ((looks_activation built).mute driven unentered.head) unentered.tail]
  | activate _ _ ih ih' =>
      obtain ⟨within, later⟩ := unentered.tail.split
      rw [lastPublished_entered, lastPublished_append, ih' (mute.2 _) later,
        ih ((looks_activation built).mute driven unentered.head) within]
      rfl
  | sleep _ ih | rest _ ih => exact ih (mute.2 _) unentered
  | restart _ ih => exact ih ((looks_process built).mute driven mute.1) unentered

end Engine

namespace Machine

/-- A machine comes to some point, by moves of its own and while others change the world, with these events. -/
inductive ComesTo (g : Graph) (others : World → World → Prop) (w' : World) (m' : Machine) :
    World → Machine → List Event → Prop where
  | here : ComesTo g others w' m' w' m' []
  | others {w w₁ m events} (change : others w w₁) (rest : ComesTo g others w' m' w₁ m events) :
      ComesTo g others w' m' w m events
  | move {w w₁ m m₁ events} (moves : (m.step g w).next? = some (w₁, m₁))
      (rest : ComesTo g others w' m' w₁ m₁ events) :
      ComesTo g others w' m' w m ((m.event? w).toList ++ events)

/-- A machine is inside a program that these programs wait for: it has not come to the end of it. -/
def Inside (callers : List Caller) (m : Machine) : Prop :=
  ∃ inner, m.callers = inner ++ callers ∧ (inner = [] → m.program ≠ .done ())

/-- The programs that wait for each other are pursued, each of them once the one before is over, up to where
a machine is. Either one of them has been left off there, or the next one has still to go on. -/
inductive Pursue (g : Graph) (m' : Machine) : List Caller → Pulse → List Event → Prop where
  | waiting {callers} (here : m'.callers = callers) : Pursue g m' callers m'.pulse []
  | within {s next callers steps p events} (inside : m'.Inside callers)
      (pursued : Engine.Pursued g s (next ()) steps p events m'.pulse none) :
      Pursue g m' (.node s next :: callers) p events
  | left {s next callers steps p before p₁ after}
      (pursued : Engine.Pursued g s (next ()) steps p before p₁ (some ()))
      (rest : Pursue g m' callers p₁ after) : Pursue g m' (.node s next :: callers) p (before ++ after)

variable {g : Graph} {others : World → World → Prop} {w w₀ w' : World} {m m₀ m' : Machine} {p p' : Pulse}
  {events later : List Event}

/-- A run is a way to come to where it ends. -/
theorem Run.comesTo (run : Run g others w₀ m₀ events w m) (rest : ComesTo g others w' m' w m later) :
    ComesTo g others w' m' w₀ m₀ (events ++ later) := by
  induction run generalizing later with
  | refl => exact rest
  | others _ change ih => exact ih (.others change rest)
  | move _ moves ih =>
      rw [List.append_assoc]
      exact ih (.move moves rest)

/-- Whoever is inside what a program waits for is inside that program. -/
theorem Inside.outer {caller : Caller} {callers : List Caller} (h : m.Inside (caller :: callers)) :
    m.Inside callers := by
  obtain ⟨inner, same, _⟩ := h
  refine ⟨inner ++ [caller], ?_, fun none => ?_⟩
  · rw [same, List.append_assoc]
    rfl
  · cases inner <;> cases none

/-- The first of some programs has been left off, or it is over and the next one is pursued. -/
theorem Pursue.node_cases {s : Scope} {next : Unit → Engine Unit} {callers : List Caller}
    (h : Pursue g m' (.node s next :: callers) p events) :
    (∃ steps, m'.Inside callers ∧ Engine.Pursued g s (next ()) steps p events m'.pulse none) ∨
      ∃ steps before p₁ after, Engine.Pursued g s (next ()) steps p before p₁ (some ()) ∧
        Pursue g m' callers p₁ after ∧ events = before ++ after := by
  cases h with
  | waiting here => exact .inl ⟨0, ⟨[_], here, nofun⟩, .leftOff _⟩
  | within inside pursued => exact .inl ⟨_, inside, pursued⟩
  | left pursued rest => exact .inr ⟨_, _, _, _, pursued, rest, rfl⟩

/-- What a first program does before it goes on like another one comes before all the rest. -/
theorem Pursue.preceded {s : Scope} {program rest : Engine Unit} {callers : List Caller} {p₁ : Pulse}
    (first : List Event)
    (goesOn : ∀ {steps later p₂ result}, Engine.Pursued g s rest steps p₁ later p₂ result →
      Engine.Pursued g s program (steps + 1) p (first ++ later) p₂ result)
    (h : Pursue g m' (.node s (fun _ => rest) :: callers) p₁ events) :
    Pursue g m' (.node s (fun _ => program) :: callers) p (first ++ events) := by
  rcases h.node_cases with ⟨_, inside, pursued⟩ | ⟨_, _, _, _, pursued, rest, rfl⟩
  · exact .within inside (goesOn pursued)
  · rw [← List.append_assoc]
    exact .left (goesOn pursued) rest

theorem Pursue.evaluate {s : Scope} {n : NodeId} {depth : Nat} {next : Unit → Engine Unit}
    {callers : List Caller}
    (h : Pursue g m' (.node ⟨n, depth⟩ (fun _ => Engine.evaluation g ⟨n, depth⟩) :: .node s next :: callers) p
      events) :
    Pursue g m' (.node s (fun _ => .ask (.evaluate n depth) next) :: callers) p events := by
  rcases h.node_cases with ⟨_, inside, entered⟩ | ⟨_, _, _, _, entered, rest, rfl⟩
  · exact .within inside.outer (.evaluating entered)
  rcases rest.node_cases with ⟨_, inside, pursued⟩ | ⟨_, _, _, _, pursued, later, rfl⟩
  · exact .within inside (.evaluate entered pursued)
  · rw [← List.append_assoc]
    exact .left (.evaluate entered pursued) later

theorem Pursue.activate {s : Scope} {n : NodeId} {depth : Nat} {next : Unit → Engine Unit}
    {callers : List Caller}
    (h : Pursue g m' (.node ⟨n, depth⟩ (fun _ => Engine.activation g ⟨n, depth⟩) :: .node s next :: callers) p
      events) :
    Pursue g m' (.node s (fun _ => .ask (.activate n depth) next) :: callers) p
      (.entered n depth :: events) := by
  rcases h.node_cases with ⟨_, inside, entered⟩ | ⟨_, _, _, _, entered, rest, rfl⟩
  · exact .within inside.outer (.activating entered)
  rcases rest.node_cases with ⟨_, inside, pursued⟩ | ⟨_, _, _, _, pursued, later, rfl⟩
  · exact .within inside (.activate entered pursued)
  · rw [← List.append_assoc, ← List.cons_append]
    exact .left (.activate entered pursued) later

/-- Wherever a machine comes to, it has pursued its program, and then those that wait for it. -/
theorem ComesTo.pursue (catalogue : g.FromCatalogue) (underWay : g.UnderWay m)
    (h : ComesTo g others w' m' w m events) :
    Pursue g m' (.node m.scope (fun _ => m.program) :: m.callers) m.pulse events := by
  induction h with
  | here =>
      cases ends : m'.program with
      | done => exact .left (.done ()) (.waiting rfl)
      | ask r next =>
          have goesOn : m'.program ≠ .done () := by
            rw [ends]
            exact nofun
          exact .within ⟨[], rfl, fun _ => goesOn⟩ (.leftOff _)
  | others _ _ ih => exact ih underWay
  | @move w w₁ m m₁ later moves _ ih =>
      have rest := ih (underWay.next catalogue moves)
      obtain ⟨p, s, program, callers⟩ := m
      cases program with
      | done =>
          cases callers with
          | nil => cases moves
          | cons caller callers =>
              obtain ⟨scope, next, rfl⟩ := underWay.fits.single caller (List.mem_cons_self ..)
              cases moves
              exact .left (.done ()) rest
      | ask r next =>
          cases r with
          | act a =>
              cases moves
              exact rest.preceded [.did a (a.perform w p).1] (.act w)
          | evaluate n depth =>
              cases moves
              exact rest.evaluate
          | activate n depth =>
              cases moves
              exact rest.activate
          | sleep milliseconds =>
              cases moves
              exact rest.preceded [] .sleep
          | rest =>
              cases moves
              exact rest.preceded [] .rest
          | restart =>
              cases moves
              exact rest.preceded [] .restart
          | abort cause =>
              simp only [step, unwind_eq_ended underWay.fits.single] at moves
              cases moves
          | pulse root => exact absurd rfl (underWay.alone root next)

/-- At every point of a run, the program that it starts with is under way, or it was over at some point
before. -/
theorem Run.pursued (catalogue : g.FromCatalogue) (underWay : g.UnderWay m)
    (run : Run g others w m events w' m') :
    (∃ steps, m'.Inside m.callers ∧
        Engine.Pursued g m.scope m.program steps m.pulse events m'.pulse none) ∨
      ∃ within after steps p, Engine.Pursued g m.scope m.program steps m.pulse within p (some ()) ∧
        events = within ++ after := by
  have comes := run.comesTo .here
  rw [List.append_nil] at comes
  rcases (comes.pursue catalogue underWay).node_cases with pursued | ⟨_, _, _, _, pursued, _, rfl⟩
  · exact .inl pursued
  · exact .inr ⟨_, _, _, _, pursued, rfl⟩

end Machine

end FlowGraph
