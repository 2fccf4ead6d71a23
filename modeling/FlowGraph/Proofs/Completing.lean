import FlowGraph.Proofs.Isolation

/-!
# Programs that are carried out

A machine keeps programs that wait for each other. When it has come to its end, each of them has been
carried out to its own end, one within the other: what a program entered was over before the program went
on. So a run that ends can be told without the machine, as the programs tell it: which events belong to
which program is a matter of what entered what.
-/

namespace FlowGraph

/-- A change of the world that does not take the cancellation of a token back. -/
def World.Onward (t : TokenId) (w w' : World) : Prop :=
  w.isCancelled t = true → w'.isCancelled t = true

/-- A program of a node is carried out to its end, in so many steps and with these events and this result.
What it enters is carried out before it goes on; starting over is carrying out the node's process. -/
inductive Engine.CarriedOut (g : Graph) :
    {α : Type} → Scope → Engine α → (steps : Nat) → List Event → α → Prop where
  | done {α s} (a : α) : CarriedOut g s (.done a) 0 [] a
  | act {α s a reply steps later} {next : a.Reply → Engine α} {b : α}
      (rest : CarriedOut g s (next reply) steps later b) :
      CarriedOut g s (.ask (.act a) next) (steps + 1) (.did a reply :: later) b
  | evaluate {α s n depth inner within steps later} {next : Unit → Engine α} {b : α}
      (entered : CarriedOut g ⟨n, depth⟩ (Engine.evaluation g ⟨n, depth⟩) inner within ())
      (rest : CarriedOut g s (next ()) steps later b) :
      CarriedOut g s (.ask (.evaluate n depth) next) (inner + steps + 1) (within ++ later) b
  | activate {α s n depth inner within steps later} {next : Unit → Engine α} {b : α}
      (entered : CarriedOut g ⟨n, depth⟩ (Engine.activation g ⟨n, depth⟩) inner within ())
      (rest : CarriedOut g s (next ()) steps later b) :
      CarriedOut g s (.ask (.activate n depth) next) (inner + steps + 1)
        (.entered n depth :: (within ++ later)) b
  | sleep {α s milliseconds steps later} {next : Unit → Engine α} {b : α}
      (rest : CarriedOut g s (next ()) steps later b) :
      CarriedOut g s (.ask (.sleep milliseconds) next) (steps + 1) later b
  | rest {α s steps later} {next : Unit → Engine α} {b : α}
      (rest : CarriedOut g s (next ()) steps later b) :
      CarriedOut g s (.ask .rest next) (steps + 1) later b
  | restart {s steps later} {next : Empty → Engine Unit}
      (again : CarriedOut g s (Engine.process g s) steps later ()) :
      CarriedOut g s (.ask .restart next) (steps + 1) later ()

namespace Engine

variable {g : Graph} {s : Scope} {α β : Type} {steps : Nat} {events : List Event}

theorem CarriedOut.eq_of_done {a b : α} (h : CarriedOut g s (.done a) steps events b) : b = a := by
  cases h
  rfl

/-- A program that does not start over is carried out before what follows it. -/
theorem CarriedOut.split {p : Engine α} {f : α → Engine β} {b : β} (once : p.Asks (· ≠ .restart))
    (h : CarriedOut g s (p.andThen f) steps events b) :
    ∃ a first second before after, CarriedOut g s p first before a ∧
      CarriedOut g s (f a) second after b ∧ events = before ++ after ∧ steps = first + second := by
  induction p generalizing steps events with
  | done a => exact ⟨a, 0, steps, [], events, .done a, h, rfl, (Nat.zero_add _).symm⟩
  | ask r next ih =>
      rw [Program.ask_andThen] at h
      cases h with
      | act rest =>
          obtain ⟨a, i, j, before, after, here, there, rfl, rfl⟩ := ih _ (once.2 _) rest
          exact ⟨a, _, j, _, after, .act here, there, rfl, by omega⟩
      | evaluate entered rest =>
          obtain ⟨a, i, j, before, after, here, there, rfl, rfl⟩ := ih _ (once.2 _) rest
          exact ⟨a, _, j, _, after, .evaluate entered here, there, (List.append_assoc ..).symm, by omega⟩
      | activate entered rest =>
          obtain ⟨a, i, j, before, after, here, there, rfl, rfl⟩ := ih _ (once.2 _) rest
          exact ⟨a, _, j, _, after, .activate entered here, there, by simp, by omega⟩
      | sleep rest =>
          obtain ⟨a, i, j, before, after, here, there, rfl, rfl⟩ := ih _ (once.2 _) rest
          exact ⟨a, _, j, _, after, .sleep here, there, rfl, by omega⟩
      | rest rest =>
          obtain ⟨a, i, j, before, after, here, there, rfl, rfl⟩ := ih _ (once.2 _) rest
          exact ⟨a, _, j, _, after, .rest here, there, rfl, by omega⟩
      | restart again => exact absurd rfl once.1

end Engine

namespace Machine

/-- A machine goes on to its end, by moves of its own and while others change the world, with these events. -/
inductive Finishes (g : Graph) (others : World → World → Prop) (w' : World)
    (result : Except PulseError Report) : World → Machine → List Event → Prop where
  | ended {w m} (ends : m.step g w = .ended w' result) : Finishes g others w' result w m []
  | others {w w₁ m events} (change : others w w₁) (rest : Finishes g others w' result w₁ m events) :
      Finishes g others w' result w m events
  | move {w w₁ m m₁ events} (moves : (m.step g w).next? = some (w₁, m₁))
      (rest : Finishes g others w' result w₁ m₁ events) :
      Finishes g others w' result w m ((m.event? w).toList ++ events)

variable {g : Graph} {others : World → World → Prop} {w w₀ w' : World} {m m₀ : Machine}
  {events later : List Event} {result : Except PulseError Report}

/-- A run that can be finished is one from its start. -/
theorem Run.finishes (run : Run g others w₀ m₀ events w m)
    (rest : Finishes g others w' result w m later) :
    Finishes g others w' result w₀ m₀ (events ++ later) := by
  induction run generalizing later with
  | refl => exact rest
  | others _ change ih => exact ih (.others change rest)
  | move _ moves ih =>
      rw [List.append_assoc]
      exact ih (.move moves rest)

/-- The programs that wait for each other are carried out, each of them after what it waits for. -/
def CarryOut (g : Graph) : List Caller → List Event → Prop
  | [], events => events = []
  | .node s next :: callers, events =>
    ∃ steps before after, Engine.CarriedOut g s (next ()) steps before () ∧ CarryOut g callers after ∧
      events = before ++ after
  | .pulse .. :: _, _ => False

/-- A machine that finishes with a report has carried out its program, and then those that wait for it. -/
theorem Finishes.carryOut (catalogue : g.FromCatalogue) {report : Report} (underWay : g.UnderWay m)
    (h : Finishes g others w' (.ok report) w m events) :
    CarryOut g (.node m.scope (fun _ => m.program) :: m.callers) events := by
  induction h with
  | @ended w m ends =>
      obtain ⟨p, s, program, callers⟩ := m
      cases program with
      | done =>
          cases callers with
          | nil => exact ⟨0, [], [], .done (), rfl, rfl⟩
          | cons caller callers =>
              obtain ⟨scope, next, rfl⟩ := underWay.fits.single caller (List.mem_cons_self ..)
              cases ends
      | ask r next =>
          cases r with
          | abort cause =>
              simp only [step, unwind_eq_ended underWay.fits.single] at ends
              cases ends
          | _ => cases ends
  | others _ _ ih => exact ih underWay
  | @move w w₁ m m₁ later moves _ ih =>
      have rest := ih (underWay.next catalogue moves)
      obtain ⟨p, s, program, callers⟩ := m
      cases program with
      | done =>
          cases callers with
          | nil => cases moves
          | cons caller callers =>
              obtain ⟨scope, next, rfl⟩ := underWay.fits.single caller (List.mem_cons_self ..)
              cases moves
              exact ⟨0, [], later, .done (), rest, rfl⟩
      | ask r next =>
          cases r with
          | act a =>
              cases moves
              obtain ⟨steps, before, after, here, there, rfl⟩ := rest
              exact ⟨_, _, after, .act here, there, rfl⟩
          | evaluate n depth =>
              cases moves
              obtain ⟨inner, within, _, entered, ⟨steps, before, after, here, there, rfl⟩, rfl⟩ := rest
              exact ⟨_, _, after, .evaluate entered here, there, by simp [event?]⟩
          | activate n depth =>
              cases moves
              obtain ⟨inner, within, _, entered, ⟨steps, before, after, here, there, rfl⟩, rfl⟩ := rest
              exact ⟨_, _, after, .activate entered here, there, by simp [event?]⟩
          | sleep milliseconds =>
              cases moves
              obtain ⟨steps, before, after, here, there, rfl⟩ := rest
              exact ⟨_, before, after, .sleep here, there, rfl⟩
          | rest =>
              cases moves
              obtain ⟨steps, before, after, here, there, rfl⟩ := rest
              exact ⟨_, before, after, .rest here, there, rfl⟩
          | restart =>
              cases moves
              obtain ⟨steps, before, after, here, there, rfl⟩ := rest
              exact ⟨_, before, after, .restart here, there, rfl⟩
          | abort cause =>
              simp only [step, unwind_eq_ended underWay.fits.single] at moves
              cases moves
          | pulse root => exact absurd rfl (underWay.alone root next)

theorem world_of_next? {progress : Progress} (moves : progress.next? = some (w', m)) :
    progress.world = w' := by
  cases progress <;> cases moves <;> rfl

/-- A pulse that is not cancelled does not find itself cancelled. -/
theorem event?_of_live (live : w.isCancelled m.pulse.token = false) :
    m.event? w ≠ some (.did .isCancelled true) := by
  intro looks
  rw [event?] at looks
  split at looks
  next action next asks =>
    obtain ⟨rfl, found⟩ := Event.did.inj (Option.some.inj looks)
    rw [Action.perform, live] at found
    cases found
  next => cases looks
  next => cases looks

/-- A pulse that is not cancelled when it ends has never found itself cancelled. -/
theorem Finishes.uncancelled (catalogue : g.FromCatalogue) {report : Report} {token : TokenId}
    (underWay : g.UnderWay m) (own : m.pulse.token = token)
    (h : Finishes g (World.Onward token) w' (.ok report) w m events)
    (uncancelled : report.cancelled = false) :
    w.isCancelled token = false ∧ .did .isCancelled true ∉ events := by
  induction h with
  | @ended w m ends =>
      refine ⟨?_, List.not_mem_nil⟩
      rwa [report_of_ended ends, Pulse.report, own] at uncancelled
  | others change _ ih =>
      obtain ⟨live, unseen⟩ := ih underWay own
      refine ⟨?_, unseen⟩
      by_contra cancelled
      rw [change (by simpa using cancelled)] at live
      cases live
  | @move w w₁ m m₁ later moves _ ih =>
      obtain ⟨live, unseen⟩ := ih (underWay.next catalogue moves) ((underWay.token_step moves).trans own)
      have same : w.isCancelled token = false := by
        have kept := underWay.isCancelled_step w token
        rw [world_of_next? moves] at kept
        rw [← kept, live]
      refine ⟨same, fun member => ?_⟩
      rcases List.mem_append.mp member with here | later
      · exact event?_of_live (own ▸ same) (Option.mem_toList.mp here)
      · exact unseen later

end Machine

end FlowGraph
