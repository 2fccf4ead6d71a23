import FlowGraph.Proofs.Arrivals
import FlowGraph.Proofs.Pursuing

/-!
# What a node has done

The process of a node makes one request after the other, and goes on only when it has a reply. So what an
activation has done by some point of a run is a list of requests with their replies, of which only the last
one may still be under way. What it has read at an input is what the input was worth at that moment, by all
that had been published before, whoever published it.
-/

namespace FlowGraph

/-- Whether an event is that a pulse finds itself cancelled. -/
def Event.findsCancelled : Event → Bool
  | .did .isCancelled cancelled => cancelled
  | _ => false

theorem unseen_of_any {events : List Event} (h : events.any Event.findsCancelled = false) : Unseen events := by
  intro found
  cases (List.any_eq_false.mp h _ found) rfl

/-- A request that a node has made, with its reply unless it is still under way, and the events that this has
taken so far. -/
structure Exchange where
  request : NodeRequest
  reply : Option request.Reply
  events : List Event

/-- A request and its reply. -/
def Exchange.told (e : Exchange) : (r : NodeRequest) × Option r.Reply :=
  ⟨e.request, e.reply⟩

namespace Engine

/-- The exchanges by which what is left of a node's process has come from a state of the pulse to another one.
Starting the process over is none. -/
inductive Does (g : Graph) (s : Scope) (process : NodeProgram Unit) :
    (rest : NodeProgram Unit) → Pulse → List Exchange → Pulse → (isOver : Bool) → Prop where
  | done {p} : Does g s process (.done ()) p [] p true
  | leftOff {rest p} : Does g s process rest p [] p false
  | again {next p exchanges p' isOver} (rest : Does g s process process p exchanges p' isOver) :
      Does g s process (.ask .again next) p exchanges p' isOver
  | underWay {r next steps p events p'} (starts : r ≠ .again)
      (asked : Pursued g s (answer g s r) steps p events p' none) :
      Does g s process (.ask r next) p [⟨r, none, events⟩] p' false
  | answered {r next steps p events p₁ reply exchanges p' isOver} (starts : r ≠ .again)
      (answers : Pursued g s (answer g s r) steps p events p₁ (some reply))
      (rest : Does g s process (next reply) p₁ exchanges p' isOver) :
      Does g s process (.ask r next) p (⟨r, some reply, events⟩ :: exchanges) p' isOver

variable {g : Graph} {s : Scope} {process rest : NodeProgram Unit} {m : Member} {p p' : Pulse}
  {exchanges : List Exchange} {isOver : Bool} {steps : Nat} {events : List Event}

/-- Only starting over starts over. -/
theorem once_answer (built : g.Built) {r : NodeRequest} (starts : r ≠ .again) :
    (answer g s r).Asks (· ≠ .restart) := by
  by_cases fires : ∃ flow, r = .fire flow
  · obtain ⟨flow, rfl⟩ := fires
    refine (plain_fire built flow).mono fun _ plain => ?_
    rintro rfl
    exact plain
  · have fires : ∀ flow, r ≠ .fire flow := fun flow same => fires ⟨flow, same⟩
    exact (still_answer fires starts).mono fun _ still => still.once

/-- A process that is pursued is a list of exchanges. -/
theorem Pursued.does (built : g.Built) (member : g.member? s.node = some m) {result : Option Unit}
    (h : Pursued g s (run g s rest) steps p events p' result) :
    ∃ exchanges, Does g s m.node.process rest p exchanges p' result.isSome ∧
      events = exchanges.flatMap (·.events) := by
  -- Starting over takes a step, and whatever else the process asks for brings it nearer to its end.
  induction steps using Nat.strong_induction_on generalizing rest p events with
  | _ steps again =>
    induction rest generalizing steps p events with
    | done =>
        cases h with
        | done => exact ⟨[], .done, rfl⟩
        | leftOff => exact ⟨[], .leftOff, rfl⟩
    | ask r next ih =>
        have h : Pursued g s ((answer g s r).andThen fun x => run g s (next x)) steps p events p' result := h
        by_cases starts : r = .again
        · subst starts
          cases h with
          | leftOff => exact ⟨[], .leftOff, rfl⟩
          | @restart _ fewer _ _ _ _ _ goesOn =>
              have goesOn : Pursued g s (run g s m.node.process) fewer p events p' result := by
                simpa only [Engine.process, Engine.member, member, Program.pure_eq, Program.bind_eq,
                  Program.done_andThen] using goesOn
              obtain ⟨exchanges, does, rfl⟩ := again fewer (by omega) goesOn
              exact ⟨exchanges, .again does, rfl⟩
        · rcases h.split (once_answer built starts) with
            ⟨rfl, asked⟩ | ⟨reply, first, second, before, after, p₁, answered, goesOn, rfl, rfl⟩
          · exact ⟨_, .underWay starts asked, (List.append_nil _).symm⟩
          · obtain ⟨exchanges, does, rfl⟩ := ih reply second (fun k less => again k (by omega)) goesOn
            exact ⟨_, .answered starts answered does, rfl⟩

/-- A request comes to be made, is under way, or has been answered. -/
theorem Does.ask_cases {r : NodeRequest} {next : r.Reply → NodeProgram Unit}
    (h : Does g s process (.ask r next) p exchanges p' isOver) (starts : r ≠ .again) :
    (exchanges = [] ∧ isOver = false) ∨
      (∃ steps events, exchanges = [⟨r, none, events⟩] ∧ isOver = false ∧
        Pursued g s (answer g s r) steps p events p' none) ∨
      ∃ steps events p₁ reply later, exchanges = ⟨r, some reply, events⟩ :: later ∧
        Pursued g s (answer g s r) steps p events p₁ (some reply) ∧
        Does g s process (next reply) p₁ later p' isOver := by
  cases h with
  | leftOff => exact .inl ⟨rfl, rfl⟩
  | again => exact absurd rfl starts
  | underWay _ asked => exact .inr (.inl ⟨_, _, rfl, rfl, asked⟩)
  | answered _ answers rest => exact .inr (.inr ⟨_, _, _, _, _, rfl, answers, rest⟩)

/-- An activation that looks whether it is cancelled goes on, unless it finds itself so. -/
theorem Does.look_cases {next : Bool → NodeProgram Unit}
    (h : Does g s process (.ask .isCancelled next) p exchanges p' isOver)
    (unseen : Unseen (exchanges.flatMap (·.events))) :
    (exchanges = [] ∧ isOver = false) ∨
      (∃ events, exchanges = [⟨.isCancelled, none, events⟩] ∧ isOver = false) ∨
      ∃ p₁ later, exchanges = ⟨.isCancelled, some false, [.did .isCancelled false]⟩ :: later ∧
        Does g s process (next false) p₁ later p' isOver := by
  rcases h.ask_cases (by simp) with ⟨rfl, rfl⟩ | ⟨_, _, rfl, rfl, _⟩ |
    ⟨_, _, p₁, cancelled, later, rfl, looks, rest⟩
  · exact .inl ⟨rfl, rfl⟩
  · exact .inr (.inl ⟨_, rfl, rfl⟩)
  obtain rfl := looks.eq_of_act
  cases cancelled with
  | true => exact absurd (List.mem_cons_self ..) unseen
  | false => exact .inr (.inr ⟨p₁, later, rfl, rest⟩)

/-- Every request but the last has its reply. -/
theorem Does.answered_dropLast (h : Does g s process rest p exchanges p' isOver) :
    ∀ e ∈ exchanges.dropLast, e.reply.isSome = true := by
  induction h with
  | done | leftOff | underWay => exact List.forall_mem_nil _
  | again _ ih => exact ih
  | @answered _ _ _ _ _ _ _ exchanges _ _ _ _ _ ih =>
      cases exchanges with
      | nil => exact List.forall_mem_nil _
      | cons => exact List.forall_mem_cons.mpr ⟨rfl, ih⟩

/-- What is over has had a reply to every request. -/
theorem Does.all_answered (h : Does g s process rest p exchanges p' isOver) (ended : isOver = true) :
    ∀ e ∈ exchanges, e.reply.isSome = true := by
  induction h with
  | done => exact List.forall_mem_nil _
  | leftOff | underWay => cases ended
  | again _ ih => exact ih ended
  | answered _ _ _ ih => exact List.forall_mem_cons.mpr ⟨rfl, ih ended⟩

section

variable (catalogue : g.FromCatalogue) (member : g.member? s.node = some m) (driven : m.node.isPure = false)

include catalogue member driven

/-- Whatever a driven node asks for leaves the pulse fresh. -/
theorem Pursued.fresh {r : NodeRequest} {reply : r.Reply} (suits : m.node.Suits r) (fresh : g.Fresh p)
    (h : Pursued g s (answer g s r) steps p events p' (some reply)) : g.Fresh p' := by
  have keeps : (answer g s r).wp (g.conduct.Spec s g.Fresh) (fun _ => g.Fresh) p :=
    Graph.wp_answer catalogue fresh member driven suits (fun _ fresh' => fresh') fun _ _ fresh' => fresh'
  have fresh' := h.ensures catalogue keeps fun _ _ fresh' => fresh'
  exact fresh'

/-- What a node has read at a single input is what the input was worth when it was read. -/
theorem Does.current (asks : rest.Asks m.node.Suits) (asks' : process.Asks m.node.Suits)
    (fresh : g.Fresh p) {earlier : List Event} (known : p.published.get? = lastPublished earlier)
    (h : Does g s process rest p exchanges p' isOver) {before after : List Exchange} {index : Nat} {i : Input}
    {c : i.type.Carrier} {events : List Event} (declared : m.descriptor.inputs[index]? = some i)
    (single : i.isList = false)
    (read : exchanges = before ++ ⟨.input index i.type, some c, events⟩ :: after) :
    g.InputIs (lastPublished (earlier ++ before.flatMap (·.events))) ⟨s.node, index⟩ i
      (some (.of i.type c)) := by
  induction h generalizing earlier before with
  | done | leftOff => simp at read
  | again _ ih => exact ih asks' fresh known read
  | underWay =>
      cases before with
      | nil => cases read
      | cons => simp at read
  | @answered r next steps p events p₁ reply later _ _ starts answers _ ih =>
      cases before with
      | nil =>
          cases (List.cons.inj read).1
          have keeps : (answer g s (.input index i.type)).wp (g.conduct.Spec s fun _ => False)
              (fun c _ => g.InputIs p.published.get? ⟨s.node, index⟩ i (some (.of i.type c))) p :=
            Graph.wp_input catalogue fresh ⟨m, member, declared⟩ (fun _ _ => trivial) single
              fun _ _ _ worth => worth
          have worth := answers.ensures catalogue keeps fun _ _ never => never.elim
          simpa [known] using worth
      | cons e before =>
          obtain ⟨rfl, same⟩ := List.cons.inj read
          have fresh' := answers.fresh catalogue member driven asks.1 fresh
          have known' : p₁.published.get? = lastPublished (earlier ++ events) := by
            funext output
            rw [answers.published, known, lastPublished_append]
          have worth := ih (asks.2 reply) fresh' known' same
          simpa using worth

end

/-! ## Activations -/

/-- What an activation begins with: a look at the cancellation, and then it is counted. -/
def opening (g : Graph) (s : Scope) : List Event :=
  [.did .isCancelled false, .did (.begin s.node g.config.recordActivations) ()]

/-- What an activation begins with publishes nothing. -/
theorem lastPublished_opening (earlier : List Event) (s : Scope) :
    lastPublished (earlier ++ opening g s) = lastPublished earlier := by
  funext output
  rw [lastPublished_append]
  rfl

/-- How far an activation of a node has come that flow was let into: it begins, and then the process makes its
requests. -/
inductive Activity (g : Graph) (s : Scope) (m : Member) (p : Pulse) :
    List Event → List Exchange → Pulse → (isOver : Bool) → Prop where
  | entered : Activity g s m p [] [] p false
  | live : Activity g s m p [.did .isCancelled false] [] p false
  | begun {exchanges : List Exchange} {p' : Pulse} {isOver : Bool}
      (does : Does g s m.node.process m.node.process (p.begin s.node g.config.recordActivations) exchanges p'
        isOver) :
      Activity g s m p (opening g s ++ exchanges.flatMap (·.events)) exchanges p' isOver

/-- Flow that is let into a node of a pulse that does not find itself cancelled makes an activation. -/
theorem Pursued.activity (catalogue : g.FromCatalogue) (member : g.member? s.node = some m)
    (accepts : m.descriptor.flowInput = true) {result : Option Unit} (unseen : Unseen events)
    (h : Pursued g s (activation g s) steps p events p' result) :
    ∃ exchanges, Activity g s m p events exchanges p' result.isSome := by
  have ⟨ungated, passes, _⟩ := catalogue.isOpen member accepts
  simp only [activation, Engine.member, member, Program.pure_eq, Program.bind_eq, Program.done_andThen] at h
  cases h with
  | leftOff => exact ⟨[], .entered⟩
  | act w rest =>
      generalize found : (Action.perform w p .isCancelled).1 = cancelled at rest unseen ⊢
      cases cancelled with
      | true => exact absurd (List.mem_cons_self ..) unseen
      | false =>
          simp only [Program.done_andThen, Bool.false_eq_true, if_false, ungated, admitted, passes, run,
            Program.interpret, Program.pure_eq, Program.bind_eq, if_true] at rest
          cases rest with
          | leftOff => exact ⟨[], .live⟩
          | act w rest =>
              obtain ⟨exchanges, does, rfl⟩ := rest.does catalogue.built member
              exact ⟨exchanges, .begun does⟩

end Engine

namespace Graph

variable {g : Graph} {p : Pulse}

/-- What has been published at some point of a run is what its events say. -/
theorem published_of_run (catalogue : g.FromCatalogue) {root : NodeId} {r : Member}
    (triggerable : g.root root = .ok r) {w₀ w : World} {token : TokenId} {events : List Event} {m : Machine}
    (run : Machine.Run g (fun _ _ => True) (Machine.start g w₀ root token).1 (Machine.start g w₀ root token).2
      events w m) : m.pulse.published.get? = lastPublished events :=
  have fits := fits_conduct catalogue triggerable w₀ token
  have start := fresh_start (g := g) w₀ root token
  have ⟨_, _, _, published⟩ := fits.run (verified_conduct catalogue) (follows_published catalogue)
    (fun _ seen => seen) ⟨⟨rfl, start⟩, rfl⟩ run
  published

/-- A single input is worth something at all times. -/
theorem exists_inputIs (catalogue : g.FromCatalogue) (fresh : g.Fresh p) {input : Port} {i : Input}
    (takes : g.Takes input i) (single : i.isList = false) :
    ∃ c, g.InputIs p.published.get? input i (some (.of i.type c)) := by
  have keeps : (Engine.inputValue g ⟨input.node, 0⟩ input.index).wp
      ((g.reading False fun _ => True).Spec ⟨input.node, 0⟩ fun _ => True)
      (fun v _ => g.InputIs p.published.get? input i v) p :=
    wp_inputValue catalogue fresh takes (fun _ _ => trivial) fun _ _ _ worth => worth
  obtain ⟨v, _, _, _, worth⟩ :=
    reading_returns catalogue carries_hasRead keeps
  obtain ⟨c, rfl⟩ := worth.exists_of single
  exact ⟨c, worth⟩

end Graph

namespace Machine

variable {g : Graph} {others : World → World → Prop} {n : NodeId} {k : Member} {w w' : World}
  {m m' : Machine} {events : List Event}

/-- A run from where flow is let into a node begins with the activation of the node, and there is nothing
else to it unless the activation is over. -/
theorem Run.activity (catalogue : g.FromCatalogue) (underWay : g.UnderWay m) (arrives : m.Arrives g n)
    (member : g.member? n = some k) (accepts : k.descriptor.flowInput = true)
    (run : Run g others w m events w' m') :
    ∃ within after isOver p', events = within ++ after ∧ (isOver = false → after = [] ∧ m'.Inside m.callers) ∧
      (Unseen within → ∃ exchanges, Engine.Activity g m.scope k m.pulse within exchanges p' isOver) := by
  obtain ⟨rfl, program⟩ := arrives
  rcases run.pursued catalogue underWay with ⟨steps, inside, pursued⟩ | ⟨within, after, steps, p, pursued, rfl⟩
  · rw [program] at pursued
    exact ⟨events, [], false, m'.pulse, (List.append_nil _).symm, fun _ => ⟨rfl, inside⟩,
      fun unseen => pursued.activity catalogue member accepts unseen⟩
  · rw [program] at pursued
    exact ⟨within, after, true, p, rfl, nofun, fun unseen => pursued.activity catalogue member accepts unseen⟩

end Machine

end FlowGraph
