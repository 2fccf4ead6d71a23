import FlowGraph.Proofs.Requests
import FlowGraph.Proofs.Run

/-!
# Contracts of pulses

What a pulse does is a tree of requests, so what has to hold before a program is computed from what has
to hold after it, request by request. A contract says what each request relies on and what it
guarantees, in terms of some view of the pulse's state. Entering a node is a request like any other: the
node that enters relies on the guarantee, and the node that is entered has to establish it. Neither looks
into the other, which is why a contract that every node's programs keep is kept by a machine with any
number of nodes waiting for each other.
-/

namespace FlowGraph

namespace Program

variable {R : Type} {E : R → Type} {α β σ : Type}

/-- What has to hold before a program for a condition to hold after it, given the same for each
request. -/
def wp (spec : (r : R) → (E r → σ → Prop) → σ → Prop) : Program E α → (α → σ → Prop) → σ → Prop
  | done a, post => post a
  | ask r next, post => spec r fun reply => (next reply).wp spec post

variable {spec : (r : R) → (E r → σ → Prop) → σ → Prop}

@[simp] theorem wp_done (a : α) (post : α → σ → Prop) :
    (done a : Program E α).wp spec post = post a := rfl

instance : LawfulMonad (Program E) :=
  LawfulMonad.mk' (Program E) andThen_done (fun _ _ => rfl) andThen_assoc

theorem wp_andThen (p : Program E α) (f : α → Program E β) (post : β → σ → Prop) :
    (p.andThen f).wp spec post = p.wp spec fun a => (f a).wp spec post := by
  induction p with
  | done a => rfl
  | ask r next ih => exact congrArg (spec r) (funext ih)

theorem wp_interpret_ask {S : Type} {F : S → Type} (answer : (s : S) → Program E (F s)) (s : S)
    (next : F s → Program F α) (post : α → σ → Prop) :
    ((ask s next).interpret answer).wp spec post =
      (answer s).wp spec fun reply => ((next reply).interpret answer).wp spec post :=
  wp_andThen ..

end Program

namespace Engine

/-- The end of a delay. -/
def delayEnd : Engine Bool :=
  .ask (.act .isCancelled) fun cancelled =>
    if cancelled then .done false else .ask (.act .endWait) fun _ => .done true

/-- A delay once the turn has room for it. -/
def delayStart (milliseconds : Nat) : Engine Bool :=
  .ask (.act .isCancelled) fun cancelled =>
    if cancelled then .done false
    else if milliseconds ≠ 0 then .ask (.sleep milliseconds) fun _ => delayEnd else delayEnd

/-- A delay in a turn that is full lets the others go first and is otherwise the same. -/
theorem delay_eq (milliseconds : Nat) :
    delay milliseconds = .ask (.act .isTurnFull) fun full =>
      if full then .ask .rest fun _ => delayStart milliseconds else delayStart milliseconds := rfl

end Engine

/-- What the requests of a pulse rely on, by the node that makes them, and what they guarantee. -/
structure Contract (σ : Type) where
  pre : NodeId → EngineRequest → σ → Prop
  post : (r : EngineRequest) → r.Reply → σ → σ → Prop

namespace Contract

variable {σ : Type}

/-- Starting a process over has no reply; it makes the node owe its caller what an activation
guarantees. -/
def Restarts (c : Contract σ) (s : Scope) (back : σ → Prop) : EngineRequest → σ → Prop
  | .restart, x => ∀ x', c.post (.activate s.node s.depth) () x x' → back x'
  | _, _ => True

/-- What has to hold before a request. -/
structure Spec (c : Contract σ) (s : Scope) (back : σ → Prop) (r : EngineRequest)
    (next : r.Reply → σ → Prop) (x : σ) : Prop where
  allowed : c.pre s.node r x
  goesOn : ∀ reply x', c.post r reply x x' → next reply x'
  startsOver : c.Restarts s back r x

/-- A program of a node that is left as a caller expects. -/
abbrev Keeps (c : Contract σ) (s : Scope) (back : σ → Prop) (program : Engine Unit) (x : σ) : Prop :=
  program.wp (c.Spec s back) (fun _ => back) x

/-- A program whose requests are all allowed and change nothing goes on wherever it ends. -/
theorem wp_of_asks {c : Contract σ} {s : Scope} {back : σ → Prop} {α : Type} {P : EngineRequest → Prop}
    {x : σ} {program : Engine α} {Q : α → σ → Prop} (asks : program.Asks P)
    (steady : ∀ r, P r → c.pre s.node r x ∧ r ≠ .restart ∧ ∀ reply x', c.post r reply x x' → x' = x)
    (next : ∀ a, Q a x) : program.wp (c.Spec s back) Q x := by
  induction program with
  | done a => exact next a
  | ask r rest ih =>
      obtain ⟨allowed, goesOn, same⟩ := steady r asks.1
      refine ⟨allowed, fun reply x' post => ?_, ?_⟩
      · rw [same reply x' post]
        exact ih reply (asks.2 reply)
      · cases r with
        | restart => exact absurd rfl goesOn
        | _ => trivial

/-- Every node establishes what entering it guarantees, and no pulse runs another one. -/
structure Verified (c : Contract σ) (g : Graph) : Prop where
  evaluation : ∀ {by' n depth back x}, c.pre by' (.evaluate n depth) x →
    (∀ x', c.post (.evaluate n depth) () x x' → back x') →
    c.Keeps ⟨n, depth⟩ back (Engine.evaluation g ⟨n, depth⟩) x
  activation : ∀ {by' n depth back x}, c.pre by' (.activate n depth) x →
    (∀ x', c.post (.activate n depth) () x x' → back x') →
    c.Keeps ⟨n, depth⟩ back (Engine.activation g ⟨n, depth⟩) x
  process : ∀ {s back x}, c.pre s.node .restart x →
    (∀ x', c.post (.activate s.node s.depth) () x x' → back x') →
    c.Keeps s back (Engine.process g s) x
  alone : ∀ {by' root x}, ¬ c.pre by' (.pulse root) x

/-- What a contract speaks about can follow a pulse, whose events so far and whose state it is seen from,
through every request that is carried out at once. -/
structure Follows (c : Contract σ) (view : List Event → World → Pulse → σ → Prop) : Prop where
  act : ∀ {n a events w p x}, c.pre n (.act a) x → view events w p x →
    ∃ x', c.post (.act a) (a.perform w p).1 x x' ∧
      view (events ++ [.did a (a.perform w p).1]) (a.perform w p).2.1 (a.perform w p).2.2 x'
  enter : ∀ {n k depth events w p x}, c.pre n (.activate k depth) x → view events w p x →
    view (events ++ [.entered k depth]) w p x
  sleep : ∀ {n milliseconds events w p x}, c.pre n (.sleep milliseconds) x → view events w p x →
    ∃ x', c.post (.sleep milliseconds) () x x' ∧ view events w p x'
  rest : ∀ {n events w p x}, c.pre n .rest x → view events w p x →
    ∃ x', c.post .rest () x x' ∧ view events w p x'

/-- What the allowed actions keep can be seen as well. -/
theorem Follows.also {c : Contract σ} {view : List Event → World → Pulse → σ → Prop}
    (follows : c.Follows view) {more : List Event → World → Pulse → Prop}
    (act : ∀ {n a events w p x}, c.pre n (.act a) x → view events w p x → more events w p →
      more (events ++ [.did a (a.perform w p).1]) (a.perform w p).2.1 (a.perform w p).2.2)
    (enter : ∀ {k depth events w p}, more events w p → more (events ++ [.entered k depth]) w p) :
    c.Follows fun events w p x => view events w p x ∧ more events w p where
  act allowed seen := by
    obtain ⟨x', post, seen'⟩ := follows.act allowed seen.1
    exact ⟨x', post, seen', act allowed seen.1 seen.2⟩
  enter allowed seen := ⟨follows.enter allowed seen.1, enter seen.2⟩
  sleep allowed seen := by
    obtain ⟨x', post, seen'⟩ := follows.sleep allowed seen.1
    exact ⟨x', post, seen', seen.2⟩
  rest allowed seen := by
    obtain ⟨x', post, seen'⟩ := follows.rest allowed seen.1
    exact ⟨x', post, seen', seen.2⟩

/-- What the callers of a program expect to find when it is done. -/
def owes (c : Contract σ) : List Caller → σ → Prop
  | [], _ => True
  | .node scope next :: callers, x => c.Keeps scope (c.owes callers) (next ()) x
  | .pulse .. :: _, _ => False

/-- A machine has a program that its callers can rely on, and they are nodes of its own pulse. -/
structure Fits (c : Contract σ) (m : Machine) (x : σ) : Prop where
  keeps : c.Keeps m.scope (c.owes m.callers) m.program x
  single : m.IsSingle

variable {c : Contract σ} {g : Graph} {view : List Event → World → Pulse → σ → Prop}
  {events : List Event} {w w' : World} {m m' : Machine} {x : σ}

theorem Fits.spec (h : c.Fits m x) {r : EngineRequest} {next : r.Reply → Engine Unit}
    (asks : m.program = .ask r next) :
    c.Spec m.scope (c.owes m.callers) r
      (fun reply => c.Keeps m.scope (c.owes m.callers) (next reply)) x := by
  have keeps := h.keeps
  rwa [asks] at keeps

/-- What a fitting machine asks for is allowed. -/
theorem Fits.allowed (h : c.Fits m x) {r : EngineRequest} {next : r.Reply → Engine Unit}
    (asks : m.program = .ask r next) : c.pre m.scope.node r x :=
  (h.spec asks).allowed

/-- A fitting machine goes on with every reply that is guaranteed. -/
theorem Fits.goesOn (h : c.Fits m x) {r : EngineRequest} {next : r.Reply → Engine Unit}
    (asks : m.program = .ask r next) {reply : r.Reply} {x' : σ} (post : c.post r reply x x')
    (p : Pulse) : c.Fits { m with pulse := p, program := next reply } x' where
  keeps := (h.spec asks).goesOn reply x' post
  single := h.single

/-- A fitting machine that enters a node waits for what entering guarantees. -/
theorem Fits.enter (h : c.Fits m x) {s : Scope} {program : Engine Unit} {next : Unit → Engine Unit}
    (keeps : c.Keeps s (c.Keeps m.scope (c.owes m.callers) (next ())) program x) :
    c.Fits (m.enter s program next) x where
  keeps := keeps
  single caller member := by
    rcases List.mem_cons.mp member with rfl | older
    · exact ⟨_, _, rfl⟩
    · exact h.single caller older

/-- A fitting machine that is done goes back to a caller that can rely on it. -/
theorem Fits.leave (h : c.Fits m x) (finished : m.program = .done ())
    (moves : (m.leave w).next? = some (w', m')) : c.Fits m' x ∧ w' = w ∧ m'.pulse = m.pulse := by
  have keeps := h.keeps
  rw [finished, Keeps, Program.wp_done] at keeps
  rw [Machine.leave] at moves
  split at moves
  next => cases moves
  next scope next callers eq =>
    rw [eq] at keeps
    cases moves
    exact ⟨⟨keeps, fun caller member => h.single caller (eq ▸ List.mem_cons_of_mem _ member)⟩,
      rfl, rfl⟩
  next outer scope next callers eq =>
    obtain ⟨_, _, node⟩ := h.single (.pulse outer scope next) (eq ▸ List.mem_cons_self ..)
    cases node

/-- A fitting machine that is in view stays so from one move to the next. -/
theorem Fits.step (events : List Event) (verified : c.Verified g) (follows : c.Follows view)
    (h : c.Fits m x) (seen : view events w m.pulse x) (moves : (m.step g w).next? = some (w', m')) :
    ∃ x', c.Fits m' x' ∧ view (events ++ (m.event? w).toList) w' m'.pulse x' := by
  have eventless : m.event? w = none → view (events ++ (m.event? w).toList) w m.pulse x := by
    intro none
    simpa [none] using seen
  rw [Machine.step] at moves
  split at moves
  next finished =>
    have none : m.event? w = none := by simp [Machine.event?, finished]
    obtain ⟨fits, rfl, same⟩ := h.leave finished moves
    exact ⟨x, fits, same ▸ eventless none⟩
  next action next asks =>
    obtain ⟨x', post, seen'⟩ := follows.act (h.allowed asks) seen
    have event : m.event? w = some (.did action (action.perform w m.pulse).1) := by
      simp [Machine.event?, asks]
    cases moves
    exact ⟨x', h.goesOn asks post _, event ▸ seen'⟩
  next n depth next asks =>
    have none : m.event? w = none := by simp [Machine.event?, asks]
    have fits := h.enter (verified.evaluation (h.allowed asks) ((h.spec asks).goesOn ()))
    cases moves
    exact ⟨x, fits, eventless none⟩
  next n depth next asks =>
    have event : m.event? w = some (.entered n depth) := by simp [Machine.event?, asks]
    have fits := h.enter (verified.activation (h.allowed asks) ((h.spec asks).goesOn ()))
    cases moves
    exact ⟨x, fits, event ▸ follows.enter (h.allowed asks) seen⟩
  next milliseconds next asks =>
    have none : m.event? w = none := by simp [Machine.event?, asks]
    obtain ⟨x', post, seen'⟩ := follows.sleep (h.allowed asks) (eventless none)
    cases moves
    exact ⟨x', h.goesOn asks post _, seen'⟩
  next next asks =>
    have none : m.event? w = none := by simp [Machine.event?, asks]
    obtain ⟨x', post, seen'⟩ := follows.rest (h.allowed asks) (eventless none)
    cases moves
    exact ⟨x', h.goesOn asks post _, seen'⟩
  next next asks =>
    have none : m.event? w = none := by simp [Machine.event?, asks]
    have keeps := verified.process (h.allowed asks) (h.spec asks).startsOver
    cases moves
    exact ⟨x, ⟨keeps, h.single⟩, eventless none⟩
  next cause next asks =>
    rw [Machine.unwind_eq_ended h.single] at moves
    cases moves
  next root next asks => exact absurd (h.allowed asks) verified.alone

/-- A fitting machine ends without a change of the world, and with an error only if it was allowed to
abort. -/
theorem Fits.ended (h : c.Fits m x) {result : Except PulseError Report}
    (ends : m.step g w = .ended w' result) :
    w' = w ∧ ∀ error, result = .error error →
      ∃ cause, error = .aborted m.pulse.id cause ∧ c.pre m.scope.node (.abort cause) x := by
  rw [Machine.step] at ends
  split at ends <;> try cases ends
  next finished =>
    rw [Machine.leave] at ends
    split at ends <;> cases ends
    exact ⟨rfl, nofun⟩
  next cause next asks =>
    rw [Machine.unwind_eq_ended h.single] at ends
    cases ends
    refine ⟨rfl, ?_⟩
    rintro _ ⟨⟩
    exact ⟨cause, rfl, h.allowed asks⟩

/-- A pulse that may start fits from its start on. -/
theorem fits_start (verified : c.Verified g) (by' : NodeId) {root : NodeId} {token : TokenId}
    (allowed : c.pre by' (.activate root 0) x) : c.Fits (Machine.start g w root token).2 x where
  keeps := verified.activation allowed fun _ _ => trivial
  single _ member := absurd member List.not_mem_nil

/-- A fitting machine that is in view stays so for the whole of a run. -/
theorem Fits.run (verified : c.Verified g) (follows : c.Follows view)
    {others : World → World → Prop}
    (kept : ∀ {events w w' p x}, others w w' → view events w p x → view events w' p x)
    (h : c.Fits m x) (seen : view [] w m.pulse x) (run : Machine.Run g others w m events w' m') :
    ∃ x', c.Fits m' x' ∧ view events w' m'.pulse x' := by
  induction run with
  | refl => exact ⟨x, h, seen⟩
  | others _ change ih =>
      obtain ⟨x', fits, seen'⟩ := ih
      exact ⟨x', fits, kept change seen'⟩
  | move _ moves ih =>
      obtain ⟨x', fits, seen'⟩ := ih
      exact fits.step _ verified follows seen' moves

end Contract

end FlowGraph
