import FlowGraph.Proofs.Patience

/-!
# Heeding a cancellation

A pulse learns that it is cancelled by looking, and it looks in many places: before a node is activated,
before a flow output is fired and before each of its targets, in every loop, and before and after a wait.
Since a cancellation is never taken back, a look that has found the pulse cancelled decides all later
ones. The contract of this module says that nothing with an effect is asked for after such a look. A node
that goes on after firing has to look again, or to do nothing; so has a loop that starts over.
-/

namespace FlowGraph

/-- What can be noticed of a pulse from outside it, or by a later activation: activations, what is
published, logged, remembered, and observed. -/
def Action.isEffect : Action → Bool
  | .begin .. | .publish .. | .push .. | .remember .. | .update .. | .observe .. => true
  | _ => false

def Event.isEffect : Event → Bool
  | .did action _ => action.isEffect
  | .entered .. => true

/-- The effects among some events, in order. -/
def effects (events : List Event) : List Event :=
  events.filter (·.isEffect)

namespace World

variable {w : World} {t : TokenId}

theorem isCancelled_cancel (h : w.isCancelled t = true) (u : TokenId) :
    (w.cancel u).isCancelled t = true := by
  simp only [isCancelled, cancel, List.getElem?_modify] at h ⊢
  cases found : w.tokens[t.index]? with
  | none => simpa [found] using h
  | some token =>
      simp only [found, Option.map_eq_map, Option.map_some] at h ⊢
      by_cases same : u.index = t.index
      · simp [same]
      · simpa [same] using h

theorem isCancelled_shutDown (h : w.isCancelled t = true) : w.shutDown.isCancelled t = true := by
  simp only [isCancelled, shutDown] at h ⊢
  split
  next token found =>
    simp only [found, Bool.or_eq_true, Bool.and_eq_true] at h ⊢
    exact h.imp_right fun attached => ⟨attached.1, trivial⟩
  next => rfl

theorem isCancelled_reset (h : w.isCancelled t = true) (resets : List (NodeId × Reset)) :
    (w.reset resets).isCancelled t = true := by
  rw [w.reset_keeps (·.isCancelled t) resets fun _ _ _ => rfl]
  exact h

end World

theorem Action.token_perform (a : Action) (w : World) (p : Pulse) :
    (a.perform w p).2.2.token = p.token := by
  cases a with
  | completeEvaluation resting => exact p.token_completeEvaluation resting
  | _ => rfl

/-- Nothing that a pulse does takes a cancellation back. -/
theorem Action.isCancelled_perform (a : Action) {w : World} {t : TokenId}
    (h : w.isCancelled t = true) (p : Pulse) : (a.perform w p).2.1.isCancelled t = true := by
  cases a with
  | observe input type v =>
      simp only [perform, World.observe]
      split <;> exact h
  | cancel => exact World.isCancelled_cancel h _
  | shutDown => exact World.isCancelled_shutDown h
  | reset resets => exact World.isCancelled_reset h resets
  | _ => exact h

/-- What a pulse does to itself and to the graph, given whether it has seen that it is cancelled. It does
nothing to other pulses, and if it has seen that it is cancelled nothing that could be noticed. -/
def Action.Heeds (seen : Bool) : Action → Prop
  | .begin .. | .publish .. | .push .. | .remember .. | .update .. | .observe .. | .countSuppression =>
    seen = false
  | .cancel | .shutDown | .reset _ | .setCell .. => False
  | _ => True

theorem Action.Heeds.isEffect_eq_false {a : Action} {seen : Bool} (h : a.Heeds seen)
    (cancelled : seen = true) : a.isEffect = false := by
  subst cancelled
  cases a with
  | begin | publish | push | remember | update | observe => cases h
  | _ => rfl

/-! ## Programs of nodes -/

/-- What a request of a node needs for its program to heed a cancellation, given whether the program has
already seen one, and what the program knows afterwards. -/
def NodeRequest.heed (anew : Prop) : (r : NodeRequest) → (r.Reply → Bool → Prop) → Bool → Prop
  | .input .., next, seen | .inputs .., next, seen | .remembered _, next, seen => ∀ reply, next reply seen
  | .publish .., next, seen | .remember _, next, seen | .push .., next, seen =>
    seen = false ∧ next () seen
  | .update .., next, seen => seen = false ∧ ∀ reply, next reply seen
  | .fire _, next, _ | .rest, next, _ => ∀ later, next () later
  | .isCancelled, next, seen => ∀ reply, (seen = true → reply = true) → next reply reply
  | .delay _, next, _ => next false true ∧ next true false
  | .again, _, _ => anew
  | _, _, _ => False

namespace CatalogueNode

/-- A node whose process may start over. -/
def Loops : CatalogueNode → Prop
  | fireOnInterval | fireWhileTrue => True
  | _ => False

/-- A program of a node has no effect after it has seen that its pulse is cancelled. -/
abbrev Heeds {α : Type} (c : CatalogueNode) (program : NodeProgram α) (seen : Bool) : Prop :=
  program.wp (NodeRequest.heed c.Loops) (fun _ _ => True) seen

theorem heeds_iterate (remaining : Nat) (index : Int32) (seen : Bool) :
    forLoop.Heeds (iterate remaining index) seen := by
  induction remaining generalizing index seen with
  | zero =>
      intro cancelled _
      cases cancelled with
      | true => trivial
      | false => exact fun _ => trivial
  | succ remaining ih =>
      intro cancelled _
      cases cancelled with
      | true => trivial
      | false => exact ⟨rfl, fun later => ih _ later⟩

/-- Every process heeds a cancellation that it sees itself; a process that may start over also heeds one
that was seen before. -/
theorem heeds_process (c : CatalogueNode) {seen : Bool} (before : seen = true → c.Loops) :
    c.Heeds c.process seen := by
  have unseen : ¬ c.Loops → seen = false := by
    intro once
    cases seen with
    | true => exact absurd (before rfl) once
    | false => rfl
  cases c with
  | fireOnInterval => exact fun interval => ⟨trivial, fun later => trivial⟩
  | fireWhileTrue =>
      intro cancelled _
      cases cancelled with
      | true => trivial
      | false =>
          intro condition interval
          cases condition with
          | true =>
              intro later
              simp only [Program.done_andThen]
              split
              · exact ⟨trivial, trivial⟩
              · exact fun later => trivial
          | false =>
              intro cancelled _
              cases cancelled with
              | true => trivial
              | false => exact fun later => trivial
  | constant v => exact ⟨unseen nofun, trivial⟩
  | add t => exact fun a b => ⟨unseen nofun, trivial⟩
  | sum t => exact fun values => ⟨unseen nofun, trivial⟩
  | log t sink | onChanged t => exact fun v => ⟨unseen nofun, fun later => trivial⟩
  | onTrigger | fireOnTrue => exact fun later => trivial
  | branch => exact fun condition later => trivial
  | statefulBranch => exact fun current previous => ⟨unseen nofun, fun later => trivial⟩
  | branchWithState =>
      exact fun current previous => ⟨unseen nofun, unseen nofun, unseen nofun, fun later => trivial⟩
  | forLoop => exact fun count => heeds_iterate _ _ _
  | counter => exact fun step => ⟨unseen nofun, fun count => ⟨unseen nofun, fun later => trivial⟩⟩
  | delay => exact fun milliseconds => ⟨trivial, fun later => trivial⟩
  | parseInt =>
      intro text
      simp only [Program.done_andThen]
      split
      · exact ⟨unseen nofun, fun later => trivial⟩
      · exact fun later => trivial

end CatalogueNode

/-- A request that needs less gives more. -/
theorem NodeRequest.heed_mono {anew : Prop} {r : NodeRequest} {next next' : r.Reply → Bool → Prop}
    {seen : Bool} (h : r.heed anew next seen)
    (weaker : ∀ reply seen, next reply seen → next' reply seen) :
    r.heed anew next' seen := by
  cases r with
  | input | inputs | remembered => exact fun reply => weaker _ _ (h reply)
  | publish | remember | push => exact ⟨h.1, weaker _ _ h.2⟩
  | update => exact ⟨h.1, fun reply => weaker _ _ (h.2 reply)⟩
  | fire | rest => exact fun later => weaker _ _ (h later)
  | isCancelled => exact fun reply found => weaker _ _ (h reply found)
  | delay milliseconds => exact ⟨weaker _ _ h.1, weaker _ _ h.2⟩
  | again => exact h
  | refuse | location | cancel | shutDown | resetState | pulse | cell | setCell => exact h.elim

/-! ## The contract -/

namespace Graph

/-- A node of the catalogue whose process may start over. -/
def Loops (g : Graph) (n : NodeId) : Prop :=
  ∃ m c, g.member? n = some m ∧ m.node = CatalogueNode.node c ∧ c.Loops

/-- No effect is asked for once the pulse has been seen to be cancelled. What it has seen is out of date
when it has waited. -/
def heeding (g : Graph) : Contract Bool where
  pre n r seen :=
    match r with
    | .act a => a.Heeds seen
    | .evaluate k _ => g.isPure k = true
    | .activate .. => seen = false
    | .restart => g.Loops n
    | .pulse _ => False
    | .sleep _ | .rest | .abort _ => True
  post
    | .act .isCancelled, reply, seen, seen' => seen' = reply ∧ (seen = true → reply = true)
    | .act _, _, seen, seen' | .evaluate .., _, seen, seen' => seen' = seen
    | _, _, _, _ => True

namespace Heeding

variable {g : Graph} {s : Scope} {back : Bool → Prop} {seen : Bool} {α : Type}

/-- A quiet request is always allowed and tells nothing about a cancellation. -/
theorem steady_of_quiet {r : EngineRequest} (quiet : Engine.Quiet g r) (n : NodeId) (seen : Bool) :
    g.heeding.pre n r seen ∧ r ≠ .restart ∧
      ∀ reply seen', g.heeding.post r reply seen seen' → seen' = seen := by
  cases r with
  | act a =>
      cases a with
      | memoized | published | countHit | completeEvaluation | memoize =>
          exact ⟨trivial, by simp, fun _ _ same => same⟩
      | _ => exact quiet.elim
  | evaluate k depth => exact ⟨quiet, by simp, fun _ _ same => same⟩
  | abort cause => exact ⟨trivial, by simp, fun reply => reply.elim⟩
  | _ => exact quiet.elim

theorem wp_quiet {program : Engine α} {Q : α → Bool → Prop} (quiet : program.Asks (Engine.Quiet g))
    (next : ∀ a, Q a seen) : program.wp (g.heeding.Spec s back) Q seen :=
  Contract.wp_of_asks quiet (fun _ isQuiet => steady_of_quiet isQuiet _ _) next

theorem wp_observing {program : Engine α} {Q : α → Bool → Prop}
    (observing : program.Asks (Engine.Observing g)) (next : ∀ a, Q a false) :
    program.wp (g.heeding.Spec s back) Q false := by
  refine Contract.wp_of_asks observing (fun r asked => ?_) next
  rcases asked with quiet | ⟨input, t, v, rfl⟩
  · exact steady_of_quiet quiet _ _
  · exact ⟨rfl, by simp, fun _ _ same => same⟩

/-- An action other than looking tells nothing about a cancellation. -/
theorem wp_act (a : Action) (other : a ≠ .isCancelled) (allowed : a.Heeds seen)
    {Q : a.Reply → Bool → Prop} (next : ∀ reply, Q reply seen) :
    (Engine.act a).wp (g.heeding.Spec s back) Q seen where
  allowed := allowed
  goesOn reply later post := by
    have same : later = seen := by
      cases a with
      | isCancelled => exact absurd rfl other
      | _ => exact post
    rw [same]
    exact next reply
  startsOver := trivial

/-- Looking tells whether the pulse has been seen to be cancelled. -/
theorem wp_isCancelled {Q : Bool → Bool → Prop}
    (next : ∀ reply, (seen = true → reply = true) → Q reply reply) :
    Engine.isCancelled.wp (g.heeding.Spec s back) Q seen where
  allowed := trivial
  goesOn := by
    rintro reply _ ⟨rfl, found⟩
    exact next _ found
  startsOver := trivial

/-- Firing may be asked for at any time: it looks for itself. -/
theorem wp_activateAll {depth : Nat} {targets : List NodeId} {Q : Unit → Bool → Prop}
    (next : ∀ later, Q () later) :
    (Engine.activateAll depth targets).wp (g.heeding.Spec s back) Q seen := by
  induction targets generalizing seen with
  | nil => exact next seen
  | cons n rest ih =>
      rw [Engine.activateAll, Program.bind_eq, Program.wp_andThen]
      apply wp_isCancelled
      intro cancelled _
      cases cancelled with
      | true => exact next true
      | false => exact ⟨rfl, fun _ later _ => ih, trivial⟩

theorem wp_fire {index : Nat} {Q : Unit → Bool → Prop} (next : ∀ later, Q () later) :
    (Engine.fire g s index).wp (g.heeding.Spec s back) Q seen := by
  rw [Engine.fire, Program.bind_eq, Program.wp_andThen]
  apply wp_quiet (Engine.quiet_member s.node)
  intro m
  split
  · exact ⟨trivial, fun reply => reply.elim, trivial⟩
  · rw [Program.bind_eq, Program.wp_andThen]
    apply wp_isCancelled
    intro cancelled _
    cases cancelled with
    | true => exact next true
    | false =>
        simp only [Bool.false_eq_true, if_false]
        split
        · exact ⟨trivial, fun reply => reply.elim, trivial⟩
        · exact wp_activateAll next

theorem wp_delayEnd {Q : Bool → Bool → Prop} (cut : Q false true) (passed : Q true false) :
    Engine.delayEnd.wp (g.heeding.Spec s back) Q seen := by
  apply wp_isCancelled
  intro cancelled _
  cases cancelled with
  | true => exact cut
  | false =>
      refine ⟨trivial, ?_, trivial⟩
      rintro _ _ rfl
      exact passed

/-- A delay passes only if its last look has not found the pulse cancelled. -/
theorem wp_delay {milliseconds : Nat} {Q : Bool → Bool → Prop} (cut : Q false true)
    (passed : Q true false) : (Engine.delay milliseconds).wp (g.heeding.Spec s back) Q seen := by
  have starts (seen : Bool) : (Engine.delayStart milliseconds).wp (g.heeding.Spec s back) Q seen := by
    apply wp_isCancelled
    intro cancelled _
    cases cancelled with
    | true => exact cut
    | false =>
        simp only [Bool.false_eq_true, if_false]
        split
        · exact ⟨trivial, fun _ _ _ => wp_delayEnd cut passed, trivial⟩
        · exact wp_delayEnd cut passed
  rw [Engine.delay_eq]
  refine ⟨trivial, ?_, trivial⟩
  rintro full _ rfl
  cases full with
  | true => exact ⟨trivial, fun _ later _ => starts later, trivial⟩
  | false => exact starts _

section

variable {anew : Prop} (mayStartOver : anew → g.Loops s.node) (returns : ∀ later, back later)

include mayStartOver returns

/-- What a pulse does for a request of a node needs no more than the request, if starting over ends as
the caller expects. -/
theorem wp_answer {r : NodeRequest} {next : r.Reply → Bool → Prop} (h : r.heed anew next seen) :
    (Engine.answer g s r).wp (g.heeding.Spec s back) next seen := by
  cases r with
  | input index t => exact wp_quiet (Engine.quiet_input index t) h
  | inputs index t => exact wp_quiet (Engine.quiet_inputs index t) h
  | publish index v =>
      obtain ⟨rfl, goesOn⟩ := h
      simp only [Engine.answer, Engine.publish]
      split
      · exact wp_act (.memoize ..) (by simp) trivial fun _ => goesOn
      · exact wp_act (.publish ..) (by simp) rfl fun _ => goesOn
  | fire flow => exact wp_fire h
  | remembered t => exact wp_act (.remembered ..) (by simp) trivial h
  | remember v =>
      obtain ⟨rfl, goesOn⟩ := h
      exact wp_act (.remember ..) (by simp) rfl fun _ => goesOn
  | update t f =>
      obtain ⟨rfl, goesOn⟩ := h
      exact wp_act (.update ..) (by simp) rfl goesOn
  | push sink v =>
      obtain ⟨rfl, goesOn⟩ := h
      exact wp_act (.push ..) (by simp) rfl fun _ => goesOn
  | isCancelled => exact wp_isCancelled h
  | delay milliseconds => exact wp_delay h.1 h.2
  | rest => exact ⟨trivial, fun _ later _ => h later, trivial⟩
  | again => exact ⟨mayStartOver h, fun reply => reply.elim, fun later _ => returns later⟩
  | refuse | location | cancel | shutDown | resetState | pulse | cell | setCell => exact h.elim

theorem wp_run {program : NodeProgram α} {Q : α → Bool → Prop}
    (h : program.wp (NodeRequest.heed anew) (fun _ _ => True) seen) (next : ∀ a later, Q a later) :
    (Engine.run g s program).wp (g.heeding.Spec s back) Q seen := by
  induction program generalizing seen with
  | done a => exact next a seen
  | ask r rest ih =>
      rw [Engine.run, Program.wp_interpret_ask]
      exact wp_answer mayStartOver returns (r.heed_mono h fun reply _ => ih reply)

end

section

variable (catalogue : g.FromCatalogue)

include catalogue

/-- The process of a node heeds a cancellation. -/
theorem wp_process {m : Member} (member : g.member? s.node = some m)
    (before : seen = true → g.Loops s.node) (returns : ∀ later, back later) :
    g.heeding.Keeps s back (Engine.run g s m.node.process) seen := by
  obtain ⟨c, node⟩ := catalogue.kind member
  have mayStartOver : c.Loops → g.Loops s.node := fun loops => ⟨m, c, member, node, loops⟩
  have heeds : c.Heeds c.process seen := by
    apply c.heeds_process
    intro cancelled
    obtain ⟨m', c', member', node', loops⟩ := before cancelled
    obtain rfl := Option.some.inj (member.symm.trans member')
    rwa [CatalogueNode.node_injective (node.symm.trans node')]
  rw [node]
  exact wp_run mayStartOver returns heeds fun _ => returns

theorem wp_admitted {m : Member} (member : g.member? s.node = some m)
    (returns : ∀ later, back later) : g.heeding.Keeps s back (Engine.admitted g s m) false := by
  obtain ⟨c, node⟩ := catalogue.kind member
  have guard : (Engine.run g s m.node.guard).Asks (Engine.Quiet g) := by
    rw [node]
    exact Engine.quiet_guard c
  rw [Contract.Keeps, Engine.admitted, Program.bind_eq, Program.wp_andThen]
  apply wp_quiet guard
  intro passed
  split
  · rw [Program.bind_eq, Program.wp_andThen]
    exact wp_act (.begin ..) (by simp) rfl fun _ => wp_process catalogue member (by simp) returns
  · exact returns false

theorem wp_activation (returns : ∀ later, back later) :
    g.heeding.Keeps s back (Engine.activation g s) seen := by
  cases member : g.member? s.node with
  | none =>
      simp only [Engine.activation, Engine.member, member]
      exact ⟨trivial, fun reply => reply.elim, trivial⟩
  | some m =>
      simp only [Contract.Keeps, Engine.activation, Engine.member, member, Program.pure_eq,
        Program.bind_eq, Program.done_andThen]
      rw [Program.wp_andThen]
      apply wp_isCancelled
      intro cancelled _
      cases cancelled with
      | true => exact returns true
      | false =>
          simp only [Bool.false_eq_true, if_false]
          split
          · rw [Program.wp_andThen]
            apply wp_observing (Engine.observing_observeFrom _ _)
            intro changed
            split
            · exact wp_admitted catalogue member returns
            · exact wp_act .countSuppression (by simp) rfl fun _ => returns false
          · exact wp_admitted catalogue member returns

theorem verified_heeding : g.heeding.Verified g where
  evaluation pure returns := wp_quiet (Engine.quiet_evaluation catalogue pure) fun _ => returns _ rfl
  activation _ returns := wp_activation catalogue fun later => returns later trivial
  process loops returns := by
    obtain ⟨m, c, member, node, isLoop⟩ := loops
    simp only [Engine.process, Engine.member, member, Program.pure_eq, Program.bind_eq,
      Program.done_andThen]
    exact wp_process catalogue member (fun _ => ⟨m, c, member, node, isLoop⟩) fun later =>
      returns later trivial
  alone allowed := allowed

end

end Heeding

/-! ## What a run shows -/

/-- A pulse knows that it is cancelled only if it is, it does not know only if no look has told, and
nothing with an effect has followed such a look. -/
structure Heeded (events : List Event) (w : World) (p : Pulse) (seen : Bool) : Prop where
  cancelled : seen = true → w.isCancelled p.token = true
  unseen : seen = false → .did .isCancelled true ∉ events
  heeded : events.Pairwise fun earlier later =>
    earlier = .did .isCancelled true → later.isEffect = false

variable {events : List Event} {w w' : World} {p p' : Pulse} {seen later : Bool} {g : Graph}

/-- An event that is no effect, or that no look has come before, can be added. -/
theorem Heeded.snoc (h : Heeded events w p seen) {event : Event}
    (cancelled : later = true → w'.isCancelled p'.token = true)
    (unseen : later = false → seen = false ∧ event ≠ .did .isCancelled true)
    (allowed : seen = true → event.isEffect = false) :
    Heeded (events ++ [event]) w' p' later where
  cancelled := cancelled
  unseen notSeen member := by
    obtain ⟨before, other⟩ := unseen notSeen
    rcases List.mem_append.mp member with older | new
    · exact h.unseen before older
    · exact other (List.mem_singleton.mp new).symm
  heeded := by
    refine List.pairwise_append.mpr ⟨h.heeded, List.pairwise_singleton .., fun look member e new => ?_⟩
    obtain rfl := List.mem_singleton.mp new
    rintro rfl
    cases seen with
    | true => exact allowed rfl
    | false => exact absurd member (h.unseen rfl)

theorem follows_heeding : g.heeding.Follows Heeded where
  act := by
    intro n a events w p seen allowed h
    have still : ∀ b : Bool, (b = true → w.isCancelled p.token = true) → b = true →
        (a.perform w p).2.1.isCancelled (a.perform w p).2.2.token = true := by
      intro b cancelled found
      rw [a.token_perform]
      exact a.isCancelled_perform (cancelled found) p
    by_cases looks : a = .isCancelled
    · subst looks
      refine ⟨w.isCancelled p.token, ⟨rfl, h.cancelled⟩, h.snoc (still _ id) ?_ fun _ => rfl⟩
      intro notCancelled
      refine ⟨?_, ?_⟩
      · cases seen with
        | true => exact (h.cancelled rfl).symm.trans notCancelled
        | false => rfl
      · intro same
        have found : w.isCancelled p.token = true := eq_of_heq (Event.did.inj same).2
        exact absurd (notCancelled.symm.trans found) nofun
    · refine ⟨seen, ?_, h.snoc (still _ h.cancelled) (fun unseen => ⟨unseen, ?_⟩)
        allowed.isEffect_eq_false⟩
      · cases a <;> first | rfl | exact absurd rfl looks
      · exact fun same => looks (Event.did.inj same).1
  enter := by
    intro n k depth events w p seen allowed h
    exact h.snoc h.cancelled (fun unseen => ⟨unseen, nofun⟩) fun cancelled =>
      absurd (cancelled.symm.trans allowed) nofun
  sleep _ h := ⟨_, trivial, h⟩
  rest _ h := ⟨_, trivial, h⟩

end Graph

end FlowGraph
