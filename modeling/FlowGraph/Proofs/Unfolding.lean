import FlowGraph.Proofs.Completing

/-!
# The tree of a flow

An activation that goes ahead fires flow outputs, and each firing lets flow into the nodes that are
connected there. This makes a tree: below a node stand, for one firing after the other, the nodes that the
firing leads to. A pulse that is not cancelled unfolds the tree of its root, going down into each node
before it turns to the next one, and what it lists is the tree in that order.
-/

namespace FlowGraph

/-- The flow that starts at a node: what it fires, one after the other, each with what that leads to. -/
inductive FlowTree where
  | node (id : NodeId) (firings : List (Nat × List FlowTree))

namespace FlowTree

/-- The node at the top. -/
def root : FlowTree → NodeId
  | .node n _ => n

mutual

/-- The nodes of a tree, each before those below it. -/
def preorder : FlowTree → List NodeId
  | .node n firings => n :: preorderFirings firings

def preorderFirings : List (Nat × List FlowTree) → List NodeId
  | [] => []
  | (_, trees) :: firings => preorderAll trees ++ preorderFirings firings

def preorderAll : List FlowTree → List NodeId
  | [] => []
  | tree :: trees => tree.preorder ++ preorderAll trees

end

/-- A tree is another one or stands somewhere below its top. -/
inductive Within : FlowTree → FlowTree → Prop where
  | self (tree) : Within tree tree
  | child {tree child n firings flow trees} (fired : (flow, trees) ∈ firings) (leads : child ∈ trees)
      (within : Within tree child) : Within tree (.node n firings)

end FlowTree

/-- The activation that an event lists. -/
def Event.begun? : Event → Option NodeId
  | .did (.begin n true) _ => some n
  | _ => none

/-- The activations that some events list. -/
def begun (events : List Event) : List NodeId :=
  events.filterMap Event.begun?

theorem begun_append (events later : List Event) : begun (events ++ later) = begun events ++ begun later :=
  List.filterMap_append

/-- No cancellation has been found. -/
def Unseen (events : List Event) : Prop :=
  .did .isCancelled true ∉ events

theorem Unseen.split {events later : List Event} (h : Unseen (events ++ later)) :
    Unseen events ∧ Unseen later :=
  ⟨fun here => h (List.mem_append_left _ here), fun there => h (List.mem_append_right _ there)⟩

theorem Unseen.tail {event : Event} {later : List Event} (h : Unseen (event :: later)) : Unseen later :=
  fun there => h (List.mem_cons_of_mem _ there)

/-- Flow that is let into a node of the catalogue is not held up there. -/
theorem CatalogueNode.open_of_flowInput (c : CatalogueNode) (h : c.descriptor.flowInput = true) :
    c.descriptor.hasReactiveInput = false ∧ c.guard = .done true := by
  cases c <;> first | exact ⟨rfl, rfl⟩ | cases h

namespace Engine

variable (g : Graph)

/-- An activation passes the gate of the reactive inputs. -/
inductive Opens (s : Scope) (m : Member) : List Event → Prop where
  | ungated (ungated : m.descriptor.hasReactiveInput = false) : Opens s m [.did .isCancelled false]
  | changed {steps events} (gated : m.descriptor.hasReactiveInput = true)
      (observes : CarriedOut g s (observeFrom g s 0 m.descriptor.inputs) steps events true) :
      Opens s m (.did .isCancelled false :: events)

/-- An activation does not go ahead: no reactive input has changed, or the guard declines. -/
inductive Declines (s : Scope) : List Event → Prop where
  | unchanged {m steps events} (member : g.member? s.node = some m)
      (gated : m.descriptor.hasReactiveInput = true)
      (observes : CarriedOut g s (observeFrom g s 0 m.descriptor.inputs) steps events false) :
      Declines s (.did .isCancelled false :: (events ++ [.did .countSuppression ()]))
  | refused {m steps gate events} (member : g.member? s.node = some m) (opens : Opens g s m gate)
      (guarded : CarriedOut g s (run g s m.node.guard) steps events false) : Declines s (gate ++ events)

mutual

/-- An activation goes ahead and unfolds a tree. -/
inductive Unfolds : Scope → List Event → FlowTree → Prop where
  | begins {s m gate steps events later firings} (member : g.member? s.node = some m)
      (opens : Opens g s m gate) (guarded : CarriedOut g s (run g s m.node.guard) steps events true)
      (conducts : Conducts s m.node.process m.node.process later firings) :
      Unfolds s (gate ++ (events ++ .did (.begin s.node g.config.recordActivations) () :: later))
        (.node s.node firings)

/-- The rest of a process fires one flow output after the other. -/
inductive Conducts : Scope → (process rest : NodeProgram Unit) → List Event →
    List (Nat × List FlowTree) → Prop where
  | done {s process} : Conducts s process (.done ()) [] []
  | fire {s process flow trees events later firings} {next : Unit → NodeProgram Unit}
      (leads : LeadsTo (s.depth + 1) (g.targets ⟨s.node, flow⟩) events trees)
      (rest : Conducts s process (next ()) later firings) :
      Conducts s process (.ask (.fire flow) next) (.did .isCancelled false :: (events ++ later))
        ((flow, trees) :: firings)
  | again {s process events firings} {next : Empty → NodeProgram Unit}
      (rest : Conducts s process process events firings) :
      Conducts s process (.ask .again next) events firings
  | answer {s process r steps reply events later firings} {next : r.Reply → NodeProgram Unit}
      (fires : ∀ flow, r ≠ .fire flow) (starts : r ≠ .again)
      (answered : CarriedOut g s (answer g s r) steps events reply)
      (rest : Conducts s process (next reply) later firings) :
      Conducts s process (.ask r next) (events ++ later) firings

/-- Flow enters some nodes one after the other, each when the one before has unfolded its tree. -/
inductive LeadsTo : (depth : Nat) → List NodeId → List Event → List FlowTree → Prop where
  | nil {depth} : LeadsTo depth [] [] []
  | cons {depth n targets events later tree trees} (unfolds : Unfolds ⟨n, depth⟩ events tree)
      (rest : LeadsTo depth targets later trees) :
      LeadsTo depth (n :: targets) (.did .isCancelled false :: .entered n depth :: (events ++ later))
        (tree :: trees)

end

/-- A request that lists no activation, lets no flow in and does not start over. -/
def Still : EngineRequest → Prop
  | .act (.begin ..) | .activate .. | .restart => False
  | .evaluate n _ => g.isPure n = true
  | _ => True

variable {g} {α β : Type} {s : Scope} {steps : Nat} {events : List Event}

theorem Quiet.still {r : EngineRequest} (h : Quiet g r) : Still g r := by
  cases r with
  | act a => cases a <;> trivial
  | evaluate n depth => exact h
  | abort => trivial
  | activate | sleep | rest | restart | pulse => exact h.elim

theorem Observing.still {r : EngineRequest} (h : Observing g r) : Still g r := by
  rcases h with quiet | ⟨_, _, _, rfl⟩
  · exact quiet.still
  · trivial

theorem Still.once {r : EngineRequest} (h : Still g r) : r ≠ .restart := by
  rintro rfl
  exact h

theorem Pausing.still {r : EngineRequest} (h : Pausing r) : Still g r := by
  cases r with
  | act a => cases a <;> trivial
  | sleep | rest => trivial
  | evaluate | activate | restart | abort | pulse => exact h.elim

/-- What a node asks for lists nothing, unless it fires or starts over. -/
theorem still_answer {r : NodeRequest} (fires : ∀ flow, r ≠ .fire flow) (starts : r ≠ .again) :
    (answer g s r).Asks (Still g) := by
  cases r with
  | input index t => exact (quiet_input index t).mono fun _ quiet => quiet.still
  | inputs index t => exact (quiet_inputs index t).mono fun _ quiet => quiet.still
  | publish index v =>
      rw [answer, publish]
      split <;> exact ⟨trivial, fun _ => trivial⟩
  | fire flow => exact absurd rfl (fires flow)
  | delay milliseconds => exact (pausing_delay milliseconds).mono fun _ pausing => pausing.still
  | again => exact absurd rfl starts
  | refuse message =>
      exact ((quiet_member s.node).mono fun _ quiet => quiet.still).andThen fun m => asks_abort trivial
  | pulse root =>
      rw [answer, pulse]
      split
      · trivial
      · split
        · trivial
        · exact ⟨trivial, fun _ => trivial⟩
  | remembered | remember | update | push | isCancelled | rest | location | cancel | shutDown | resetState
  | cell | setCell => exact ⟨trivial, fun _ => trivial⟩

/-- A program that lists nothing itself enters no node that does. -/
theorem CarriedOut.begun_eq_nil (catalogue : g.FromCatalogue) {p : Engine α} {a : α}
    (still : p.Asks (Still g)) (h : CarriedOut g s p steps events a) : begun events = [] := by
  induction h with
  | done => rfl
  | @act _ _ action _ _ _ _ _ _ ih =>
      have later := ih (still.2 _)
      rw [begun, List.filterMap_cons_none]
      · exact later
      · cases action with
        | begin => exact still.1.elim
        | _ => rfl
  | @evaluate _ _ n _ _ _ _ _ _ _ entered _ ih ih' =>
      have pure : g.isPure n = true := still.1
      rw [begun_append, ih' (still.2 _), ih]
      · rfl
      · exact (quiet_evaluation (s := ⟨n, _⟩) catalogue pure).mono fun _ quiet => quiet.still
  | activate => exact still.1.elim
  | sleep _ ih => exact ih (still.2 _)
  | rest _ ih => exact ih (still.2 _)
  | restart => exact still.1.elim

section

variable {m : Member} {limit depth : Nat}

theorem once_activateAll (depth : Nat) (targets : List NodeId) :
    (activateAll depth targets).Asks (· ≠ .restart) := by
  induction targets with
  | nil => trivial
  | cons n rest ih =>
      refine ⟨nofun, fun cancelled => ?_⟩
      cases cancelled with
      | true => trivial
      | false => exact ⟨nofun, fun _ => ih⟩

/-- Flow that enters a node unfolds a tree if this takes fewer steps than a limit. -/
def UnfoldsBelow (g : Graph) (limit : Nat) : Prop :=
  ∀ steps < limit, ∀ n depth events, (∃ m, g.member? n = some m ∧ m.descriptor.flowInput = true) →
    CarriedOut g ⟨n, depth⟩ (activation g ⟨n, depth⟩) steps events () → Unseen events →
      ∃ tree, Unfolds g ⟨n, depth⟩ events tree

/-- Activating nodes one after the other is letting flow into all of them. -/
theorem exists_leadsTo (enters : UnfoldsBelow g limit) {targets : List NodeId}
    (accepts : ∀ n ∈ targets, ∃ m, g.member? n = some m ∧ m.descriptor.flowInput = true)
    (within : steps ≤ limit) (unseen : Unseen events)
    (h : CarriedOut g s (activateAll depth targets) steps events ()) :
    ∃ trees, LeadsTo g depth targets events trees := by
  induction targets generalizing steps events with
  | nil =>
      cases h
      exact ⟨[], .nil⟩
  | cons n targets ih =>
      obtain ⟨first, others⟩ := List.forall_mem_cons.mp accepts
      cases h with
      | @act _ _ _ reply _ _ _ _ rest =>
          cases reply with
          | true => exact absurd (List.mem_cons_self ..) unseen
          | false =>
              cases rest with
              | activate entered rest =>
                  obtain ⟨inside, after⟩ := unseen.tail.tail.split
                  obtain ⟨tree, unfolds⟩ := enters _ (by omega) n depth _ first entered inside
                  obtain ⟨trees, leads⟩ := ih others (by omega) after rest
                  exact ⟨tree :: trees, .cons unfolds leads⟩

/-- Firing a flow output is letting flow into all of its targets. -/
theorem exists_leadsTo_of_fire (catalogue : g.FromCatalogue) (enters : UnfoldsBelow g limit)
    {flow : Nat} {k : Unit → Engine Unit} (within : steps ≤ limit) (unseen : Unseen events)
    (h : CarriedOut g s ((fire g s flow).andThen k) steps events ()) :
    ∃ trees before after rest, rest < steps ∧
      LeadsTo g (s.depth + 1) (g.targets ⟨s.node, flow⟩) before trees ∧
      CarriedOut g s (k ()) rest after () ∧ events = .did .isCancelled false :: (before ++ after) := by
  simp only [fire, Engine.member, Program.pure_eq, Program.bind_eq] at h
  split at h
  next m member =>
    rw [Program.done_andThen] at h
    split at h
    next => cases h
    next =>
      cases h with
      | @act _ _ _ reply _ _ _ _ rest =>
          cases reply with
          | true => exact absurd (List.mem_cons_self ..) unseen
          | false =>
              simp only [Program.done_andThen, Bool.false_eq_true, if_false] at rest
              split at rest
              next => cases rest
              next =>
                obtain ⟨_, first, second, before, after, lets, goesOn, rfl, rfl⟩ :=
                  rest.split (once_activateAll ..)
                obtain ⟨inside, _⟩ := unseen.tail.split
                obtain ⟨trees, leads⟩ := exists_leadsTo enters
                  (fun n target => catalogue.target target) (by omega) inside lets
                exact ⟨trees, before, after, second, by omega, leads, goesOn, rfl⟩
  next => cases h

/-- A process that is carried out fires one flow output after the other. -/
theorem exists_conducts (catalogue : g.FromCatalogue) (enters : UnfoldsBelow g limit)
    (member : g.member? s.node = some m) (rest : NodeProgram Unit) (within : steps ≤ limit)
    (unseen : Unseen events) (h : CarriedOut g s (run g s rest) steps events ()) :
    ∃ firings, Conducts g s m.node.process rest events firings := by
  -- Starting over takes a step, and whatever else the process asks for brings it nearer to its end.
  induction limit using Nat.strong_induction_on generalizing rest steps events with
  | _ limit again =>
    induction rest generalizing steps events with
    | done =>
        cases h
        exact ⟨[], .done⟩
    | ask r next ih =>
        have h : CarriedOut g s ((answer g s r).andThen fun x => run g s (next x)) steps events () := h
        by_cases fires : ∃ flow, r = .fire flow
        · obtain ⟨flow, rfl⟩ := fires
          obtain ⟨trees, before, after, fewer, less, leads, goesOn, rfl⟩ :=
            exists_leadsTo_of_fire catalogue enters within unseen h
          obtain ⟨firings, conducts⟩ := ih () (by omega) unseen.tail.split.2 goesOn
          exact ⟨_, .fire leads conducts⟩
        · by_cases starts : r = .again
          · subst starts
            cases h with
            | @restart _ fewer _ _ goesOn =>
                have goesOn : CarriedOut g s (run g s m.node.process) fewer events () := by
                  simpa only [process, Engine.member, member, Program.pure_eq, Program.bind_eq,
                    Program.done_andThen] using goesOn
                have enters' : UnfoldsBelow g fewer := fun k less => enters k (by omega)
                obtain ⟨firings, conducts⟩ := again fewer (by omega) enters' _ le_rfl unseen goesOn
                exact ⟨firings, .again conducts⟩
          · have fires : ∀ flow, r ≠ .fire flow := fun flow same => fires ⟨flow, same⟩
            have once := (still_answer (g := g) (s := s) fires starts).mono fun _ still => still.once
            obtain ⟨reply, first, second, before, after, answered, goesOn, rfl, rfl⟩ := h.split once
            obtain ⟨firings, conducts⟩ := ih reply (by omega) unseen.split.2 goesOn
            exact ⟨firings, .answer fires starts answered conducts⟩

theorem quiet_guard_of_member (catalogue : g.FromCatalogue) (member : g.member? s.node = some m) :
    (run g s m.node.guard).Asks (Quiet g) := by
  obtain ⟨c, node⟩ := catalogue.kind member
  rw [node]
  exact quiet_guard c

/-- What follows the gate of an activation unfolds a tree unless the guard declines. -/
theorem unfolds_of_opens (catalogue : g.FromCatalogue) (enters : UnfoldsBelow g limit)
    (member : g.member? s.node = some m) {gate : List Event} (opens : Opens g s m gate)
    (within : steps ≤ limit) (unseen : Unseen events)
    (h : CarriedOut g s (admitted g s m) steps events ()) :
    Declines g s (gate ++ events) ∨ ∃ tree, Unfolds g s (gate ++ events) tree := by
  have once := (quiet_guard_of_member catalogue member).mono fun _ quiet => quiet.still.once
  obtain ⟨passed, first, second, before, after, guarded, goesOn, rfl, rfl⟩ := h.split once
  cases passed with
  | false =>
      cases goesOn
      rw [List.append_nil]
      exact .inl (.refused member opens guarded)
  | true =>
      cases goesOn with
      | act conducted =>
          obtain ⟨firings, conducts⟩ := exists_conducts catalogue enters member m.node.process
            (by omega) unseen.split.2.tail conducted
          exact .inr ⟨_, .begins member opens guarded conducts⟩

/-- An activation unfolds a tree, unless it does not go ahead. -/
theorem unfolds_or_declines (catalogue : g.FromCatalogue) (enters : UnfoldsBelow g steps)
    (member : g.member? s.node = some m) (unseen : Unseen events)
    (h : CarriedOut g s (activation g s) steps events ()) :
    Declines g s events ∨ ∃ tree, Unfolds g s events tree := by
  simp only [activation, Engine.member, member, Program.pure_eq, Program.bind_eq,
    Program.done_andThen] at h
  cases h with
  | @act _ _ _ reply _ _ _ _ rest =>
      cases reply with
      | true => exact absurd (List.mem_cons_self ..) unseen
      | false =>
          simp only [Program.done_andThen, Bool.false_eq_true, if_false] at rest
          split at rest
          next gated =>
            have once := (observing_observeFrom (g := g) (s := s) 0 m.descriptor.inputs).mono
              fun _ observing => observing.still.once
            obtain ⟨changed, first, second, before, after, observes, goesOn, rfl, rfl⟩ := rest.split once
            cases changed with
            | true =>
                have opens : Opens g s m (.did .isCancelled false :: before) := .changed gated observes
                exact unfolds_of_opens catalogue enters member opens (by omega)
                  unseen.tail.split.2 goesOn
            | false =>
                cases goesOn with
                | act rest =>
                    cases rest
                    exact .inl (.unchanged member gated observes)
          next ungated =>
            have opens : Opens g s m [.did .isCancelled false] := .ungated (by simpa using ungated)
            exact unfolds_of_opens catalogue enters member opens (by omega) unseen.tail rest

/-- Flow that is let into a node is not held up there. -/
theorem not_declines (catalogue : g.FromCatalogue) (member : g.member? s.node = some m)
    (accepts : m.descriptor.flowInput = true) : ¬ Declines g s events := by
  obtain ⟨c, node⟩ := catalogue.kind member
  rw [Member.descriptor, node] at accepts
  obtain ⟨ungated, open'⟩ := c.open_of_flowInput accepts
  rintro (⟨member', gated, -⟩ | ⟨member', -, guarded⟩)
  · obtain rfl := Option.some.inj (member.symm.trans member')
    rw [Member.descriptor, node] at gated
    cases ungated.symm.trans gated
  · obtain rfl := Option.some.inj (member.symm.trans member')
    rw [node] at guarded
    have guarded : CarriedOut g s (run g s c.guard) _ _ false := guarded
    rw [open'] at guarded
    cases guarded.eq_of_done

/-- However many steps it takes, flow that enters a node unfolds a tree. -/
theorem unfoldsBelow (catalogue : g.FromCatalogue) (limit : Nat) : UnfoldsBelow g limit := by
  induction limit with
  | zero => nofun
  | succ limit ih =>
      rintro steps less n depth events ⟨m, member, accepts⟩ h unseen
      have enters : UnfoldsBelow g steps := fun k fewer => ih k (by omega)
      exact (unfolds_or_declines catalogue enters member unseen h).resolve_left
        (not_declines catalogue member accepts)

end

end Engine

end FlowGraph
