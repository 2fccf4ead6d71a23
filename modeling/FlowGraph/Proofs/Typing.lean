import FlowGraph.Proofs.Nodes

/-!
# Values where they are read

Values carry their types along, and each place that reads one expects a type. A program of a node looks
at an input as something of one type only, the declared one; whatever can come to that input, from the
memo, from what has been published, or as a resting value, has this type. So has what is kept of the last
observation of a reactive input. A machine that is under way keeps all this, and it can only end well or
because the flow has become too deep.
-/

namespace FlowGraph

/-- How a pulse can end: with a report, or because it could not start or its flow became too deep. -/
def Harmless {α : Type} (result : Except PulseError α) : Prop :=
  ∀ id cause, result = .error (.aborted id cause) →
    ∃ name limit, cause = .flowDepthExceeded name limit

namespace Graph

variable {g : Graph} {w w' : World} {m m' : Machine} {input : Port} {t : ValueType} {v : Value}

/-- A program of a node looks at an input as something of a type. -/
def LooksAt (g : Graph) (input : Port) (t : ValueType) : Prop :=
  ∃ m, g.member? input.node = some m ∧
    ∃ r, (r = .input input.index t ∨ r = .inputs input.index t) ∧
      (m.node.guard.MayAsk r ∨ m.node.process.MayAsk r)

/-- What is kept of the last observation of an input has the type that the input declares. -/
def ObservedTyped (g : Graph) (w : World) : Prop :=
  ∀ input v, w.observed.get? input = some v → ∃ i, g.Takes input i ∧ v.type = i.type

/-- A pulse that flow may still go on in. -/
structure UnderWay (g : Graph) (m : Machine) : Prop where
  fits : g.conduct.Fits m m.pulse
  fresh : g.Fresh m.pulse

/-- Where a pulse may come to. -/
def Lands (g : Graph) : Progress → Prop
  | .running w m | .sleeping w _ m | .resting w m => g.ObservedTyped w ∧ g.UnderWay m
  | .ended w result => g.ObservedTyped w ∧ Harmless result

/-- An input is looked at as what it is declared to be. -/
theorem LooksAt.takes (catalogue : g.FromCatalogue) (h : g.LooksAt input t) :
    ∃ i, g.Takes input i ∧ i.type = t := by
  obtain ⟨m, member, r, isRead, asks⟩ := h
  obtain ⟨guard, process⟩ := catalogue.suits member
  have suits : m.node.Suits r := asks.elim guard.of_mayAsk process.of_mayAsk
  rcases isRead with rfl | rfl
  · cases suits with
    | @input _ _ i declared _ typed => exact ⟨i, ⟨m, member, declared⟩, typed⟩
  · cases suits with
    | @inputs _ _ i declared _ typed => exact ⟨i, ⟨m, member, declared⟩, typed⟩

/-- What is connected to an input has the type as which the input is looked at. -/
theorem LooksAt.source (catalogue : g.FromCatalogue) (h : g.LooksAt input t) {source : Port}
    (connected : source ∈ g.sources input) : ∃ o, g.Declares source o ∧ o.type = t := by
  obtain ⟨i, ⟨m, member, declared⟩, typed⟩ := h.takes catalogue
  obtain ⟨o, declares, same⟩ := catalogue.source member declared connected
  exact ⟨o, declares, same.trans typed⟩

/-- Every value that a pulse has memoised or published is of the type as which it is looked at. -/
theorem Fresh.as?_of_looksAt (catalogue : g.FromCatalogue) {p : Pulse} (fresh : g.Fresh p)
    (looks : g.LooksAt input t) {source : Port} (connected : source ∈ g.sources input)
    (value : p.memo.get? source = some v ∨ p.published.get? source = some v) :
    (v.as? t).isSome = true := by
  obtain ⟨o, declares, same⟩ := looks.source catalogue connected
  obtain ⟨o', declares', typed⟩ : ∃ o, g.Declares source o ∧ v.type = o.type := by
    rcases value with inMemo | published
    · exact (fresh.current source v inMemo).typed fresh.typed
    · exact fresh.typed source v published
  obtain rfl := declares.unique declares'
  exact Value.isSome_as?_iff.mpr (typed.trans same)

/-- Whatever an input rests on is of the type as which it is looked at: its own resting value if it is
single, and that of every output connected to it. -/
theorem LooksAt.resting (catalogue : g.FromCatalogue) (looks : g.LooksAt input t) :
    (∀ i, g.Takes input i → i.isList = false → ∃ v, i.resting? = some v ∧ (v.as? t).isSome = true) ∧
      ∀ source ∈ g.sources input, ∀ o, g.Declares source o → (o.resting.as? t).isSome = true := by
  constructor
  · intro i ⟨m, member, declared⟩ single
    obtain ⟨i', ⟨m', member', declared'⟩, rfl⟩ := looks.takes catalogue
    obtain rfl := Option.some.inj (member.symm.trans member')
    obtain rfl := Option.some.inj (declared.symm.trans declared')
    obtain ⟨name, type, arity⟩ := i
    cases arity with
    | single resting required reactive => exact ⟨_, rfl, by rw [Value.as?_of]; rfl⟩
    | list => cases single
  · intro source connected o declares
    obtain ⟨o', declares', same⟩ := looks.source catalogue connected
    obtain rfl := declares.unique declares'
    exact Value.isSome_as?_iff.mpr ((Value.type_of _ _).trans same)

/-! ## A machine under way -/

theorem ObservedTyped.of_observed (typed : g.ObservedTyped w) (same : w'.observed = w.observed) :
    g.ObservedTyped w' := by
  intro input v found
  exact typed input v (same ▸ found)

theorem observedTyped_of_forgotten (forgotten : w.observed = ∅) : g.ObservedTyped w := by
  intro input v found
  rw [forgotten, Table.get?_empty] at found
  cases found

/-- An action that is permitted keeps observations typed. -/
theorem ObservedTyped.perform (typed : g.ObservedTyped w) {flow : Prop} {p : Pulse} {a : Action}
    (permits : g.Permits flow p a) : g.ObservedTyped (a.perform w p).2.1 := by
  cases a with
  | observe input t v =>
      obtain ⟨_, isT, i, takes, same⟩ := permits
      simp only [Action.perform, World.observe]
      split
      · exact typed
      · intro port u found
        simp only [Table.get?_insert] at found
        split at found
        next here =>
          cases found
          exact ⟨i, here ▸ takes, isT.trans same.symm⟩
        next => exact typed port u found
  | reset resets => exact permits.elim
  | _ => exact typed.of_observed rfl

theorem follows_observed (catalogue : g.FromCatalogue) :
    g.conduct.Follows fun _ w p x => (x = p ∧ g.Fresh p) ∧ g.ObservedTyped w :=
  (follows_conduct catalogue).also
    (fun allowed seen typed => typed.perform (seen.1 ▸ allowed.2)) (fun typed => typed)

theorem Lands.of_next? {progress : Progress} (h : g.Lands progress)
    (moves : progress.next? = some (w', m')) : g.ObservedTyped w' ∧ g.UnderWay m' := by
  cases progress with
  | running w m | sleeping w milliseconds m | resting w m =>
      cases moves
      exact h
  | ended w result => cases moves

/-- A pulse under way stays so from one move to the next, or it ends as it may. -/
theorem UnderWay.lands (catalogue : g.FromCatalogue) (h : g.UnderWay m) (typed : g.ObservedTyped w) :
    g.Lands (m.step g w) := by
  have goesOn : ∀ {w' m'}, (m.step g w).next? = some (w', m') →
      g.ObservedTyped w' ∧ g.UnderWay m' := by
    intro w' m' moves
    obtain ⟨_, fits, ⟨rfl, fresh⟩, typed'⟩ := h.fits.step [] (verified_conduct catalogue)
      (follows_observed catalogue) ⟨⟨rfl, h.fresh⟩, typed⟩ moves
    exact ⟨typed', fits, fresh⟩
  cases progress : m.step g w with
  | running w' m' | sleeping w' milliseconds m' | resting w' m' =>
      exact goesOn (by rw [progress]; rfl)
  | ended w' result =>
      obtain ⟨rfl, aborts⟩ := h.fits.ended progress
      constructor
      · exact typed
      · intro id cause failed
        obtain ⟨cause', same, allowed⟩ := aborts _ failed
        cases same
        exact allowed.2.2

/-- A pulse under way stays so, whether it moves on or waits. -/
theorem UnderWay.next (catalogue : g.FromCatalogue) (h : g.UnderWay m)
    (moves : (m.step g w).next? = some (w', m')) : g.UnderWay m' := by
  obtain ⟨_, fits, rfl, fresh⟩ := h.fits.step [] (verified_conduct catalogue) (follows_conduct catalogue)
    ⟨rfl, h.fresh⟩ moves
  exact ⟨fits, fresh⟩

/-- A pulse is under way from its start on. -/
theorem underWay_start (catalogue : g.FromCatalogue) {root : NodeId} {r : Member}
    (triggerable : g.root root = .ok r) (w : World) (token : TokenId) :
    g.UnderWay (Machine.start g w root token).2 where
  fits := fits_conduct catalogue triggerable w token
  fresh := fresh_start w root token

/-- A pulse is under way at every point of every run. -/
theorem underWay_of_run (catalogue : g.FromCatalogue) {root : NodeId} {r : Member}
    (triggerable : g.root root = .ok r) {others : World → World → Prop} {w₀ : World} {token : TokenId}
    {events : List Event}
    (run : Machine.Run g others (Machine.start g w₀ root token).1 (Machine.start g w₀ root token).2
      events w m) : g.UnderWay m := by
  induction run with
  | refl => exact underWay_start catalogue triggerable w₀ token
  | others _ _ ih => exact ih
  | move _ moves ih => exact ih.next catalogue moves

end Graph

end FlowGraph
