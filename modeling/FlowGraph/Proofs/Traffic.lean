import FlowGraph.Proofs.Typing

/-!
# Pulses side by side

A graph in use has one world and any number of pulses under way in it. Nothing is assumed about who moves
next, about how many hosts there are, or about when they cancel, shut down or reset: every order of steps
is a possible one. In all of them the values that are kept anywhere can be taken for what their readers
take them for, and the pulses that have ended have not gone wrong.
-/

namespace FlowGraph

/-- A graph in use: its world, the pulses under way, and how the others have ended. -/
structure Traffic where
  world : World := {}
  pulses : List Machine := []
  results : List (Except PulseError Report) := []

namespace Graph

variable {g : Graph} {w w' : World} {m : Machine}

/-- What hosts do to the world of a graph besides starting pulses. -/
inductive HostChanges (g : Graph) (w : World) : World → Prop where
  | cancel (token : TokenId) : HostChanges g w (w.cancel token)
  | shutDown : HostChanges g w w.shutDown
  | resetState : HostChanges g w (w.reset g.resets)
  /-- Time passes, turns begin and end, tokens come and go, and sinks are emptied. -/
  | otherwise {w' : World} (same : w'.observed = w.observed) : HostChanges g w w'

/-- One step of a graph in use, by whomever. -/
inductive Proceeds (g : Graph) : Traffic → Traffic → Prop where
  | start {w pulses results root r} (token : TokenId) (triggerable : g.root root = .ok r) :
      Proceeds g ⟨w, pulses, results⟩
        ⟨(Machine.start g w root token).1, pulses ++ [(Machine.start g w root token).2], results⟩
  | refuse {w pulses results root e} (refused : g.root root = .error e) :
      Proceeds g ⟨w, pulses, results⟩ ⟨w, pulses, results ++ [.error e]⟩
  | move {w w' before m m' after results} (moves : (m.step g w).next? = some (w', m')) :
      Proceeds g ⟨w, before ++ m :: after, results⟩ ⟨w', before ++ m' :: after, results⟩
  | finish {w w' before m after results result} (ends : m.step g w = .ended w' result) :
      Proceeds g ⟨w, before ++ m :: after, results⟩ ⟨w', before ++ after, results ++ [result]⟩
  | host {w w' pulses results} (changes : g.HostChanges w w') :
      Proceeds g ⟨w, pulses, results⟩ ⟨w', pulses, results⟩

/-- Everything that is kept somewhere is of the type as which it is looked at there. -/
structure Readable (g : Graph) (w : World) (p : Pulse) : Prop where
  connected : ∀ {input t source v}, g.LooksAt input t → source ∈ g.sources input →
    p.memo.get? source = some v ∨ p.published.get? source = some v → (v.as? t).isSome = true
  resting : ∀ {input t source o}, g.LooksAt input t → source ∈ g.sources input →
    g.Declares source o → (o.resting.as? t).isSome = true
  unconnected : ∀ {input t i}, g.LooksAt input t → g.Takes input i → i.isList = false →
    ∃ v, i.resting? = some v ∧ (v.as? t).isSome = true
  observed : ∀ {input v}, w.observed.get? input = some v → ∃ i, g.Takes input i ∧
    (v.as? i.type).isSome = true

/-- What holds of a graph in use at all times. -/
structure Orderly (g : Graph) (t : Traffic) : Prop where
  observed : g.ObservedTyped t.world
  pulses : ∀ m ∈ t.pulses, g.UnderWay m
  results : ∀ result ∈ t.results, Harmless result

theorem UnderWay.readable (catalogue : g.FromCatalogue) (h : g.UnderWay m)
    (observed : g.ObservedTyped w) : g.Readable w m.pulse where
  connected looks connected value := h.fresh.as?_of_looksAt catalogue looks connected value
  resting looks connected declares := (looks.resting catalogue).2 _ connected _ declares
  unconnected looks takes single := (looks.resting catalogue).1 _ takes single
  observed found := by
    obtain ⟨i, takes, typed⟩ := observed _ _ found
    exact ⟨i, takes, Value.isSome_as?_iff.mpr typed⟩

/-- Whatever a host does, observations have the types that the inputs declare. -/
theorem ObservedTyped.hostChanges (h : g.ObservedTyped w) (changes : g.HostChanges w w') :
    g.ObservedTyped w' := by
  cases changes with
  | cancel token => exact h
  | shutDown => exact h
  | resetState => exact observedTyped_of_forgotten (w.observed_reset _)
  | otherwise same => exact h.of_observed same

/-- A root that cannot start a pulse is no abort. -/
theorem harmless_of_root {root : NodeId} {e : PulseError} {α : Type} (refused : g.root root = .error e) :
    Harmless (.error e : Except PulseError α) := by
  rintro id cause ⟨⟩
  rw [Graph.root] at refused
  split at refused
  next => cases refused
  next => split at refused <;> cases refused

/-- A graph in use stays orderly from one step to the next. -/
theorem Orderly.proceeds (catalogue : g.FromCatalogue) {t t' : Traffic} (h : g.Orderly t)
    (proceeds : g.Proceeds t t') : g.Orderly t' := by
  cases proceeds with
  | @start w pulses results root r token triggerable =>
      have started := underWay_start catalogue triggerable w token
      constructor
      · exact h.observed
      · exact List.forall_mem_append.mpr ⟨h.pulses, List.forall_mem_singleton.mpr started⟩
      · exact h.results
  | refuse refused =>
      have refusal := harmless_of_root (α := Report) refused
      constructor
      · exact h.observed
      · exact h.pulses
      · exact List.forall_mem_append.mpr ⟨h.results, List.forall_mem_singleton.mpr refusal⟩
  | move moves =>
      obtain ⟨earlier, rest⟩ := List.forall_mem_append.mp h.pulses
      obtain ⟨underWay, later⟩ := List.forall_mem_cons.mp rest
      obtain ⟨observed, moved⟩ := (underWay.lands catalogue h.observed).of_next? moves
      constructor
      · exact observed
      · exact List.forall_mem_append.mpr ⟨earlier, List.forall_mem_cons.mpr ⟨moved, later⟩⟩
      · exact h.results
  | finish ends =>
      obtain ⟨earlier, rest⟩ := List.forall_mem_append.mp h.pulses
      obtain ⟨underWay, later⟩ := List.forall_mem_cons.mp rest
      have lands := underWay.lands catalogue h.observed
      rw [ends] at lands
      constructor
      · exact lands.1
      · exact List.forall_mem_append.mpr ⟨earlier, later⟩
      · exact List.forall_mem_append.mpr ⟨h.results, List.forall_mem_singleton.mpr lands.2⟩
  | host changes =>
      constructor
      · exact h.observed.hostChanges changes
      · exact h.pulses
      · exact h.results

/-- A graph that has observed nothing yet is orderly for as long as it is in use. -/
theorem orderly_of_reachable (catalogue : g.FromCatalogue) (unobserved : w.observed = ∅)
    {t : Traffic} (reachable : Relation.ReflTransGen g.Proceeds { world := w } t) : g.Orderly t := by
  induction reachable with
  | refl =>
      constructor
      · exact observedTyped_of_forgotten unobserved
      · exact List.forall_mem_nil _
      · exact List.forall_mem_nil _
  | tail _ proceeds ih => exact ih.proceeds catalogue proceeds

end Graph

end FlowGraph
