import FlowGraph.Proofs.Isolation
import FlowGraph.Proofs.Silence
import FlowGraph.Session.Waiting

/-!
# Cancelling is confined

Cancelling and shutting down change the tokens and nothing else, and a pulse looks at no token but its own.
So a pulse whose token is not concerned makes the same moves as it would have made: the one change can be
put before or after any number of its moves and of whatever others do. Together with the silence of those
whose token is concerned, this says exactly whom a cancellation and a shutdown reach.
-/

namespace FlowGraph

/-- The same progress in a world that has been changed. -/
def Progress.mapWorld (f : World → World) : Progress → Progress
  | .running w m => .running (f w) m
  | .sleeping w milliseconds m => .sleeping (f w) milliseconds m
  | .resting w m => .resting (f w) m
  | .ended w result => .ended (f w) result

namespace World

variable {w : World} {t u : TokenId} {tokens : List Token → List Token} {down : Bool → Bool}

/-- Shutting down does not concern a token that is detached. -/
theorem Detached.isCancelled_shutDown (h : w.Detached u) : w.shutDown.isCancelled u = w.isCancelled u := by
  obtain ⟨token, found, detached⟩ := h
  have found' : w.shutDown.tokens[u.index]? = some token := found
  rw [isCancelled, isCancelled, found, found']
  simp only [detached, Bool.not_true, Bool.false_and]

theorem Precedes.detached {w' : World} (h : w.Precedes w') (detached : w.Detached u) : w'.Detached u := by
  obtain ⟨token, found, isDetached⟩ := detached
  obtain ⟨token', found', same, _⟩ := h.tokens _ _ found
  exact ⟨token', found', same.trans isDetached⟩

end World

/-- A pulse is not affected by a change of the world: whatever others do, it makes the same moves if they
find the world changed. -/
def Machine.Unaffected (g : Graph) (f : World → World) (w : World) (m : Machine) : Prop :=
  ∀ (others : World → World → Prop) events w' m', (∀ v v', others v v' → v.Precedes v') →
    Run g others w m events w' m' →
      Run g (Relation.Map others f f) (f w) m events (f w') m' ∧
        m'.step g (f w') = (m'.step g w').mapWorld f

namespace Graph

/-- A change of the world spares a token: it neither cancels it nor affects the pulses that have it, those
under way as well as those that start later. -/
structure Spares (g : Graph) (f : World → World) (stage : Stage) (t : TokenId) : Prop where
  token : (f stage.world).isCancelled t = stage.world.isCancelled t
  turn : ∀ m, stage.turn = some m → m.pulse.token = t → m.Unaffected g f stage.world
  waiting : ∀ m ∈ stage.waiting, m.pulse.token = t → m.Unaffected g f stage.world
  starting : ∀ root r, g.root root = .ok r →
    Machine.start g (f stage.world) root t =
        (f (Machine.start g stage.world root t).1, (Machine.start g stage.world root t).2) ∧
      (Machine.start g stage.world root t).2.Unaffected g f (Machine.start g stage.world root t).1

variable {g : Graph} {w w₀ : World} {m : Machine} {stage : Stage} {t : TokenId}
  {tokens : List Token → List Token} {down : Bool → Bool}

end Graph

end FlowGraph
