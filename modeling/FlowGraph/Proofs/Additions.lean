import Mathlib.Data.List.Induction
import FlowGraph.Proofs.Assembly

/-!
# Adding nodes

As long as every addition succeeds, a blueprint has exactly the members and the wishes that its calls
ask for, in their order. The first addition that does not succeed is the failure of the blueprint from
then on. One of the two is the case.
-/

namespace FlowGraph

namespace Blueprint

variable {b : Blueprint}

theorem namesOf_append (calls more : List Call) :
    namesOf (calls ++ more) = namesOf calls ++ namesOf more := by
  simp [namesOf]

theorem membersOf_append (calls more : List Call) :
    membersOf (calls ++ more) = membersOf calls ++ membersOf more := by
  simp [membersOf]

theorem Additions.nil : Additions [] :=
  ⟨by simp [namesOf], by simp⟩

theorem Additions.front {calls more : List Call} (h : Additions (calls ++ more)) : Additions calls where
  nodup := (List.nodup_append.mp (namesOf_append calls more ▸ h.nodup)).1
  accepted name e member :=
    h.accepted name e (by rw [List.filterMap_append]; exact List.mem_append_left _ member)

/-- If no registry refuses, the members have the names of the additions. -/
theorem Additions.map_name {calls : List Call} (h : Additions calls) :
    (membersOf calls).map (·.name) = namesOf calls := by
  induction calls using List.reverseRecOn with
  | nil => rfl
  | append_singleton calls c ih =>
      rw [membersOf_append, namesOf_append, List.map_append, ih h.front]
      have fine := h.accepted
      rw [List.filterMap_append] at fine
      cases add : c.addition? with
      | none => simp [membersOf, namesOf, Call.member?, add]
      | some addition =>
          obtain ⟨name, result⟩ := addition
          cases result with
          | ok node => simp [membersOf, namesOf, Call.member?, add]
          | error e => exact absurd (by simp [add]) (fine name e)

/-- A call that adds nothing, adds a node under a new name, or fails to. -/
theorem additions_snoc_cases {calls : List Call} (h : Additions calls) (c : Call) :
    Additions (calls ++ [c]) ∨ ∃ e, AdditionFailure (membersOf calls) c e := by
  cases add : c.addition? with
  | none =>
      refine .inl ⟨?_, fun name e => ?_⟩
      · simpa [namesOf_append, namesOf, add] using h.nodup
      · simpa [add] using h.accepted name e
  | some addition =>
      obtain ⟨name, result⟩ := addition
      cases result with
      | error e => exact .inr ⟨e, .refused add⟩
      | ok node =>
          by_cases taken : name ∈ (membersOf calls).map (·.name)
          · exact .inr ⟨_, .duplicate add taken⟩
          · rw [h.map_name] at taken
            refine .inl ⟨?_, fun name' e => ?_⟩
            · rw [namesOf_append, List.nodup_append]
              refine ⟨h.nodup, by simp [namesOf, add], ?_⟩
              rintro x hx y hy rfl
              have same : x = name := by simpa [namesOf, add] using hy
              exact taken (same ▸ hx)
            · simpa [add] using h.accepted name' e

theorem additions_or_failure (calls : List Call) :
    Additions calls ∨ ∃ before c after e,
      calls = before ++ c :: after ∧ Additions before ∧ AdditionFailure (membersOf before) c e := by
  induction calls using List.reverseRecOn with
  | nil => exact .inl .nil
  | append_singleton calls c ih =>
      rcases ih with fine | ⟨before, c', after, e, rfl, fine, fails⟩
      · rcases additions_snoc_cases fine c with more | ⟨e, fails⟩
        · exact .inl more
        · exact .inr ⟨calls, c, [], e, rfl, fine, fails⟩
      · exact .inr ⟨before, c', after ++ [c], e, by simp, fine, fails⟩

theorem callAll_snoc (b : Blueprint) (calls : List Call) (c : Call) :
    b.callAll (calls ++ [c]) = (b.callAll calls).call c := by
  simp [callAll]

theorem call_of_accepted {c : Call} {name : String} {node : Node} (b : Blueprint)
    (h : c.addition? = some (name, .ok node)) : b.call c = b.add name node := by
  cases c with
  | add => cases h; rfl
  | addRegistered r name nodeType arg =>
      obtain ⟨rfl, created⟩ := Prod.mk.inj (Option.some.inj h)
      simp only [call, addRegistered, created]
  | connectValue => cases h
  | connectFlow => cases h

theorem call_of_refused {c : Call} {name : String} {e : BuildError} (b : Blueprint)
    (h : c.addition? = some (name, .error e)) : b.call c = b.fail e := by
  cases c with
  | add => cases h
  | addRegistered r name nodeType arg =>
      obtain ⟨rfl, refused⟩ := Prod.mk.inj (Option.some.inj h)
      simp only [call, addRegistered, refused]
  | connectValue => cases h
  | connectFlow => cases h

theorem add_of_fresh {name : String} {node : Node} (fresh : name ∉ b.members.map (·.name)) :
    b.add name node = { b with members := b.members ++ [⟨name, node⟩] } := by
  rw [add, if_neg]
  simpa using fresh

theorem add_of_taken {name : String} {node : Node} (taken : name ∈ b.members.map (·.name)) :
    b.add name node = b.fail (.duplicateNode name) := by
  rw [add, if_pos]
  simpa using taken

/-- A blueprint that has everything the calls ask for. -/
def described (name : String) (config : Config) (calls : List Call) : Blueprint where
  name
  config
  members := membersOf calls
  valueWishes := valueWishesOf calls
  flowWishes := flowWishesOf calls

theorem described_snoc (name : String) (config : Config) (calls : List Call) (c : Call) :
    described name config (calls ++ [c]) =
      { described name config calls with
        members := membersOf calls ++ c.member?.toList
        valueWishes := valueWishesOf calls ++ c.valueWish?.toList
        flowWishes := flowWishesOf calls ++ c.flowWish?.toList } := by
  have last : ∀ {α : Type} (f : Call → Option α), [c].filterMap f = (f c).toList := by
    intro α f
    cases h : f c <;> simp [h]
  simp only [described, membersOf, valueWishesOf, flowWishesOf, List.filterMap_append, last]

/-- While every addition succeeds, the blueprint has what the calls ask for. -/
theorem callAll_of_additions {name : String} {config : Config} {calls : List Call}
    (h : Additions calls) :
    ({ name, config } : Blueprint).callAll calls = described name config calls := by
  induction calls using List.reverseRecOn with
  | nil => rfl
  | append_singleton calls c ih =>
      rw [callAll_snoc, ih h.front, described_snoc]
      cases added : c.addition? with
      | none =>
          cases c with
          | add | addRegistered => cases added
          | connectValue | connectFlow =>
              simp [call, connectValue, connectFlow, described, Call.member?, added,
                Call.valueWish?, Call.flowWish?]
      | some addition =>
          obtain ⟨n, result⟩ := addition
          cases result with
          | error e => exact absurd (by simp [added]) (h.accepted n e)
          | ok node =>
              have fresh : n ∉ (membersOf calls).map (·.name) := by
                rw [h.front.map_name]
                have nodup := h.nodup
                rw [namesOf_append, List.nodup_append] at nodup
                intro taken
                exact nodup.2.2 n taken n (by simp [namesOf, added]) rfl
              rw [call_of_accepted _ added, add_of_fresh fresh]
              cases c with
              | add | addRegistered =>
                  simp [described, Call.member?, added, Call.valueWish?, Call.flowWish?]
              | connectValue | connectFlow => cases added

/-- Once there is a failure, it stays. -/
theorem failure_call {e : BuildError} (h : b.failure = some e) (c : Call) :
    (b.call c).failure = some e := by
  have fail : ∀ e', (b.fail e').failure = some e := by simp [Blueprint.fail, h]
  have add : ∀ name node, (b.add name node).failure = some e := by
    intro name node
    unfold Blueprint.add
    split
    · exact fail _
    · exact h
  cases c with
  | add name node => exact add name node
  | addRegistered r name nodeType arg =>
      simp only [call, addRegistered]
      split
      · exact add name _
      · exact fail _
  | connectValue => exact h
  | connectFlow => exact h

theorem failure_callAll {e : BuildError} (h : b.failure = some e) (calls : List Call) :
    (b.callAll calls).failure = some e := by
  induction calls generalizing b with
  | nil => exact h
  | cons c rest ih => exact ih (failure_call h c)

theorem failure_call_of_failure {c : Call} {e : BuildError} (fine : b.failure = none)
    (fails : AdditionFailure b.members c e) : (b.call c).failure = some e := by
  cases fails with
  | refused h => rw [call_of_refused b h, fail, fine, Option.none_or]
  | duplicate h taken =>
      rw [call_of_accepted b h, add_of_taken taken, fail, fine, Option.none_or]

/-- The first addition that fails is the failure of the blueprint. -/
theorem failure_of_first {name : String} {config : Config} {before after : List Call} {c : Call}
    {e : BuildError} (fine : Additions before) (fails : AdditionFailure (membersOf before) c e) :
    (({ name, config } : Blueprint).callAll (before ++ c :: after)).failure = some e := by
  have split : ({ name, config } : Blueprint).callAll (before ++ c :: after) =
      ((described name config before).call c).callAll after := by
    rw [← callAll_of_additions fine]
    simp [callAll]
  rw [split]
  exact failure_callAll (failure_call_of_failure rfl fails) after

end Blueprint

end FlowGraph
