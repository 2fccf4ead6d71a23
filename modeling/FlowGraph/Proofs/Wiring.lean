import Mathlib.Data.List.Induction
import Mathlib.Data.List.Nodup
import FlowGraph.Proofs.Assembly

/-!
# Resolving connections

For each of the two kinds of connection there are three lemmas: what resolving returns if the wish names
what it should, what it returns at the first thing wrong with it, and that one of the two is the case.
Lists of wishes are then taken from the front, so that the connections made so far are always those of
the wishes before.
-/

namespace FlowGraph

namespace FirstNamed

variable {α : Type} {name : α → String} {l : List α} {s : String} {i j : Nat} {a b : α}

theorem findIdx?_eq (h : FirstNamed name l s i a) : l.findIdx? (name · == s) = some i := by
  obtain ⟨bound, rfl⟩ := List.getElem?_eq_some_iff.mp h.entry
  rw [List.findIdx?_eq_some_iff_getElem]
  refine ⟨bound, by simpa using h.named, fun j hj named => ?_⟩
  exact h.first j hj _ (List.getElem?_eq_getElem (Nat.lt_trans hj bound)) (by simpa using named)

theorem unique (h : FirstNamed name l s i a) (h' : FirstNamed name l s j b) : i = j ∧ a = b := by
  obtain rfl : i = j := Option.some.inj (h.findIdx?_eq.symm.trans h'.findIdx?_eq)
  exact ⟨rfl, Option.some.inj (h.entry.symm.trans h'.entry)⟩

/-- In a list of different names each one is found at its place. -/
theorem of_nodup (nodup : (l.map name).Nodup) (entry : l[i]? = some a) (named : name a = s) :
    FirstNamed name l s i a := by
  refine ⟨entry, named, fun j hj other ho same => ?_⟩
  obtain ⟨bound, rfl⟩ := List.getElem?_eq_some_iff.mp entry
  obtain ⟨below, rfl⟩ := List.getElem?_eq_some_iff.mp ho
  have inj := @List.Nodup.getElem_inj_iff _ _ nodup j (by simpa using below) i (by simpa using bound)
  have : j = i := inj.mp (by simpa [named] using same)
  omega

theorem mem (h : FirstNamed name l s i a) : a ∈ l :=
  List.mem_of_getElem? h.entry

/-- A name is that of some first entry, or of none. -/
theorem exists_or_absent (name : α → String) (l : List α) (s : String) :
    (∃ i a, FirstNamed name l s i a) ∨ ∀ a ∈ l, name a ≠ s := by
  cases found : l.findIdx? (name · == s) with
  | none =>
      refine .inr fun a ha => ?_
      simpa using List.findIdx?_eq_none_iff.mp found a ha
  | some i =>
      obtain ⟨bound, named, first⟩ := List.findIdx?_eq_some_iff_getElem.mp found
      refine .inl ⟨i, l[i], List.getElem?_eq_getElem bound, by simpa using named, ?_⟩
      intro j hj b hb same
      obtain ⟨_, rfl⟩ := List.getElem?_eq_some_iff.mp hb
      exact first j hj (by simpa using same)

theorem findIdx?_of_absent (absent : ∀ a ∈ l, name a ≠ s) : l.findIdx? (name · == s) = none :=
  List.findIdx?_eq_none_iff.mpr fun a ha => by simpa using absent a ha

end FirstNamed

namespace Blueprint

variable {b : Blueprint}

theorem find_of_named {name : String} {n : NodeId} {m : Member}
    (h : FirstNamed Member.name b.members name n.index m) : b.find name = .ok (n, m) := by
  rw [find, h.findIdx?_eq]
  simp only [h.entry]

theorem find_of_absent {name : String} (absent : ∀ m ∈ b.members, m.name ≠ name) :
    b.find name = .error (.nodeNotFound name) := by
  rw [find, FirstNamed.findIdx?_of_absent absent]

theorem findOutput_of_named {m : Member} {node port : String} {i : Nat} {o : Output}
    (h : FirstNamed Output.name m.descriptor.outputs port i o) :
    findOutput m node port = .ok (i, o) := by
  rw [findOutput, Descriptor.outputIndex?, h.findIdx?_eq]
  simp only [h.entry]

theorem findOutput_of_absent {m : Member} {node port : String}
    (absent : ∀ o ∈ m.descriptor.outputs, o.name ≠ port) :
    findOutput m node port = .error (.unknownPort node port) := by
  rw [findOutput, Descriptor.outputIndex?, FirstNamed.findIdx?_of_absent absent]

theorem findInput_of_named {m : Member} {node port : String} {i : Nat} {input : Input}
    (h : FirstNamed Input.name m.descriptor.inputs port i input) :
    findInput m node port = .ok (i, input) := by
  rw [findInput, Descriptor.inputIndex?, h.findIdx?_eq]
  simp only [h.entry]

theorem findInput_of_absent {m : Member} {node port : String}
    (absent : ∀ i ∈ m.descriptor.inputs, i.name ≠ port) :
    findInput m node port = .error (.unknownPort node port) := by
  rw [findInput, Descriptor.inputIndex?, FirstNamed.findIdx?_of_absent absent]

/-- The first input with a name is the one declared in its place. -/
theorem declares_of_named {ms : List Member} {name port : String} {target : Port} {m : Member}
    {i : Input} (node : FirstNamed Member.name ms name target.node.index m)
    (input : FirstNamed Input.name m.descriptor.inputs port target.index i) :
    Declares ms target i :=
  ⟨m, node.entry, input.entry⟩

theorem Declares.unique {ms : List Member} {input : Port} {i j : Input} (h : Declares ms input i)
    (h' : Declares ms input j) : i = j := by
  obtain ⟨m, hm, hi⟩ := h
  obtain ⟨m', hm', hj⟩ := h'
  obtain rfl : m = m' := Option.some.inj (hm.symm.trans hm')
  exact Option.some.inj (hi.symm.trans hj)

/-! ## Value connections -/

variable {edges : List ValueEdge} {w : ValueWish} {e : ValueEdge}

theorem resolveValue_of_joins (h : Joins b.members w e)
    (free : IsSingle b.members e.target → ∀ e' ∈ edges, e'.target ≠ e.target) :
    b.resolveValue edges w = .ok (edges ++ [e]) := by
  obtain ⟨source, target, output, input, hs, ht, ho, hi, same⟩ := h
  simp only [resolveValue, find_of_named hs, find_of_named ht, findOutput_of_named ho,
    findInput_of_named hi, bind, Except.bind]
  rw [if_neg (not_not_intro same), if_neg]
  simp only [Bool.and_eq_true, Bool.not_eq_true', List.any_eq_true, decide_eq_true_eq, not_and,
    not_exists]
  exact fun single e' he' => free ⟨input, declares_of_named ht hi, single⟩ e' he'

theorem resolveValue_of_failure {err : BuildError} (h : ValueFailure b.members edges w err) :
    b.resolveValue edges w = .error err := by
  cases h with
  | source absent =>
      simp only [resolveValue, find_of_absent absent, bind, Except.bind]
  | @target n m source absent =>
      simp only [resolveValue, find_of_named (n := ⟨n⟩) source, find_of_absent absent, bind,
        Except.bind]
  | @output n m n' m' source target absent =>
      simp only [resolveValue, find_of_named (n := ⟨n⟩) source, find_of_named (n := ⟨n'⟩) target,
        findOutput_of_absent absent, bind, Except.bind]
  | @input n m n' m' i o source target output absent =>
      simp only [resolveValue, find_of_named (n := ⟨n⟩) source, find_of_named (n := ⟨n'⟩) target,
        findOutput_of_named output, findInput_of_absent absent, bind, Except.bind]
  | @type n m n' m' i o i' j source target output input differ =>
      simp only [resolveValue, find_of_named (n := ⟨n⟩) source, find_of_named (n := ⟨n'⟩) target,
        findOutput_of_named output, findInput_of_named input, bind, Except.bind]
      rw [if_pos differ]
  | @connected e e' joins single earlier same =>
      obtain ⟨source, target, output, input, hs, ht, ho, hi, types⟩ := joins
      obtain ⟨i, declared, single⟩ := single
      obtain rfl := declared.unique (declares_of_named ht hi)
      simp only [resolveValue, find_of_named hs, find_of_named ht, findOutput_of_named ho,
        findInput_of_named hi, bind, Except.bind]
      rw [if_neg (not_not_intro types), if_pos]
      simp only [Bool.and_eq_true, Bool.not_eq_true', List.any_eq_true, decide_eq_true_eq]
      exact ⟨single, e', earlier, same⟩

/-- A wish can be joined to the connections made before it, or something is wrong with it. -/
theorem joins_or_failure (ms : List Member) (edges : List ValueEdge) (w : ValueWish) :
    (∃ e, Joins ms w e ∧ (IsSingle ms e.target → ∀ e' ∈ edges, e'.target ≠ e.target)) ∨
      ∃ err, ValueFailure ms edges w err := by
  rcases FirstNamed.exists_or_absent Member.name ms w.source with ⟨n, m, source⟩ | absent
  · rcases FirstNamed.exists_or_absent Member.name ms w.target with ⟨n', m', target⟩ | absent
    · rcases FirstNamed.exists_or_absent Output.name m.descriptor.outputs w.sourcePort with
        ⟨i, o, output⟩ | absent
      · rcases FirstNamed.exists_or_absent Input.name m'.descriptor.inputs w.targetPort with
          ⟨i', j, input⟩ | absent
        · by_cases same : o.type = j.type
          · let e : ValueEdge := ⟨⟨⟨n⟩, i⟩, ⟨⟨n'⟩, i'⟩⟩
            have joins : Joins ms w e := ⟨m, m', o, j, source, target, output, input, same⟩
            by_cases free : IsSingle ms e.target → ∀ e' ∈ edges, e'.target ≠ e.target
            · exact .inl ⟨e, joins, free⟩
            · push Not at free
              obtain ⟨single, e', earlier, clash⟩ := free
              exact .inr ⟨_, .connected joins single earlier clash⟩
          · exact .inr ⟨_, .type source target output input same⟩
        · exact .inr ⟨_, .input source target output absent⟩
      · exact .inr ⟨_, .output source target absent⟩
    · exact .inr ⟨_, .target source absent⟩
  · exact .inr ⟨_, .source absent⟩

/-- The connections of the wishes so far, then one more. -/
theorem Wired.snoc {ms : List Member} {wishes : List ValueWish} (h : Wired ms wishes edges)
    (joins : Joins ms w e) (free : IsSingle ms e.target → ∀ e' ∈ edges, e'.target ≠ e.target) :
    Wired ms (wishes ++ [w]) (edges ++ [e]) where
  joined := List.rel_append h.joined (.cons joins .nil)
  single := by
    rw [List.pairwise_append]
    refine ⟨h.single, List.pairwise_singleton _ _, fun e' he' later member single => ?_⟩
    obtain rfl := List.mem_singleton.mp member
    exact free single e' he'

/-- Every wish is granted, or there is a first one that is not. -/
theorem wired_or_failure (ms : List Member) (wishes : List ValueWish) :
    (∃ edges, Wired ms wishes edges) ∨ ∃ before w after edges err,
      wishes = before ++ w :: after ∧ Wired ms before edges ∧ ValueFailure ms edges w err := by
  induction wishes using List.reverseRecOn with
  | nil => exact .inl ⟨[], .nil, .nil⟩
  | append_singleton wishes w ih =>
      rcases ih with ⟨edges, wired⟩ | ⟨before, w', after, edges, err, rfl, wired, fails⟩
      · rcases joins_or_failure ms edges w with ⟨e, joins, free⟩ | ⟨err, fails⟩
        · exact .inl ⟨edges ++ [e], wired.snoc joins free⟩
        · exact .inr ⟨wishes, w, [], edges, err, rfl, wired, fails⟩
      · exact .inr ⟨before, w', after ++ [w], edges, err, by simp, wired, fails⟩

/-- Granting wishes one after the other, beginning with some connections. -/
theorem foldlM_resolveValue {wishes : List ValueWish} (earlier : List ValueEdge)
    (joined : List.Forall₂ (Joins b.members) wishes edges)
    (single : (earlier ++ edges).Pairwise fun e later =>
      IsSingle b.members later.target → e.target ≠ later.target) :
    wishes.foldlM b.resolveValue earlier = .ok (earlier ++ edges) := by
  induction joined generalizing earlier with
  | nil => simp [pure, Except.pure]
  | @cons w e wishes edges joins rest ih =>
      have free : IsSingle b.members e.target → ∀ e' ∈ earlier, e'.target ≠ e.target :=
        fun one e' he' => (List.pairwise_append.mp single).2.2 e' he' e (List.mem_cons_self ..) one
      rw [List.foldlM_cons, resolveValue_of_joins joins free]
      simpa [bind, Except.bind] using ih (earlier ++ [e]) (by simpa using single)

theorem foldlM_of_wired {wishes : List ValueWish} (h : Wired b.members wishes edges) :
    wishes.foldlM b.resolveValue [] = .ok edges :=
  foldlM_resolveValue [] h.joined h.single

theorem foldlM_of_valueFailure {before after : List ValueWish} {err : BuildError}
    (wired : Wired b.members before edges) (fails : ValueFailure b.members edges w err) :
    (before ++ w :: after).foldlM b.resolveValue [] = .error err := by
  rw [List.foldlM_append, foldlM_of_wired wired]
  simp only [bind, Except.bind, List.foldlM_cons, resolveValue_of_failure fails]

/-! ## Flow connections -/

variable {fw : FlowWish} {fe : FlowEdge}

theorem resolveFlow_of_starts (h : Starts b.members fw fe) : b.resolveFlow fw = .ok fe := by
  obtain ⟨source, target, flow, hs, ht, hf, opened⟩ := h
  simp only [resolveFlow, find_of_named hs, find_of_named ht, Descriptor.flowIndex?,
    hf.findIdx?_eq, opened, bind, Except.bind]
  rfl

theorem resolveFlow_of_failure {err : BuildError} (h : FlowFailure b.members fw err) :
    b.resolveFlow fw = .error err := by
  cases h with
  | source absent => simp only [resolveFlow, find_of_absent absent, bind, Except.bind]
  | @target n m source absent =>
      simp only [resolveFlow, find_of_named (n := ⟨n⟩) source, find_of_absent absent, bind,
        Except.bind]
  | @flow n m n' m' source target absent =>
      simp only [resolveFlow, find_of_named (n := ⟨n⟩) source, find_of_named (n := ⟨n'⟩) target,
        Descriptor.flowIndex?, FirstNamed.findIdx?_of_absent absent, bind, Except.bind]
  | @closed n m n' m' i f source target flow noInput =>
      simp only [resolveFlow, find_of_named (n := ⟨n⟩) source, find_of_named (n := ⟨n'⟩) target,
        Descriptor.flowIndex?, flow.findIdx?_eq, noInput, bind, Except.bind]
      rfl

theorem starts_or_failure (ms : List Member) (w : FlowWish) :
    (∃ e, Starts ms w e) ∨ ∃ err, FlowFailure ms w err := by
  rcases FirstNamed.exists_or_absent Member.name ms w.source with ⟨n, m, source⟩ | absent
  · rcases FirstNamed.exists_or_absent Member.name ms w.target with ⟨n', m', target⟩ | absent
    · rcases FirstNamed.exists_or_absent Flow.name m.descriptor.flows w.flow with
        ⟨i, f, flow⟩ | absent
      · cases opened : m'.descriptor.flowInput with
        | false => exact .inr ⟨_, .closed source target flow opened⟩
        | true => exact .inl ⟨⟨⟨⟨n⟩, i⟩, ⟨n'⟩⟩, m, m', f, source, target, flow, opened⟩
      · exact .inr ⟨_, .flow source target absent⟩
    · exact .inr ⟨_, .target source absent⟩
  · exact .inr ⟨_, .source absent⟩

theorem started_or_failure (ms : List Member) (wishes : List FlowWish) :
    (∃ edges, List.Forall₂ (Starts ms) wishes edges) ∨ ∃ before w after edges err,
      wishes = before ++ w :: after ∧ List.Forall₂ (Starts ms) before edges ∧
        FlowFailure ms w err := by
  induction wishes using List.reverseRecOn with
  | nil => exact .inl ⟨[], .nil⟩
  | append_singleton wishes w ih =>
      rcases ih with ⟨edges, started⟩ | ⟨before, w', after, edges, err, rfl, started, fails⟩
      · rcases starts_or_failure ms w with ⟨e, starts⟩ | ⟨err, fails⟩
        · exact .inl ⟨edges ++ [e], List.rel_append started (.cons starts .nil)⟩
        · exact .inr ⟨wishes, w, [], edges, err, rfl, started, fails⟩
      · exact .inr ⟨before, w', after ++ [w], edges, err, by simp, started, fails⟩

theorem mapM_of_started {wishes : List FlowWish} {flows : List FlowEdge}
    (h : List.Forall₂ (Starts b.members) wishes flows) : wishes.mapM b.resolveFlow = .ok flows := by
  induction h with
  | nil => rfl
  | cons starts rest ih =>
      rw [List.mapM_cons, resolveFlow_of_starts starts, ih]
      rfl

theorem mapM_of_flowFailure {before after : List FlowWish} {flows : List FlowEdge}
    {err : BuildError} (started : List.Forall₂ (Starts b.members) before flows)
    (fails : FlowFailure b.members fw err) :
    (before ++ fw :: after).mapM b.resolveFlow = .error err := by
  rw [List.mapM_append, mapM_of_started started, List.mapM_cons, resolveFlow_of_failure fails]
  rfl

end Blueprint

end FlowGraph
