import FlowGraph.Proofs.Arrivals

/-!
# Comparing with what was observed last

For each reactive input the last value is kept that counted as changed, which need not be the last value
that was read. That makes no difference: values that count as unchanged from each other are unchanged from
the same values, so what is kept compares like the last value read with whatever comes next. Since an
arrival reads all the reactive inputs of its node, what the next one is compared with is this arrival.
-/

namespace FlowGraph

/-! ## Values that count as unchanged -/

theorem Single.equal_trans {x y z : Single} (h : x.equal y = true) (h' : y.equal z = true) :
    x.equal z = true := by
  simp only [equal, isZero, isNaN, Bool.and_eq_true, Bool.or_eq_true, beq_iff_eq] at h h' ⊢
  refine ⟨⟨h.1.1, h'.1.2⟩, ?_⟩
  rcases h.2 with same | ⟨zero, zero'⟩
  · rcases h'.2 with same' | ⟨zero', zero''⟩
    · exact .inl (same.trans same')
    · exact .inr ⟨by rw [magnitude, same]; exact zero', zero''⟩
  · rcases h'.2 with same' | ⟨_, zero''⟩
    · exact .inr ⟨zero, by rw [magnitude, ← same']; exact zero'⟩
    · exact .inr ⟨zero, zero''⟩

theorem ValueType.equal_comm (t : ValueType) (a b : t.Carrier) : t.equal a b = t.equal b a := by
  cases t with
  | float => exact Single.equal_comm a b
  | bool | int | text => exact Bool.beq_comm

theorem ValueType.equal_trans {t : ValueType} {a b c : t.Carrier} (h : t.equal a b = true)
    (h' : t.equal b c = true) : t.equal a c = true := by
  cases t with
  | float => exact Single.equal_trans h h'
  | bool | int | text => exact beq_iff_eq.mpr ((eq_of_beq h).trans (eq_of_beq h'))

namespace Value

variable {t : ValueType} {u v w : Value}

theorem unchanged_comm (t : ValueType) (u v : Value) : unchanged t u v = unchanged t v u := by
  unfold unchanged
  cases u.as? t <;> cases v.as? t <;> simp [t.equal_comm]

theorem unchanged_trans (h : unchanged t u v = true) (h' : unchanged t v w = true) :
    unchanged t u w = true := by
  unfold unchanged at h h' ⊢
  cases hu : u.as? t <;> cases hv : v.as? t <;> cases hw : w.as? t <;> simp [hu, hv, hw] at h h' ⊢
  exact ValueType.equal_trans h h'

/-- Two values that count as unchanged compare in the same way with any third one. -/
theorem unchanged_congr (h : unchanged t u v = true) (w : Value) : unchanged t u w = unchanged t v w := by
  rw [Bool.eq_iff_iff]
  constructor
  · exact unchanged_trans (unchanged_comm t v u ▸ h)
  · exact unchanged_trans h

end Value

/-! ## One comparison -/

namespace World

variable {w : World} {input : Port}

theorem observe_changed (w : World) (input : Port) (t : ValueType) (v : Value) :
    (w.observe input t v).2 = !(w.observed.get? input).any (Value.unchanged t · v) := by
  rw [observe]
  split <;> simp_all

theorem observed_observe_of_ne (t : ValueType) (v : Value) {other : Port} (h : other ≠ input) :
    (w.observe input t v).1.observed.get? other = w.observed.get? other := by
  rw [observe]
  split
  · rfl
  · exact Table.get?_insert_of_ne _ v h

theorem observed_observe_of_unchanged {t : ValueType} {v : Value} (h : (w.observe input t v).2 = false) :
    (w.observe input t v).1 = w := by
  rw [observe] at h ⊢
  split at h
  next same => rw [if_pos same]
  next => cases h

/-- What is kept after a comparison compares like the value that was compared. -/
theorem observe_stands (w : World) (input : Port) (t : ValueType) (v : Value) :
    ∃ u, (w.observe input t v).1.observed.get? input = some u ∧
      ∀ x, Value.unchanged t u x = Value.unchanged t v x := by
  rw [observe]
  split
  next same =>
    obtain ⟨u, kept, unchanged⟩ := (Option.any_eq_true ..).mp same
    exact ⟨u, kept, Value.unchanged_congr unchanged⟩
  next => exact ⟨v, Table.get?_insert_self .., fun _ => rfl⟩

end World

/-! ## All comparisons of an arrival -/

/-- The reactive inputs among some inputs that are declared from a place on, each with its type. -/
def Input.reactivePlaces : (index : Nat) → List Input → List (Nat × ValueType)
  | _, [] => []
  | index, i :: inputs =>
    if i.isReactive then (index, i.type) :: reactivePlaces (index + 1) inputs
    else reactivePlaces (index + 1) inputs

/-- A node with reactive inputs has some. -/
theorem Input.reactivePlaces_ne_nil {inputs : List Input} (h : inputs.any (·.isReactive) = true) (index : Nat) :
    reactivePlaces index inputs ≠ [] := by
  induction inputs generalizing index with
  | nil => cases h
  | cons i inputs ih =>
      rw [reactivePlaces]
      split
      next => exact List.cons_ne_nil _ _
      next unreactive =>
        rw [List.any_cons, Bool.or_eq_true] at h
        exact ih (h.resolve_left unreactive) _

/-- The reactive inputs that a node declares. -/
def Descriptor.reactiveInputs (d : Descriptor) : List (Nat × ValueType) :=
  Input.reactivePlaces 0 d.inputs

namespace Reading

/-- The input that has been read. -/
def place (r : Reading) : Nat × ValueType :=
  (r.index, r.type)

/-- What is kept for the input compares like the value that has been read. -/
def Stands (w : World) (n : NodeId) (r : Reading) : Prop :=
  ∃ u, w.observed.get? ⟨n, r.index⟩ = some u ∧
    ∀ v, Value.unchanged r.type u v = Value.unchanged r.type r.value v

/-- Whether the value that has been read counts as changed from what is kept. -/
def isNew (w : World) (n : NodeId) (r : Reading) : Bool :=
  !(w.observed.get? ⟨n, r.index⟩).any (Value.unchanged r.type · r.value)

end Reading

namespace Graph

variable {g : Graph} {s : Scope} {index : Nat} {inputs : List Input} {w w' : World} {p p' : Pulse}
  {readings : List Reading} {changed : Bool}

/-- Every reactive input is read. -/
theorem Observes.places (h : g.Observes s index inputs w p readings changed w' p') :
    readings.map (·.place) = Input.reactivePlaces index inputs := by
  induction h with
  | nil => rfl
  | other unreactive _ ih => simp [Input.reactivePlaces, unreactive, ih]
  | reactive reactive _ _ _ ih =>
      rw [Input.reactivePlaces, if_pos reactive, List.map_cons, ih]
      rfl

theorem Observes.index_le (h : g.Observes s index inputs w p readings changed w' p') :
    ∀ r ∈ readings, index ≤ r.index := by
  induction h with
  | nil => exact List.forall_mem_nil _
  | other _ _ ih => exact fun r member => Nat.le_of_succ_le (ih r member)
  | reactive _ _ _ _ ih =>
      exact List.forall_mem_cons.mpr
        ⟨Nat.le_refl _, fun r member => Nat.le_of_succ_le (ih r member)⟩

/-- What is kept for the inputs before those that are read stays. -/
theorem Observes.before (h : g.Observes s index inputs w p readings changed w' p') {j : Nat}
    (earlier : j < index) : w'.observed.get? ⟨s.node, j⟩ = w.observed.get? ⟨s.node, j⟩ := by
  induction h with
  | nil => rfl
  | other _ _ ih => exact ih (Nat.lt_succ_of_lt earlier)
  | @reactive index _ _ _ _ _ _ _ _ _ _ _ _ _ aside _ ih =>
      have other : (⟨s.node, j⟩ : Port) ≠ ⟨s.node, index⟩ := by
        intro same
        exact Nat.ne_of_lt earlier (Port.mk.inj same).2
      rw [ih (Nat.lt_succ_of_lt earlier), World.observed_observe_of_ne _ _ other, aside]

/-- An arrival leaves behind what compares like the values that it has read. -/
theorem Observes.stands (h : g.Observes s index inputs w p readings changed w' p') :
    ∀ r ∈ readings, r.Stands w' s.node := by
  induction h with
  | nil => exact List.forall_mem_nil _
  | other _ _ ih => exact ih
  | @reactive index i _ _ _ v w₁ _ _ _ _ _ _ _ _ later ih =>
      refine List.forall_mem_cons.mpr ⟨?_, ih⟩
      obtain ⟨u, kept, same⟩ := w₁.observe_stands ⟨s.node, index⟩ i.type v
      exact ⟨u, (later.before (Nat.lt_succ_self _)).trans kept, same⟩

/-- The gate passes if some value counts as changed from what was kept when the arrival began. -/
theorem Observes.changed_iff (h : g.Observes s index inputs w p readings changed w' p') :
    changed = true ↔ ∃ r ∈ readings, r.isNew w s.node = true := by
  induction h with
  | nil => simp
  | other _ _ ih => exact ih
  | @reactive index i _ w _ v w₁ _ readings _ _ _ _ _ aside later ih =>
      -- What is kept for the later inputs has not changed in between.
      have same (r) (member : r ∈ readings) :
          (w₁.observe ⟨s.node, index⟩ i.type v).1.observed.get? ⟨s.node, r.index⟩ =
            w.observed.get? ⟨s.node, r.index⟩ := by
        have other : (⟨s.node, r.index⟩ : Port) ≠ ⟨s.node, index⟩ := by
          intro same
          exact Nat.ne_of_gt (later.index_le r member) (Port.mk.inj same).2
        rw [World.observed_observe_of_ne _ _ other, aside]
      have others : (∃ r ∈ readings, r.isNew (w₁.observe ⟨s.node, index⟩ i.type v).1 s.node = true) ↔
          ∃ r ∈ readings, r.isNew w s.node = true :=
        exists_congr fun r => and_congr_right fun member => by rw [Reading.isNew, Reading.isNew, same r member]
      rw [Bool.or_eq_true, ih, others, List.exists_mem_cons_iff, World.observe_changed, aside]
      rfl

/-- An arrival for which nothing counts as changed leaves what is kept as it was. -/
theorem Observes.unchanged (h : g.Observes s index inputs w p readings changed w' p')
    (same : changed = false) (j : Nat) :
    w'.observed.get? ⟨s.node, j⟩ = w.observed.get? ⟨s.node, j⟩ := by
  induction h with
  | nil => rfl
  | other _ _ ih => exact ih same
  | reactive _ _ aside _ ih =>
      obtain ⟨here, later⟩ := Bool.or_eq_false_iff.mp same
      rw [ih later, World.observed_observe_of_unchanged here, aside]

/-- Some input reads a value that does not count as unchanged from the one that it read before. -/
def Changed (previous readings : List Reading) : Prop :=
  ∃ r' ∈ previous, ∃ r ∈ readings, r'.place = r.place ∧ Value.unchanged r.type r'.value r.value = false

theorem isNew_eq_of_stands {n : NodeId} {r r' : Reading} (stands : r'.Stands w n)
    (same : r'.place = r.place) : r.isNew w n = !Value.unchanged r.type r'.value r.value := by
  obtain ⟨u, kept, alike⟩ := stands
  obtain ⟨index, type⟩ := Prod.mk.inj same
  rw [index] at kept
  rw [type] at alike
  simp [Reading.isNew, kept, alike]

/-- If what is kept stands for what has been read before, comparing with the one is comparing with the
other. -/
theorem exists_isNew_iff {n : NodeId} {previous : List Reading}
    (stands : ∀ r ∈ previous, r.Stands w n)
    (places : previous.map (·.place) = readings.map (·.place)) :
    (∃ r ∈ readings, r.isNew w n = true) ↔ Changed previous readings := by
  constructor
  · rintro ⟨r, member, new⟩
    obtain ⟨r', member', same⟩ : ∃ r' ∈ previous, r'.place = r.place :=
      List.mem_map.mp (places ▸ List.mem_map_of_mem member)
    rw [isNew_eq_of_stands (stands r' member') same] at new
    exact ⟨r', member', r, member, same, by simpa using new⟩
  · rintro ⟨r', member', r, member, same, changed⟩
    refine ⟨r, member, ?_⟩
    rw [isNew_eq_of_stands (stands r' member') same, changed]
    rfl

/-- If nothing is kept, everything counts as changed. -/
theorem isNew_of_unobserved {n : NodeId} (unobserved : ∀ j, w.observed.get? ⟨n, j⟩ = none) (r : Reading) :
    r.isNew w n = true := by
  simp [Reading.isNew, unobserved]

end Graph

end FlowGraph
