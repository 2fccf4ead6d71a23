import Mathlib.Data.List.Nodup
import Mathlib.Data.Option.Basic
import FlowGraph.Proofs.Dating
import FlowGraph.Proofs.Extending
import FlowGraph.Report.Json

/-!
# Written reports are read back

A record that is written with different names is read back field by field. A report is such a record.
Its numbers are natural ones, so they are kept exactly; what the reader asks of them is only that they
have no more than sixty-four bits.
-/

namespace FlowGraph

namespace Json

theorem filter_of_nodup {members : List (Option String × Json)}
    (nodup : (members.map Prod.fst).Nodup) {m : Option String × Json} (hm : m ∈ members) :
    members.filter (·.1 = m.1) = [m] := by
  induction members with
  | nil => cases hm
  | cons first members ih =>
      obtain ⟨fresh, nodup⟩ := List.nodup_cons.mp nodup
      rcases List.mem_cons.mp hm with rfl | later
      · have others : members.filter (·.1 = m.1) = [] := by
          rw [List.filter_eq_nil_iff]
          intro k hk same
          exact fresh (of_decide_eq_true same ▸ List.mem_map_of_mem hk)
        simp [others]
      · have differ : first.1 ≠ m.1 := by
          intro same
          exact fresh (same ▸ List.mem_map_of_mem later)
        simp [differ, ih nodup later]

/-- A list is gone through if each of its elements is. -/
theorem mapM_map_of_forall {α κ β : Type} {f : κ → Option β} {key : α → κ} {value : α → β} {as : List α}
    (each : ∀ a ∈ as, f (key a) = some (value a)) : (as.map key).mapM f = some (as.map value) := by
  induction as with
  | nil => rfl
  | cons a as ih =>
      obtain ⟨here, there⟩ := List.forall_mem_cons.mp each
      rw [List.map_cons, List.mapM_cons, here, ih there]
      rfl

/-- An object without repeated names is a record of all its members. -/
theorem record?_ofMembers {members : List (String × Json)} (nodup : (members.map Prod.fst).Nodup) :
    (ofMembers members).record? (members.map Prod.fst) = some (members.map fun m => some m.2) := by
  have named : ((members.map fun m => (some m.1, m.2)).all fun m => m.1.isSome) = true := by simp
  have distinct : ((members.map fun m => ((some m.1 : Option String), m.2)).map Prod.fst).Nodup := by
    rw [List.map_map]
    have compose : Prod.fst ∘ (fun m : String × Json => ((some m.1 : Option String), m.2)) =
        some ∘ Prod.fst := rfl
    rw [compose, ← List.map_map]
    exact nodup.map (Option.some_injective _)
  rw [ofMembers, record?, if_pos named]
  apply mapM_map_of_forall
  intro m inside
  have found := filter_of_nodup distinct (List.mem_map_of_mem inside)
  simp only [found]

theorem word?_natural {n : Nat} (h : n ≤ Text.maxWord) : (natural n).word? = some n :=
  if_pos h

end Json

namespace Report

/-- All numbers of a report have at most sixty-four bits. -/
structure Fits (r : Report) : Prop where
  pulse : r.pulse.number ≤ Text.maxWord
  root : r.root.index ≤ Text.maxWord
  activations : ∀ n ∈ r.activations, n.index ≤ Text.maxWord
  activationCount : r.activationCount ≤ Text.maxWord
  evaluations : r.evaluations ≤ Text.maxWord
  memoHits : r.memoHits ≤ Text.maxWord
  invalidations : r.invalidations ≤ Text.maxWord
  suppressed : r.suppressed ≤ Text.maxWord

variable {r : Report}

theorem record?_toJson (r : Report) : r.toJson.record? fields = some (r.values.map some) := by
  have names : (fields.zip r.values).map Prod.fst = fields := List.map_fst_zip (Nat.le_refl 11)
  have values : (fields.zip r.values).map Prod.snd = r.values := List.map_snd_zip (Nat.le_refl 11)
  have nodup : ((fields.zip r.values).map Prod.fst).Nodup := by
    rw [names]
    decide
  have record := Json.record?_ofMembers nodup
  rw [names] at record
  rw [toJson, record, ← values, List.map_map]
  rfl

theorem timestamp?_text (t : Timestamp) : timestamp? (.text t.text) = some t := by
  simp only [timestamp?, Json.text?, Json.text, Timestamp.text, bind, Option.bind,
    String.toList_ofList, Timestamp.ofText?_write]

theorem mapM_word?_activations {ns : List NodeId} (fits : ∀ n ∈ ns, n.index ≤ Text.maxWord) :
    (ns.map fun n => Json.natural n.index).mapM (fun n => n.word?.map NodeId.mk) = some ns := by
  have read : (ns.map fun n => Json.natural n.index).mapM (fun n => n.word?.map NodeId.mk) =
      some (ns.map id) := by
    apply Json.mapM_map_of_forall
    intro n member
    rw [Json.word?_natural (fits n member)]
    rfl
  rwa [List.map_id] at read

theorem Fits.ofJson?_toJson (fits : r.Fits) : ofJson? r.toJson = some r := by
  simp only [ofJson?, record?_toJson, values, List.map_cons, List.map_nil, bind, Option.bind,
    Json.word?_natural fits.pulse, Json.word?_natural fits.root, Json.items?,
    mapM_word?_activations fits.activations, Json.word?_natural fits.activationCount,
    Json.word?_natural fits.evaluations, Json.word?_natural fits.memoHits, Option.getD_some,
    Json.word?_natural fits.invalidations, Json.word?_natural fits.suppressed, Json.bool?,
    timestamp?_text]

theorem whole_toJson (r : Report) : r.toJson.Whole := by
  refine .object fun m hm => ?_
  obtain ⟨⟨name, j⟩, pair, rfl⟩ := List.mem_map.mp hm
  have value : j ∈ r.values := (List.of_mem_zip pair).2
  simp only [values, List.mem_cons, List.not_mem_nil, or_false] at value
  rcases value with rfl | rfl | rfl | rfl | rfl | rfl | rfl | rfl | rfl | rfl | rfl
  case inr.inr.inl =>
    refine .array fun i hi => ?_
    obtain ⟨n, _, rfl⟩ := List.mem_map.mp hi
    exact .integer _
  all_goals first | exact .integer _ | exact .bool _ | exact .string _

/-- A line holds its report, also behind blanks. -/
theorem Fits.ofText?_append_line (fits : r.Fits) {s : String}
    (blank : ∀ c ∈ s.toList, Json.isBlank c = true) : ofText? (s ++ r.line) = some r := by
  simp only [ofText?, line, (whole_toJson r).ofText?_append_compact blank, bind, Option.bind,
    fits.ofJson?_toJson]

theorem Fits.ofText?_line (fits : r.Fits) : ofText? r.line = some r := by
  have nothing : ∀ c ∈ ("" : String).toList, Json.isBlank c = true := by simp
  have read := fits.ofText?_append_line nothing
  rwa [String.empty_append] at read

theorem skipBlanks_line_ne_nil (r : Report) : Json.skipBlanks r.line.toList ≠ [] := by
  obtain ⟨c, cs, begins, blank, _⟩ := Json.exists_cons_write (whole_toJson r) .compact 0
  rw [line, Json.compact, String.toList_ofList, begins, Json.skipBlanks_cons blank]
  exact List.cons_ne_nil _ _

/-- Only an object or an array holds a report. -/
theorem isBracketed_of_ofJson? {j : Json} (holds : ofJson? j = some r) : j.IsBracketed := by
  obtain ⟨values, record, _⟩ := Option.bind_eq_some_iff.mp holds
  cases j with
  | array | object => trivial
  | null | bool | integer | number | string => cases record

/-- A line that holds a report holds none once another one is added. -/
theorem ofText?_append_line_of_report {s : String} {before : Report}
    (holds : ofText? s = some before) (r : Report) : ofText? (s ++ r.line) = none := by
  obtain ⟨j, whole, described⟩ := Option.bind_eq_some_iff.mp holds
  have bracketed := isBracketed_of_ofJson? described
  simp only [ofText?, Json.ofText?_append_eq_none whole bracketed (skipBlanks_line_ne_nil r), bind,
    Option.bind]

theorem printable_line (r : Report) : Json.Printable r.line.toList := by
  rw [line, Json.compact, String.toList_ofList]
  exact (whole_toJson r).printable 0

theorem newline_not_mem_line (r : Report) : '\n' ∉ r.line.toList := by
  intro inside
  exact absurd (printable_line r _ inside) (by decide)

end Report

end FlowGraph
