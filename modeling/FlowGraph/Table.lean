/-!
# Finite tables

A table maps each of finitely many keys to one value. Its entries are a list in which no key occurs
twice, so the number of entries is the number of keys. Each operation comes with a lemma that says
what it does to look-ups; nothing else needs to unfold it.
-/

namespace FlowGraph

structure Table (κ α : Type) where
  entries : List (κ × α)
  nodup : (entries.map Prod.fst).Nodup

namespace Table

variable {κ α : Type}

instance : EmptyCollection (Table κ α) :=
  ⟨⟨[], List.nodup_nil⟩⟩

instance : Inhabited (Table κ α) :=
  ⟨∅⟩

/-- The number of keys. -/
def size (t : Table κ α) : Nat :=
  t.entries.length

/-- Keeps the entries whose key passes the test. -/
def filterKeys (t : Table κ α) (p : κ → Bool) : Table κ α where
  entries := t.entries.filter fun e => p e.1
  nodup := List.Sublist.nodup (List.filter_sublist.map Prod.fst) t.nodup

variable [DecidableEq κ]

/-- Takes the value of a key away. -/
def erase (t : Table κ α) (k : κ) : Table κ α :=
  t.filterKeys (· ≠ k)

/-- The value of a key. -/
def get? (t : Table κ α) (k : κ) : Option α :=
  (t.entries.find? fun e => e.1 = k).map Prod.snd

def contains (t : Table κ α) (k : κ) : Bool :=
  (t.get? k).isSome

/-- Gives a key a value, in place of the one it had. -/
def insert (t : Table κ α) (k : κ) (v : α) : Table κ α where
  entries := (k, v) :: t.entries.filter fun e => e.1 ≠ k
  nodup := by
    have tail := List.Sublist.nodup ((List.filter_sublist (p := fun e : κ × α => e.1 ≠ k)).map Prod.fst) t.nodup
    simp only [List.map_cons, List.nodup_cons]
    refine ⟨?_, tail⟩
    simp

/-- Gives a key a value unless it has one. -/
def insertNew (t : Table κ α) (k : κ) (v : α) : Table κ α :=
  if t.contains k then t else t.insert k v

@[simp] theorem get?_empty (k : κ) : (∅ : Table κ α).get? k = none := rfl

@[simp] theorem get?_insert_self (t : Table κ α) (k : κ) (v : α) : (t.insert k v).get? k = some v := by
  simp [get?, insert]

theorem get?_insert_of_ne (t : Table κ α) {k j : κ} (v : α) (h : j ≠ k) :
    (t.insert k v).get? j = t.get? j := by
  have hk : ¬ k = j := fun e => h e.symm
  simp only [get?, insert, List.find?_cons, hk, decide_false, List.find?_filter]
  congr 2
  funext e
  by_cases he : e.1 = j <;> simp [he, h]

theorem get?_insert (t : Table κ α) (k j : κ) (v : α) :
    (t.insert k v).get? j = if j = k then some v else t.get? j := by
  split
  · subst j; simp
  · exact get?_insert_of_ne t v ‹_›

theorem get?_insertNew (t : Table κ α) (k j : κ) (v : α) :
    (t.insertNew k v).get? j = if j = k then some ((t.get? k).getD v) else t.get? j := by
  unfold insertNew contains
  cases h : t.get? k with
  | none => simp [get?_insert]
  | some w =>
    simp only [Option.isSome_some, ite_true, Option.getD_some]
    split
    · subst j; exact h
    · rfl

theorem get?_filterKeys (t : Table κ α) (p : κ → Bool) (k : κ) :
    (t.filterKeys p).get? k = if p k then t.get? k else none := by
  simp only [get?, filterKeys, List.find?_filter]
  split
  · congr 2
    funext e
    by_cases he : e.1 = k <;> simp_all
  · rw [Option.map_eq_none_iff, List.find?_eq_none]
    intro e _
    by_cases he : e.1 = k <;> simp_all

theorem get?_erase (t : Table κ α) (k j : κ) :
    (t.erase k).get? j = if j = k then none else t.get? j := by
  rw [erase, get?_filterKeys]
  by_cases h : j = k <;> simp [h]

/-- A table in which no key has a value is empty. -/
theorem eq_empty {t : Table κ α} (h : ∀ k, t.get? k = none) : t = ∅ := by
  obtain ⟨entries, nodup⟩ := t
  cases entries with
  | nil => rfl
  | cons e rest => simpa [get?] using h e.1

end Table

end FlowGraph
