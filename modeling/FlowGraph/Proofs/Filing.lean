import FlowGraph.Report.Log

/-!
# Changing a file

Writing to a path first makes the directories that are missing on the way. That adds directories and
nothing else, so a file that was there is still found, with its content. The file that is written then
is the one that is found afterwards, since nothing else is moved or replaced.
-/

namespace FlowGraph

/-- The place that a path leads to if all directories on the way are there. -/
def Path.place (p : Path) : List String :=
  p.steps.foldl FileTree.follow []

namespace FileTree

/-- All directories of one tree are in the other. -/
def KeepsDirectories (t t' : FileTree) : Prop :=
  ∀ place, t.entry? place = some .directory → t'.entry? place = some .directory

/-- One tree has all of another, and directories besides. -/
structure AddsDirectories (t t' : FileTree) : Prop where
  kept : ∀ place e, t.entry? place = some e → t'.entry? place = some e
  files : ∀ place content, t'.entry? place = some (.file content) →
    t.entry? place = some (.file content)

variable {t t' t'' : FileTree}

theorem AddsDirectories.refl (t : FileTree) : t.AddsDirectories t :=
  ⟨fun _ _ => id, fun _ _ => id⟩

theorem AddsDirectories.trans (h : t.AddsDirectories t') (h' : t'.AddsDirectories t'') :
    t.AddsDirectories t'' :=
  ⟨fun place e here => h'.kept place e (h.kept place e here),
    fun place content here => h.files place content (h'.files place content here)⟩

theorem AddsDirectories.keepsDirectories (h : t.AddsDirectories t') : t.KeepsDirectories t' :=
  fun place => h.kept place .directory

theorem entry?_insert (t : FileTree) {place : List String} (below : place ≠ []) (e : FileEntry)
    (other : List String) : FileTree.entry? ⟨t.entries.insert place e⟩ other =
      if other = place then some e else t.entry? other := by
  unfold entry?
  cases other with
  | nil => simp [below.symm]
  | cons name rest => exact Table.get?_insert t.entries place (name :: rest) e

/-- What is not there, or no directory, is not the root. -/
theorem ne_nil_of_entry? {place : List String} (h : t.entry? place ≠ some .directory) : place ≠ [] := by
  rintro rfl
  exact h rfl

theorem addsDirectories_insert {place : List String} (free : t.entry? place = none) :
    t.AddsDirectories ⟨t.entries.insert place .directory⟩ := by
  have below : place ≠ [] := ne_nil_of_entry? (by rw [free]; simp)
  constructor
  · intro other e here
    have differ : other ≠ place := by
      rintro rfl
      rw [free] at here
      cases here
    rw [entry?_insert t below, if_neg differ, here]
  · intro other content here
    rw [entry?_insert t below] at here
    split at here
    · cases here
    · exact here

theorem makeMissing_addsDirectories (t : FileTree) (place names : List String) :
    t.AddsDirectories (t.makeMissing place names).1 := by
  induction names generalizing t place with
  | nil => exact .refl t
  | cons name rest ih =>
      rw [makeMissing]
      split
      · exact ih t _
      · exact .refl t
      · rename_i free
        exact (addsDirectories_insert free).trans (ih _ _)

/-- Making directories only adds directories, however far it comes. -/
theorem makeDirectories_addsDirectories (t : FileTree) (place names : List String) :
    t.AddsDirectories (t.makeDirectories place names).1 := by
  induction names generalizing place with
  | nil => exact .refl t
  | cons name rest ih =>
      rw [makeDirectories]
      split
      · exact ih _
      · exact .refl t
      · exact makeMissing_addsDirectories t place (name :: rest)

/-! ## Where a path leads -/

theorem locate_eq {place names : List String} {found : List String}
    (located : t.locate place names = .ok found) : found = names.foldl follow place := by
  induction names generalizing place with
  | nil => exact (Except.ok.inj located).symm
  | cons name rest ih =>
      cases rest with
      | nil => exact (Except.ok.inj located).symm
      | cons next rest =>
          rw [locate] at located
          · split at located
            · exact ih located
            · cases located
            · cases located
          · simp

/-- A path that leads somewhere leads to the same place when no directory is lost. -/
theorem KeepsDirectories.locate (h : t.KeepsDirectories t') {place names : List String}
    {found : List String} (located : t.locate place names = .ok found) :
    t'.locate place names = .ok found := by
  induction names generalizing place with
  | nil => exact located
  | cons name rest ih =>
      cases rest with
      | nil => exact located
      | cons next rest =>
          rw [FileTree.locate] at located ⊢
          · split at located
            · rename_i directory
              rw [h _ directory]
              exact ih located
            · cases located
            · cases located
          all_goals simp

/-! ## Content -/

variable {p : Path} {content : List UInt8}

theorem read_eq_ok_iff : t.read p = .ok content ↔
    p.ending ≠ .slash ∧ ∃ place, t.locate [] p.steps = .ok place ∧
      t.entry? place = some (.file content) := by
  unfold read
  cases t.locate [] p.steps with
  | error e => simp [bind, Except.bind]
  | ok place =>
      simp only [bind, Except.bind, Except.ok.injEq, exists_eq_left']
      cases t.entry? place with
      | none => simp
      | some e =>
          cases e with
          | directory => simp
          | file old =>
              by_cases slash : p.ending = .slash
              · simp [slash]
              · simp [slash]

/-- A file that is found is found with the same content when directories are added. -/
theorem AddsDirectories.read (h : t.AddsDirectories t') (was : t.read p = .ok content) :
    t'.read p = .ok content := by
  obtain ⟨open_, place, located, here⟩ := read_eq_ok_iff.mp was
  exact read_eq_ok_iff.mpr
    ⟨open_, place, h.keepsDirectories.locate located, h.kept place _ here⟩

/-- A file has some content. One that is not there counts as empty. -/
def Contains (t : FileTree) (place : List String) (content : List UInt8) : Prop :=
  t.entry? place = some (.file content) ∨ t.entry? place = none ∧ content = []

/-- A change gives a file a new content that depends on the one it has. -/
theorem change_cases {f : List UInt8 → List UInt8} (changed : t.change p f = .ok t') :
    p.ending ≠ .slash ∧ ∃ old, t.locate [] p.steps = .ok p.place ∧ t.Contains p.place old ∧
      t' = ⟨t.entries.insert p.place (.file (f old))⟩ := by
  unfold change at changed
  cases located : t.locate [] p.steps with
  | error e => rw [located] at changed; cases changed
  | ok place =>
      have same : place = p.place := locate_eq located
      subst same
      rw [located] at changed
      simp only [bind, Except.bind] at changed
      split at changed
      · cases changed
      · rename_i open_
        refine ⟨open_, ?_⟩
        cases here : t.entry? p.place with
        | none =>
            rw [here] at changed
            exact ⟨[], rfl, .inr ⟨here, rfl⟩, (Except.ok.inj changed).symm⟩
        | some e =>
            rw [here] at changed
            cases e with
            | directory => cases changed
            | file old => exact ⟨old, rfl, .inl here, (Except.ok.inj changed).symm⟩

/-- A changed file is read with its new content. -/
theorem read_of_change {f : List UInt8 → List UInt8} (changed : t.change p f = .ok t')
    (was : t.read p = .ok content ∨ t.entry? p.place = none ∧ content = []) :
    t'.read p = .ok (f content) := by
  obtain ⟨open_, old, located, here, rfl⟩ := change_cases changed
  have file : t.entry? p.place ≠ some .directory := by
    rcases here with here | ⟨here, _⟩ <;> simp [here]
  have same : old = content := by
    rcases was with was | ⟨missing, rfl⟩
    · obtain ⟨_, place, found, there⟩ := read_eq_ok_iff.mp was
      obtain rfl : p.place = place := Except.ok.inj (located.symm.trans found)
      rcases here with here | ⟨here, _⟩ <;> simp_all
    · rcases here with here | ⟨_, rfl⟩
      · simp [missing] at here
      · rfl
  have below := ne_nil_of_entry? file
  have kept : t.KeepsDirectories ⟨t.entries.insert p.place (.file (f old))⟩ := by
    intro place directory
    have differ : place ≠ p.place := by
      rintro rfl
      exact file directory
    rw [entry?_insert t below, if_neg differ, directory]
  refine read_eq_ok_iff.mpr ⟨open_, p.place, kept.locate located, ?_⟩
  rw [entry?_insert t below, if_pos rfl, same]

end FileTree

end FlowGraph
