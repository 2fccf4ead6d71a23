import FlowGraph.Proofs.Filing
import FlowGraph.Proofs.Lines

/-!
# Histories of a log

A log that is only ever saved and appended to holds what was written since it was last saved, report by
report. A log that comes from elsewhere need only be readable; then what is appended is read after what
it has, unless its last line was left unfinished.
-/

namespace FlowGraph.ReportLog

variable {t t' : FileTree} {s : String} {p : Path} {content : List UInt8}

/-- What is made of an error does not matter to what is no error. -/
theorem mapError_eq_ok_iff {ε ε' α : Type} {f : ε → ε'} {x : Except ε α} {a : α} :
    x.mapError f = .ok a ↔ x = .ok a := by
  cases x <;> simp [Except.mapError]

/-- What is loaded is what the content of the file says. -/
theorem load_of_read (spelled : path s = .ok p) (read : t.read p = .ok content) :
    load t s = (ofBytes content).mapError fun fault => { path := s, cause := .ofFault fault } := by
  simp only [load, spelled, read, bind, Except.bind, Except.mapError]

theorem load_eq_ok {reports : List Report} (loaded : load t s = .ok reports) :
    ∃ p content, path s = .ok p ∧ t.read p = .ok content ∧ ofBytes content = .ok reports := by
  cases spelled : path s with
  | error => simp [load, spelled, bind, Except.bind, Except.mapError] at loaded
  | ok p =>
      cases read : t.read p with
      | error => simp [load, spelled, read, bind, Except.bind, Except.mapError] at loaded
      | ok content =>
          rw [load_of_read spelled read, mapError_eq_ok_iff] at loaded
          exact ⟨p, content, rfl, read, loaded⟩

/-- A change that succeeds is what is read afterwards. A file that was not there counts as empty. -/
theorem read_of_change {f : List UInt8 → List UInt8} (changed : change t s f = (t', .ok ()))
    (spelled : path s = .ok p)
    (was : t.read p = .ok content ∨ t.entry? p.place = none ∧ content = []) :
    t'.read p = .ok (f content) := by
  unfold change at changed
  rw [spelled] at changed
  simp only at changed
  have adds := FileTree.makeDirectories_addsDirectories t [] p.parent
  split at changed
  · cases (Prod.mk.inj changed).2
  · rename_i made directories
    rw [directories] at adds
    split at changed
    · cases (Prod.mk.inj changed).2
    · rename_i written
      obtain ⟨rfl, _⟩ := Prod.mk.inj changed
      refine FileTree.read_of_change written ?_
      rcases was with was | ⟨missing, rfl⟩
      · exact .inl (adds.read was)
      · obtain ⟨_, old, _, here, _⟩ := FileTree.change_cases written
        rcases here with file | ⟨free, _⟩
        · rw [adds.files _ _ file] at missing
          cases missing
        · exact .inr ⟨free, rfl⟩

/-- A change that succeeds was asked for with a path. -/
theorem path_of_change {f : List UInt8 → List UInt8} (changed : change t s f = (t', .ok ())) :
    ∃ p, path s = .ok p := by
  unfold change at changed
  cases spelled : path s with
  | error => rw [spelled] at changed; cases (Prod.mk.inj changed).2
  | ok p => exact ⟨p, rfl⟩

/-! ## Logs from elsewhere -/

/-- Reports that are appended to a readable log are loaded after those it has, in order, if nothing but
blanks of JSON follows its last newline. Otherwise the log can no longer be loaded. -/
theorem append_extends_readable {reports more : List Report} (loaded : load t s = .ok reports)
    (appended : append t s more = (t', .ok ())) (fits : ∀ r ∈ more, r.Fits) :
    ∃ p content, path s = .ok p ∧ t.read p = .ok content ∧
      (more = [] ∨ EndsBlank content → load t' s = .ok (reports ++ more)) ∧
      (more ≠ [] → ¬ EndsBlank content →
        load t' s = .error { path := s, cause := .noReport (splitLines content).length }) := by
  obtain ⟨p, content, spelled, read, parsed⟩ := load_eq_ok loaded
  have after : t'.read p = .ok (content ++ toBytes more) :=
    read_of_change (f := (· ++ toBytes more)) appended spelled (.inl read)
  refine ⟨p, content, spelled, read, ?_⟩
  rw [load_of_read spelled after]
  cases more with
  | nil =>
      refine ⟨fun _ => ?_, fun some_report => absurd rfl some_report⟩
      rw [toBytes, List.flatMap_nil, List.append_nil, List.append_nil, parsed]
      rfl
  | cons r more =>
      obtain ⟨extends_, breaks⟩ := ofBytes_append parsed fits
      constructor
      · rintro (nothing | blank)
        · cases nothing
        · rw [extends_ blank]
          rfl
      · intro _ unfinished
        rw [breaks unfinished]
        rfl

/-- A report without counts, at the start of 1970. -/
def blankReport : Report where
  pulse := ⟨1⟩
  root := ⟨0⟩
  activations := []
  activationCount := 0
  evaluations := 0
  memoHits := 0
  invalidations := 0
  suppressed := 0
  cancelled := false
  startedAt := default
  finishedAt := default

theorem fits_blankReport : blankReport.Fits where
  pulse := by decide
  root := by decide
  activations := by decide
  activationCount := by decide
  evaluations := by decide
  memoHits := by decide
  invalidations := by decide
  suppressed := by decide

/-- One file with some content. -/
def oneFile (content : List UInt8) : FileTree :=
  ⟨Table.insert ∅ ["pulses.jsonl"] (.file content)⟩

theorem path_pulses : path "pulses.jsonl" = .ok ⟨["pulses.jsonl"], .name⟩ := by
  decide

theorem read_oneFile (content : List UInt8) :
    (oneFile content).read ⟨["pulses.jsonl"], .name⟩ = .ok content :=
  rfl

theorem append_oneFile (content : List UInt8) (reports : List Report) :
    append (oneFile content) "pulses.jsonl" reports =
      (oneFile (content ++ toBytes reports), .ok ()) := by
  rfl

theorem append_extends_readable_oneFile :
    ∃ p content, path "pulses.jsonl" = .ok p ∧
      (oneFile (toBytes [blankReport])).read p = .ok content ∧
      ([blankReport] = [] ∨ EndsBlank content →
        load (oneFile (toBytes [blankReport] ++ toBytes [blankReport])) "pulses.jsonl" =
          .ok ([blankReport] ++ [blankReport])) ∧
      ([blankReport] ≠ [] → ¬ EndsBlank content →
        load (oneFile (toBytes [blankReport] ++ toBytes [blankReport])) "pulses.jsonl" =
          .error { path := "pulses.jsonl", cause := .noReport (splitLines content).length }) := by
  have fits : ∀ r ∈ [blankReport], r.Fits := by simpa using fits_blankReport
  have loaded : load (oneFile (toBytes [blankReport])) "pulses.jsonl" = .ok [blankReport] := by
    rw [load_of_read path_pulses (read_oneFile _), ofBytes_toBytes fits]
    rfl
  exact append_extends_readable loaded (append_oneFile _ _) fits

/-- A log of one report without a newline is readable until a report is appended. -/
theorem append_breaks_unfinished :
    load (oneFile (Text.encode blankReport.line)) "pulses.jsonl" = .ok [blankReport] ∧
      append (oneFile (Text.encode blankReport.line)) "pulses.jsonl" [blankReport] =
        (oneFile (Text.encode blankReport.line ++ toBytes [blankReport]), .ok ()) ∧
      load (oneFile (Text.encode blankReport.line ++ toBytes [blankReport])) "pulses.jsonl" =
        .error { path := "pulses.jsonl", cause := .noReport 1 } := by
  have fits : ∀ r ∈ [blankReport], r.Fits := by simpa using fits_blankReport
  have parsed := ofBytes_line fits_blankReport
  have broken := (ofBytes_append parsed fits).2 (not_endsBlank_line blankReport)
  rw [splitLines_of_not_mem (newline_not_mem_encode_line _) (encode_line_ne_nil _)] at broken
  refine ⟨?_, append_oneFile _ _, ?_⟩
  · rw [load_of_read path_pulses (read_oneFile _), parsed]
    rfl
  · rw [load_of_read path_pulses (read_oneFile _), broken]
    rfl

/-! ## Histories -/

/-- A call that writes to a log. -/
inductive Call where
  | save (reports : List Report)
  | append (reports : List Report)

namespace Call

def reports : Call → List Report
  | save reports | append reports => reports

def isSave : Call → Bool
  | save _ => true
  | append _ => false

def perform (t : FileTree) (s : String) : Call → FileTree × Except Error Unit
  | save reports => ReportLog.save t s reports
  | append reports => ReportLog.append t s reports

end Call

/-- Some calls, one after the other, all of which succeed. -/
inductive Performed (s : String) (t : FileTree) : List Call → FileTree → Prop where
  | start : Performed s t [] t
  | next {calls : List Call} {t' t'' : FileTree} {c : Call} (before : Performed s t calls t')
      (succeeds : c.perform t' s = (t'', .ok ())) : Performed s t (calls ++ [c]) t''

/-- The calls from the last one that saves, or all of them if there is none. -/
def sinceSave : List Call → List Call
  | [] => []
  | c :: rest => if rest.any Call.isSave then sinceSave rest else c :: rest

/-- The reports that some calls leave in the log. -/
def written (calls : List Call) : List Report :=
  (sinceSave calls).flatMap Call.reports

theorem sinceSave_save (calls : List Call) (reports : List Report) :
    sinceSave (calls ++ [.save reports]) = [.save reports] := by
  induction calls with
  | nil => rfl
  | cons c rest ih =>
      rw [List.cons_append, sinceSave, if_pos (by simp [Call.isSave]), ih]

theorem sinceSave_append (calls : List Call) (reports : List Report) :
    sinceSave (calls ++ [.append reports]) = sinceSave calls ++ [.append reports] := by
  induction calls with
  | nil => rfl
  | cons c rest ih =>
      have same : (rest ++ [Call.append reports]).any Call.isSave = rest.any Call.isSave := by
        simp [Call.isSave]
      rw [List.cons_append, sinceSave, sinceSave, same, ih]
      split <;> rfl

/-- After some calls the file holds the lines of the reports they leave. -/
theorem Performed.read {calls : List Call} (h : Performed s t calls t') (spelled : path s = .ok p)
    (missing : t.entry? p.place = none) :
    (calls = [] ∧ t' = t) ∨ t'.read p = .ok (toBytes (written calls)) := by
  induction h with
  | start => exact .inl ⟨rfl, rfl⟩
  | @next calls t' t'' c before succeeds ih =>
      right
      have was : t'.read p = .ok (toBytes (written calls)) ∨
          t'.entry? p.place = none ∧ toBytes (written calls) = [] := by
        rcases ih with ⟨rfl, rfl⟩ | holds
        · exact .inr ⟨missing, rfl⟩
        · exact .inl holds
      cases c with
      | save reports =>
          have after := read_of_change (f := fun _ => toBytes reports) succeeds spelled was
          rw [after, written, sinceSave_save]
          simp [Call.reports]
      | append reports =>
          have after := read_of_change (f := (· ++ toBytes reports)) succeeds spelled was
          rw [after, written, written, sinceSave_append]
          simp [Call.reports, toBytes]

theorem Performed.eq_of_nil (h : Performed s t [] t') : t' = t := by
  generalize nothing : ([] : List Call) = calls at h
  cases h with
  | start => rfl
  | next => simp at nothing

theorem Performed.exists_path {calls : List Call} (h : Performed s t calls t') (some_call : calls ≠ []) :
    ∃ p, path s = .ok p := by
  cases h with
  | start => exact absurd rfl some_call
  | @next _ _ _ c _ succeeds => cases c <;> exact path_of_change succeeds

theorem mem_of_mem_sinceSave {calls : List Call} {c : Call} (h : c ∈ sinceSave calls) : c ∈ calls := by
  induction calls with
  | nil => exact h
  | cons first rest ih =>
      rw [sinceSave] at h
      split at h
      · exact List.mem_cons_of_mem _ (ih h)
      · exact h

/-- Where nothing is, nothing is loaded. -/
theorem load_of_missing (missing : ∀ p, path s = .ok p → t.entry? p.place = none)
    (reports : List Report) : load t s ≠ .ok reports := by
  intro loaded
  obtain ⟨p, content, spelled, read, _⟩ := load_eq_ok loaded
  obtain ⟨_, place, located, here⟩ := FileTree.read_eq_ok_iff.mp read
  rw [FileTree.locate_eq located] at here
  rw [← Path.place, missing p spelled] at here
  cases here

/-- A log that did not exist before some calls holds what they have written since the last one that
saves. Each of its lines holds one report and is a single line. -/
theorem load_after_history {calls : List Call} (performed : Performed s t calls t')
    (missing : ∀ p, path s = .ok p → t.entry? p.place = none)
    (fits : ∀ c ∈ calls, ∀ r ∈ c.reports, r.Fits) :
    (calls ≠ [] → load t' s = .ok (written calls)) ∧
      (calls = [] → ∀ reports, load t' s ≠ .ok reports) ∧
      ∀ c ∈ calls, ∀ r ∈ c.reports,
        Report.ofText? r.line = some r ∧ '\n' ∉ r.line.toList := by
  refine ⟨fun some_call => ?_, ?_, fun c hc r hr => ?_⟩
  · obtain ⟨p, spelled⟩ := performed.exists_path some_call
    rcases performed.read spelled (missing p spelled) with ⟨none_yet, _⟩ | holds
    · exact absurd none_yet some_call
    · have readable : ∀ r ∈ written calls, r.Fits := by
        intro r inside
        obtain ⟨c, hc, hr⟩ := List.mem_flatMap.mp inside
        exact fits c (mem_of_mem_sinceSave hc) r hr
      rw [load_of_read spelled holds, ofBytes_toBytes readable]
      rfl
  · rintro rfl
    rw [performed.eq_of_nil]
    exact load_of_missing missing
  · exact ⟨(fits c hc r hr).ofText?_line, r.newline_not_mem_line⟩

/-- A report is appended, and then replaced by one that is saved, to which one is appended. -/
theorem load_after_history_pulses :
    ∃ t, Performed "pulses.jsonl" {} [.append [blankReport],
        .save [{ blankReport with cancelled := true }], .append [blankReport]] t ∧
      load t "pulses.jsonl" = .ok [{ blankReport with cancelled := true }, blankReport] := by
  have fits : ({ blankReport with cancelled := true } : Report).Fits := { fits_blankReport with }
  have performed : Performed "pulses.jsonl" {} [.append [blankReport],
      .save [{ blankReport with cancelled := true }], .append [blankReport]] _ :=
    .next (.next (.next .start rfl) rfl) rfl
  have missing : ∀ p, path "pulses.jsonl" = .ok p → FileTree.entry? {} p.place = none := by
    intro p spelled
    rw [path_pulses] at spelled
    cases spelled
    rfl
  have after := load_after_history performed missing (by simp [Call.reports, fits, fits_blankReport])
  exact ⟨_, performed, after.1 (by simp)⟩

end FlowGraph.ReportLog
