import FlowGraph.Proofs.Logging

/-!
# Loading line by line

Any file can be loaded, whoever has written it. Its newlines cut it into lines, and each line is judged on
its own: it is blank, it holds a report, or it spoils the file. If no line spoils it, the reports are loaded
in their order; otherwise the first line that does is reported, by its place among all lines, and nothing
that follows matters. A blank line therefore changes nothing but the places of the lines behind it.
-/

namespace FlowGraph.ReportLog

/-! ## Lines as the newlines cut them -/

/-- A line without the carriage return at its end, if it has one. -/
def withoutReturn (line : List UInt8) : List UInt8 :=
  if line.getLast? = some 13 then line.dropLast else line

/-- The lines of a file that has been cut at its newlines. The last piece ends with no newline; it keeps its
carriage return, and is no line if it is empty. -/
def ofPieces (pieces : List (List UInt8)) : List (List UInt8) :=
  pieces.dropLast.map withoutReturn ++ pieces.getLast?.toList.filter (· ≠ [])

/-- The lines of a file. -/
def linesOf (content : List UInt8) : List (List UInt8) :=
  ofPieces (content.splitOn 10)

theorem withoutReturn_cons {b : UInt8} {line : List UInt8} (h : b ≠ 13 ∨ line ≠ []) :
    withoutReturn (b :: line) = b :: withoutReturn line := by
  cases line with
  | nil =>
      have plain : b ≠ 13 := h.resolve_right (by simp)
      simp [withoutReturn, plain]
  | cons c line =>
      rw [withoutReturn, withoutReturn, List.getLast?_cons_cons]
      split <;> simp

theorem ofPieces_cons {piece : List UInt8} {pieces : List (List UInt8)} (more : pieces ≠ []) :
    ofPieces (piece :: pieces) = withoutReturn piece :: ofPieces pieces := by
  obtain ⟨next, pieces, rfl⟩ := List.exists_cons_of_ne_nil more
  rw [ofPieces, ofPieces, List.dropLast_cons_cons, List.getLast?_cons_cons]
  rfl

theorem splitOn_newline_cons (b : UInt8) (rest : List UInt8) :
    (b :: rest).splitOn 10 =
      if b = 10 then [] :: rest.splitOn 10 else (rest.splitOn 10).modifyHead (b :: ·) := by
  rw [List.splitOn, List.splitOnP_cons_eq_if_modifyHead]
  simp only [beq_iff_eq]
  rfl

/-- A file whose first piece is empty and not its last one begins with a newline. -/
theorem head?_of_splitOn {rest : List UInt8} {pieces : List (List UInt8)}
    (cut : rest.splitOn 10 = [] :: pieces) (more : pieces ≠ []) : rest.head? = some 10 := by
  cases rest with
  | nil => exact absurd (List.cons.inj cut).2.symm more
  | cons b rest =>
      rw [splitOn_newline_cons] at cut
      split at cut
      · next newline => exact congrArg some newline
      · obtain ⟨piece, others, inner⟩ := List.exists_cons_of_ne_nil (List.splitOn_ne_nil 10 rest)
        rw [inner] at cut
        cases cut

/-- Going through a file byte by byte finds the lines that its newlines cut. -/
theorem splitLines_eq_linesOf (content : List UInt8) : splitLines content = linesOf content := by
  induction content with
  | nil => rfl
  | cons b rest ih =>
      obtain ⟨piece, pieces, cut⟩ := List.exists_cons_of_ne_nil (List.splitOn_ne_nil 10 rest)
      rw [linesOf, cut] at ih
      rw [splitLines, linesOf, splitOn_newline_cons, cut]
      by_cases newline : b = 10
      · rw [if_pos newline, if_pos newline, ofPieces_cons (List.cons_ne_nil _ _), ih]
        rfl
      rw [if_neg newline, if_neg newline, List.modifyHead_cons]
      by_cases ends : b = 13 ∧ rest.head? = some 10
      · -- The carriage return belongs to a line that ends at once.
        obtain ⟨rfl, next⟩ := ends
        obtain ⟨later, rfl⟩ := List.head?_eq_some_iff.mp next
        rw [splitOn_newline_cons, if_pos rfl] at cut
        obtain ⟨rfl, rfl⟩ := List.cons.inj cut
        have more : later.splitOn 10 ≠ [] := List.splitOn_ne_nil 10 later
        rw [if_pos ⟨rfl, next⟩, ih, ofPieces_cons more, ofPieces_cons more]
        rfl
      rw [if_neg ends, ih]
      cases pieces with
      | nil =>
          by_cases nothing : piece = []
          · subst nothing
            rfl
          · simp [ofPieces, nothing]
      | cons next pieces =>
          have more : next :: pieces ≠ [] := List.cons_ne_nil _ _
          have stays : b ≠ 13 ∨ piece ≠ [] := by
            by_contra! both
            obtain ⟨rfl, rfl⟩ := both
            exact ends ⟨rfl, head?_of_splitOn cut more⟩
          rw [ofPieces_cons more, ofPieces_cons more, withoutReturn_cons stays]

/-- Lines of two files of which the first one ends with a newline or is empty. -/
theorem linesOf_append {front : List UInt8} (ends : front = [] ∨ front.getLast? = some 10)
    (rest : List UInt8) : linesOf (front ++ rest) = linesOf front ++ linesOf rest := by
  rw [← splitLines_eq_linesOf, ← splitLines_eq_linesOf, ← splitLines_eq_linesOf]
  rcases ends with rfl | newline
  · rfl
  · obtain ⟨lines, rfl⟩ := List.getLast?_eq_some_iff.mp newline
    rw [List.append_assoc]
    exact splitLines_append_newline lines rest

/-- A single line that ends with a newline. -/
theorem linesOf_line {line : List UInt8} (free : 10 ∉ line) :
    linesOf (line ++ [10]) = [withoutReturn line] := by
  have cut : (line ++ [10]).splitOn 10 = [line, []] := by
    induction line with
    | nil => rfl
    | cons b line ih =>
        obtain ⟨plain, free⟩ := List.ne_and_not_mem_of_not_mem_cons free
        rw [List.cons_append, splitOn_newline_cons, if_neg plain.symm, ih free]
        rfl
  rw [linesOf, cut]
  rfl

/-! ## Judging a line -/

/-- A line is a text of blanks. -/
def IsBlank (line : List UInt8) : Prop :=
  ∃ s, Text.decode? line = some s ∧ Text.isAllBlank s.toList = true

/-- The report on a line that is a text and holds one. -/
def reportOn? (line : List UInt8) : Option Report :=
  (Text.decode? line).bind Report.ofText?

/-- A line is blank or holds a report. -/
def IsReadable (line : List UInt8) : Prop :=
  IsBlank line ∨ (reportOn? line).isSome = true

/-- A line, which has some place among the lines of its file, is why the file cannot be loaded: it is no text,
or it is a text that is neither blank nor a report. -/
inductive Spoils (number : Nat) (line : List UInt8) : Cause → Prop where
  | notText (undecoded : Text.decode? line = none) : Spoils number line (.file .invalidData)
  | noReport {s : String} (text : Text.decode? line = some s) (visible : Text.isAllBlank s.toList = false)
      (unread : Report.ofText? s = none) : Spoils number line (.noReport number)

/-- What loading makes of some lines, the first of which has a given number. -/
def judge (number : Nat) (lines : List (List UInt8)) : Except Cause (List Report) :=
  (readLines number lines).mapError .ofFault

variable {line : List UInt8} {lines before after : List (List UInt8)} {number : Nat} {c : Cause}

/-- A blank line holds no report. -/
theorem IsBlank.reportOn? (h : IsBlank line) : reportOn? line = none := by
  obtain ⟨s, text, blank⟩ := h
  rw [ReportLog.reportOn?, text, Option.bind_some]
  cases read : Report.ofText? s with
  | none => rfl
  | some r =>
      rw [not_isAllBlank_of_report read] at blank
      cases blank

/-- A line that spoils a file is not readable. -/
theorem Spoils.not_readable (h : Spoils number line c) : ¬ IsReadable line := by
  cases h with
  | notText undecoded =>
      rintro (⟨s, text, _⟩ | holds)
      · simp [undecoded] at text
      · simp [reportOn?, undecoded] at holds
  | noReport text visible unread =>
      rintro (⟨s', text', blank⟩ | holds)
      · obtain rfl := Option.some.inj (text.symm.trans text')
        simp [visible] at blank
      · simp [reportOn?, text, unread] at holds

/-- A line spoils its file in one way. -/
theorem Spoils.unique {c' : Cause} (h : Spoils number line c) (h' : Spoils number line c') : c = c' := by
  cases h with
  | notText undecoded =>
      cases h' with
      | notText => rfl
      | noReport text => simp [undecoded] at text
  | noReport text =>
      cases h' with
      | notText undecoded => simp [undecoded] at text
      | noReport => rfl

/-- A line spoils its file, or it is readable and adds its report, if it holds one, to those of the lines behind
it. -/
theorem judge_cons (number : Nat) (line : List UInt8) (lines : List (List UInt8)) :
    (IsReadable line ∧
      judge number (line :: lines) = (judge (number + 1) lines).map ((reportOn? line).toList ++ ·)) ∨
    ∃ c, Spoils number line c ∧ judge number (line :: lines) = .error c := by
  rw [judge, judge, readLines]
  cases text : Text.decode? line with
  | none => exact .inr ⟨_, .notText text, rfl⟩
  | some s =>
      dsimp only
      cases blank : Text.isAllBlank s.toList with
      | true =>
          have empty : IsBlank line := ⟨s, text, blank⟩
          refine .inl ⟨.inl empty, ?_⟩
          rw [empty.reportOn?, if_pos rfl]
          cases readLines (number + 1) lines <;> rfl
      | false =>
          rw [if_neg Bool.false_ne_true]
          cases read : Report.ofText? s with
          | none => exact .inr ⟨_, .noReport text blank read, rfl⟩
          | some r =>
              have holds : reportOn? line = some r := by
                rw [reportOn?, text]
                exact read
              refine .inl ⟨.inr (by rw [holds]; rfl), ?_⟩
              rw [holds]
              cases readLines (number + 1) lines <;> rfl

/-! ## Judging all lines -/

/-- What comes first is judged first. -/
theorem judge_append (number : Nat) (before after : List (List UInt8)) :
    judge number (before ++ after) = (judge number before).bind fun reports =>
      (judge (number + before.length) after).map (reports ++ ·) := by
  rw [judge, judge, judge, readLines_append]
  cases readLines number before with
  | error => rfl
  | ok reports => cases readLines (number + before.length) after <;> rfl

/-- Readable lines are read to their reports. -/
theorem judge_of_readable (readable : ∀ line ∈ lines, IsReadable line) (number : Nat) :
    judge number lines = .ok (lines.filterMap reportOn?) := by
  induction lines generalizing number with
  | nil => rfl
  | cons line lines ih =>
      obtain ⟨first, others⟩ := List.forall_mem_cons.mp readable
      rcases judge_cons number line lines with ⟨_, reads⟩ | ⟨c, spoils, _⟩
      · rw [reads, ih others, List.filterMap_cons]
        cases reportOn? line <;> rfl
      · exact absurd first spoils.not_readable

/-- The first line that is not readable decides, whatever follows it. -/
theorem judge_of_spoils (readable : ∀ line ∈ before, IsReadable line) {bad : List UInt8}
    (spoils : Spoils (number + before.length) bad c) (after : List (List UInt8)) :
    judge number (before ++ bad :: after) = .error c := by
  rw [judge_append, judge_of_readable readable]
  rcases judge_cons (number + before.length) bad after with ⟨fine, _⟩ | ⟨c', spoils', fails⟩
  · exact absurd fine spoils.not_readable
  · rw [fails, spoils'.unique spoils]
    rfl

/-- All lines are readable, or one of them is the first that is not. -/
theorem readable_or_spoiled (number : Nat) (lines : List (List UInt8)) :
    (∀ line ∈ lines, IsReadable line) ∨ ∃ before bad after c, lines = before ++ bad :: after ∧
      (∀ line ∈ before, IsReadable line) ∧ Spoils (number + before.length) bad c := by
  induction lines generalizing number with
  | nil => exact .inl (List.forall_mem_nil _)
  | cons line lines ih =>
      rcases judge_cons number line lines with ⟨first, _⟩ | ⟨c, spoils, _⟩
      · rcases ih (number + 1) with others | ⟨before, bad, after, c, rfl, others, spoils⟩
        · exact .inl (List.forall_mem_cons.mpr ⟨first, others⟩)
        · refine .inr ⟨line :: before, bad, after, c, rfl, List.forall_mem_cons.mpr ⟨first, others⟩, ?_⟩
          rwa [List.length_cons, Nat.add_comm before.length, ← Nat.add_assoc]
      · exact .inr ⟨[], line, lines, c, rfl, List.forall_mem_nil _, spoils⟩

/-- Lines are read if all of them are readable, and only then. -/
theorem judge_eq_ok_iff (number : Nat) :
    (∃ reports, judge number lines = .ok reports) ↔ ∀ line ∈ lines, IsReadable line := by
  constructor
  · rintro ⟨reports, reads⟩
    rcases readable_or_spoiled number lines with readable | ⟨before, bad, after, c, rfl, readable, spoils⟩
    · exact readable
    · rw [judge_of_spoils readable spoils] at reads
      cases reads
  · intro readable
    exact ⟨_, judge_of_readable readable number⟩

/-- An error is that of the first line that is not readable. -/
theorem judge_eq_error_iff :
    judge number lines = .error c ↔ ∃ before bad after, lines = before ++ bad :: after ∧
      (∀ line ∈ before, IsReadable line) ∧ Spoils (number + before.length) bad c := by
  constructor
  · intro fails
    rcases readable_or_spoiled number lines with readable | ⟨before, bad, after, c', rfl, readable, spoils⟩
    · rw [judge_of_readable readable] at fails
      cases fails
    · rw [judge_of_spoils readable spoils] at fails
      obtain rfl := Except.error.inj fails
      exact ⟨before, bad, after, rfl, readable, spoils⟩
  · rintro ⟨before, bad, after, rfl, readable, spoils⟩
    exact judge_of_spoils readable spoils after

/-! ## Blank lines -/

/-- What an error becomes when a line is inserted behind so many others. -/
def Cause.behind (count : Nat) : Cause → Cause
  | .file cause => .file cause
  | .noReport number => .noReport (if number ≤ count then number else number + 1)

/-- A line that stands above the inserted one keeps its number. -/
theorem Spoils.behind_of_le {count : Nat} (h : Spoils number line c) (above : number ≤ count) :
    c.behind count = c := by
  cases h with
  | notText => rfl
  | noReport => rw [Cause.behind, if_pos above]

/-- A line that stands below the inserted one moves. -/
theorem Spoils.behind_of_lt {count : Nat} (h : Spoils number line c) (below : count < number) :
    Spoils (number + 1) line (c.behind count) := by
  cases h with
  | notText undecoded => exact .notText undecoded
  | noReport text visible unread =>
      rw [Cause.behind, if_neg (Nat.not_le.mpr below)]
      exact .noReport text visible unread

/-- A blank line leaves what is read as it is, and only moves the lines behind it. -/
theorem judge_insert_blank {blank : List UInt8} (empty : IsBlank blank) (before after : List (List UInt8)) :
    judge 1 (before ++ blank :: after) = (judge 1 (before ++ after)).mapError (.behind before.length) := by
  rcases readable_or_spoiled 1 before with above | ⟨front, bad, rest, c, rfl, readable, spoils⟩
  · have above' : ∀ line ∈ before ++ [blank], IsReadable line :=
      List.forall_mem_append.mpr ⟨above, List.forall_mem_singleton.mpr (.inl empty)⟩
    rw [List.append_cons]
    rcases readable_or_spoiled (1 + before.length) after with
      below | ⟨front, bad, rest, c, rfl, readable, spoils⟩
    · rw [judge_of_readable (List.forall_mem_append.mpr ⟨above, below⟩),
        judge_of_readable (List.forall_mem_append.mpr ⟨above', below⟩), List.filterMap_append,
        List.filterMap_append, List.filterMap_append, List.filterMap_cons_none empty.reportOn?,
        List.filterMap_nil, List.append_nil]
      rfl
    · have here : Spoils (1 + (before ++ front).length) bad c := by
        rwa [List.length_append, ← Nat.add_assoc]
      have moved : Spoils (1 + (before ++ [blank] ++ front).length) bad (c.behind before.length) := by
        have next : 1 + (before ++ [blank] ++ front).length = 1 + before.length + front.length + 1 := by
          simp only [List.length_append, List.length_singleton]
          omega
        rw [next]
        exact spoils.behind_of_lt (by omega)
      rw [← List.append_assoc, ← List.append_assoc,
        judge_of_spoils (List.forall_mem_append.mpr ⟨above, readable⟩) here,
        judge_of_spoils (List.forall_mem_append.mpr ⟨above', readable⟩) moved]
      rfl
  · -- The line that spoils the file stands above the blank one.
    have stays : c.behind (front ++ bad :: rest).length = c := by
      apply spoils.behind_of_le
      rw [List.length_append, List.length_cons]
      omega
    rw [List.append_assoc, List.append_assoc, List.cons_append, List.cons_append,
      judge_of_spoils readable spoils, judge_of_spoils readable spoils]
    exact congrArg Except.error stays.symm

/-! ## Loading a file -/

variable {t t' : FileTree} {s s' : String} {p p' : Path} {content content' : List UInt8}

/-- An error that names the log comes from what is wrong with it. -/
theorem mapError_mk_eq_error_iff {α : Type} {x : Except Cause α} {e : Error} :
    x.mapError (Error.mk s) = .error e ↔ e.path = s ∧ x = .error e.cause := by
  obtain ⟨name, c⟩ := e
  cases x <;> simp [Except.mapError, eq_comm]

/-- What is loaded from a file is what its lines are judged to be. -/
theorem load_eq_judge (spelled : path s = .ok p) (read : t.read p = .ok content) :
    load t s = (judge 1 (linesOf content)).mapError (Error.mk s) := by
  rw [load_of_read spelled read, ofBytes, splitLines_eq_linesOf, judge]
  cases readLines 1 (linesOf content) <;> rfl

/-- A file has the lines of another one and a blank line, which stands behind so many of them. -/
inductive AddsBlank (content content' : List UInt8) (count : Nat) : Prop where
  /-- A line that ends with a newline is inserted where a line of the file begins, or at its end. -/
  | between {front blank rest} (whole : content = front ++ rest)
      (whole' : content' = front ++ (blank ++ 10 :: rest))
      (ends : front = [] ∨ front.getLast? = some 10) (free : 10 ∉ blank) (empty : IsBlank (withoutReturn blank))
      (place : count = (linesOf front).length)
  /-- Whatever the bytes are, a blank line has joined the lines. -/
  | among {before blank after} (lines : linesOf content = before ++ after)
      (lines' : linesOf content' = before ++ blank :: after) (empty : IsBlank blank)
      (place : count = before.length)

theorem AddsBlank.exists_lines {count : Nat} (h : AddsBlank content content' count) :
    ∃ before blank after, linesOf content = before ++ after ∧ linesOf content' = before ++ blank :: after ∧
      IsBlank blank ∧ count = before.length := by
  cases h with
  | @between front blank rest whole whole' ends free empty place =>
      have inserted : linesOf (blank ++ 10 :: rest) = withoutReturn blank :: linesOf rest := by
        rw [List.append_cons, linesOf_append (.inr List.getLast?_concat), linesOf_line free]
        rfl
      refine ⟨linesOf front, withoutReturn blank, linesOf rest, ?_, ?_, empty, place⟩
      · rw [whole, linesOf_append ends]
      · rw [whole', linesOf_append ends, inserted]
  | @among before blank after lines lines' empty place =>
      exact ⟨before, blank, after, lines, lines', empty, place⟩

/-- How the lines of a file decide what is loaded from it. -/
structure DecidedByLines (t : FileTree) (s : String) (content : List UInt8) : Prop where
  /-- Something is loaded if all lines are readable, and only then. -/
  loads : (∃ reports, load t s = .ok reports) ↔ ∀ line ∈ linesOf content, IsReadable line
  /-- What is loaded are the reports on the lines, in their order. -/
  reports : ∀ reports, load t s = .ok reports → reports = (linesOf content).filterMap reportOn?
  /-- Otherwise the first line that is not readable decides, by its place among all lines. The error names the
  log. -/
  fails : ∀ e, load t s = .error e ↔ e.path = s ∧ ∃ before bad after,
    linesOf content = before ++ bad :: after ∧ (∀ line ∈ before, IsReadable line) ∧
      Spoils (before.length + 1) bad e.cause
  /-- With one more blank line the same is loaded, or the same line fails and has moved if it stands below. -/
  blank : ∀ t' s' p' content' count, path s' = .ok p' → t'.read p' = .ok content' →
    AddsBlank content content' count →
      load t' s' = (load t s).mapError fun e => { path := s', cause := e.cause.behind count }

/-- Whatever bytes a file holds, its lines decide what is loaded from it. -/
theorem load_decided_by_lines (spelled : path s = .ok p) (read : t.read p = .ok content) :
    DecidedByLines t s content where
  loads := by
    rw [load_eq_judge spelled read, ← judge_eq_ok_iff 1]
    simp only [mapError_eq_ok_iff]
  reports := by
    intro reports loaded
    rw [load_eq_judge spelled read, mapError_eq_ok_iff] at loaded
    have readable : ∀ line ∈ linesOf content, IsReadable line := (judge_eq_ok_iff 1).mp ⟨reports, loaded⟩
    rw [judge_of_readable readable] at loaded
    exact (Except.ok.inj loaded).symm
  fails := by
    intro e
    rw [load_eq_judge spelled read, mapError_mk_eq_error_iff, judge_eq_error_iff]
    simp only [Nat.add_comm 1]
  blank := by
    intro t' s' p' content' count spelled' read' adds
    obtain ⟨before, blank, after, lines, lines', empty, rfl⟩ := adds.exists_lines
    rw [load_eq_judge spelled read, load_eq_judge spelled' read', lines, lines',
      judge_insert_blank empty before after]
    cases judge 1 (before ++ after) <;> rfl

/-- A report, a line of blanks that ends with a carriage return, a line that holds no report, and a byte that is
no text. -/
def spoiled : List UInt8 :=
  toBytes [blankReport] ++ [32, 13, 10, 120, 10, 255]

theorem linesOf_spoiled : linesOf spoiled = [Text.encode blankReport.line, [32]] ++ [120] :: [[255]] := by
  have ends : toBytes [blankReport] = [] ∨ (toBytes [blankReport]).getLast? = some 10 := by
    refine .inr ?_
    rw [toBytes, List.flatMap_singleton, List.getLast?_concat]
  rw [spoiled, linesOf_append ends, ← splitLines_eq_linesOf, splitLines_toBytes]
  rfl

/-- The third line is the first that is not readable, and it becomes the fourth behind a tabulator. -/
theorem load_decided_by_lines_spoiled :
    load (oneFile spoiled) "pulses.jsonl" = .error { path := "pulses.jsonl", cause := .noReport 3 } ∧
      load (oneFile ([9, 10] ++ spoiled)) "pulses.jsonl" =
        .error { path := "pulses.jsonl", cause := .noReport 4 } := by
  have decided := load_decided_by_lines path_pulses (read_oneFile spoiled)
  have first : IsReadable (Text.encode blankReport.line) := by
    refine .inr ?_
    rw [reportOn?, Text.decode?_encode, Option.bind_some, fits_blankReport.ofText?_line]
    rfl
  have second : IsReadable [32] := .inl ⟨" ", by decide, by decide⟩
  have third : Spoils 3 [120] (.noReport 3) := .noReport (s := "x") (by decide) (by decide) (by decide)
  have readable : ∀ line ∈ [Text.encode blankReport.line, [32]], IsReadable line :=
    List.forall_mem_cons.mpr ⟨first, List.forall_mem_singleton.mpr second⟩
  have fails := (decided.fails ⟨_, _⟩).mpr ⟨rfl, _, _, _, linesOf_spoiled, readable, third⟩
  have whole : spoiled = [] ++ spoiled := rfl
  have inserted : [9, 10] ++ spoiled = [] ++ ([9] ++ 10 :: spoiled) := rfl
  have free : 10 ∉ ([9] : List UInt8) := by decide
  have tabulator : IsBlank (withoutReturn [9]) := ⟨"\t", by decide, by decide⟩
  have adds : AddsBlank spoiled ([9, 10] ++ spoiled) 0 := .between whole inserted (.inl rfl) free tabulator rfl
  have moved := decided.blank _ _ _ _ _ path_pulses (read_oneFile ([9, 10] ++ spoiled)) adds
  rw [fails] at moved
  exact ⟨fails, moved⟩

end FlowGraph.ReportLog
