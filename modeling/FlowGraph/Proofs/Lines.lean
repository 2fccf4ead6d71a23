import Mathlib.Data.List.DropRight
import FlowGraph.Proofs.Extending
import FlowGraph.Proofs.Reporting
import FlowGraph.Report.Log

/-!
# Lines of a log

A file consists of the lines that are finished by a newline and of what follows the last newline.
Whatever is added at the end leaves the finished lines alone, and what follows the last newline becomes
the beginning of the first line that is added. So reports that are added can be read if and only if
nothing but blanks of JSON stands there: a report that was not finished by a newline, or a blank of some
other kind, makes the line unreadable.
-/

namespace FlowGraph

/-! ## Bytes of a text -/

namespace Text

theorem encode_eq (s : String) : encode s = s.toList.flatMap String.utf8EncodeChar := by
  rw [encode, String.toUTF8, ← String.utf8Encode_toList, List.utf8Encode, List.toList_data_toByteArray]

theorem encode_append (s t : String) : encode (s ++ t) = encode s ++ encode t := by
  simp [encode_eq]

/-- Only an encoding is read as a text. -/
theorem eq_encode_of_decode? {bytes : List UInt8} {s : String} (h : decode? bytes = some s) :
    bytes = encode s := by
  unfold decode? String.fromUTF8? at h
  split at h
  · rw [← Option.some.inj h]
    rfl
  · cases h

theorem encode_injective {s t : String} (h : encode s = encode t) : s = t := by
  have same := congrArg decode? h
  rw [decode?_encode, decode?_encode] at same
  exact Option.some.inj same

/-- A byte below 32 is a character of its own. -/
theorem le_of_mem_utf8EncodeChar {c : Char} (printable : 32 ≤ c.toNat) {b : UInt8}
    (h : b ∈ String.utf8EncodeChar c) : 32 ≤ b.toNat := by
  unfold String.utf8EncodeChar at h
  have value : c.val.toNat = c.toNat := rfl
  simp only [value] at h
  split at h
  · simp only [List.mem_singleton] at h
    subst h
    simp only [UInt8.toNat_ofNat']
    omega
  · split at h
    · simp only [List.mem_cons, List.not_mem_nil, or_false] at h
      rcases h with rfl | rfl <;> simp only [UInt8.toNat_ofNat'] <;> omega
    · split at h
      · simp only [List.mem_cons, List.not_mem_nil, or_false] at h
        rcases h with rfl | rfl | rfl <;> simp only [UInt8.toNat_ofNat'] <;> omega
      · simp only [List.mem_cons, List.not_mem_nil, or_false] at h
        rcases h with rfl | rfl | rfl | rfl <;> simp only [UInt8.toNat_ofNat'] <;> omega

theorem le_of_mem_encode {s : String} (printable : Json.Printable s.toList) {b : UInt8}
    (h : b ∈ encode s) : 32 ≤ b.toNat := by
  rw [encode_eq] at h
  obtain ⟨c, inside, here⟩ := List.mem_flatMap.mp h
  exact le_of_mem_utf8EncodeChar (printable c inside) here

end Text

namespace ReportLog

/-! ## Cutting a file into lines -/

/-- What follows the last newline. -/
def lastLine (content : List UInt8) : List UInt8 :=
  content.rtakeWhile (· ≠ 10)

/-- The lines that a newline finishes, with their newlines. -/
def finished (content : List UInt8) : List UInt8 :=
  content.rdropWhile (· ≠ 10)

theorem finished_append_lastLine (content : List UInt8) :
    finished content ++ lastLine content = content :=
  List.rdropWhile_append_rtakeWhile ..

theorem not_mem_lastLine (content : List UInt8) : 10 ∉ lastLine content := by
  intro inside
  have apart := List.mem_rtakeWhile_imp (p := fun b : UInt8 => decide (b ≠ 10)) inside
  exact absurd apart (by decide)

theorem finished_cases (content : List UInt8) :
    finished content = [] ∨ ∃ front, finished content = front ++ [10] := by
  rcases List.eq_nil_or_concat (finished content) with nothing | ⟨front, b, ends⟩
  · exact .inl nothing
  · have some_byte : finished content ≠ [] := by simp [ends]
    have newline : ¬ decide ((finished content).getLast some_byte ≠ 10) = true :=
      List.rdropWhile_last_not (fun b : UInt8 => decide (b ≠ 10)) content some_byte
    have last : (finished content).getLast some_byte = b := by simp [ends]
    rw [last] at newline
    refine .inr ⟨front, ?_⟩
    rw [ends, List.concat_eq_append]
    simpa using newline

theorem splitLines_ne_nil {bytes : List UInt8} (h : bytes ≠ []) : splitLines bytes ≠ [] := by
  obtain ⟨b, rest, rfl⟩ := List.exists_cons_of_ne_nil h
  induction rest generalizing b with
  | nil =>
      unfold splitLines
      split
      · simp
      · simp [splitLines]
  | cons c rest ih =>
      rw [splitLines]
      split
      · simp
      · split
        · exact ih c (by simp)
        · split <;> simp

/-- Lines that are finished do not depend on what follows. -/
theorem splitLines_append_newline (front rest : List UInt8) :
    splitLines (front ++ 10 :: rest) = splitLines (front ++ [10]) ++ splitLines rest := by
  induction front with
  | nil => rfl
  | cons b front ih =>
      have next : (front ++ 10 :: rest).head? = (front ++ [10]).head? := by
        cases front <;> rfl
      simp only [List.cons_append, splitLines, next, ih]
      split
      · rfl
      · split
        · rfl
        · obtain ⟨l, ls, shape⟩ :=
            List.exists_cons_of_ne_nil (splitLines_ne_nil (by simp : front ++ [10] ≠ []))
          simp [shape]

theorem splitLines_finished_append (content rest : List UInt8) :
    splitLines (finished content ++ rest) = splitLines (finished content) ++ splitLines rest := by
  rcases finished_cases content with nothing | ⟨front, ends⟩
  · rw [nothing]
    rfl
  · rw [ends, List.append_assoc]
    exact splitLines_append_newline front rest

/-- What is not finished is one line. -/
theorem splitLines_of_not_mem {bytes : List UInt8} (free : 10 ∉ bytes) (some_byte : bytes ≠ []) :
    splitLines bytes = [bytes] := by
  induction bytes with
  | nil => exact absurd rfl some_byte
  | cons b rest ih =>
      obtain ⟨differ, free⟩ := List.ne_and_not_mem_of_not_mem_cons free
      have carriage : ¬ (b = 13 ∧ rest.head? = some 10) := by
        rintro ⟨_, next⟩
        exact free (List.mem_of_head? next)
      rw [splitLines, if_neg differ.symm, if_neg carriage]
      cases rest with
      | nil => rfl
      | cons c rest => rw [ih free (by simp)]

/-- A line that does not end with a carriage return is what stands before its newline. -/
theorem splitLines_line {bytes : List UInt8} (free : 10 ∉ bytes) (plain : bytes.getLast? ≠ some 13) :
    splitLines (bytes ++ [10]) = [bytes] := by
  induction bytes with
  | nil => rfl
  | cons b rest ih =>
      obtain ⟨differ, free⟩ := List.ne_and_not_mem_of_not_mem_cons free
      have carriage : ¬ (b = 13 ∧ (rest ++ [10]).head? = some 10) := by
        rintro ⟨rfl, next⟩
        cases rest with
        | nil => exact plain rfl
        | cons c rest =>
            rw [List.cons_append, List.head?_cons] at next
            exact free (by simp [Option.some.inj next])
      have plain' : rest.getLast? ≠ some 13 := by
        intro last
        apply plain
        rw [List.getLast?_cons, last]
        rfl
      rw [List.cons_append, splitLines, if_neg differ.symm, if_neg carriage, ih free plain']

/-! ## Reading line by line -/

theorem readLines_append (line : Nat) (ls ls' : List (List UInt8)) :
    readLines line (ls ++ ls') = (readLines line ls).bind fun before =>
      (readLines (line + ls.length) ls').map (before ++ ·) := by
  induction ls generalizing line with
  | nil =>
      show readLines line ls' = (readLines line ls').map ([] ++ ·)
      cases readLines line ls' <;> rfl
  | cons bytes ls ih =>
      have next : line + (bytes :: ls).length = line + 1 + ls.length := by
        rw [List.length_cons]
        omega
      rw [List.cons_append, readLines, readLines, next]
      cases Text.decode? bytes with
      | none => rfl
      | some s =>
          simp only
          split
          · exact ih (line + 1)
          · cases Report.ofText? s with
            | none => rfl
            | some r =>
                simp only [ih (line + 1)]
                cases readLines (line + 1) ls with
                | error => rfl
                | ok before => cases readLines (line + 1 + ls.length) ls' <;> rfl

/-- A text that holds a report is not blank. -/
theorem not_isAllBlank_of_report {s : String} {r : Report} (holds : Report.ofText? s = some r) :
    Text.isAllBlank s.toList = false := by
  by_contra blank
  rw [Bool.not_eq_false] at blank
  simp [Report.ofText?, Json.ofText?_of_isAllBlank blank] at holds

theorem readLines_cons_of_report {s : String} {r : Report} (holds : Report.ofText? s = some r)
    (line : Nat) (ls : List (List UInt8)) :
    readLines line (Text.encode s :: ls) = (readLines (line + 1) ls).map (r :: ·) := by
  simp [readLines, Text.decode?_encode, not_isAllBlank_of_report holds, holds]

/-! ## Lines that are added -/

theorem le_of_mem_line (r : Report) {b : UInt8} (h : b ∈ Text.encode r.line) : 32 ≤ b.toNat :=
  Text.le_of_mem_encode r.printable_line h

theorem newline_not_mem_encode_line (r : Report) : 10 ∉ Text.encode r.line :=
  fun inside => absurd (le_of_mem_line r inside) (by decide)

theorem encode_line_ne_nil (r : Report) : Text.encode r.line ≠ [] := by
  obtain ⟨c, cs, begins⟩ : ∃ c cs, r.line.toList = c :: cs := by
    apply List.exists_cons_of_ne_nil
    intro nothing
    exact r.skipBlanks_line_ne_nil (by rw [nothing]; rfl)
  simp [Text.encode_eq, begins, String.utf8EncodeChar_ne_nil]

/-- What follows the last newline is the beginning of the first line that is added. -/
theorem splitLines_append_toBytes {front : List UInt8} (free : 10 ∉ front) (r : Report)
    (reports : List Report) :
    splitLines (front ++ toBytes (r :: reports)) =
      (front ++ Text.encode r.line) :: splitLines (toBytes reports) := by
  have shape : front ++ toBytes (r :: reports) =
      (front ++ Text.encode r.line) ++ 10 :: toBytes reports := by
    simp [toBytes]
  have free' : 10 ∉ front ++ Text.encode r.line := by
    rw [List.mem_append, not_or]
    exact ⟨free, newline_not_mem_encode_line r⟩
  have plain : (front ++ Text.encode r.line).getLast? ≠ some 13 := by
    rw [List.getLast?_append_of_ne_nil _ (encode_line_ne_nil r)]
    intro last
    exact absurd (le_of_mem_line r (List.mem_of_getLast? last)) (by decide)
  rw [shape, splitLines_append_newline, splitLines_line free' plain]
  rfl

theorem splitLines_toBytes (reports : List Report) :
    splitLines (toBytes reports) = reports.map fun r => Text.encode r.line := by
  induction reports with
  | nil => rfl
  | cons r reports ih =>
      have free : (10 : UInt8) ∉ [] := List.not_mem_nil
      have split := splitLines_append_toBytes free r reports
      rw [List.nil_append, List.nil_append, ih] at split
      exact split

theorem readLines_reports {reports : List Report} (fits : ∀ r ∈ reports, r.Fits) (line : Nat) :
    readLines line (reports.map fun r => Text.encode r.line) = .ok reports := by
  induction reports generalizing line with
  | nil => rfl
  | cons r reports ih =>
      obtain ⟨first, others⟩ := List.forall_mem_cons.mp fits
      rw [List.map_cons, readLines_cons_of_report first.ofText?_line, ih others]
      rfl

/-- What was written is read back. -/
theorem ofBytes_toBytes {reports : List Report} (fits : ∀ r ∈ reports, r.Fits) :
    ofBytes (toBytes reports) = .ok reports := by
  rw [ofBytes, splitLines_toBytes, readLines_reports fits]

/-- Nothing but blanks of JSON follows the last newline. -/
def EndsBlank (content : List UInt8) : Prop :=
  ∃ s : String, lastLine content = Text.encode s ∧ ∀ c ∈ s.toList, Json.isBlank c = true

variable {content : List UInt8} {reports : List Report}

theorem lastLine_of_not_mem (free : 10 ∉ content) : lastLine content = content := by
  refine List.rtakeWhile_eq_self_iff.mpr fun b inside => ?_
  rw [decide_eq_true_eq]
  rintro rfl
  exact free inside

/-- A report without its newline is unfinished. -/
theorem not_endsBlank_line (r : Report) : ¬ EndsBlank (Text.encode r.line) := by
  rintro ⟨s, text, blank⟩
  rw [lastLine_of_not_mem (newline_not_mem_encode_line r)] at text
  apply r.skipBlanks_line_ne_nil
  rw [Text.encode_injective text]
  simpa [Json.skipBlanks] using blank

/-- A report is read without its newline too. -/
theorem ofBytes_line {r : Report} (fits : r.Fits) : ofBytes (Text.encode r.line) = .ok [r] := by
  rw [ofBytes, splitLines_of_not_mem (newline_not_mem_encode_line r) (encode_line_ne_nil r),
    readLines_cons_of_report fits.ofText?_line]
  rfl

/-- The number of the line that follows the last newline. -/
def lastNumber (content : List UInt8) : Nat :=
  1 + (splitLines (finished content)).length

/-- A readable file has its reports in the finished lines and in what follows them. -/
theorem readLines_of_ofBytes (loaded : ofBytes content = .ok reports) :
    ∃ before last, readLines 1 (splitLines (finished content)) = .ok before ∧
      readLines (lastNumber content) (splitLines (lastLine content)) = .ok last ∧
      reports = before ++ last := by
  rw [ofBytes, ← finished_append_lastLine content, splitLines_finished_append, readLines_append]
    at loaded
  rw [lastNumber]
  cases front : readLines 1 (splitLines (finished content)) with
  | error => rw [front] at loaded; cases loaded
  | ok before =>
      rw [front] at loaded
      cases back : readLines (1 + (splitLines (finished content)).length)
          (splitLines (lastLine content)) with
      | error =>
          simp only [Except.bind, back] at loaded
          cases loaded
      | ok last =>
          simp only [Except.bind, back] at loaded
          exact ⟨before, last, rfl, rfl, (Except.ok.inj loaded).symm⟩

/-- The line that was not finished is blank or holds one report. -/
theorem lastLine_cases {line : Nat} {last : List Report}
    (back : readLines line (splitLines (lastLine content)) = .ok last) :
    ∃ s, lastLine content = Text.encode s ∧ ((Text.isAllBlank s.toList = true ∧ last = []) ∨
      ∃ r, Report.ofText? s = some r ∧ last = [r]) := by
  by_cases nothing : lastLine content = []
  · rw [nothing] at back ⊢
    exact ⟨"", rfl, .inl ⟨rfl, (Except.ok.inj back).symm⟩⟩
  · rw [splitLines_of_not_mem (not_mem_lastLine content) nothing, readLines] at back
    split at back
    case h_1 => cases back
    case h_2 s text =>
      refine ⟨s, Text.eq_encode_of_decode? text, ?_⟩
      split at back
      case isTrue blank => exact .inl ⟨blank, (Except.ok.inj back).symm⟩
      case isFalse =>
        split at back
        case h_1 => cases back
        case h_2 r holds => exact .inr ⟨r, holds, (Except.ok.inj back).symm⟩

/-- The first line that is added begins with what was not finished. -/
theorem ofBytes_append_toBytes {before : List Report}
    (front : readLines 1 (splitLines (finished content)) = .ok before) (r : Report)
    (more : List Report) :
    ofBytes (content ++ toBytes (r :: more)) = (readLines (lastNumber content)
      ((lastLine content ++ Text.encode r.line) :: more.map fun r => Text.encode r.line)).map
        (before ++ ·) := by
  have shape : content ++ toBytes (r :: more) =
      finished content ++ (lastLine content ++ toBytes (r :: more)) := by
    rw [← List.append_assoc, finished_append_lastLine]
  rw [ofBytes, shape, splitLines_finished_append,
    splitLines_append_toBytes (not_mem_lastLine content), splitLines_toBytes, readLines_append, front]
  rfl

/-- A line that was not finished and is more than blanks counts as a line. -/
theorem length_splitLines (h : ¬ EndsBlank content) :
    (splitLines content).length = lastNumber content := by
  have some_byte : lastLine content ≠ [] := by
    intro nothing
    exact h ⟨"", nothing, by simp⟩
  have cut : splitLines content = splitLines (finished content) ++ [lastLine content] := by
    conv => lhs; rw [← finished_append_lastLine content]
    rw [splitLines_finished_append, splitLines_of_not_mem (not_mem_lastLine content) some_byte]
  rw [cut, List.length_append, lastNumber, List.length_singleton, Nat.add_comm]

/-- Reports that are added to a readable file are read after those it has, if nothing but blanks of
JSON follows the last newline. Otherwise the line where they begin holds no report. -/
theorem ofBytes_append (loaded : ofBytes content = .ok reports) {r : Report} {more : List Report}
    (fits : ∀ added ∈ r :: more, added.Fits) :
    (EndsBlank content → ofBytes (content ++ toBytes (r :: more)) = .ok (reports ++ r :: more)) ∧
    (¬ EndsBlank content → ofBytes (content ++ toBytes (r :: more)) =
      .error (.noReport (splitLines content).length)) := by
  obtain ⟨before, last, front, back, rfl⟩ := readLines_of_ofBytes loaded
  obtain ⟨first, others⟩ := List.forall_mem_cons.mp fits
  obtain ⟨s, text, shape⟩ := lastLine_cases back
  rw [ofBytes_append_toBytes front, text, ← Text.encode_append]
  constructor
  · rintro ⟨s', text', blank⟩
    obtain rfl : s = s' := Text.encode_injective (text.symm.trans text')
    have nothing : last = [] := by
      rcases shape with ⟨_, nothing⟩ | ⟨before, holds, _⟩
      · exact nothing
      · have all : Text.isAllBlank s.toList = true :=
          List.all_eq_true.mpr fun c inside => Json.isBlank_text (blank c inside)
        rw [not_isAllBlank_of_report holds] at all
        cases all
    rw [readLines_cons_of_report (first.ofText?_append_line blank), readLines_reports others, nothing,
      List.append_nil]
    rfl
  · intro ending
    have unread : Report.ofText? (s ++ r.line) = none := by
      rcases shape with ⟨blank, _⟩ | ⟨before, holds, _⟩
      · have foreign : Json.skipBlanks s.toList ≠ [] := by
          intro nothing
          refine ending ⟨s, text, ?_⟩
          simpa [Json.skipBlanks] using nothing
        simp only [Report.ofText?, Json.ofText?_append_of_isAllBlank blank foreign, bind, Option.bind]
      · exact Report.ofText?_append_line_of_report holds r
    have visible : Text.isAllBlank (s ++ r.line).toList = false := by
      rw [String.toList_append, Text.isAllBlank, List.all_append, Bool.and_eq_false_iff]
      exact .inr (not_isAllBlank_of_report first.ofText?_line)
    rw [length_splitLines ending, readLines]
    simp only [Text.decode?_encode, visible, unread]
    rfl

end ReportLog

end FlowGraph
