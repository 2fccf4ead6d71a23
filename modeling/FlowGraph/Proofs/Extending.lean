import FlowGraph.Proofs.Spelling

/-!
# Text after a value

A value ends where the reader stops, so text that is added behind is left over and changes nothing. The
exception is a number at the very end of the text, which the added text can continue; an array or an
object has its closing bracket. The three readers of nested values call each other with one less of the
budget, so the induction is on the budget and carries all three.
-/

namespace FlowGraph.Json

open Text (isDigit)

/-- A value that ends with a bracket of its own. -/
def IsBracketed : Json → Prop
  | .array _ | .object _ => True
  | _ => False

theorem skipBlanks_append {cs rest : List Char} {c : Char} (h : skipBlanks cs = c :: rest)
    (more : List Char) : skipBlanks (cs ++ more) = c :: (rest ++ more) := by
  unfold skipBlanks at h ⊢
  rw [List.dropWhile_append, h]
  rfl

theorem skipBlanks_of_all {blanks : List Char} (all : ∀ c ∈ blanks, isBlank c = true)
    (cs : List Char) : skipBlanks (blanks ++ cs) = skipBlanks cs :=
  List.dropWhile_append_of_pos all

theorem skipBlanks_eq_cons {cs rest : List Char} {c : Char} (begins : skipBlanks cs = c :: rest) :
    c ∈ cs ∧ isBlank c = false := by
  constructor
  · exact (List.dropWhile_suffix isBlank).subset (by rw [← skipBlanks, begins]; simp)
  · have apart := List.head?_dropWhile_not isBlank cs
    rw [← skipBlanks, begins] at apart
    exact apart

/-- The blanks of JSON are blanks. -/
theorem isBlank_text {c : Char} (h : isBlank c = true) : Text.isBlank c = true := by
  simp only [isBlank, Bool.or_eq_true, beq_iff_eq] at h
  rcases h with ((rfl | rfl) | rfl) | rfl <;> decide

/-- Blanks in front do not matter. -/
theorem readValue_of_skipBlanks_eq {cs ds : List Char} (same : skipBlanks cs = skipBlanks ds)
    (budget : Nat) : readValue budget cs = readValue budget ds := by
  cases budget with
  | zero => rfl
  | succ budget => rw [readValue, readValue, same]

theorem readUnits_append {cs rest : List Char} {units : List Nat}
    (read : readUnits cs = some (units, rest)) (more : List Char) :
    readUnits (cs ++ more) = some (units, rest ++ more) := by
  induction cs using readUnits.induct generalizing units rest with
  | case1 rest' =>
      obtain ⟨rfl, rfl⟩ := Prod.mk.inj (Option.some.inj read)
      rfl
  | case2 a b c d rest' ih =>
      rw [readUnits] at read
      obtain ⟨n, hex, read⟩ := Option.bind_eq_some_iff.mp read
      obtain ⟨⟨later, end_⟩, others, read⟩ := Option.bind_eq_some_iff.mp read
      obtain ⟨rfl, rfl⟩ := Prod.mk.inj (Option.some.inj read)
      simp only [List.cons_append, readUnits, hex, ih others, bind, Option.bind]
  | case3 e rest' code ih =>
      rw [readUnits] at read
      · obtain ⟨c, stands, read⟩ := Option.bind_eq_some_iff.mp read
        obtain ⟨⟨later, end_⟩, others, read⟩ := Option.bind_eq_some_iff.mp read
        obtain ⟨rfl, rfl⟩ := Prod.mk.inj (Option.some.inj read)
        rw [List.cons_append, List.cons_append, readUnits_escape stands, ih others]
        rfl
      · exact code
  | case4 c rest' quote code escape bad =>
      rw [readUnits] at read
      · rw [if_pos bad] at read
        cases read
      all_goals assumption
  | case5 c rest' quote code escape fine ih =>
      rw [readUnits] at read
      · rw [if_neg fine] at read
        obtain ⟨⟨later, end_⟩, others, read⟩ := Option.bind_eq_some_iff.mp read
        obtain ⟨rfl, rfl⟩ := Prod.mk.inj (Option.some.inj read)
        obtain ⟨backslash, control⟩ := not_or.mp fine
        rw [List.cons_append, readUnits_plain quote backslash control, ih others]
        rfl
      all_goals assumption
  | case6 => cases read

theorem readString_append {cs rest : List Char} {text : Option String}
    (read : readString cs = some (text, rest)) (more : List Char) :
    readString (cs ++ more) = some (text, rest ++ more) := by
  obtain ⟨⟨units, end_⟩, spelled, read⟩ := Option.bind_eq_some_iff.mp read
  obtain ⟨rfl, rfl⟩ := Prod.mk.inj (Option.some.inj read)
  simp only [readString, readUnits_append spelled, bind, Option.bind]

/-! ## Numbers -/

theorem readDigits_append {cs rest ds : List Char} (read : readDigits cs = some (ds, rest))
    (left : rest ≠ []) (more : List Char) : readDigits (cs ++ more) = some (ds, rest ++ more) := by
  obtain ⟨found, all, rfl, stops⟩ := readDigits_eq_some_iff.mp read
  obtain ⟨c, after, rfl⟩ := List.exists_cons_of_ne_nil left
  refine readDigits_eq_some_iff.mpr ⟨found, all, List.append_assoc .., ?_⟩
  exact Text.stopsDigits_cons.mpr (Text.stopsDigits_cons.mp stops)

theorem readFraction_append {cs rest ds : List Char} (read : readFraction cs = some (ds, rest))
    (left : rest ≠ []) (more : List Char) : readFraction (cs ++ more) = some (ds, rest ++ more) := by
  unfold readFraction at read
  split at read
  · obtain ⟨⟨ds', end_⟩, run, read⟩ := Option.bind_eq_some_iff.mp read
    obtain ⟨rfl, rfl⟩ := Prod.mk.inj (Option.some.inj read)
    simp only [List.cons_append, readFraction, readDigits_append run left, bind, Option.bind]
  · rename_i point
    obtain ⟨rfl, rfl⟩ := Prod.mk.inj (Option.some.inj read)
    obtain ⟨c, after, rfl⟩ := List.exists_cons_of_ne_nil left
    rw [List.cons_append, readFraction]
    intro _ same
    exact point after (by rw [(List.cons.inj same).1])

theorem readExponent_append {cs rest ds : List Char} (read : readExponent cs = some (ds, rest))
    (left : rest ≠ []) (more : List Char) : readExponent (cs ++ more) = some (ds, rest ++ more) := by
  unfold readExponent at read
  split at read
  · obtain ⟨rfl, rfl⟩ := Prod.mk.inj (Option.some.inj read)
    exact absurd rfl left
  · rename_i e cs
    split at read
    case isFalse plain =>
      obtain ⟨rfl, rfl⟩ := Prod.mk.inj (Option.some.inj read)
      simp only [List.cons_append, readExponent, if_neg plain]
    case isTrue marked =>
      cases cs with
      | nil => cases read
      | cons s cs =>
          simp only at read
          simp only [List.cons_append, readExponent, if_pos marked]
          split at read
          case isTrue signed =>
            obtain ⟨⟨ds', end_⟩, run, read⟩ := Option.bind_eq_some_iff.mp read
            obtain ⟨rfl, rfl⟩ := Prod.mk.inj (Option.some.inj read)
            simp only [if_pos signed, readDigits_append run left, bind, Option.bind]
          case isFalse unsigned =>
            obtain ⟨⟨ds', end_⟩, run, read⟩ := Option.bind_eq_some_iff.mp read
            obtain ⟨rfl, rfl⟩ := Prod.mk.inj (Option.some.inj read)
            rw [← List.cons_append]
            simp only [if_neg unsigned, readDigits_append run left, bind, Option.bind]

/-- What reading a number without its sign amounts to. -/
theorem readUnsigned_cases {negative : Bool} {cs rest : List Char} {j : Json}
    (read : readUnsigned negative cs = some (j, rest)) :
    ∃ ds afterDigits fraction afterFraction exponent n,
      readDigits cs = some (ds, afterDigits) ∧ ¬ (ds.head? = some '0' ∧ 1 < ds.length) ∧
      readFraction afterDigits = some (fraction, afterFraction) ∧
      readExponent afterFraction = some (exponent, rest) ∧ Text.natural? ds = some n ∧
      j = if fraction.isEmpty && exponent.isEmpty && !(negative && n == 0) then
          .integer (if negative then -(n : Int) else n)
        else .number (String.ofList ((if negative then ['-'] else []) ++ ds ++ fraction ++ exponent)) := by
  obtain ⟨⟨ds, afterDigits⟩, run, read⟩ := Option.bind_eq_some_iff.mp read
  simp only at read
  split at read
  · cases read
  rename_i unpadded
  obtain ⟨⟨fraction, afterFraction⟩, point, read⟩ := Option.bind_eq_some_iff.mp read
  obtain ⟨⟨exponent, afterExponent⟩, mark, read⟩ := Option.bind_eq_some_iff.mp read
  obtain ⟨n, value, read⟩ := Option.bind_eq_some_iff.mp read
  simp only at read
  refine ⟨ds, afterDigits, fraction, afterFraction, exponent, n, run, unpadded, point, ?_, value, ?_⟩
  · split at read <;> rw [mark, (Prod.mk.inj (Option.some.inj read)).2]
  · split at read
    case isTrue whole =>
      rw [if_pos whole]
      exact (Prod.mk.inj (Option.some.inj read)).1.symm
    case isFalse broken =>
      rw [if_neg broken]
      exact (Prod.mk.inj (Option.some.inj read)).1.symm

theorem readUnsigned_append {negative : Bool} {cs rest : List Char} {j : Json}
    (read : readUnsigned negative cs = some (j, rest)) (left : rest ≠ []) (more : List Char) :
    readUnsigned negative (cs ++ more) = some (j, rest ++ more) := by
  obtain ⟨ds, afterDigits, fraction, afterFraction, exponent, n, run, unpadded, point, mark, value,
    rfl⟩ := readUnsigned_cases read
  have leftFraction : afterFraction ≠ [] := by
    rintro rfl
    exact left (Prod.mk.inj (Option.some.inj mark)).2.symm
  have leftDigits : afterDigits ≠ [] := by
    rintro rfl
    exact leftFraction (Prod.mk.inj (Option.some.inj point)).2.symm
  simp only [readUnsigned, readDigits_append run leftDigits, readFraction_append point leftFraction,
    readExponent_append mark left, value, if_neg unpadded, bind, Option.bind]
  split <;> rfl

theorem not_isBracketed_of_readUnsigned {negative : Bool} {cs rest : List Char} {j : Json}
    (read : readUnsigned negative cs = some (j, rest)) : ¬ j.IsBracketed := by
  obtain ⟨_, _, _, _, _, _, _, _, _, _, _, rfl⟩ := readUnsigned_cases read
  split <;> exact id

theorem not_isBracketed_of_readNumber {cs rest : List Char} {j : Json}
    (read : readNumber cs = some (j, rest)) : ¬ j.IsBracketed := by
  unfold readNumber at read
  split at read <;> exact not_isBracketed_of_readUnsigned read

theorem readNumber_append {cs rest : List Char} {j : Json} (read : readNumber cs = some (j, rest))
    (left : rest ≠ []) (more : List Char) : readNumber (cs ++ more) = some (j, rest ++ more) := by
  unfold readNumber at read
  split at read
  · exact readUnsigned_append read left more
  · rename_i minus
    have begins : cs ≠ [] := by
      rintro rfl
      exact absurd read (by simp [readUnsigned, readDigits])
    obtain ⟨c, after, rfl⟩ := List.exists_cons_of_ne_nil begins
    rw [List.cons_append, readNumber]
    · exact readUnsigned_append read left more
    · intro _ same
      exact minus after (by rw [(List.cons.inj same).1])

/-- Only what begins as a number is read as one. -/
theorem numeral_of_readNumber {c : Char} {cs : List Char} {result : Json × List Char}
    (read : readNumber (c :: cs) = some result) : isDigit c = true ∨ c = '-' := by
  unfold readNumber at read
  split at read
  · rename_i same
    exact .inr (List.cons.inj same).1
  · obtain ⟨⟨ds, after⟩, run, _⟩ := Option.bind_eq_some_iff.mp read
    obtain ⟨found, all, split, _⟩ := readDigits_eq_some_iff.mp run
    obtain ⟨d, ds, rfl⟩ := List.exists_cons_of_ne_nil found
    rw [(List.cons.inj split).1]
    exact .inl (all d (List.mem_cons_self ..))

/-! ## Values -/

/-- With a budget of this size more text behind a value changes nothing. -/
structure Extends (budget : Nat) : Prop where
  value : ∀ {cs rest : List Char} {j : Json}, readValue budget cs = some (j, rest) →
    rest ≠ [] ∨ j.IsBracketed → ∀ more, ∀ larger ≥ budget,
      readValue larger (cs ++ more) = some (j, rest ++ more)
  items : ∀ {cs rest : List Char} {items : List Json}, readItems budget cs = some (items, rest) →
    ∀ more, ∀ larger ≥ budget, readItems larger (cs ++ more) = some (items, rest ++ more)
  members : ∀ {cs rest : List Char} {members : List (Option String × Json)},
    readMembers budget cs = some (members, rest) →
    ∀ more, ∀ larger ≥ budget, readMembers larger (cs ++ more) = some (members, rest ++ more)

theorem extends_zero : Extends 0 where
  value read := by cases read
  items read := by cases read
  members read := by cases read

variable {budget : Nat}

theorem readItems_nil (budget : Nat) : readItems budget [] = none := by
  cases budget with
  | zero => rfl
  | succ b => cases b <;> rfl

theorem readMembers_nil (budget : Nat) : readMembers budget [] = none := by
  cases budget <;> rfl

theorem Extends.value_succ (h : Extends budget) {cs rest : List Char} {j : Json}
    (read : readValue (budget + 1) cs = some (j, rest)) (ends : rest ≠ [] ∨ j.IsBracketed)
    (more : List Char) (larger : Nat) (enough : larger ≥ budget) :
    readValue (larger + 1) (cs ++ more) = some (j, rest ++ more) := by
  rw [readValue] at read
  split at read
  case h_1 begins | h_2 begins | h_3 begins =>
    obtain ⟨rfl, rfl⟩ := Prod.mk.inj (Option.some.inj read)
    rw [readValue, skipBlanks_append begins]
    rfl
  case h_4 rest' begins =>
    obtain ⟨⟨text, end_⟩, quoted, read⟩ := Option.map_eq_some_iff.mp read
    obtain ⟨rfl, rfl⟩ := Prod.mk.inj read
    rw [readValue, skipBlanks_append begins]
    simp only [readString_append quoted, Option.map_some]
  case h_5 rest' begins =>
    rw [readValue, skipBlanks_append begins]
    split at read
    case h_1 closed =>
      obtain ⟨rfl, rfl⟩ := Prod.mk.inj (Option.some.inj read)
      simp only [skipBlanks_append closed]
    case h_2 open_ =>
      obtain ⟨⟨items, end_⟩, inside, read⟩ := Option.map_eq_some_iff.mp read
      obtain ⟨rfl, rfl⟩ := Prod.mk.inj read
      have begun : skipBlanks rest' ≠ [] := by
        intro nothing
        rw [nothing, readItems_nil] at inside
        cases inside
      obtain ⟨c, after, begun⟩ := List.exists_cons_of_ne_nil begun
      have extended := h.items inside more larger enough
      rw [begun] at extended open_
      simp only [skipBlanks_append begun]
      split
      · rename_i same
        exact absurd (by rw [(List.cons.inj same).1]) (open_ after)
      · rw [← List.cons_append, extended]
        rfl
  case h_6 rest' begins =>
    rw [readValue, skipBlanks_append begins]
    split at read
    case h_1 closed =>
      obtain ⟨rfl, rfl⟩ := Prod.mk.inj (Option.some.inj read)
      simp only [skipBlanks_append closed]
    case h_2 open_ =>
      obtain ⟨⟨members, end_⟩, inside, read⟩ := Option.map_eq_some_iff.mp read
      obtain ⟨rfl, rfl⟩ := Prod.mk.inj read
      have begun : skipBlanks rest' ≠ [] := by
        intro nothing
        rw [nothing, readMembers_nil] at inside
        cases inside
      obtain ⟨c, after, begun⟩ := List.exists_cons_of_ne_nil begun
      have extended := h.members inside more larger enough
      rw [begun] at extended open_
      simp only [skipBlanks_append begun]
      split
      · rename_i same
        exact absurd (by rw [(List.cons.inj same).1]) (open_ after)
      · rw [← List.cons_append, extended]
        rfl
  case h_7 =>
    have begun : skipBlanks cs ≠ [] := by
      intro nothing
      rw [nothing] at read
      cases read
    obtain ⟨c, after, begun⟩ := List.exists_cons_of_ne_nil begun
    rw [begun] at read
    have numeral := numeral_of_readNumber read
    have left : rest ≠ [] := by
      rcases ends with left | bracketed
      · exact left
      · exact absurd bracketed (not_isBracketed_of_readNumber read)
    have same : skipBlanks (cs ++ more) = skipBlanks (c :: (after ++ more)) := by
      rw [skipBlanks_append begun, skipBlanks_cons (isBlank_of_numeral numeral)]
    rw [readValue_of_skipBlanks_eq same, readValue_of_numeral numeral]
    exact readNumber_append read left more

theorem Extends.items_succ (h : Extends budget) {cs rest : List Char} {items : List Json}
    (read : readItems (budget + 1) cs = some (items, rest)) (more : List Char) (larger : Nat)
    (enough : larger ≥ budget) : readItems (larger + 1) (cs ++ more) = some (items, rest ++ more) := by
  rw [readItems] at read
  obtain ⟨⟨j, after⟩, first, read⟩ := Option.bind_eq_some_iff.mp read
  simp only at read
  have extended (left : after ≠ []) := h.value first (.inl left) more larger enough
  split at read
  case h_1 rest' closed =>
    obtain ⟨rfl, rfl⟩ := Prod.mk.inj (Option.some.inj read)
    rw [readItems, extended (by rintro rfl; cases closed)]
    simp only [bind, Option.bind, skipBlanks_append closed]
  case h_2 rest' comma =>
    obtain ⟨⟨items, end_⟩, others, read⟩ := Option.bind_eq_some_iff.mp read
    obtain ⟨rfl, rfl⟩ := Prod.mk.inj (Option.some.inj read)
    rw [readItems, extended (by rintro rfl; cases comma)]
    simp only [bind, Option.bind, skipBlanks_append comma, h.items others more larger enough]
  case h_3 => cases read

theorem Extends.members_succ (h : Extends budget) {cs rest : List Char}
    {members : List (Option String × Json)}
    (read : readMembers (budget + 1) cs = some (members, rest)) (more : List Char) (larger : Nat)
    (enough : larger ≥ budget) :
    readMembers (larger + 1) (cs ++ more) = some (members, rest ++ more) := by
  rw [readMembers] at read
  split at read
  case h_2 => cases read
  case h_1 afterQuote quote =>
    obtain ⟨⟨name, afterName⟩, quoted, read⟩ := Option.bind_eq_some_iff.mp read
    simp only at read
    split at read
    case h_2 => cases read
    case h_1 afterColon colon =>
      obtain ⟨⟨j, after⟩, first, read⟩ := Option.bind_eq_some_iff.mp read
      simp only at read
      have extended (left : after ≠ []) := h.value first (.inl left) more larger enough
      have name := readString_append quoted more
      split at read
      case h_1 rest' closed =>
        obtain ⟨rfl, rfl⟩ := Prod.mk.inj (Option.some.inj read)
        rw [readMembers, skipBlanks_append quote]
        simp only [bind, Option.bind, name, skipBlanks_append colon,
          extended (by rintro rfl; cases closed), skipBlanks_append closed]
      case h_2 rest' comma =>
        obtain ⟨⟨members, end_⟩, others, read⟩ := Option.bind_eq_some_iff.mp read
        obtain ⟨rfl, rfl⟩ := Prod.mk.inj (Option.some.inj read)
        rw [readMembers, skipBlanks_append quote]
        simp only [bind, Option.bind, name, skipBlanks_append colon,
          extended (by rintro rfl; cases comma), skipBlanks_append comma,
          h.members others more larger enough]
      case h_3 => cases read

theorem extends_all (budget : Nat) : Extends budget := by
  induction budget with
  | zero => exact extends_zero
  | succ budget ih =>
      constructor
      · intro cs rest j read ends more larger enough
        obtain ⟨l, rfl⟩ : ∃ l, larger = l + 1 := ⟨larger - 1, by omega⟩
        exact ih.value_succ read ends more l (by omega)
      · intro cs rest items read more larger enough
        obtain ⟨l, rfl⟩ : ∃ l, larger = l + 1 := ⟨larger - 1, by omega⟩
        exact ih.items_succ read more l (by omega)
      · intro cs rest members read more larger enough
        obtain ⟨l, rfl⟩ : ∃ l, larger = l + 1 := ⟨larger - 1, by omega⟩
        exact ih.members_succ read more l (by omega)

/-! ## Texts -/

/-- What the writer makes of a value holds that value, also behind blanks. -/
theorem Whole.ofText?_append_compact {j : Json} (h : Whole j) {s : String}
    (blank : ∀ c ∈ s.toList, isBlank c = true) : ofText? (s ++ j.compact) = some j := by
  have text : (s ++ j.compact).toList = s.toList ++ j.write .compact 0 := by
    rw [String.toList_append, compact, String.toList_ofList]
  have same : skipBlanks (s.toList ++ j.write .compact 0) = skipBlanks (j.write .compact 0) :=
    skipBlanks_of_all blank _
  have read := h.readsBack 0 (2 * (s.toList ++ j.write .compact 0).length + 2) []
    (by simp [StopsNumber]) (by rw [List.length_append]; omega)
  rw [List.append_nil, ← readValue_of_skipBlanks_eq same] at read
  simp only [ofText?, text, read, bind, Option.bind]
  rfl

theorem readValue_nil (budget : Nat) : readValue budget [] = none := by
  cases budget <;> rfl

/-- No value begins with a blank that JSON does not know. -/
theorem readValue_of_foreign {c : Char} (blank : Text.isBlank c = true) (foreign : isBlank c = false)
    (budget : Nat) (cs : List Char) : readValue budget (c :: cs) = none := by
  cases budget with
  | zero => rfl
  | succ budget =>
      rw [readValue, skipBlanks_cons foreign]
      split
      case h_7 =>
        by_contra found
        obtain ⟨result, read⟩ := Option.ne_none_iff_exists'.mp found
        rcases numeral_of_readNumber read with digit | rfl
        · rw [Text.isBlank_of_isDigit digit] at blank
          cases blank
        · exact absurd blank (by decide)
      all_goals
        rename_i same
        rw [(List.cons.inj same).1] at blank
        exact absurd blank (by decide)

theorem ofText?_of_foreign {s : String} {c : Char} {rest : List Char}
    (begins : skipBlanks s.toList = c :: rest) (blank : Text.isBlank c = true) : ofText? s = none := by
  have foreign := (skipBlanks_eq_cons begins).2
  have same : skipBlanks s.toList = skipBlanks (c :: rest) := by
    rw [begins, skipBlanks_cons foreign]
  simp only [ofText?, readValue_of_skipBlanks_eq same, readValue_of_foreign blank foreign, bind,
    Option.bind]

/-- Blanks hold no value. -/
theorem ofText?_of_isAllBlank {s : String} (blank : Text.isAllBlank s.toList = true) :
    ofText? s = none := by
  cases begins : skipBlanks s.toList with
  | nil =>
      have same : skipBlanks s.toList = skipBlanks [] := by rw [begins]; rfl
      simp only [ofText?, readValue_of_skipBlanks_eq same, readValue_nil, bind, Option.bind]
  | cons c rest =>
      have inside := (skipBlanks_eq_cons begins).1
      exact ofText?_of_foreign begins (List.all_eq_true.mp blank c inside)

/-- Blanks that JSON does not know hide every value behind them. -/
theorem ofText?_append_of_isAllBlank {s : String} (blank : Text.isAllBlank s.toList = true)
    (foreign : skipBlanks s.toList ≠ []) (more : String) : ofText? (s ++ more) = none := by
  obtain ⟨c, rest, begins⟩ := List.exists_cons_of_ne_nil foreign
  have inside := (skipBlanks_eq_cons begins).1
  have goes_on := skipBlanks_append begins more.toList
  rw [← String.toList_append] at goes_on
  exact ofText?_of_foreign goes_on (List.all_eq_true.mp blank c inside)

/-- A text that is one bracketed value holds none once more than blanks come after it. -/
theorem ofText?_append_eq_none {s more : String} {j : Json} (whole : ofText? s = some j)
    (bracketed : j.IsBracketed) (goes_on : skipBlanks more.toList ≠ []) : ofText? (s ++ more) = none := by
  obtain ⟨⟨j', rest⟩, read, whole⟩ := Option.bind_eq_some_iff.mp whole
  simp only [Option.ite_none_right_eq_some, Option.some.injEq] at whole
  obtain ⟨blank, rfl⟩ := whole
  have extended := (extends_all _).value read (.inr bracketed) more.toList
    (2 * (s ++ more).toList.length + 2)
    (by rw [String.toList_append, List.length_append]; omega)
  have all : ∀ c ∈ rest, isBlank c = true := by simpa [skipBlanks] using blank
  simp only [ofText?, String.toList_append, bind, Option.bind] at extended ⊢
  rw [extended]
  simp only [skipBlanks_of_all all, List.isEmpty_iff, if_neg goes_on]

end FlowGraph.Json
