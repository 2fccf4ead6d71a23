import Mathlib.Data.List.TakeWhile
import FlowGraph.Json.Reader
import FlowGraph.Json.Writer
import FlowGraph.Proofs.Numerals

/-!
# Written JSON is read back

What the writer makes of a value, without blanks, the reader takes for that value and leaves what comes
after it. Of a value that is a number the reader has to know where it ends, so what comes after must not
go on as a number. Numbers with a fraction or an exponent are kept as they were written and are left out
here. Nothing written so contains a control, let
alone a line break.
-/

namespace FlowGraph.Json

open Text (isDigit StopsDigits digits)

/-- A value without any number that is kept as a text. -/
inductive Whole : Json → Prop where
  | null : Whole .null
  | bool (b : Bool) : Whole (.bool b)
  | integer (i : Int) : Whole (.integer i)
  | string (text : Option String) : Whole (.string text)
  | array {items : List Json} (all : ∀ j ∈ items, Whole j) : Whole (.array items)
  | object {members : List (Option String × Json)} (all : ∀ m ∈ members, Whole m.2) :
      Whole (.object members)

/-! ## Strings -/

/-- The code of a character is never half of a surrogate pair. -/
theorem not_half (c : Char) : isHighHalf c.toNat = false ∧ isLowHalf c.toNat = false := by
  have valid := c.valid
  simp only [UInt32.isValidChar, Nat.isValidChar] at valid
  simp only [isHighHalf, isLowHalf, Bool.and_eq_false_iff, decide_eq_false_iff_not]
  show (¬ 0xD800 ≤ c.val.toNat ∨ ¬ c.val.toNat < 0xDC00) ∧
    (¬ 0xDC00 ≤ c.val.toNat ∨ ¬ c.val.toNat < 0xE000)
  omega

theorem joinHalves_map_toNat (cs : List Char) : joinHalves (cs.map Char.toNat) = some cs := by
  induction cs with
  | nil => rfl
  | cons c rest ih =>
      obtain ⟨high, low⟩ := not_half c
      cases rest with
      | nil => simp [joinHalves, high, low, Char.ofNat_toNat]
      | cons d rest =>
          rw [List.map_cons, List.map_cons, joinHalves, high, low, ← List.map_cons, ih]
          simp [Char.ofNat_toNat]

/-- A control is escaped by its code in hexadecimal. -/
theorem hexNumber?_control {n : Nat} (h : n < 32) :
    hexNumber? '0' '0' (Text.hexDigit (n / 16)) (Text.hexDigit (n % 16)) = some n := by
  have all : ∀ n < 32,
      hexNumber? '0' '0' (Text.hexDigit (n / 16)) (Text.hexDigit (n % 16)) = some n := by decide
  exact all n h

/-- A one-letter escape is read as the character it stands for. -/
theorem readUnits_escape {e c : Char} (stands : escaped? e = some c) (rest : List Char) :
    readUnits ('\\' :: e :: rest) =
      (readUnits rest).map fun (units, rest) => (c.toNat :: units, rest) := by
  have code : e ≠ 'u' := by
    rintro rfl
    cases stands
  rw [readUnits]
  · rw [stands]
    cases readUnits rest <;> rfl
  · intro _ _ _ _ _ same
    exact absurd same code

/-- A character that needs no escape is read as itself. -/
theorem readUnits_plain {c : Char} (quote : c ≠ '"') (backslash : c ≠ '\\')
    (control : ¬ c.toNat < 32) (rest : List Char) :
    readUnits (c :: rest) = (readUnits rest).map fun (units, rest) => (c.toNat :: units, rest) := by
  rw [readUnits]
  · rw [if_neg (by simp [backslash, control])]
    cases readUnits rest <;> rfl
  · exact quote
  · intro _ _ _ _ _ same
    exact absurd same backslash
  · intro _ _ same
    exact absurd same backslash

/-- Each character of a string is read as itself. -/
theorem readUnits_writeChar (c : Char) (rest : List Char) :
    readUnits (writeChar c ++ rest) =
      (readUnits rest).map fun (units, rest) => (c.toNat :: units, rest) := by
  unfold writeChar
  split
  case h_8 quote backslash _ _ _ _ _ =>
    split
    case isTrue control =>
      simp only [List.cons_append, List.nil_append, readUnits, hexNumber?_control control]
      cases readUnits rest <;> rfl
    case isFalse plain => exact readUnits_plain quote backslash plain rest
  all_goals exact readUnits_escape rfl rest

theorem readUnits_flatMap_writeChar (cs rest : List Char) :
    readUnits (cs.flatMap writeChar ++ '"' :: rest) = some (cs.map Char.toNat, rest) := by
  induction cs with
  | nil => rfl
  | cons c cs ih =>
      rw [List.flatMap_cons, List.append_assoc, readUnits_writeChar, ih]
      rfl

/-- After its opening quote a written string is read to its end. -/
theorem readString_writeString (text : Option String) (rest : List Char) :
    ∃ body, writeString text = '"' :: body ∧ readString (body ++ rest) = some (text, rest) := by
  cases text with
  | none => exact ⟨_, rfl, rfl⟩
  | some s =>
      refine ⟨s.toList.flatMap writeChar ++ ['"'], rfl, ?_⟩
      have units := readUnits_flatMap_writeChar s.toList rest
      simp [readString, units, joinHalves_map_toNat]

/-! ## Numbers -/

/-- A text that does not go on as a number. -/
def StopsNumber (rest : List Char) : Prop :=
  ∀ c ∈ rest.head?, isDigit c = false ∧ c ≠ '.' ∧ c ≠ 'e' ∧ c ≠ 'E'

theorem StopsNumber.stopsDigits {rest : List Char} (stops : StopsNumber rest) : StopsDigits rest :=
  fun c first => (stops c first).1

theorem StopsNumber.readFraction {rest : List Char} (stops : StopsNumber rest) :
    readFraction rest = some ([], rest) := by
  unfold Json.readFraction
  split
  · exact absurd rfl (stops _ rfl).2.1
  · rfl

theorem StopsNumber.readExponent {rest : List Char} (stops : StopsNumber rest) :
    readExponent rest = some ([], rest) := by
  cases rest with
  | nil => rfl
  | cons c rest =>
      obtain ⟨_, _, small, large⟩ := stops c rfl
      simp [Json.readExponent, small, large]

/-- Digits are read as long as there are any. -/
theorem readDigits_eq_some_iff {cs ds rest : List Char} : readDigits cs = some (ds, rest) ↔
    ds ≠ [] ∧ (∀ c ∈ ds, isDigit c = true) ∧ cs = ds ++ rest ∧ StopsDigits rest := by
  constructor
  · intro read
    unfold readDigits at read
    simp only [Option.ite_none_left_eq_some, List.isEmpty_iff, Option.some.injEq,
      Prod.mk.injEq] at read
    obtain ⟨found, rfl, rfl⟩ := read
    refine ⟨found, fun c hc => List.mem_takeWhile_imp hc, List.takeWhile_append_dropWhile.symm, ?_⟩
    intro c first
    simpa [Option.mem_def.mp first] using List.head?_dropWhile_not isDigit cs
  · rintro ⟨found, all, rfl, stops⟩
    rw [readDigits, Text.takeWhile_isDigit all stops, Text.dropWhile_isDigit all stops]
    simp [found]

theorem readUnsigned_digits {negative : Bool} {n : Nat} (positive : negative = true → 0 < n)
    {rest : List Char} (stops : StopsNumber rest) :
    readUnsigned negative (digits n ++ rest) =
      some (.integer (if negative then -(n : Int) else n), rest) := by
  have run : readDigits (digits n ++ rest) = some (digits n, rest) :=
    readDigits_eq_some_iff.mpr
      ⟨Text.digits_ne_nil n, Text.isDigit_of_mem_digits n, rfl, stops.stopsDigits⟩
  have unpadded : ¬ ((digits n).head? = some '0' ∧ 1 < (digits n).length) := by
    rintro ⟨zero, long⟩
    rw [Text.head?_digits_eq_zero zero] at long
    simp [Text.digits_of_lt] at long
  have signed : (negative && n == 0) = false := by
    cases negative with
    | false => rfl
    | true => simpa using Nat.pos_iff_ne_zero.mp (positive rfl)
  simp only [readUnsigned, run, stops.readFraction, stops.readExponent, Text.natural?_digits,
    if_neg unpadded, signed, bind, Option.bind]
  rfl

/-- A whole number is read to its last digit. -/
theorem readNumber_signedDigits (i : Int) {rest : List Char} (stops : StopsNumber rest) :
    readNumber (Text.signedDigits i ++ rest) = some (.integer i, rest) := by
  cases i with
  | ofNat n =>
      obtain ⟨c, more, shape⟩ := List.exists_cons_of_ne_nil (Text.digits_ne_nil n)
      have unsigned : c ≠ '-' :=
        Text.ne_of_isDigit (Text.isDigit_of_mem_digits n c (by simp [shape])) (by decide)
      have read : readNumber (digits n ++ rest) = readUnsigned false (digits n ++ rest) := by
        rw [shape, List.cons_append, readNumber]
        intro _ same
        exact unsigned (List.cons.inj same).1
      exact read.trans (readUnsigned_digits (by simp) stops)
  | negSucc n => exact readUnsigned_digits (fun _ => n.succ_pos) stops

/-! ## Values -/

/-- A digit or a minus sign, with which a number begins, is no other character. -/
theorem ne_of_numeral {c d : Char} (numeral : isDigit c = true ∨ c = '-')
    (other : isDigit d = false ∧ d ≠ '-') : c ≠ d := by
  rintro rfl
  rcases numeral with digit | minus
  · exact absurd digit (by simp [other.1])
  · exact other.2 minus

theorem isBlank_of_numeral {c : Char} (numeral : isDigit c = true ∨ c = '-') :
    isBlank c = false := by
  have differs {d : Char} := ne_of_numeral (d := d) numeral
  simp [isBlank, differs (d := ' ') (by decide), differs (d := '\n') (by decide),
    differs (d := '\t') (by decide), differs (d := '\r') (by decide)]

theorem exists_cons_signedDigits (i : Int) :
    ∃ c cs, Text.signedDigits i = c :: cs ∧ (isDigit c = true ∨ c = '-') := by
  cases i with
  | ofNat n =>
      obtain ⟨c, cs, shape⟩ := List.exists_cons_of_ne_nil (Text.digits_ne_nil n)
      exact ⟨c, cs, shape, .inl (Text.isDigit_of_mem_digits n c (by simp [shape]))⟩
  | negSucc n => exact ⟨'-', digits (n + 1), rfl, .inr rfl⟩

theorem skipBlanks_cons {c : Char} (h : isBlank c = false) (cs : List Char) :
    skipBlanks (c :: cs) = c :: cs := by
  simp [skipBlanks, h]

/-- What begins as a number is read as one. -/
theorem readValue_of_numeral {c : Char} (numeral : isDigit c = true ∨ c = '-') (budget : Nat)
    (cs : List Char) : readValue (budget + 1) (c :: cs) = readNumber (c :: cs) := by
  rw [readValue, skipBlanks_cons (isBlank_of_numeral numeral)]
  split
  case h_7 => rfl
  all_goals
    rename_i same
    exact absurd (List.cons.inj same).1 (ne_of_numeral numeral (by decide))

/-- A written value begins with no blank, and with no bracket that closes an array. -/
theorem exists_cons_write {j : Json} (h : Whole j) (l : Layout) (level : Nat) :
    ∃ c cs, j.write l level = c :: cs ∧ isBlank c = false ∧ c ≠ ']' := by
  cases h with
  | null => exact ⟨_, _, rfl, by decide, by decide⟩
  | bool b => cases b <;> exact ⟨_, _, rfl, by decide, by decide⟩
  | integer i =>
      obtain ⟨c, cs, shape, numeral⟩ := exists_cons_signedDigits i
      exact ⟨c, cs, shape, isBlank_of_numeral numeral, ne_of_numeral numeral (by decide)⟩
  | string text =>
      obtain ⟨body, shape, _⟩ := readString_writeString text []
      exact ⟨_, _, shape, by decide, by decide⟩
  | @array items _ => cases items <;> exact ⟨_, _, rfl, by decide, by decide⟩
  | @object members _ => cases members <;> exact ⟨_, _, rfl, by decide, by decide⟩

/-! ### Without blanks -/

@[simp] theorem Layout.lineBreak_compact (level : Nat) : compact.lineBreak level = [] := rfl

@[simp] theorem Layout.colon_compact : compact.colon = [':'] := rfl

theorem writeItems_nil (level : Nat) : writeItems .compact level [] = [']'] := by
  simp [writeItems]

theorem writeItems_cons (level : Nat) (j : Json) (items : List Json) :
    writeItems .compact level (j :: items) =
      ',' :: (j.write .compact (level + 1) ++ writeItems .compact level items) := by
  simp [writeItems]

theorem writeMembers_nil (level : Nat) : writeMembers .compact level [] = ['\x7d'] := by
  simp [writeMembers]

theorem writeMembers_cons (level : Nat) (name : Option String) (j : Json)
    (members : List (Option String × Json)) :
    writeMembers .compact level ((name, j) :: members) =
      ',' :: (writeString name ++ ':' :: (j.write .compact (level + 1) ++
        writeMembers .compact level members)) := by
  simp [writeMembers]

theorem write_array_cons (level : Nat) (j : Json) (items : List Json) :
    (Json.array (j :: items)).write .compact level =
      '[' :: (j.write .compact (level + 1) ++ writeItems .compact level items) := by
  simp [write]

theorem write_object_cons (level : Nat) (name : Option String) (j : Json)
    (members : List (Option String × Json)) :
    (Json.object ((name, j) :: members)).write .compact level =
      '\x7b' :: (writeString name ++ ':' :: (j.write .compact (level + 1) ++
        writeMembers .compact level members)) := by
  simp [write]

/-! ### Reading back -/

/-- A value is read back by any budget larger than its text. -/
def ReadsBack (j : Json) : Prop :=
  ∀ (level budget : Nat) (rest : List Char), StopsNumber rest →
    (j.write .compact level).length < budget →
    readValue budget (j.write .compact level ++ rest) = some (j, rest)

theorem stopsNumber_cons {c : Char} (other : isDigit c = false ∧ c ≠ '.' ∧ c ≠ 'e' ∧ c ≠ 'E')
    (cs : List Char) : StopsNumber (c :: cs) := by
  intro d first
  rwa [← Option.some.inj first]

theorem stopsNumber_writeItems (level : Nat) (items : List Json) (rest : List Char) :
    StopsNumber (writeItems .compact level items ++ rest) := by
  cases items <;> exact stopsNumber_cons (by decide) _

theorem stopsNumber_writeMembers (level : Nat) (members : List (Option String × Json))
    (rest : List Char) : StopsNumber (writeMembers .compact level members ++ rest) := by
  cases members <;> exact stopsNumber_cons (by decide) _

theorem readItems_last {j : Json} {budget : Nat} {cs rest : List Char}
    (read : readValue budget cs = some (j, ']' :: rest)) :
    readItems (budget + 1) cs = some ([j], rest) := by
  rw [readItems, read]
  rfl

theorem readItems_more {j : Json} {items : List Json} {budget : Nat} {cs rest rest' : List Char}
    (read : readValue budget cs = some (j, ',' :: rest))
    (others : readItems budget rest = some (items, rest')) :
    readItems (budget + 1) cs = some (j :: items, rest') := by
  rw [readItems, read]
  simp only [bind, Option.bind, skipBlanks_cons (c := ',') (by decide), others]

/-- Items that are read back one by one are read back together. -/
theorem readItems_write {j : Json} {items : List Json} (back : ∀ i ∈ j :: items, ReadsBack i)
    (level budget : Nat) (rest : List Char)
    (enough : (j.write .compact (level + 1)).length + (writeItems .compact level items).length < budget) :
    readItems budget (j.write .compact (level + 1) ++ (writeItems .compact level items ++ rest)) =
      some (j :: items, rest) := by
  obtain ⟨b, rfl⟩ : ∃ b, budget = b + 1 := ⟨budget - 1, by omega⟩
  induction items generalizing j b with
  | nil =>
      rw [writeItems_nil, List.length_singleton] at enough
      have first := back j (List.mem_cons_self ..) (level + 1) b _
        (stopsNumber_writeItems level [] rest) (by omega)
      rw [writeItems_nil] at first ⊢
      exact readItems_last first
  | cons i items ih =>
      rw [writeItems_cons, List.length_cons, List.length_append] at enough
      obtain ⟨b, rfl⟩ : ∃ b', b = b' + 1 := ⟨b - 1, by omega⟩
      have first := back j (List.mem_cons_self ..) (level + 1) (b + 1) _
        (stopsNumber_writeItems level (i :: items) rest) (by omega)
      have others := ih (fun k hk => back k (List.mem_cons_of_mem _ hk)) b (by omega)
      rw [writeItems_cons, List.cons_append, List.append_assoc] at first ⊢
      exact readItems_more first others

theorem readMembers_last (name : Option String) {j : Json} {budget : Nat} {cs rest : List Char}
    (read : readValue budget cs = some (j, '\x7d' :: rest)) :
    readMembers (budget + 1) (writeString name ++ ':' :: cs) = some ([(name, j)], rest) := by
  obtain ⟨body, quoted, named⟩ := readString_writeString name (':' :: cs)
  rw [quoted, List.cons_append, readMembers, skipBlanks_cons (by decide)]
  simp only [bind, Option.bind, named, skipBlanks_cons (c := ':') (by decide), read]
  rfl

theorem readMembers_more (name : Option String) {j : Json} {members : List (Option String × Json)}
    {budget : Nat} {cs rest rest' : List Char} (read : readValue budget cs = some (j, ',' :: rest))
    (others : readMembers budget rest = some (members, rest')) :
    readMembers (budget + 1) (writeString name ++ ':' :: cs) = some ((name, j) :: members, rest') := by
  obtain ⟨body, quoted, named⟩ := readString_writeString name (':' :: cs)
  rw [quoted, List.cons_append, readMembers, skipBlanks_cons (by decide)]
  simp only [bind, Option.bind, named, skipBlanks_cons (c := ':') (by decide), read,
    skipBlanks_cons (c := ',') (by decide), others]

/-- Members whose values are read back one by one are read back together. -/
theorem readMembers_write {name : Option String} {j : Json} {members : List (Option String × Json)}
    (back : ∀ m ∈ (name, j) :: members, ReadsBack m.2) (level budget : Nat) (rest : List Char)
    (enough : (writeString name).length + (j.write .compact (level + 1)).length +
      (writeMembers .compact level members).length < budget) :
    readMembers budget (writeString name ++ ':' :: (j.write .compact (level + 1) ++
      (writeMembers .compact level members ++ rest))) = some ((name, j) :: members, rest) := by
  obtain ⟨b, rfl⟩ : ∃ b, budget = b + 1 := ⟨budget - 1, by omega⟩
  induction members generalizing name j b with
  | nil =>
      rw [writeMembers_nil, List.length_singleton] at enough
      have first := back (name, j) (List.mem_cons_self ..) (level + 1) b _
        (stopsNumber_writeMembers level [] rest) (by show (j.write _ _).length < b; omega)
      rw [writeMembers_nil] at first ⊢
      exact readMembers_last name first
  | cons m members ih =>
      obtain ⟨name', j'⟩ := m
      rw [writeMembers_cons, List.length_cons, List.length_append, List.length_cons, List.length_append]
        at enough
      obtain ⟨b, rfl⟩ : ∃ b', b = b' + 1 := ⟨b - 1, by omega⟩
      have first := back (name, j) (List.mem_cons_self ..) (level + 1) (b + 1) _
        (stopsNumber_writeMembers level ((name', j') :: members) rest)
        (by show (j.write _ _).length < b + 1; omega)
      have others := ih (fun k hk => back k (List.mem_cons_of_mem _ hk)) b (by omega)
      simp only [writeMembers_cons, List.cons_append, List.append_assoc] at first ⊢
      exact readMembers_more name first others

theorem Whole.readsBack {j : Json} (h : Whole j) : ReadsBack j := by
  induction h with
  | null =>
      intro level budget rest _ enough
      obtain ⟨b, rfl⟩ : ∃ b, budget = b + 1 := ⟨budget - 1, by omega⟩
      rfl
  | bool value =>
      intro level budget rest _ enough
      obtain ⟨b, rfl⟩ : ∃ b, budget = b + 1 := ⟨budget - 1, by omega⟩
      cases value <;> rfl
  | integer i =>
      intro level budget rest stops enough
      obtain ⟨b, rfl⟩ : ∃ b, budget = b + 1 := ⟨budget - 1, by omega⟩
      obtain ⟨c, cs, shape, numeral⟩ := exists_cons_signedDigits i
      have number := readNumber_signedDigits i stops
      rw [shape] at number
      show readValue (b + 1) (Text.signedDigits i ++ rest) = _
      rw [shape, List.cons_append, readValue_of_numeral numeral]
      exact number
  | string text =>
      intro level budget rest _ enough
      obtain ⟨b, rfl⟩ : ∃ b, budget = b + 1 := ⟨budget - 1, by omega⟩
      obtain ⟨body, quoted, read⟩ := readString_writeString text rest
      show readValue (b + 1) (writeString text ++ rest) = _
      rw [quoted, List.cons_append, readValue, skipBlanks_cons (by decide)]
      simp only [read, Option.map_some]
  | @array items whole ih =>
      intro level budget rest _ enough
      obtain ⟨b, rfl⟩ : ∃ b, budget = b + 1 := ⟨budget - 1, by omega⟩
      cases items with
      | nil => rfl
      | cons j items =>
          obtain ⟨c, cs, begins, blank, bracket⟩ :=
            exists_cons_write (whole j (List.mem_cons_self ..)) .compact (level + 1)
          rw [write_array_cons, List.length_cons, List.length_append] at enough
          have read := readItems_write ih level b rest (by omega)
          rw [write_array_cons, List.cons_append, readValue, skipBlanks_cons (by decide),
            List.append_assoc]
          rw [begins, List.cons_append] at read ⊢
          simp only [skipBlanks_cons blank]
          split
          · rename_i same
            exact absurd (List.cons.inj same).1 bracket
          · simp only [read, Option.map_some]
  | @object members whole ih =>
      intro level budget rest _ enough
      obtain ⟨b, rfl⟩ : ∃ b, budget = b + 1 := ⟨budget - 1, by omega⟩
      cases members with
      | nil => rfl
      | cons m members =>
          obtain ⟨name, j⟩ := m
          obtain ⟨body, quoted, _⟩ := readString_writeString name []
          rw [write_object_cons, List.length_cons, List.length_append, List.length_cons,
            List.length_append] at enough
          have read := readMembers_write ih level b rest (by omega)
          rw [write_object_cons, List.cons_append, readValue, skipBlanks_cons (by decide)]
          simp only [List.append_assoc, List.cons_append]
          rw [quoted, List.cons_append] at read ⊢
          simp only [skipBlanks_cons (c := '"') (by decide)]
          show (readMembers b _).map _ = _
          rw [read]
          rfl

/-! ## No controls -/

/-- A text without controls, so without any line break. -/
def Printable (cs : List Char) : Prop :=
  ∀ c ∈ cs, 32 ≤ c.toNat

/-- A given text can be looked through. -/
theorem printable_of_all {cs : List Char} (all : cs.all (fun c => 32 ≤ c.toNat) = true) : Printable cs := by
  intro c inside
  exact of_decide_eq_true (List.all_eq_true.mp all c inside)

theorem printable_nil : Printable [] := by
  simp [Printable]

theorem printable_cons {c : Char} {cs : List Char} :
    Printable (c :: cs) ↔ 32 ≤ c.toNat ∧ Printable cs := by
  simp [Printable]

theorem printable_append {cs ds : List Char} :
    Printable (cs ++ ds) ↔ Printable cs ∧ Printable ds := by
  simp [Printable, or_imp, forall_and]

theorem printable_hexDigit {d : Nat} (h : d < 16) : 32 ≤ (Text.hexDigit d).toNat := by
  have all : ∀ d < 16, 32 ≤ (Text.hexDigit d).toNat := by decide
  exact all d h

theorem printable_writeChar (c : Char) : Printable (writeChar c) := by
  unfold writeChar
  split
  case h_8 =>
    split
    case isTrue control =>
      have high := printable_hexDigit (by omega : c.toNat / 16 < 16)
      have low := printable_hexDigit (by omega : c.toNat % 16 < 16)
      simp only [printable_cons, high, low, printable_nil]
      decide
    case isFalse plain => exact printable_cons.mpr ⟨Nat.le_of_not_lt plain, printable_nil⟩
  all_goals exact printable_of_all rfl

theorem printable_writeString (text : Option String) : Printable (writeString text) := by
  cases text with
  | none => exact printable_of_all rfl
  | some s =>
      refine printable_append.mpr ⟨printable_cons.mpr ⟨by decide, fun c inside => ?_⟩, ?_⟩
      · obtain ⟨d, _, within⟩ := List.mem_flatMap.mp inside
        exact printable_writeChar d c within
      · exact printable_cons.mpr ⟨by decide, printable_nil⟩

theorem printable_signedDigits (i : Int) : Printable (Text.signedDigits i) := by
  have digits (n : Nat) : Printable (digits n) := by
    intro c inside
    have := Text.toNat_of_isDigit (Text.isDigit_of_mem_digits n c inside)
    omega
  cases i with
  | ofNat n => exact digits n
  | negSucc n => exact printable_cons.mpr ⟨by decide, digits (n + 1)⟩

theorem printable_writeItems {items : List Json} {level : Nat}
    (free : ∀ j ∈ items, Printable (j.write .compact (level + 1))) :
    Printable (writeItems .compact level items) := by
  induction items with
  | nil =>
      rw [writeItems_nil]
      exact printable_cons.mpr ⟨by decide, printable_nil⟩
  | cons j items ih =>
      obtain ⟨first, others⟩ := List.forall_mem_cons.mp free
      rw [writeItems_cons]
      exact printable_cons.mpr ⟨by decide, printable_append.mpr ⟨first, ih others⟩⟩

theorem printable_writeMembers {members : List (Option String × Json)} {level : Nat}
    (free : ∀ m ∈ members, Printable (m.2.write .compact (level + 1))) :
    Printable (writeMembers .compact level members) := by
  induction members with
  | nil =>
      rw [writeMembers_nil]
      exact printable_cons.mpr ⟨by decide, printable_nil⟩
  | cons m members ih =>
      obtain ⟨name, j⟩ := m
      obtain ⟨first, others⟩ := List.forall_mem_cons.mp free
      rw [writeMembers_cons]
      exact printable_cons.mpr ⟨by decide, printable_append.mpr ⟨printable_writeString name,
        printable_cons.mpr ⟨by decide, printable_append.mpr ⟨first, ih others⟩⟩⟩⟩

/-- A written value holds no control, so it is on one line. -/
theorem Whole.printable {j : Json} (h : Whole j) (level : Nat) :
    Printable (j.write .compact level) := by
  induction h generalizing level with
  | null => exact printable_of_all rfl
  | bool value => cases value <;> exact printable_of_all rfl
  | integer i => exact printable_signedDigits i
  | string text => exact printable_writeString text
  | @array items _ ih =>
      cases items with
      | nil => exact printable_of_all rfl
      | cons j items =>
          obtain ⟨first, others⟩ := List.forall_mem_cons.mp ih
          rw [write_array_cons]
          exact printable_cons.mpr ⟨by decide, printable_append.mpr ⟨first (level + 1),
            printable_writeItems fun k hk => others k hk (level + 1)⟩⟩
  | @object members _ ih =>
      cases members with
      | nil => exact printable_of_all rfl
      | cons m members =>
          obtain ⟨name, j⟩ := m
          obtain ⟨first, others⟩ := List.forall_mem_cons.mp ih
          rw [write_object_cons]
          exact printable_cons.mpr ⟨by decide, printable_append.mpr ⟨printable_writeString name,
            printable_cons.mpr ⟨by decide, printable_append.mpr ⟨first (level + 1),
              printable_writeMembers fun k hk => others k hk (level + 1)⟩⟩⟩⟩

end FlowGraph.Json
