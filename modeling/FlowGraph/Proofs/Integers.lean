import Mathlib.Data.List.Induction
import Mathlib.Data.Nat.Digits.Defs
import FlowGraph.Proofs.Numerals
import FlowGraph.Catalogue.Basic

/-!
# Integers in texts

A text holds an integer if it is a numeral between blanks: at least one digit, with at most one sign in front.
What the digits denote is said by their places, without reading them from the left. The reader of integers of
32 bits finds an integer in exactly those texts that hold one of these, and it finds this one. So every integer
of 32 bits is found in its decimal text, whatever zeros stand in front of its digits and whatever blanks
surround it.
-/

namespace FlowGraph.Text

/-! ## Blanks on both sides -/

/-- What is left of a text without the blanks at its ends. -/
structure Stripped (cs core : List Char) : Prop where
  between : ∃ front back, cs = front ++ core ++ back ∧ (∀ c ∈ front, isBlank c = true) ∧
    ∀ c ∈ back, isBlank c = true
  head : ∀ c ∈ core.head?, isBlank c = false
  last : ∀ c ∈ core.getLast?, isBlank c = false

/-- The blanks in front are dropped if something else follows them. -/
theorem dropWhile_isBlank {front rest : List Char} (blank : ∀ c ∈ front, isBlank c = true)
    (stops : ∀ c ∈ rest.head?, isBlank c = false) : (front ++ rest).dropWhile isBlank = rest := by
  rw [List.dropWhile_append_of_pos blank]
  cases rest with
  | nil => rfl
  | cons c rest => rw [List.dropWhile_cons_of_neg (by simp [stops c rfl])]

theorem Stripped.trim_eq {cs core : List Char} (h : Stripped cs core) : trim cs = core := by
  obtain ⟨front, back, rfl, blankFront, blankBack⟩ := h.between
  cases core with
  | nil =>
      have blank : ∀ c ∈ front ++ back, isBlank c = true := List.forall_mem_append.mpr ⟨blankFront, blankBack⟩
      have nothing : (front ++ back).dropWhile isBlank = [] := by
        rw [← List.append_nil (front ++ back), dropWhile_isBlank blank (by simp)]
      rw [trim, trimStart, List.append_nil, nothing]
      rfl
  | cons c core =>
      have start : (front ++ (c :: core ++ back)).dropWhile isBlank = c :: core ++ back :=
        dropWhile_isBlank blankFront h.head
      have ends : (back.reverse ++ (c :: core).reverse).dropWhile isBlank = (c :: core).reverse :=
        dropWhile_isBlank (by simpa using blankBack) (by rw [List.head?_reverse]; exact h.last)
      rw [trim, trimStart, List.append_assoc, start, trimEnd, List.reverse_append, ends, List.reverse_reverse]

/-- Trimming at the end takes blanks off the end. -/
theorem exists_trimEnd_append (cs : List Char) :
    ∃ back, trimEnd cs ++ back = cs ∧ ∀ c ∈ back, isBlank c = true := by
  refine ⟨(cs.reverse.takeWhile isBlank).reverse, ?_, fun c taken => ?_⟩
  · rw [trimEnd, ← List.reverse_append, List.takeWhile_append_dropWhile, List.reverse_reverse]
  · exact List.all_eq_true.mp List.all_takeWhile c (List.mem_reverse.mp taken)

theorem stripped_trim (cs : List Char) : Stripped cs (trim cs) := by
  obtain ⟨back, whole, blank⟩ := exists_trimEnd_append (trimStart cs)
  refine ⟨⟨cs.takeWhile isBlank, back, ?_, List.all_eq_true.mp List.all_takeWhile, blank⟩, fun c first => ?_,
    fun c last => ?_⟩
  · rw [List.append_assoc, trim, whole, trimStart, List.takeWhile_append_dropWhile]
  · have apart := List.head?_dropWhile_not isBlank cs
    have first' : (trimStart cs).head? = some c := by
      rw [← whole, List.head?_append, ← trim, first]
      rfl
    rw [← trimStart, first'] at apart
    simpa using apart
  · have apart := List.head?_dropWhile_not isBlank (trimStart cs).reverse
    rw [trim, trimEnd, List.getLast?_reverse] at last
    rw [last] at apart
    simpa using apart

/-! ## What numerals denote -/

/-- At least one digit, and digits only. -/
structure IsDigits (ds : List Char) : Prop where
  nonempty : ds ≠ []
  digits : ∀ c ∈ ds, '0' ≤ c ∧ c ≤ '9'

/-- The number that some digits denote in base ten, the last one being that of the ones. -/
def baseTen (ds : List Char) : Nat :=
  Nat.ofDigits 10 (ds.reverse.map fun c => c.toNat - '0'.toNat)

/-- The numerals of integers: digits, with at most one sign in front. -/
inductive Numeral : List Char → Int → Prop where
  | bare {ds} (digits : IsDigits ds) : Numeral ds (baseTen ds)
  | plus {ds} (digits : IsDigits ds) : Numeral ('+' :: ds) (baseTen ds)
  | minus {ds} (digits : IsDigits ds) : Numeral ('-' :: ds) (-(baseTen ds : Int))

theorem baseTen_snoc (ds : List Char) (c : Char) :
    baseTen (ds ++ [c]) = 10 * baseTen ds + (c.toNat - '0'.toNat) := by
  rw [baseTen, List.reverse_append, List.reverse_singleton, List.singleton_append, List.map_cons,
    Nat.ofDigits_cons, Nat.add_comm]
  rfl

theorem digitValue?_eq_some_iff {c : Char} {d : Nat} :
    digitValue? c = some d ↔ ('0' ≤ c ∧ c ≤ '9') ∧ c.toNat - '0'.toNat = d := by
  rw [digitValue?]
  split
  next within => simp [within]
  next beyond => simp [beyond]

/-- Digits are taken for what their places say, and nothing else is taken for digits. -/
theorem digitsValue_eq_some_iff {ds : List Char} {n : Nat} :
    digitsValue 0 ds = some n ↔ (∀ c ∈ ds, '0' ≤ c ∧ c ≤ '9') ∧ baseTen ds = n := by
  induction ds using List.reverseRecOn generalizing n with
  | nil => simp [digitsValue, baseTen]
  | append_singleton ds c ih =>
      have last (front : Nat) : digitsValue front [c] = (digitValue? c).map (10 * front + ·) := by
        simp [digitsValue]
      rw [digitsValue_append, baseTen_snoc, List.forall_mem_append, List.forall_mem_singleton,
        Option.bind_eq_some_iff]
      constructor
      · rintro ⟨front, found, whole⟩
        obtain ⟨digits, rfl⟩ := ih.mp found
        rw [last, Option.map_eq_some_iff] at whole
        obtain ⟨d, digit, rfl⟩ := whole
        obtain ⟨within, rfl⟩ := digitValue?_eq_some_iff.mp digit
        exact ⟨⟨digits, within⟩, rfl⟩
      · rintro ⟨⟨digits, within⟩, rfl⟩
        refine ⟨baseTen ds, ih.mpr ⟨digits, rfl⟩, ?_⟩
        rw [last, digitValue?_eq_some_iff.mpr ⟨within, rfl⟩]
        rfl

theorem natural?_eq_some_iff {ds : List Char} {n : Nat} :
    natural? ds = some n ↔ IsDigits ds ∧ baseTen ds = n := by
  rw [natural?]
  split
  next nothing =>
    refine iff_of_false (by simp) fun h => ?_
    exact h.1.nonempty (List.isEmpty_iff.mp nothing)
  next something =>
    have nonempty : ds ≠ [] := fun nothing => something (List.isEmpty_iff.mpr nothing)
    rw [digitsValue_eq_some_iff]
    exact and_congr_left' ⟨fun digits => ⟨nonempty, digits⟩, IsDigits.digits⟩

theorem map_natural?_eq_some_iff {ds : List Char} {f : Nat → Int} {i : Int} :
    (natural? ds).map f = some i ↔ IsDigits ds ∧ f (baseTen ds) = i := by
  rw [Option.map_eq_some_iff]
  constructor
  · rintro ⟨n, number, rfl⟩
    obtain ⟨digits, rfl⟩ := natural?_eq_some_iff.mp number
    exact ⟨digits, rfl⟩
  · rintro ⟨digits, rfl⟩
    exact ⟨_, natural?_eq_some_iff.mpr ⟨digits, rfl⟩, rfl⟩

theorem signed?_minus (ds : List Char) : signed? ('-' :: ds) = (natural? ds).map fun n : Nat => -(n : Int) := by
  rw [signed?]
  cases natural? ds <;> rfl

theorem signed?_plus (ds : List Char) : signed? ('+' :: ds) = (natural? ds).map Int.ofNat :=
  rfl

theorem signed?_unsigned {ds : List Char} (unsigned : ∀ c ∈ ds.head?, c ≠ '-' ∧ c ≠ '+') :
    signed? ds = (natural? ds).map Int.ofNat := by
  unfold signed?
  split
  next => exact absurd rfl (unsigned '-' rfl).1
  next => exact absurd rfl (unsigned '+' rfl).2
  next => rfl

theorem IsDigits.unsigned {ds : List Char} (h : IsDigits ds) : ∀ c ∈ ds.head?, c ≠ '-' ∧ c ≠ '+' := by
  intro c first
  have within := h.digits c (List.mem_of_mem_head? first)
  constructor <;> rintro rfl <;> exact absurd within (by decide)

/-- Reading digits after an optional sign finds what the numeral denotes. -/
theorem signed?_eq_some_iff {cs : List Char} {i : Int} : signed? cs = some i ↔ Numeral cs i := by
  constructor
  · intro found
    by_cases minus : ∃ ds, cs = '-' :: ds
    · obtain ⟨ds, rfl⟩ := minus
      rw [signed?_minus, map_natural?_eq_some_iff] at found
      obtain ⟨digits, rfl⟩ := found
      exact .minus digits
    by_cases plus : ∃ ds, cs = '+' :: ds
    · obtain ⟨ds, rfl⟩ := plus
      rw [signed?_plus, map_natural?_eq_some_iff] at found
      obtain ⟨digits, rfl⟩ := found
      exact .plus digits
    · have unsigned : ∀ c ∈ cs.head?, c ≠ '-' ∧ c ≠ '+' := by
        intro c first
        obtain ⟨ds, rfl⟩ := List.head?_eq_some_iff.mp first
        exact ⟨fun same => minus ⟨ds, same ▸ rfl⟩, fun same => plus ⟨ds, same ▸ rfl⟩⟩
      rw [signed?_unsigned unsigned, map_natural?_eq_some_iff] at found
      obtain ⟨digits, rfl⟩ := found
      exact .bare digits
  · intro numeral
    cases numeral with
    | bare digits =>
        rw [signed?_unsigned digits.unsigned]
        exact map_natural?_eq_some_iff.mpr ⟨digits, rfl⟩
    | plus digits =>
        rw [signed?_plus]
        exact map_natural?_eq_some_iff.mpr ⟨digits, rfl⟩
    | minus digits =>
        rw [signed?_minus]
        exact map_natural?_eq_some_iff.mpr ⟨digits, rfl⟩

/-- The reader of integers of 32 bits reads the numerals that denote one. -/
theorem int32?_eq_some_iff {cs : List Char} {v : Int32} : int32? cs = some v ↔ Numeral cs v.toInt := by
  rw [int32?, ← signed?_eq_some_iff, Option.map_eq_some_iff]
  constructor
  · rintro ⟨i, within, rfl⟩
    obtain ⟨j, found, bounded⟩ := Option.bind_eq_some_iff.mp within
    obtain ⟨⟨low, high⟩, rfl⟩ : (-2147483648 ≤ j ∧ j ≤ 2147483647) ∧ j = i := by simpa using bounded
    rw [found, Int32.toInt_ofInt_of_le low (by omega)]
  · intro found
    have low : (-2147483648 : Int) ≤ v.toInt := v.le_toInt
    have high : v.toInt ≤ 2147483647 := Int.le_of_lt_add_one v.toInt_lt
    refine ⟨v.toInt, ?_, Int32.ofInt_toInt v⟩
    rw [signedWithin?, found, Option.bind_eq_bind, Option.bind_some, if_pos ⟨low, high⟩]

/-! ## Texts that hold integers -/

/-- A text holds an integer: without the blanks at its ends it is a numeral of this integer. -/
def Holds (text : String) (i : Int) : Prop :=
  ∃ core, Stripped text.toList core ∧ Numeral core i

theorem IsDigits.isBlank_eq_false {ds : List Char} (h : IsDigits ds) : ∀ c ∈ ds, isBlank c = false := by
  intro c inside
  have digit : isDigit c = true := by
    rw [isDigit, digitValue?_eq_some_iff.mpr ⟨h.digits c inside, rfl⟩]
    rfl
  exact isBlank_of_isDigit digit

/-- No blank is part of a numeral. -/
theorem Numeral.isBlank_eq_false {cs : List Char} {i : Int} (h : Numeral cs i) : ∀ c ∈ cs, isBlank c = false := by
  cases h with
  | bare digits => exact digits.isBlank_eq_false
  | plus digits | minus digits => exact List.forall_mem_cons.mpr ⟨by decide, digits.isBlank_eq_false⟩

/-- A numeral between blanks is what the text is without the blanks at its ends. -/
theorem Numeral.holds {core : List Char} {i : Int} (h : Numeral core i) {front back : List Char}
    (blankFront : ∀ c ∈ front, isBlank c = true) (blankBack : ∀ c ∈ back, isBlank c = true) :
    Holds (String.ofList (front ++ core ++ back)) i := by
  refine ⟨core, ⟨⟨front, back, String.toList_ofList, blankFront, blankBack⟩, fun c first => ?_, fun c last => ?_⟩, h⟩
  · exact h.isBlank_eq_false c (List.mem_of_mem_head? first)
  · exact h.isBlank_eq_false c (List.mem_of_mem_getLast? last)

/-- A text holds at most one integer. -/
theorem Holds.unique {text : String} {i j : Int} (h : Holds text i) (h' : Holds text j) : i = j := by
  obtain ⟨core, stripped, numeral⟩ := h
  obtain ⟨core', stripped', numeral'⟩ := h'
  obtain rfl := stripped.trim_eq.symm.trans stripped'.trim_eq
  exact Option.some.inj ((signed?_eq_some_iff.mpr numeral).symm.trans (signed?_eq_some_iff.mpr numeral'))

/-- What is found in a text is the integer of 32 bits that it holds. -/
theorem catalogue_int32?_eq_some_iff {text : String} {v : Int32} :
    CatalogueNode.int32? text = some v ↔ Holds text v.toInt := by
  rw [CatalogueNode.int32?, int32?_eq_some_iff]
  exact ⟨fun numeral => ⟨_, stripped_trim _, numeral⟩, fun ⟨_, stripped, numeral⟩ => stripped.trim_eq ▸ numeral⟩

/-! ## Decimal texts -/

/-- The digits of an integer after a minus sign if it is negative, with zeros in front of them up to a given
number of places. -/
def paddedInteger (width : Nat) (i : Int) : List Char :=
  if i < 0 then '-' :: padded width i.natAbs else padded width i.natAbs

theorem isDigits_padded (width n : Nat) : IsDigits (padded width n) ∧ baseTen (padded width n) = n :=
  natural?_eq_some_iff.mp (natural?_padded width n)

theorem numeral_paddedInteger (width : Nat) (i : Int) : Numeral (paddedInteger width i) i := by
  obtain ⟨digits, value⟩ := isDigits_padded width i.natAbs
  rw [paddedInteger]
  split
  next negative =>
    have numeral := Numeral.minus digits
    rwa [value, show -(i.natAbs : Int) = i by omega] at numeral
  next =>
    have numeral := Numeral.bare digits
    rwa [value, show (i.natAbs : Int) = i by omega] at numeral

end FlowGraph.Text
