import FlowGraph.Text.Blank
import FlowGraph.Text.Decimal

/-!
# Numerals are read back

A numeral is a run of digits, and only digits. So a reader that takes digits as long as there are any
takes exactly a numeral, whatever comes after it unless that begins with a digit. What it denotes does
not depend on zeros in front, and how long it is depends on the number only.
-/

namespace FlowGraph.Text

/-! ## Digits -/

theorem digitValue?_digitChar {d : Nat} (h : d < 10) : digitValue? (digitChar d) = some d := by
  have small : ∀ d < 10, digitValue? (digitChar d) = some d := by decide
  exact small d h

theorem isDigit_digitChar {d : Nat} (h : d < 10) : isDigit (digitChar d) = true := by
  rw [isDigit, digitValue?_digitChar h]
  rfl

/-- The digits are the characters from U+0030 to U+0039. -/
theorem toNat_of_isDigit {c : Char} (h : isDigit c = true) : 48 ≤ c.toNat ∧ c.toNat ≤ 57 := by
  unfold isDigit digitValue? at h
  split at h
  · rename_i between
    exact ⟨between.1, between.2⟩
  · cases h

theorem ne_of_isDigit {c d : Char} (h : isDigit c = true) (outside : d.toNat < 48 ∨ 57 < d.toNat) :
    c ≠ d := by
  rintro rfl
  have := toNat_of_isDigit h
  omega

/-- No digit is a blank. -/
theorem isBlank_of_isDigit {c : Char} (h : isDigit c = true) : isBlank c = false := by
  have bounds := toNat_of_isDigit h
  rw [Bool.eq_false_iff]
  intro blank
  obtain ⟨⟨low, high⟩, range, above, below⟩ := CodePoints.contains_iff.mp blank
  simp only [blanks, List.mem_cons, List.not_mem_nil, or_false, Prod.mk.injEq] at range
  simp only at above below
  omega

/-- A text that does not go on with a digit. -/
def StopsDigits (rest : List Char) : Prop :=
  ∀ c ∈ rest.head?, isDigit c = false

@[simp] theorem stopsDigits_nil : StopsDigits [] := by
  simp [StopsDigits]

@[simp] theorem stopsDigits_cons {c : Char} {rest : List Char} :
    StopsDigits (c :: rest) ↔ isDigit c = false := by
  simp [StopsDigits]

theorem StopsDigits.takeWhile_eq {rest : List Char} (stops : StopsDigits rest) :
    rest.takeWhile isDigit = [] := by
  cases rest with
  | nil => rfl
  | cons c rest => simp [stopsDigits_cons.mp stops]

theorem StopsDigits.dropWhile_eq {rest : List Char} (stops : StopsDigits rest) :
    rest.dropWhile isDigit = rest := by
  cases rest with
  | nil => rfl
  | cons c rest => simp [stopsDigits_cons.mp stops]

/-- All digits in front are taken if they end there. -/
theorem takeWhile_isDigit {ds rest : List Char} (all : ∀ c ∈ ds, isDigit c = true)
    (stops : StopsDigits rest) : (ds ++ rest).takeWhile isDigit = ds := by
  rw [List.takeWhile_append_of_pos all, stops.takeWhile_eq, List.append_nil]

theorem dropWhile_isDigit {ds rest : List Char} (all : ∀ c ∈ ds, isDigit c = true)
    (stops : StopsDigits rest) : (ds ++ rest).dropWhile isDigit = rest := by
  rw [List.dropWhile_append_of_pos all, stops.dropWhile_eq]

/-! ## Numerals without padding -/

theorem digits_of_lt {n : Nat} (h : n < 10) : digits n = [digitChar n] := by
  rw [digits, if_pos h]

theorem digits_of_le {n : Nat} (h : 10 ≤ n) :
    digits n = digits (n / 10) ++ [digitChar (n % 10)] := by
  rw [digits, if_neg (by omega)]

theorem isDigit_of_mem_digits (n : Nat) : ∀ c ∈ digits n, isDigit c = true := by
  induction n using digits.induct with
  | case1 n small =>
      rw [digits_of_lt small]
      simpa using isDigit_digitChar small
  | case2 n large ih =>
      rw [digits_of_le (by omega)]
      intro c hc
      rcases List.mem_append.mp hc with front | last
      · exact ih c front
      · rw [List.mem_singleton.mp last]
        exact isDigit_digitChar (Nat.mod_lt _ (by decide))

theorem digits_ne_nil (n : Nat) : digits n ≠ [] := by
  rw [digits]
  split <;> simp

/-- A numeral begins with a zero only if it is that of zero. -/
theorem head?_digits_eq_zero {n : Nat} (h : (digits n).head? = some '0') : n = 0 := by
  induction n using digits.induct with
  | case1 n small =>
      rw [digits_of_lt small] at h
      have zero : ∀ d < 10, [digitChar d].head? = some '0' → d = 0 := by decide
      exact zero n small h
  | case2 n large ih =>
      obtain ⟨c, rest, front⟩ := List.exists_cons_of_ne_nil (digits_ne_nil (n / 10))
      rw [digits_of_le (by omega), front] at h
      have zero : n / 10 = 0 := ih (by rw [front]; exact h)
      omega

theorem digitsValue_append (start : Nat) (front back : List Char) :
    digitsValue start (front ++ back) = (digitsValue start front).bind (digitsValue · back) := by
  simp only [digitsValue, List.foldlM_append]
  rfl

theorem digitsValue_digits (n : Nat) : digitsValue 0 (digits n) = some n := by
  induction n using digits.induct with
  | case1 n small =>
      rw [digits_of_lt small]
      simp [digitsValue, digitValue?_digitChar small]
  | case2 n large ih =>
      have last : n % 10 < 10 := Nat.mod_lt _ (by decide)
      rw [digits_of_le (by omega), digitsValue_append, ih]
      simp only [Option.bind_some, digitsValue, List.foldlM_cons, List.foldlM_nil,
        digitValue?_digitChar last, Option.map_some]
      show some (10 * (n / 10) + n % 10) = some n
      rw [Nat.div_add_mod]

@[simp] theorem natural?_digits (n : Nat) : natural? (digits n) = some n := by
  simp [natural?, digits_ne_nil, digitsValue_digits]

/-- A number below a power of ten has at most as many digits as the power has zeros. -/
theorem length_digits_le {width n : Nat} (positive : 0 < width) (h : n < Nat.pow 10 width) :
    (digits n).length ≤ width := by
  induction n using digits.induct generalizing width with
  | case1 n small =>
      rw [digits_of_lt small]
      exact positive
  | case2 n large ih =>
      obtain ⟨w, rfl⟩ : ∃ w, width = w + 1 := ⟨width - 1, by omega⟩
      have shorter : n / 10 < Nat.pow 10 w := by
        rw [Nat.div_lt_iff_lt_mul (by decide)]
        exact h
      have more : 0 < w := by
        rcases Nat.eq_zero_or_pos w with rfl | more
        · have single : n < 10 := h
          omega
        · exact more
      rw [digits_of_le (by omega), List.length_append, List.length_singleton]
      exact Nat.succ_le_succ (ih more shorter)

/-! ## Padded numerals -/

theorem isDigit_of_mem_padded (width n : Nat) : ∀ c ∈ padded width n, isDigit c = true := by
  intro c hc
  rcases List.mem_append.mp hc with zero | digit
  · rw [List.eq_of_mem_replicate zero]
    rfl
  · exact isDigit_of_mem_digits n c digit

theorem padded_ne_nil (width n : Nat) : padded width n ≠ [] := by
  simp [padded, digits_ne_nil]

/-- A number that is not too large fills exactly the places it is padded to. -/
theorem length_padded {width n : Nat} (positive : 0 < width) (h : n < Nat.pow 10 width) :
    (padded width n).length = width := by
  have short := length_digits_le positive h
  simp only [padded, List.length_append, List.length_replicate]
  omega

theorem digitsValue_zeros (count : Nat) : digitsValue 0 (List.replicate count '0') = some 0 := by
  induction count with
  | zero => rfl
  | succ count ih =>
      rw [List.replicate_succ]
      exact ih

@[simp] theorem natural?_padded (width n : Nat) : natural? (padded width n) = some n := by
  have value : digitsValue 0 (padded width n) = some n := by
    rw [padded, digitsValue_append, digitsValue_zeros]
    exact digitsValue_digits n
  simp [natural?, padded_ne_nil, value]

end FlowGraph.Text
