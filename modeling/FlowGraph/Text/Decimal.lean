/-!
# Decimal numerals

Whole numbers are written in base ten without leading zeros. Reading is more lenient than writing: a
numeral may have leading zeros and one sign, so writing then reading gives the number back, while
reading then writing gives the numeral without its padding. Only the ASCII digits count as digits.
-/

namespace FlowGraph.Text

/-- The digit for a number below ten. -/
def digitChar (d : Nat) : Char :=
  Char.ofNat (48 + d)

/-- The value of an ASCII digit. -/
def digitValue? (c : Char) : Option Nat :=
  if '0' ≤ c ∧ c ≤ '9' then some (c.toNat - 48) else none

def isDigit (c : Char) : Bool :=
  (digitValue? c).isSome

/-- The base-ten digits of a number, most significant first; zero is one digit. -/
def digits (n : Nat) : List Char :=
  if n < 10 then [digitChar n] else digits (n / 10) ++ [digitChar (n % 10)]

/-- The number that a run of digits denotes, continuing from the digits already read. -/
def digitsValue (start : Nat) (cs : List Char) : Option Nat :=
  cs.foldlM (fun n c => (digitValue? c).map (10 * n + ·)) start

/-- Reads one or more digits and nothing else. -/
def natural? (cs : List Char) : Option Nat :=
  if cs.isEmpty then none else digitsValue 0 cs

/-- Reads one or more digits after an optional plus sign. -/
def unsigned? : List Char → Option Nat
  | '+' :: cs => natural? cs
  | cs => natural? cs

/-- Reads one or more digits after an optional sign. -/
def signed? : List Char → Option Int
  | '-' :: cs => (natural? cs).map fun n => -(n : Int)
  | '+' :: cs => (natural? cs).map Int.ofNat
  | cs => (natural? cs).map Int.ofNat

/-- The base-ten digits of an integer, after a minus sign when it is negative. -/
def signedDigits : Int → List Char
  | .ofNat n => digits n
  | .negSucc n => '-' :: digits (n + 1)

/-- The digits of a number, padded on the left with zeros to at least `width`. -/
def padded (width n : Nat) : List Char :=
  let ds := digits n
  List.replicate (width - ds.length) '0' ++ ds

/-- The text of a natural number. -/
def decimal (n : Nat) : String :=
  String.ofList (digits n)

/-- The text of an integer. -/
def signedDecimal (i : Int) : String :=
  String.ofList (signedDigits i)

/-- Reads a sign and digits whose number lies between the bounds. -/
def signedWithin? (low high : Int) (cs : List Char) : Option Int := do
  let i ← signed? cs
  if low ≤ i ∧ i ≤ high then some i else none

/-- Reads digits after an optional plus sign, if their number is at most the bound. -/
def unsignedWithin? (high : Nat) (cs : List Char) : Option Nat := do
  let n ← unsigned? cs
  if n ≤ high then some n else none

/-- The largest number of sixty-four bits. -/
def maxWord : Nat :=
  18446744073709551615

/-- Reads a sign and digits whose number has thirty-two bits in two's complement. -/
def int32? (cs : List Char) : Option Int32 :=
  (signedWithin? (-2147483648) 2147483647 cs).map Int32.ofInt

end FlowGraph.Text
