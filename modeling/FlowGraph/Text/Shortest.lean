import FlowGraph.Text.Decimal

/-!
# The shortest decimal

A binary fraction is written with the fewest decimal digits that still read back as the same binary
number, and among those with the digits nearest to it, a tie going upwards. The search walks the
decimal grids from the coarsest down. On each grid only the two neighbours of the number need looking
at: if any point of the grid reads back, one of them does.
-/

namespace FlowGraph.Text

/-- A positive number `value * 2 ^ exponent` with the ends of the interval of reals that round to it,
all three in the same unit; `closed` tells whether the ends themselves round to it. -/
structure BinaryInterval where
  low : Nat
  value : Nat
  high : Nat
  exponent : Int
  closed : Bool

namespace BinaryInterval

/-- The factors that bring the interval's unit and the grid `10 ^ place` to a common unit: the first
multiplies numbers of the interval, the second numbers of the grid. -/
def scales (b : BinaryInterval) (place : Int) : Nat × Nat :=
  (Nat.pow 2 b.exponent.toNat * Nat.pow 10 (-place).toNat,
    Nat.pow 2 (-b.exponent).toNat * Nat.pow 10 place.toNat)

/-- Whether `n * 10 ^ place` lies in the interval. -/
def holds (b : BinaryInterval) (place : Int) (n : Nat) : Bool :=
  let (unit, grid) := b.scales place
  if b.closed then b.low * unit ≤ n * grid && n * grid ≤ b.high * unit
  else b.low * unit < n * grid && n * grid < b.high * unit

/-- The point of the grid `10 ^ place` in the interval that is nearest to the value, if there is one. -/
def nearestOn? (b : BinaryInterval) (place : Int) : Option Nat :=
  let (unit, grid) := b.scales place
  let below := b.value * unit / grid
  let above := below + 1
  match b.holds place below, b.holds place above with
  | true, true =>
    if b.value * unit - below * grid < above * grid - b.value * unit then some below else some above
  | true, false => some below
  | false, true => some above
  | false, false => none

/-- The digits and the place of the last one, on the coarsest of the grids `10 ^ top`,
`10 ^ (top - 1)`, … that has a point in the interval. -/
def shortest? (b : BinaryInterval) (top : Int) (grids : Nat) : Option (Nat × Int) :=
  (List.range grids).findSome? fun (i : Nat) =>
    let place := top - i
    (b.nearestOn? place).map fun n => (n, place)

end BinaryInterval

/-- Digits with the point `point` places after the first of them, as a positional numeral with at
least one digit on each side of the point. -/
def positional (ds : List Char) (point : Int) : List Char :=
  if point ≤ 0 then ['0', '.'] ++ List.replicate (-point).toNat '0' ++ ds
  else if ds.length ≤ point.toNat then ds ++ List.replicate (point.toNat - ds.length) '0' ++ ['.', '0']
  else ds.take point.toNat ++ '.' :: ds.drop point.toNat

/-- Digits with the point after the first of them, followed by the exponent that `point` implies. -/
def exponential (ds : List Char) (point : Int) : List Char :=
  let mantissa :=
    match ds with
    | d :: r :: rest => d :: '.' :: r :: rest
    | ds => ds
  mantissa ++ 'e' :: signedDigits (point - 1)

end FlowGraph.Text
