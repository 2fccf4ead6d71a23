import FlowGraph.Text.Shortest

/-!
# Single-precision numbers

A number of the format binary32, kept as its thirty-two bits. Addition rounds to the nearest number,
ties to even. Equality is the one of the standard, not equality of bits: a NaN differs from itself and
the two zeros are equal.
-/

namespace FlowGraph

structure Single where
  bits : UInt32
deriving DecidableEq

namespace Single

def zero : Single :=
  ⟨0⟩

instance : Inhabited Single :=
  ⟨zero⟩

/-- The bits without the sign. -/
def magnitude (x : Single) : UInt32 :=
  x.bits &&& 0x7FFFFFFF

def isNegative (x : Single) : Bool :=
  x.bits != x.magnitude

def isNaN (x : Single) : Bool :=
  0x7F800000 < x.magnitude

def isInfinite (x : Single) : Bool :=
  x.magnitude == 0x7F800000

def isZero (x : Single) : Bool :=
  x.magnitude == 0

/-- Equality as the standard defines it. -/
def equal (x y : Single) : Bool :=
  !x.isNaN && !y.isNaN && (x.bits == y.bits || x.isZero && y.isZero)

/-- The sum, rounded to nearest, ties to even. -/
def add (x y : Single) : Single :=
  ⟨(Float32.ofBits x.bits + Float32.ofBits y.bits).toBits⟩

theorem equal_self {x : Single} : x.equal x = !x.isNaN := by
  simp [equal]

theorem equal_comm (x y : Single) : x.equal y = y.equal x := by
  simp only [equal, Bool.and_comm, Bool.beq_comm]

/-- The interval of reals that round to a finite number other than zero. The number below a power of
two is only half as far away as the one above, except at the bottom of the range. -/
def interval (x : Single) : Text.BinaryInterval :=
  let field := (x.magnitude >>> 23).toNat
  let fraction := (x.magnitude &&& 0x7FFFFF).toNat
  let mantissa := if field = 0 then fraction else fraction + 0x800000
  let exponent : Int := if field = 0 then -149 else (field : Int) - 150
  { low := if fraction = 0 ∧ 1 < field then 4 * mantissa - 1 else 4 * mantissa - 2
    value := 4 * mantissa
    high := 4 * mantissa + 2
    exponent := exponent - 2
    closed := mantissa % 2 == 0 }

/-- The bits of the least number that is written with an exponent for being large, `10 ^ 16`. -/
def largeBits : UInt32 := 0x5A0E1BCA

/-- The bits of the least positive number that is not written with an exponent for being small,
`10 ^ -4`. -/
def smallBits : UInt32 := 0x38D1B717

/-- The shortest text that reads back as the number. It always has a point or an exponent. -/
def text (x : Single) : String :=
  let sign := if x.isNegative then "-" else ""
  if x.isNaN then "NaN"
  else if x.isInfinite then sign ++ "inf"
  else if x.isZero then sign ++ "0.0"
  else
    match x.interval.shortest? 39 100 with
    | none => ""
    | some (n, place) =>
      let ds := Text.digits n
      let point := ds.length + place
      let body :=
        if x.magnitude < smallBits || largeBits ≤ x.magnitude then Text.exponential ds point
        else Text.positional ds point
      sign ++ String.ofList body

end Single

end FlowGraph
