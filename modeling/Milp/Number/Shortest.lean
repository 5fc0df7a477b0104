import Milp.Number.Binary

/-!
# Shortest decimals

The shortest decimal that reads back as a given floating point number, and of those the one nearest
to it. A number of a binary format stands for the interval of reals that round to it; for one digit
after another the two neighbours of the number on that decimal grid are tried, and the first grid
with a point in the interval wins.
-/

namespace Milp.Decimal

/-- A positive decimal number `0.d₁d₂… · 10^point`. -/
structure Digits where
  digits : List Nat
  point : Int
  deriving Repr, DecidableEq

/-- The decimal digits of a whole number, leading digit first. -/
def digitsOf (n : Nat) : List Nat :=
  (Nat.toDigits 10 n).map fun c => c.toNat - '0'.toNat

/-- Numerator and denominator of `n / d · 10^k`. -/
def shift (n d : Nat) (k : Int) : Nat × Nat :=
  match k with
  | .ofNat k => (n * Nat.pow 10 k, d)
  | .negSucc k => (n, d * Nat.pow 10 (k + 1))

/-- The `p` with `10^(p-1) ≤ n / d < 10^p`, for a positive quotient. -/
def magnitude (n d : Nat) : Int :=
  if d ≤ n then ((digitsOf (n / d)).length : Int)
  else
    -- `10^k ≤ d / n < 10^(k+1)`, so the quotient is at most `10^-k`
    let k : Int := (digitsOf (d / n)).length - 1
    let (a, b) := shift n d k
    if b ≤ a then 1 - k else -k

/-- The interval of reals that round to a number: its ends over a common denominator, and whether
the ends belong to it. -/
structure Interval where
  low : Nat
  value : Nat
  high : Nat
  den : Nat
  closed : Bool
  deriving Repr

/-- The reals that round to `m · 2^e` in a format. -/
def Interval.around (f : BinaryFormat) (m : Nat) (e : Int) : Interval :=
  -- in quarters of the unit; below a power of two the grid is twice as fine
  let low := if m = 1 <<< (f.precision - 1) ∧ f.leastExponent < e then 4 * m - 1 else 4 * m - 2
  let closed := m % 2 == 0
  match e with
  | .ofNat k => ⟨low <<< k, (4 * m) <<< k, (4 * m + 2) <<< k, 4, closed⟩
  | .negSucc k => ⟨low, 4 * m, 4 * m + 2, 4 <<< (k + 1), closed⟩

/-- The grid point `g / 10^k` lies in the interval. -/
def Interval.holds (i : Interval) (g : Nat) (k : Int) : Bool :=
  let (a, b) := shift g 1 (-k)
  let here := a * i.den
  if i.closed then i.low * b ≤ here && here ≤ i.high * b
  else i.low * b < here && here < i.high * b

/-- The grid point with at most `count` digits that stands for the interval, if there is one. -/
def Interval.point? (i : Interval) (point : Int) (count : Nat) : Option Nat :=
  let k : Int := count - point
  let (a, b) := shift i.value i.den k
  let below := a / b
  match i.holds below k && below != 0, i.holds (below + 1) k with
  | true, true =>
    let twice := 2 * (a % b)
    some (if twice < b then below else if b < twice then below + 1 else below + below % 2)
  | true, false => some below
  | false, true => some (below + 1)
  | false, false => none

/-- The digits for the first grid that serves, from `count` digits on. -/
def search (i : Interval) (point : Int) : (fuel count : Nat) → Digits
  | 0, count =>
    let (a, b) := shift i.value i.den (count - point)
    ⟨digitsOf (a / b), point⟩
  | fuel + 1, count =>
    match i.point? point count with
    | some g =>
      let ds := digitsOf g
      -- rounding up to a power of ten lengthens the number by one digit
      ⟨if count < ds.length then ds.take count else ds,
        if count < ds.length then point + 1 else point⟩
    | none => search i point fuel (count + 1)

/-- The shortest digits that read back as the positive number `m · 2^e` of the format; seventeen
always suffice. -/
def shortest (f : BinaryFormat) (m : Nat) (e : Int) : Digits :=
  let i := Interval.around f m e
  search i (magnitude i.value i.den) 17 1

end Milp.Decimal
