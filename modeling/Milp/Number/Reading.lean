import Milp.Number.Layout
import Milp.Text.Numeral

/-!
# Reading numbers

A number in a text: blanks around it are dropped, digits of any script count, a single underscore
may stand between two digits, and infinities and the undefined number have names.
-/

namespace Milp.Decimal

open Milp.Text

/-- An unsigned decimal: its digits as one whole number, to be multiplied by a power of ten. -/
structure Scanned where
  significand : Nat
  exponent : Int
  deriving Repr

/-- The value of a run of digits, with the number of digits and what follows. Underscores are
skipped where a digit stands on either side. -/
def scanDigits : (value count : Nat) → List Char → Nat × Nat × List Char
  | value, count, '_' :: c :: rest =>
    match (if count = 0 then none else digit? c) with
    | some d => scanDigits (value * 10 + d) (count + 1) rest
    | none => (value, count, '_' :: c :: rest)
  | value, count, c :: rest =>
    match digit? c with
    | some d => scanDigits (value * 10 + d) (count + 1) rest
    | none => (value, count, c :: rest)
  | value, count, [] => (value, count, [])

/-- A sign, read off the front. -/
def scanSign : List Char → Bool × List Char
  | '-' :: rest => (true, rest)
  | '+' :: rest => (false, rest)
  | rest => (false, rest)

/-- The exponent that ends a decimal: nothing at all, or a mark with a signed whole number. -/
def scanExponent : List Char → Option Int
  | [] => some 0
  | c :: rest =>
    if c = 'e' || c = 'E' then
      let (negative, rest) := scanSign rest
      match scanDigits 0 0 rest with
      | (n, count, []) => if count = 0 then none else some (if negative then -(n : Int) else n)
      | _ => none
    else none

/-- An unsigned decimal that fills the text. -/
def scanUnsigned (cs : List Char) : Option Scanned :=
  let (whole, wholeCount, rest) := scanDigits 0 0 cs
  let (value, places, count, rest) :=
    match rest with
    | '.' :: rest =>
      let (fraction, places, rest) := scanDigits 0 0 rest
      (whole * Nat.pow 10 places + fraction, places, wholeCount + places, rest)
    | _ => (whole, 0, wholeCount, rest)
  if count = 0 then none
  else (scanExponent rest).map fun e => ⟨value, e - places⟩

/-- The double nearest to a decimal; infinite when it is out of range. -/
def Scanned.toFloat (s : Scanned) : Float :=
  if s.significand = 0 then 0
  else
    let point := s.exponent + (digitsOf s.significand).length
    if 400 < point then Binary64.infinity
    else if point < -400 then 0
    else
      let (n, d) := shift s.significand 1 s.exponent
      match BinaryFormat.double.nearest? n d with
      | some (m, e) => Binary64.assemble false m e
      | none => Binary64.infinity

def named? (cs : List Char) : Option Float :=
  let word := String.ofList (cs.map Char.toLower)
  if word = "inf" || word = "infinity" then some Binary64.infinity
  else if word = "nan" then some Binary64.notANumber
  else none

/-- The double that a text denotes. -/
def read? (s : String) : Option Float :=
  let (negative, cs) := scanSign (trimBlanks s.toList)
  match named? cs with
  | some x => some (if negative then -x else x)
  | none => (scanUnsigned cs).map fun d => if negative then -d.toFloat else d.toFloat

/-- The whole number that a text denotes. -/
def readWhole? (s : String) : Option Int :=
  let (negative, cs) := scanSign (trimBlanks s.toList)
  match scanDigits 0 0 cs with
  | (n, count, []) => if count = 0 then none else some (if negative then -(n : Int) else n)
  | _ => none

end Milp.Decimal
