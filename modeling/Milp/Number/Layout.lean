import Milp.Number.Shortest

/-!
# Decimal notation

How the digits of a number are laid out: positionally while the exponent is moderate, and with a
signed exponent otherwise.
-/

namespace Milp.Decimal

/-- A way of writing numbers. The exponent is that of the leading digit: `lowest` to `highest` are
written positionally. -/
structure Layout where
  lowest : Int
  highest : Int
  exponentDigits : Nat
  infinite : String
  notANumber : String
  deriving Repr

/-- Numbers are written positionally from `1e-4` up to below `1e16`, with a digit on either side
of the point; otherwise the exponent has a sign and at least two digits. -/
def Layout.plain : Layout := ⟨-4, 15, 2, "inf", "nan"⟩

/-- Numbers are written with an exponent whatever it is. -/
def Layout.scientific : Layout := { Layout.plain with lowest := 1, highest := 0 }

def digitText (ds : List Nat) : String :=
  String.ofList (ds.map fun d => Char.ofNat ('0'.toNat + d))

/-- Pads a digit text on the left with zeros. -/
def zeroPadded (width : Nat) (n : Nat) : String :=
  let s := Nat.repr n
  String.ofList (List.replicate (width - s.length) '0') ++ s

def Layout.positive (l : Layout) (d : Digits) : String :=
  let exponent := d.point - 1
  if l.lowest ≤ exponent ∧ exponent ≤ l.highest then
    match d.point with
    | .ofNat k =>
      let whole := d.digits.take k ++ List.replicate (k - d.digits.length) 0
      let rest := d.digits.drop k
      digitText (if whole.isEmpty then [0] else whole) ++ "." ++
        digitText (if rest.isEmpty then [0] else rest)
    | .negSucc k => "0." ++ digitText (List.replicate (k + 1) 0 ++ d.digits)
  else
    let mantissa := match d.digits with
      | [] => "0"
      | [x] => digitText [x]
      | x :: rest => digitText [x] ++ "." ++ digitText rest
    mantissa ++ (if exponent < 0 then "e-" else "e+") ++ zeroPadded l.exponentDigits exponent.natAbs

/-- Writes a number of a binary format with its shortest digits. -/
def Layout.write (l : Layout) (f : BinaryFormat) : Binary64.Parts → String
  | .notANumber => l.notANumber
  | .infinite negative => if negative then "-" ++ l.infinite else l.infinite
  | .finite negative m e =>
    let body := if m = 0 then "0.0" else l.positive (shortest f m e)
    if negative then "-" ++ body else body

def doubleText (x : Float) : String :=
  Layout.plain.write .double (Binary64.parts x)

/-- The significand and exponent of a double that is a number of single precision, in that
format. -/
def singleParts (x : Float) : Binary64.Parts :=
  match Binary64.parts x with
  | .finite negative m e =>
    if m = 0 then .finite negative 0 e
    else
      let q := Binary64.scaled false m e
      match BinaryFormat.single.nearest? q.num.natAbs q.den with
      | some (m, e) => .finite negative m e
      | none => .infinite negative
  | p => p

/-- The layout for a number of single precision: positional from `1e-4` up to below `1e6`, which the
number itself has to lie in and not only its shortest digits. -/
def singleLayout (x : Float) : Layout :=
  match Binary64.parts x with
  | .finite _ m e =>
    let q := Binary64.scaled false m e
    if q = 0 ∨ (1 / 10000 ≤ q ∧ q < 1000000) then .plain else .scientific
  | _ => .plain

def singleText (x : Float) : String :=
  (singleLayout x).write .single (singleParts x)

end Milp.Decimal
