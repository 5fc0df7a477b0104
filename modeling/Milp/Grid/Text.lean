import Milp.Grid.Basic
import Milp.Number.Layout

/-!
# The text of grids

The numbers of a grid are written in columns of one width: with at most eight digits after the
point, all of them with an exponent if some of them are large or small or far apart. Rows stand in
brackets, lines are broken before they grow too long, and of a large grid only the corners are
written.
-/

namespace Milp.Grid

/-! ## Numbers -/

/-- The digits after the point at most. -/
def places : Nat := 8

def formatOf : ScalarKind → BinaryFormat
  | .single => .single
  | _ => .double

/-- Sign and magnitude of a finite number. -/
structure Finite where
  negative : Bool
  magnitude : Rat
  /-- The shortest digits that read back; none for zero. -/
  shortest : Decimal.Digits

/-- A floating point number as one in decimal digits, if it is finite. -/
def finite? (kind : ScalarKind) (x : Float) : Option Finite :=
  let parts := match kind with
    | .single => Decimal.singleParts x
    | _ => Binary64.parts x
  match parts with
  | .finite negative m e =>
    some ⟨negative, Binary64.scaled false m e,
      if m = 0 then ⟨[], 1⟩ else Decimal.shortest (formatOf kind) m e⟩
  | _ => none

/-- The digits of a multiple of a power of ten. -/
def digitsAt (n : Nat) (exponent : Int) : Decimal.Digits :=
  let ds := Decimal.digitsOf n
  let stripped := (ds.reverse.dropWhile (· == 0)).reverse
  if n = 0 then ⟨[], 1⟩ else ⟨stripped, exponent + ds.length⟩

/-- The digits of a number with none beyond the place of an exponent: the shortest ones where they
suffice, and otherwise those of the nearest multiple. -/
def Finite.cut (x : Finite) (exponent : Int) : Decimal.Digits :=
  if exponent ≤ x.shortest.point - x.shortest.digits.length then x.shortest
  else
    let (n, d) := Decimal.shift x.magnitude.num.natAbs x.magnitude.den (-exponent)
    digitsAt (divEven n d) exponent

/-- What stands before and after the point of a number, and its exponent if one is written. -/
structure Written where
  whole : String
  fraction : String
  exponent : Option Int

def Finite.sign (x : Finite) : String :=
  if x.negative then "-" else ""

/-- A number without an exponent. -/
def Finite.positional (x : Finite) : Written :=
  let d := x.cut (-(places : Int))
  let k := d.point.toNat
  let lead := List.replicate (-d.point).toNat 0
  let whole := d.digits.take k ++ List.replicate (k - d.digits.length) 0
  ⟨x.sign ++ Decimal.digitText (if whole.isEmpty then [0] else whole),
    Decimal.digitText (if d.digits.isEmpty then [] else lead ++ d.digits.drop k), none⟩

/-- A number with an exponent. -/
def Finite.scientific (x : Finite) : Written :=
  let d := x.cut (x.shortest.point - 1 - (places : Int))
  ⟨x.sign ++ Decimal.digitText (d.digits.headD 0 :: []), Decimal.digitText (d.digits.drop 1),
    some (d.point - 1)⟩

def padLeft (width : Nat) (s : String) : String :=
  String.ofList (List.replicate (width - s.length) ' ') ++ s

def padRight (fill : Char) (width : Nat) (s : String) : String :=
  s ++ String.ofList (List.replicate (width - s.length) fill)

def greatest (ns : List Nat) : Nat :=
  ns.foldl (fun a b => if a < b then b else a) 0

def exponentText (digits : Nat) (e : Int) : String :=
  (if e < 0 then "e-" else "e+") ++ Decimal.zeroPadded digits e.natAbs

/-- Numbers of these magnitudes are written with an exponent. -/
def needsExponent (kind : ScalarKind) (xs : List Float) : Bool :=
  let sizes := (xs.map Float.abs).filter (· != 0.0)
  let rounded (x : Float) : Float := match kind with
    | .single => Binary64.toSingle x
    | _ => x
  match sizes with
  | [] => false
  | x :: rest =>
    let top := rest.foldl (fun a b => if a < b then b else a) x
    let bottom := rest.foldl (fun a b => if b < a then b else a) x
    let limit : Float := match kind with
      | .single => 1e6
      | _ => 1e8
    limit ≤ top || bottom < rounded 0.0001 || 1000.0 < rounded (top / bottom)

def specialText (x : Float) : String :=
  if x.isNaN then "nan" else if x < 0.0 then "-inf" else "inf"

/-- The texts of floating point numbers, of one width, as it is found from some of them. -/
def floatTexts (kind : ScalarKind) (sample : List Float) (x : Float) : String :=
  let finiteSample := sample.filter fun y => (finite? kind y).isSome
  let exponential := needsExponent kind finiteSample
  let form (y : Finite) : Written := if exponential then y.scientific else y.positional
  let written := (sample.filterMap (finite? kind)).map form
  let exponentDigits := greatest (2 :: written.map fun w =>
    (Nat.repr ((w.exponent.getD 0).natAbs)).length)
  let left := greatest (written.map (·.whole.length))
  let fraction := greatest (written.map (·.fraction.length))
  let right := if written.isEmpty then 0
    else if exponential then fraction + exponentDigits + 2 else fraction
  let specials := sample.filter fun y => (finite? kind y).isNone
  let special := if specials.isEmpty then 0
    else greatest [3, if specials.any (· < 0.0) then 4 else 3]
  let left := if special ≤ left + right + 1 then left else special - (right + 1)
  match finite? kind x with
  | none => padLeft (left + right + 1) (specialText x)
  | some y =>
    let w := form y
    padLeft left w.whole ++ "." ++ match w.exponent with
      | some e => padRight '0' fraction w.fraction ++ exponentText exponentDigits e
      | none => padRight ' ' right w.fraction

/-- The floating point number that a number is. -/
def floatOf : Scalar → Float
  | .single x => x
  | .double x => x
  | _ => 0.0

/-- How numbers of a kind are written, as it is found from some of them. -/
def writer (kind : ScalarKind) (sample : List Scalar) : Scalar → String :=
  match kind with
  | .integer _ =>
    let width := greatest (sample.map fun s => (Int.repr (s.whole?.getD 0)).length)
    fun s => padLeft width (Int.repr (s.whole?.getD 0))
  | .flag => fun s => if s.whole? = some 1 then " True" else "False"
  | kind =>
    let texts := floatTexts kind (sample.map floatOf)
    fun s => texts (floatOf s)

/-! ## Rows -/

/-- A grid with more numbers than these is written in part. -/
def fullSize : Nat := 1000

/-- How many rows at either end of a large grid are written. -/
def edge : Nat := 3

/-- The rows at both ends, at every depth. -/
def corners : Shape → List Scalar → List Scalar
  | [], xs => xs
  | n :: s, xs =>
    let rows := Shape.chunks n (Shape.size s) xs
    let kept := if 2 * edge < n then rows.take edge ++ rows.drop (n - edge) else rows
    (kept.map (corners s)).flatten

/-- Lines that are filled one word after the other. -/
structure Lines where
  done : String
  line : String

/-- Adds a word, on a new line if it would make the line too long. -/
def Lines.add (l : Lines) (width : Nat) (indent word : String) : Lines :=
  if width < l.line.length + word.length && indent.length < l.line.length then
    ⟨l.done ++ String.ofList ((l.line.toList.reverse.dropWhile (· == ' ')).reverse) ++ "\n",
      indent ++ word⟩
  else ⟨l.done, l.line ++ word⟩

/-- The words of a row with a separator after each but the last. -/
def Lines.addAll (l : Lines) (width : Nat) (indent separator : String) : List String → Lines
  | [] => l
  | [w] => l.add width indent w
  | w :: ws =>
    let next := l.add width indent w
    Lines.addAll ⟨next.done, next.line ++ separator⟩ width indent separator ws

/-- Parts at both ends, with a mark between them, where there are too many. -/
def abridged (summarised : Bool) (parts : List String) : List String :=
  if summarised && 2 * edge < parts.length then
    parts.take edge ++ ["..."] ++ parts.drop (parts.length - edge)
  else parts

/-- A text without what it begins with, in brackets. -/
def bracketed (indent : String) (s : String) : String :=
  "[" ++ String.ofList (s.toList.drop indent.length) ++ "]"

/-- Writes rows in brackets; what follows a line is indented. -/
def rowsText (write : Scalar → String) (separator : String) (comma : String)
    (summarised : Bool) : Shape → (width : Nat) → (indent : String) → List Scalar → String
  | [], _, _, xs => "".intercalate (xs.map write)
  | [_], width, indent, xs =>
    let words := abridged summarised (xs.map write)
    let l := Lines.addAll ⟨"", indent⟩ (width - 1) indent separator words
    bracketed indent (l.done ++ l.line)
  | n :: m :: s, width, indent, xs =>
    let parts := (Shape.chunks n (Shape.size (m :: s)) xs).map
      (rowsText write separator comma summarised (m :: s) (width - 1) (indent ++ " "))
    let newline := comma ++ String.ofList (List.replicate (s.length + 1) '\n')
    bracketed indent (newline.intercalate ((abridged summarised parts).map (indent ++ ·)))

/-- The rows of a grid, with a separator between numbers, within a width. -/
def body (g : Grid) (separator comma : String) (width : Nat) (start : String) : String :=
  if g.entries.isEmpty then "[]"
  else
    let summarised := fullSize < g.entries.length
    let sample := if summarised then corners g.shape g.entries else g.entries
    rowsText (writer g.kind sample) separator comma summarised g.shape width (" " ++ start)
      g.entries

def lineWidth : Nat := 75

def text (g : Grid) : String :=
  g.body " " "" lineWidth ""

/-- The kind of a grid goes without saying. -/
def isPlainKind : ScalarKind → Bool
  | .integer .int64 => true
  | .double => true
  | .flag => true
  | _ => false

/-- What does not show in the rows of a grid: an odd shape, and the kind. -/
def extras (g : Grid) : List String :=
  let shape := (g.entries.isEmpty && g.shape != [0]) || fullSize < g.entries.length
  (if shape then ["shape=" ++ Shape.text g.shape] else []) ++
    if !isPlainKind g.kind || g.entries.isEmpty then ["dtype=" ++ g.kind.name] else []

def literal (g : Grid) : String :=
  let opening := "array("
  let indent := String.ofList (List.replicate opening.length ' ')
  let shown := opening ++ g.body ", " "," (lineWidth - 1) indent
  match g.extras with
  | [] => shown ++ ")"
  | extras =>
    let last := (shown.toList.reverse.takeWhile (· != '\n')).length + 1
    let ending := ", ".intercalate extras ++ ")"
    shown ++ "," ++ (if lineWidth < last + ending.length + 1 then "\n" ++ indent else " ") ++ ending

end Milp.Grid

namespace Milp.SparseArray

def stored (m : SparseArray) : Nat :=
  (m.rows.map (·.length)).foldl (· + ·) 0

def literal (m : SparseArray) : String :=
  "<Compressed Sparse Row sparse matrix of dtype '" ++ m.kind.name ++ "'\n\twith " ++
    Nat.repr m.stored ++ " stored elements and shape " ++
    Shape.text [m.rows.length, m.width] ++ ">"

/-- An entry as a line: its place and its value. -/
def entryText (m : SparseArray) (i j : Nat) (x : Float) : String :=
  let shown := match m.kind with
    | .flag => if x == 0.0 then "False" else "True"
    | _ => Decimal.doubleText x
  "  " ++ Shape.text [i, j] ++ "\t" ++ shown

/-- How many entries are written at most. -/
def shownEntries : Nat := 50

def text (m : SparseArray) : String :=
  let all := m.rows.zipIdx.flatMap fun (row, i) => row.map fun e => m.entryText i e.1 e.2
  let half := shownEntries / 2
  let lines := if shownEntries < all.length then
      all.take half ++ ["  :\t:"] ++ all.drop (all.length - half)
    else all
  if all.isEmpty then m.literal
  else "\n".intercalate (m.literal :: "  Coords\tValues" :: lines)

end Milp.SparseArray
