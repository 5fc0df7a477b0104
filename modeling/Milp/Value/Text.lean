import Milp.Grid.Text
import Milp.Value.Basic
import Milp.Text.Quoted

/-!
# The text of simple values

A simple value has a plain text, in which a text stands for itself, and a literal, in which texts
are quoted and symbols and numbers of fixed size show what they are. Within a larger text a number
of single precision is written out as a double.
-/

namespace Milp

def truthText (b : Bool) : String :=
  if b then "True" else "False"

/-- The plain text of a number of fixed size. -/
def Scalar.text : Scalar → String
  | .integer _ n => Int.repr n
  | .single x => Decimal.singleText x
  | .double x => Decimal.doubleText x
  | .flag b => truthText b

/-- The literal of a number of fixed size. -/
def Scalar.literal : Scalar → String
  | .flag b => "np." ++ truthText b ++ "_"
  | s => "np." ++ s.kindName ++ "(" ++ s.text ++ ")"

def Symbol.value : Symbol → Value
  | .relation r => .text r.sign
  | .sense s => .text s.word
  | .domain d => .text d.word
  | .parameter p => .int p.code
  | .status s => .text s.word

def Symbol.literal (s : Symbol) : String :=
  let shown := match s with
    | .relation r => Text.quoted r.sign
    | .sense s => Text.quoted s.word
    | .domain d => Text.quoted d.word
    | .parameter p => Nat.repr p.code
    | .status s => Text.quoted s.word
  "<" ++ s.family ++ "." ++ s.name ++ ": " ++ shown ++ ">"

namespace Value

def undefinedText : String := Decimal.Layout.plain.notANumber

/-- The literal of a value without parts. -/
def literal? : Value → Option String
  | .none => some "None"
  | .bool b => some (truthText b)
  | .int n => some (Int.repr n)
  | .real x => some (Decimal.doubleText x)
  | .text s => some (Text.quoted s)
  | .scalar s => some s.literal
  | .undefined .free _ => some undefinedText
  | .undefined .single _ => some ("np.float32(" ++ undefinedText ++ ")")
  | .undefined .double _ => some ("np.float64(" ++ undefinedText ++ ")")
  | .symbol s => some s.literal
  | .type t => some ("<class '" ++ t.name ++ "'>")
  | .array g => some g.literal
  | .sparse m => some m.literal
  | _ => Option.none

def plain? : Value → Option String
  | .text s => some s
  | .scalar s => some s.text
  | .undefined _ _ => some undefinedText
  | .symbol s => some s.text
  | .array g => some g.text
  | .sparse m => some m.text
  | _ => Option.none

/-- The text of a simple value within a larger text, where that is not its literal. -/
def within? : Value → Option String
  | .scalar (.single x) => some (Decimal.doubleText x)
  | v => v.plain?

/-- A text; nothing else has one of its own. -/
def asText : Value → String
  | .text s => s
  | _ => ""

end Value

end Milp
