import Milp.Number.Quantity
import Milp.Store.Signature
import Milp.Store.Text

/-!
# Types as calls

A type that is called makes a value of its own out of another one: a list out of whatever has parts,
a truth value out of anything, a text out of anything, and a number out of another number or of the
text of one. A whole number may be read in another system than that of ten digits.
-/

namespace Milp.Store

/-! ## Whole numbers -/

def wholeNumber (v : Value) : Except Fault Int :=
  match v, v.flagOrInt? with
  | _, some n => .ok n
  | .text t, none =>
    match Decimal.readWhole? t with
    | some n => .ok n
    | none => .error (.badWholeNumeral t)
  | .array _, none => .error .notOneNumber
  | v, none =>
    if v.isReal then do
      let x : Float ← Numeric.ofValue v
      Numeric.toIntBy Subtotal.truncate x
    else .error (.notWholeNumeric v.kindName)

/-- The value of a digit in a system of up to thirty-six. -/
def digitIn (base : Nat) (c : Char) : Option Nat :=
  let letter := if c.isLower then some (c.toNat - 'a'.toNat + 10)
    else if c.isUpper then some (c.toNat - 'A'.toNat + 10) else none
  (Text.digit? c <|> letter).filter (· < base)

/-- The value of digits that fill a text, with single underscores between them. -/
def readDigits (base : Nat) : (value : Nat) → List Char → Option Nat
  | _, [] => none
  | value, [c] => (digitIn base c).map fun d => value * base + d
  | value, c :: '_' :: rest => do readDigits base (value * base + (← digitIn base c)) rest
  | value, c :: rest => do readDigits base (value * base + (← digitIn base c)) rest

/-- The system that the mark in front of digits stands for. -/
def markedBase? : List Char → Option Nat
  | '0' :: c :: _ =>
    if c = 'x' || c = 'X' then some 16
    else if c = 'o' || c = 'O' then some 8
    else if c = 'b' || c = 'B' then some 2
    else none
  | _ => none

/-- Digits without the mark of their system, after which an underscore may stand. -/
def unmarked : List Char → List Char
  | _ :: _ :: '_' :: rest => rest
  | _ :: _ :: rest => rest
  | cs => cs

/-- The whole number that a text denotes in a system; in that of zero, the mark in front of the
digits tells which one it is. -/
def readIn (base : Nat) (t : String) : Option Int := do
  let (negative, cs) := Decimal.scanSign (Text.trimBlanks t.toList)
  let n ← match markedBase? cs with
    | some marked =>
      if base = 0 || base = marked then readDigits marked 0 (unmarked cs)
      else readDigits base 0 cs
    | none =>
      if base = 0 then
        (readDigits 10 0 cs).filter fun n => n = 0 || cs.head? != some '0'
      else readDigits base 0 cs
  return if negative then -n else n

def wholeNumberIn (v base : Value) : Except Fault Int :=
  match base.toInt?, v with
  | none, _ => .error (.notIndex base.kindName)
  | some b, v =>
    if (b < 2 && b != 0) || 36 < b then .error (.conversion .badBase)
    else match v with
      | .text t =>
        match readIn b.toNat t with
        | some n => .ok n
        | none => .error (.conversion (.badDigits b t))
      | _ => .error (.conversion .baseWithoutText)

/-! ## Complex numbers -/

/-- The text of a complex number: one of its parts, or both. -/
def isComplexText (t : String) : Bool :=
  let plain (cs : List Char) : Bool := match cs with
    | ')' :: rest => !rest.isEmpty
    | cs => !cs.isEmpty
  let bare (cs : List Char) : List Char := match cs, cs.reverse with
    | '(' :: rest, ')' :: _ => Text.trimBlanks rest.dropLast
    | cs, _ => cs
  let cs := bare (Text.trimBlanks t.toList)
  let reads (cs : List Char) : Bool :=
    !cs.any Text.isBlank && plain cs && (Decimal.read? (String.ofList cs)).isSome
  let signed (cs : List Char) : Bool := match cs with
    | [c] => c = '+' || c = '-'
    | c :: _ => (c = '+' || c = '-') && reads cs
    | [] => false
  match cs.reverse with
  | c :: back =>
    if c = 'j' || c = 'J' then
      let front := back.reverse
      front.isEmpty || reads front || signed front ||
        (List.range front.length).any fun i => reads (front.take i) && signed (front.drop i)
    else reads cs
  | [] => false

def checkComplexPart (position : String) (v : Value) : Except Fault Unit :=
  let isNumber := match v with
    | .array _ => true
    | v => v.number?.isSome
  if isNumber then (Numeric.ofValue v : Except Fault Float).map fun _ => ()
  else .error (.conversion (.notComplex position v.kindName))

/-- A complex number can be made of two parts, the second of which may be absent. -/
def checkComplex (first second : Option Value) : Except Fault Unit := do
  match first, second with
  | some (.text _), some _ => throw (.conversion .secondBesidesText)
  | some (.text t), none =>
    if !isComplexText t then throw (.conversion .badComplex)
  | first, second =>
    match second with
    | some (.text _) => throw (.conversion .secondText)
    | _ => pure ()
    first.forM (checkComplexPart "first")
    second.forM (checkComplexPart "second")

/-! ## Calls -/

/-- The arguments of a type by their places, where those that are absent have no value; the first of
them may be given in order only. -/
def bindOptional (call : String) (names : List String) (inOrderOnly : Nat) (a : Arguments) :
    Except Fault (Nat → Option Value) := do
  let given := a.inOrder.length + a.byName.length
  if names.length < given then
    throw (.conversion (if a.inOrder.isEmpty then .tooManyNamed call names.length given
      else .tooMany call names.length given))
  let known := names.drop inOrderOnly
  match (known.take (a.inOrder.length - inOrderOnly)).find? fun n =>
      (a.byName.lookup n).isSome with
  | some n => throw (.conversion (.repeated call n (names.idxOf n + 1)))
  | none => pure ()
  match a.byName.find? fun e => !known.contains e.1 with
  | some e => throw (.conversion (.invalidName call e.1))
  | none => pure ()
  return fun i => a.inOrder[i]? <|> (a.byName.lookup (names.getD i "")).filter fun _ =>
    decide (inOrderOnly ≤ i)

/-- An argument that is a text, if it is there. -/
def checkTextual (call name : String) : Option Value → Except Fault Unit
  | none => .ok ()
  | some (.text _) => .ok ()
  | some v => .error (.conversion (.notText call name
      (match v with
        | .none => "None"
        | v => v.kindName)))

/-- The text of a value. With the way in which raw data are to be read it must be raw data, which no
value is. -/
def callText (a : Arguments) : Action Store Value := do
  let x ← .ofExcept (bindOptional "str" ["object", "encoding", "errors"] 0 a)
  .ofExcept (checkTextual "str" "encoding" (x 1))
  .ofExcept (checkTextual "str" "errors" (x 2))
  match x 0, (x 1).isSome || (x 2).isSome with
  | none, _ => return .text ""
  | some v, false => return .text (← textOf v)
  | some (.text _), true => throw (.conversion .decodedText)
  | some v, true => throw (.conversion (.decoded v.kindName))

def callWhole (a : Arguments) : Except Fault Value := do
  let x ← bindOptional "int" ["", "base"] 1 a
  match x 0, x 1 with
  | none, none => return .int 0
  | none, some _ => throw (.conversion .baseAlone)
  | some v, none => return .int (← wholeNumber v)
  | some v, some base => return .int (← wholeNumberIn v base)

def callFree (a : Arguments) : Except Fault Value := do
  match ← a.atMostOne "float" with
  | none => return .real 0.0
  | some v =>
    let x : Quantity ← Numeric.ofValue v
    return x.toValue

/-- Calls a type. A complex number is only made, for there are no values for them. -/
def callType (t : TypeName) (a : Arguments) : Action Store Value := do
  match t with
  | .text => callText a
  | .int => .ofExcept (callWhole a)
  | .float => .ofExcept (callFree a)
  | .complex => do
    let x ← .ofExcept (bindOptional "complex" ["real", "imag"] 0 a)
    .ofExcept (checkComplex (x 0) (x 1))
    return .none
  | .bool =>
    match ← .ofExcept (a.atMostOne "bool") with
    | none => return .bool false
    | some v => return .bool (← .ofExcept ((← Action.read).isTrue v))
  | .list =>
    match ← .ofExcept (a.atMostOne "list") with
    | none => newList []
    | some v => newList (← .ofExcept ((← Action.read).items v))

/-! ## In the place of other calls -/

def callValue (v : Value) (args : List Value) : Action Store Value :=
  match v with
  | .type t => callType t ⟨args, []⟩
  | v => throw (.notCallable v.kindName)

/-- A call that a value knows, unless something was put in its place, which is then called. -/
def unlessReplaced (target : Value) (call : String) (args : List Value)
    (own : Action Store Value) : Action Store Value := do
  match (← Action.read).extra? target call with
  | some v => callValue v args
  | none => own

end Milp.Store
