import Milp.Proofs.Encoding.Matrix
import Milp.Proofs.Encoding.WholeSum

/-!
# Numbers that doubles hold

The numbers of a model as doubles hold them, with exact arithmetic from there on: what is read is
rounded to a double once, and nothing is rounded after that. Encoded with them, a model says exactly
what its arrays of doubles say.
-/

namespace Milp

/-- An exact number that was rounded to a double when it was read. -/
structure Held where
  value : Extended
  deriving Repr, DecidableEq

instance : Numeric Held where
  add a b := ⟨a.value + b.value⟩
  sub a b := ⟨a.value - b.value⟩
  mul a b := ⟨a.value * b.value⟩
  neg a := ⟨-a.value⟩
  ofFloat x := ⟨.ofFloat x⟩
  ofUndefined _ := ⟨.ofFloat Binary64.notANumber⟩
  ofInt n := match Binary64.ofInt? n with
    | some x => .ok ⟨.ofFloat x⟩
    | none => .error .tooLarge
  view := Held.value

namespace Held

@[simp] theorem view_eq (a : Held) : Numeric.view a = a.value := rfl

@[simp] theorem value_add (a b : Held) : (a + b).value = a.value + b.value := rfl

@[simp] theorem value_zero : (Numeric.zero : Held).value = .finite 0 := Extended.numericZero

@[simp] theorem value_negInf : (Numeric.negInf : Held).value = .negInf := Extended.numericNegInf

@[simp] theorem value_posInf : (Numeric.posInf : Held).value = .posInf := Extended.numericPosInf

theorem ofInt_eq_ok {n : Int} {x : Float} (h : Numeric.ofInt n = .ok x) :
    (Numeric.ofInt n : Except Fault Held) = .ok ⟨.ofFloat x⟩ := by
  simp only [Numeric.ofInt] at h ⊢
  cases hn : Binary64.ofInt? n with
  | none => simp [hn] at h
  | some y =>
      rw [hn] at h
      rw [Except.ok.inj h]

theorem ofInt_zero : (Numeric.ofInt 0 : Except Fault Held) = .ok ⟨.finite 0⟩ := by
  have zero : Extended.ofFloat 0.0 = .finite 0 := by decide +kernel
  exact (ofInt_eq_ok (x := 0.0) rfl).trans (by rw [zero])

theorem ofInt_one : (Numeric.ofInt 1 : Except Fault Held) = .ok ⟨.finite 1⟩ := by
  have one : Extended.ofFloat 1.0 = .finite 1 := by decide +kernel
  exact (ofInt_eq_ok (x := 1.0) rfl).trans (by rw [one])

/-- What is read as a double is read as the number of the double. -/
theorem ofValue_eq_ok {v : Value} {x : Float} (h : Numeric.ofValue v = .ok x) :
    (Numeric.ofValue v : Except Fault Held) = .ok ⟨.ofFloat x⟩ := by
  have held {y : Float} (h : (.ok y : Except Fault Float) = .ok x) :
      (.ok ⟨.ofFloat y⟩ : Except Fault Held) = .ok ⟨.ofFloat x⟩ := by
    rw [Except.ok.inj h]
  cases v with
  | bool b => exact ofInt_eq_ok h
  | int n => exact ofInt_eq_ok h
  | real y => exact held h
  | text s =>
      simp only [Numeric.ofValue] at h ⊢
      cases hs : Decimal.read? s with
      | some y =>
          rw [hs] at h
          exact held h
      | none => simp [hs] at h
  | scalar s =>
      cases s with
      | integer kind n => exact ofInt_eq_ok h
      | single y => exact held h
      | double y => exact held h
      | flag b => exact ofInt_eq_ok h
  | symbol s =>
      cases s with
      | parameter p => exact ofInt_eq_ok h
      | _ => cases h
  | undefined form id => cases form <;> exact held h
  | _ => cases h

theorem ofValue_of_toWhole {v engine : Value} {place : Place} {n : Int}
    (h : v.toWhole Float engine place = .ok n) :
    (Numeric.ofValue v : Except Fault Held) = .ok ⟨.finite n⟩ := by
  obtain ⟨x, hx, value⟩ := Value.toWhole_eq_ok.mp h
  rw [ofValue_eq_ok hx]
  exact congrArg (fun a => Except.ok (Held.mk a)) value

end Held

/-! ## Encodings as they are -/

section

variable {K : Type} [Numeric K]

/-- A row of numbers for what they stand for. -/
def SparseRow.view (row : SparseRow K) : SparseRow Extended :=
  row.map fun e => (e.1, Numeric.view e.2)

def Range.view (r : Range K) : Range Extended :=
  ⟨Numeric.view r.lower, Numeric.view r.upper⟩

def Columns.view (cs : Columns K) : Columns Extended :=
  ⟨cs.lower.map Numeric.view, cs.upper.map Numeric.view, cs.integral⟩

end

namespace SparseRow

theorem view_add (j : Nat) (x : Held) (row : SparseRow Held) :
    (add j x row).view = add j x.value row.view := by
  induction row with
  | nil => rfl
  | cons e es ih =>
      simp only [view, List.map_cons, add] at ih ⊢
      split
      · rfl
      · split
        · rfl
        · rw [List.map_cons, ih]

theorem view_ofEntries (es : List (Nat × Held)) :
    view (ofEntries es) = ofEntries (es.map fun e => (e.1, e.2.value)) := by
  have walk (row : SparseRow Held) : view (es.foldl (fun row e => add e.1 e.2 row) row) =
      (es.map fun e => (e.1, e.2.value)).foldl (fun row e => add e.1 e.2 row) row.view := by
    induction es generalizing row with
    | nil => rfl
    | cons e es ih => rw [List.foldl_cons, ih, view_add, List.map_cons, List.foldl_cons]
  exact walk []

end SparseRow

theorem view_addEntries (cost : List Held) (es : List (Int × Held)) :
    (addEntries cost es).map Held.value =
      addEntries (cost.map Held.value) (es.map fun e => (e.1, e.2.value)) := by
  induction es generalizing cost with
  | nil => rfl
  | cons e es ih =>
      have step : (cost.modify e.1.toNat (· + e.2)).map Held.value =
          (cost.map Held.value).modify e.1.toNat (· + e.2.value) := by
        refine List.ext_getElem? fun i => ?_
        simp only [List.getElem?_map, List.getElem?_modify]
        cases cost[i]? <;> split <;> rfl
      simp only [addEntries, List.foldl_cons, List.map_cons] at ih ⊢
      rw [ih, step]

end Milp
