import Milp.Proofs.Number.Extended
import Milp.Value.Order

/-!
# Numbers that values are read as

Coefficients, right-hand sides and bounds as rational numbers. Where a bound is a finite number, its
order to a whole number is the one of the rational numbers, whatever sort of number it is.
-/

namespace Milp.Value

/-- The rational number that a value is read as, and zero where there is none. -/
def toRat (v : Value) : Rat :=
  match (Numeric.ofValue v : Except Fault Extended) with
  | .ok (.finite q) => q
  | _ => 0

/-- The value is read as a finite number. -/
def ReadsFinite (v : Value) : Prop :=
  (Numeric.ofValue v : Except Fault Extended) = .ok (.finite v.toRat)

theorem readsFinite_of_eq {v : Value} {q : Rat}
    (h : (Numeric.ofValue v : Except Fault Extended) = .ok (.finite q)) : v.ReadsFinite := by
  unfold ReadsFinite toRat
  rw [h]

def IsFinite (v : Value) : Prop :=
  v.number? = some (.finite v.toRat)

instance (v : Value) : Decidable v.IsFinite :=
  inferInstanceAs (Decidable (_ = _))

/-- What a number is read as is the number. -/
theorem ofValue_of_number? {v : Value} {q : Rat} (h : v.number? = some (.finite q)) :
    (Numeric.ofValue v : Except Fault Extended) = .ok (.finite q) := by
  cases v with
  | bool b => cases b <;> exact congrArg Except.ok (Option.some.inj h)
  | int n => exact congrArg Except.ok (Option.some.inj h)
  | real x => exact congrArg Except.ok (Option.some.inj h)
  | scalar s =>
      cases s with
      | integer kind n => exact congrArg Except.ok (Option.some.inj h)
      | single x => exact congrArg Except.ok (Option.some.inj h)
      | double x => exact congrArg Except.ok (Option.some.inj h)
      | flag b => cases b <;> exact congrArg Except.ok (Option.some.inj h)
  | symbol s =>
      cases s with
      | parameter p => exact congrArg Except.ok (Option.some.inj h)
      | _ => cases h
  | undefined form id => cases h
  | _ => cases h

theorem IsFinite.readsFinite {v : Value} (h : v.IsFinite) : v.ReadsFinite :=
  ofValue_of_number? h

/-! ## Order -/

theorem plain_of_number? (o : Order) {v w : Value} {x y : Extended} (hv : v.number? = some x)
    (hw : w.number? = some y) : o.plain v w = .ok (o.test x y) := by
  unfold Order.plain
  simp only [hv, hw]

/-- A number of fixed size is compared with one other number. -/
theorem holds_scalar (o : Order) (s : Scalar) (n : Int) :
    o.holds (.scalar s) (.int n) = Comparand.compare o.test (.ofScalar s) (.freeWhole n) := by
  have free : Order.lone (.int n) = ⟨[], [.int n], true⟩ := rfl
  have plain : (⟨[], [.int n], true⟩ : Spread).hasOthers = false := by
    simp [Spread.hasOthers, Spread.isOther, Value.toInt?]
  have pair : Shape.stretch [] [] [Value.int n] = [.int n] := rfl
  have own : (⟨s.kind, [], [s], Option.none⟩ : Grid).stretched [] = [s] := rfl
  simp only [Order.holds, Order.holdsBy, Order.grid?, scalarGrid?, free, bind, Except.bind,
    Order.ofGrid, Spread.compare, Shape.common?_nil, plain, pair, own, Spread.hasTexts]
  simp only [Spread.compareNumber, Comparand.ofValue?, toInt?, isText, List.any_cons, List.any_nil,
    Bool.or_false, Bool.false_and, Bool.false_eq_true, if_false, if_true, Option.map_some,
    List.zip_cons_cons, List.zip_nil_right, List.mapM_cons, List.mapM_nil]
  cases Comparand.compare o.test (.ofScalar s) (.freeWhole n) with
  | error f => rfl
  | ok b => cases b <;> rfl

/-- Zero and one are the same in every precision. -/
theorem toDouble_freeWhole {n : Int} (hn : n = 0 ∨ n = 1) :
    ∃ y : Float, (Comparand.freeWhole n).toDouble = .ok y ∧ Extended.ofFloat y = .finite n ∧
      Extended.ofFloat (Binary64.toSingle y) = .finite n := by
  rcases hn with rfl | rfl
  · exact ⟨0.0, by rfl, by decide +kernel, by decide +kernel⟩
  · exact ⟨1.0, by rfl, by decide +kernel, by decide +kernel⟩

theorem compare_scalar (test : Comparison) (s : Scalar) {n : Int} (hn : n = 0 ∨ n = 1) {q : Rat}
    (h : (Value.scalar s).number? = some (.finite q)) :
    Comparand.compare test (.ofScalar s) (.freeWhole n) = .ok (test (.finite q) (.finite n)) := by
  obtain ⟨y, hy, double, single⟩ := toDouble_freeWhole hn
  have machine : Comparand.isMachine n = true := by
    rcases hn with rfl | rfl <;> rfl
  cases s with
  | integer kind m =>
      obtain rfl := Extended.finite.inj (Option.some.inj h)
      rfl
  | flag b =>
      have number : ((if b then 1 else 0 : Int) : Rat) = q := by
        cases b <;> simpa using Extended.finite.inj (Option.some.inj h)
      simp [Comparand.compare, Comparand.ofScalar, Comparand.exceedsFlag, Comparand.whole?, machine,
        ← number]
  | single x =>
      have number : Extended.ofFloat x = .finite q := Option.some.inj h
      simp [Comparand.compare, Comparand.ofScalar, Comparand.exceedsFlag, Comparand.whole?,
        Comparand.compareAs, Comparand.isSingle, Comparand.isFixed, hy, single]
      rw [← number]
      rfl
  | double x =>
      have number : Extended.ofFloat x = .finite q := Option.some.inj h
      simp [Comparand.compare, Comparand.ofScalar, Comparand.exceedsFlag, Comparand.whole?,
        Comparand.compareAs, Comparand.isSingle, Comparand.isFixed, hy, double]
      rw [← number]
      rfl

theorem holds_int (o : Order) {v : Value} {n : Int} (hn : n = 0 ∨ n = 1) {q : Rat}
    (h : v.number? = some (.finite q)) :
    o.holds v (.int n) = .ok (o.test (.finite q) (.finite n)) := by
  have number : (Value.int n).number? = some (.finite n) := rfl
  cases v with
  | scalar s => exact (holds_scalar o s n).trans (compare_scalar o.test s hn h)
  | undefined form id => cases h
  | bool b => exact plain_of_number? o h number
  | int m => exact plain_of_number? o h number
  | real x => exact plain_of_number? o h number
  | symbol s => exact plain_of_number? o h number
  | _ => cases h

theorem isAbove_zero {v : Value} (h : v.IsFinite) :
    v.isAbove (.int 0) = .ok (decide (0 < v.toRat)) := by
  rw [isAbove, holds_int .above (.inl rfl) h]
  rfl

theorem isBelow_one {v : Value} (h : v.IsFinite) :
    v.isBelow (.int 1) = .ok (decide (v.toRat < 1)) := by
  rw [isBelow, holds_int .below (.inr rfl) h]
  rfl

end Milp.Value
