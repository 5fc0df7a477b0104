import Mathlib.Data.EReal.Basic
import Milp.Proofs.Engine.Scipy.Relaxation
import Milp.Proofs.Problem.Denotation

/-!
# What a problem says of real numbers

Right-hand sides and bounds may be infinite, and are compared with the values of expressions among
the extended reals. The ranged form of a problem over real variables has the real points that hold
numbers with which every constraint and every bound is met.
-/

namespace Milp

/-! ## Infinite numbers -/

/-- A number as an extended real one. The undefined number is none, and stands for zero. -/
noncomputable def Extended.toEReal : Extended → EReal
  | negInf => ⊥
  | finite q => ((q : ℝ) : EReal)
  | posInf => ⊤
  | notANumber => 0

namespace Extended

variable {a : Extended} {x : ℝ}

theorem belowReal_iff (number : a ≠ .notANumber) : a.BelowReal x ↔ a.toEReal ≤ x := by
  cases a with
  | notANumber => exact absurd rfl number
  | negInf => exact iff_of_true trivial bot_le
  | finite q => exact EReal.coe_le_coe_iff.symm
  | posInf => exact iff_of_false id (EReal.coe_lt_top x).not_ge

theorem aboveReal_iff (number : a ≠ .notANumber) : a.AboveReal x ↔ x ≤ a.toEReal := by
  cases a with
  | notANumber => exact absurd rfl number
  | negInf => exact iff_of_false id (EReal.bot_lt_coe x).not_ge
  | finite q => exact EReal.coe_le_coe_iff.symm
  | posInf => exact iff_of_true trivial le_top

end Extended

/-- The number that a value is read as, which may be infinite. -/
def Value.extended (v : Value) : Extended :=
  match (Numeric.ofValue v : Except Fault Extended) with
  | .ok a => a
  | .error _ => .notANumber

/-- A value is read as a number, which may be infinite. -/
def Value.ReadsExtended (v : Value) : Prop :=
  v.extended ≠ .notANumber

theorem Value.ReadsExtended.ofValue_eq {v : Value} (h : v.ReadsExtended) :
    (Numeric.ofValue v : Except Fault Extended) = .ok v.extended := by
  unfold Value.ReadsExtended Value.extended at h
  unfold Value.extended
  split at h
  · rename_i read
    rw [read]
  · exact absurd rfl h

/-! ## Rows at real points -/

namespace SparseRow

variable {x : Nat → ℝ}

/-- All coefficients of a row are finite. -/
def IsFinite (row : SparseRow Extended) : Prop :=
  ∀ e ∈ row, ∃ q, e.2 = .finite q

theorem atReal_cons (j : Nat) (q : Rat) (row : SparseRow Extended) :
    atReal ((j, .finite q) :: row) x = q * x j + atReal row x := rfl

/-- A coefficient that is added counts, whether its column had an entry or not. -/
theorem atReal_add {row : SparseRow Extended} (h : row.IsFinite) (j : Nat) (q : Rat) :
    (add j (.finite q) row).IsFinite ∧
      (add j (.finite q) row).atReal x = row.atReal x + q * x j := by
  induction row with
  | nil => simp [add, IsFinite, atReal, Extended.toRat?]
  | cons e es ih =>
      obtain ⟨⟨r, hr⟩, tail⟩ := List.forall_mem_cons.mp h
      obtain ⟨i, c⟩ := e
      obtain rfl : c = .finite r := hr
      unfold add
      split
      · refine ⟨List.forall_mem_cons.mpr ⟨⟨q, rfl⟩, h⟩, ?_⟩
        rw [atReal_cons]
        ring
      · split
        · rename_i same
          obtain rfl : j = i := same
          refine ⟨List.forall_mem_cons.mpr ⟨⟨r + q, rfl⟩, tail⟩, ?_⟩
          rw [Extended.finite_add, atReal_cons, atReal_cons]
          push_cast
          ring
        · obtain ⟨finite, value⟩ := ih tail
          refine ⟨List.forall_mem_cons.mpr ⟨⟨r, rfl⟩, finite⟩, ?_⟩
          rw [atReal_cons, atReal_cons, value]
          ring

theorem atReal_foldl_add (es : List (Nat × Rat)) {row : SparseRow Extended} (h : row.IsFinite) :
    atReal ((es.map fun e => (e.1, Extended.finite e.2)).foldl (fun row e => add e.1 e.2 row) row)
      x = row.atReal x + (es.map fun e => (e.2 : ℝ) * x e.1).sum := by
  induction es generalizing row with
  | nil => simp
  | cons e es ih =>
      obtain ⟨finite, value⟩ := atReal_add (x := x) h e.1 e.2
      rw [List.map_cons, List.foldl_cons, ih finite, value, List.map_cons, List.sum_cons, add_assoc]

/-- The row of a list of entries has the value of the entries one by one. -/
theorem atReal_ofEntries (es : List (Nat × Rat)) :
    atReal (ofEntries (es.map fun e => (e.1, .finite e.2))) x =
      (es.map fun e => (e.2 : ℝ) * x e.1).sum := by
  have none : IsFinite [] := by simp [IsFinite]
  have value := atReal_foldl_add (x := x) es none
  rwa [show atReal [] x = 0 from rfl, zero_add] at value

end SparseRow

/-! ## Constraints and bounds over the extended reals -/

/-- The value of an expression where variables have real numbers. -/
noncomputable def Expression.totalReal (e : Expression) (x : Key → ℝ) : ℝ :=
  (e.terms.items.map fun t => (t.coefficient.toRat : ℝ) * x t.var.key).sum

def Relation.HoldsIn : Relation → EReal → EReal → Prop
  | le, a, b => a ≤ b
  | eq, a, b => a = b
  | ge, a, b => b ≤ a

namespace Constraint

/-- The value of the left-hand side stands in the relation to the right-hand side. -/
def MetAt (c : Constraint) (x : Key → ℝ) : Prop :=
  c.relation.HoldsIn (c.lhs.totalReal x) c.rhs.extended.toEReal

/-- Some real number stands in the relation to the right-hand side. -/
def Attainable (c : Constraint) : Prop :=
  ∃ a : ℝ, c.relation.HoldsIn a c.rhs.extended.toEReal

end Constraint

namespace Declarations

variable {d : Declarations}

/-- A lower bound of a variable, if it has one, is at most a number. -/
def LowerMet (d : Declarations) (v : Value) (a : ℝ) : Prop :=
  ∀ b, d.lowers.get? v = some b → b.extended.toEReal ≤ a

/-- An upper bound of a variable, if it has one, is at least a number. -/
def UpperMet (d : Declarations) (v : Value) (a : ℝ) : Prop :=
  ∀ b, d.uppers.get? v = some b → a ≤ b.extended.toEReal

/-- A point holds, in the column of every variable, the real number that an assignment gives it. -/
def ReadsReal (d : Declarations) (x : Key → ℝ) (y : Nat → ℝ) : Prop :=
  ∀ v j, d.index.get? v = some j → y j.toNat = x v.key

end Declarations

namespace Problem

/-- Every constraint and every bound is met. -/
structure MetAt (p : Problem) (x : Key → ℝ) : Prop where
  constraints : ∀ c ∈ p.constraints.items, c.MetAt x
  lower : ∀ v ∈ p.variableList, p.LowerMet v (x v.key)
  upper : ∀ v ∈ p.variableList, p.UpperMet v (x v.key)

/-- A linear program over real variables: coefficients are finite, and right-hand sides and bounds
are numbers that may be infinite. -/
structure LinearData (p : Problem) : Prop where
  real : ∀ v ∈ p.variableList, p.domainOf v = .real
  coefficients : ∀ c ∈ p.constraints.items, ∀ t ∈ c.lhs.terms.items, t.coefficient.ReadsFinite
  sides : ∀ c ∈ p.constraints.items, c.rhs.ReadsExtended
  costs : ∀ e, p.objective = some e → ∀ t ∈ e.terms.items, t.coefficient.ReadsFinite
  lower : ∀ v ∈ p.variableList, ∀ b, p.lowers.get? v = some b → b.ReadsExtended
  upper : ∀ v ∈ p.variableList, ∀ b, p.uppers.get? v = some b → b.ReadsExtended

end Problem

/-! ## Columns -/

namespace Declarations

variable {d : Declarations} {v : Value}

/-- The lower side of the column of a real variable. -/
def lowerSide (d : Declarations) (v : Value) : Extended :=
  ((d.lowers.get? v).map Value.extended).getD .negInf

/-- The upper side of the column of a real variable. -/
def upperSide (d : Declarations) (v : Value) : Extended :=
  ((d.uppers.get? v).map Value.extended).getD .posInf

theorem lowerSide_ne (h : ∀ b, d.lowers.get? v = some b → b.ReadsExtended) :
    d.lowerSide v ≠ .notANumber := by
  unfold lowerSide
  cases hb : d.lowers.get? v with
  | none => simp
  | some b => exact h b hb

theorem upperSide_ne (h : ∀ b, d.uppers.get? v = some b → b.ReadsExtended) :
    d.upperSide v ≠ .notANumber := by
  unfold upperSide
  cases hb : d.uppers.get? v with
  | none => simp
  | some b => exact h b hb

theorem lowerSide_le_iff {a : ℝ} : (d.lowerSide v).toEReal ≤ a ↔ d.LowerMet v a := by
  unfold lowerSide LowerMet
  cases d.lowers.get? v with
  | none => simp [Extended.toEReal]
  | some b => simp

theorem le_upperSide_iff {a : ℝ} : a ≤ (d.upperSide v).toEReal ↔ d.UpperMet v a := by
  unfold upperSide UpperMet
  cases d.uppers.get? v with
  | none => simp [Extended.toEReal]
  | some b => simp

theorem side_eq_ok {absent : Extended} {b : Option Value} (h : ∀ v, b = some v → v.ReadsExtended) :
    side absent b = .ok ((b.map Value.extended).getD absent) := by
  cases b with
  | none => rfl
  | some v => exact (h v rfl).ofValue_eq

theorem column_eq_ok (real : d.domainOf v = .real)
    (lower : ∀ b, d.lowers.get? v = some b → b.ReadsExtended)
    (upper : ∀ b, d.uppers.get? v = some b → b.ReadsExtended) :
    d.column Extended v = .ok (d.lowerSide v, d.upperSide v, false) := by
  have bounds : d.effectiveBounds v = .ok ⟨d.lowers.get? v, d.uppers.get? v⟩ := by
    rw [effectiveBounds, real]
    rfl
  refine bind_eq_ok.mpr ⟨_, bounds, bind_eq_ok.mpr ⟨_, side_eq_ok lower,
    bind_eq_ok.mpr ⟨_, side_eq_ok upper, ?_⟩⟩⟩
  rw [real, Extended.numericNegInf, Extended.numericPosInf]
  rfl

section

variable {x : Key → ℝ} {y : Nat → ℝ}

/-- Every real point holds the numbers of an assignment. -/
theorem exists_readsReal (d : Declarations) (y : Nat → ℝ) : ∃ x, d.ReadsReal x y := by
  refine ⟨fun k => ((d.index.entries.find? fun e => e.1.key == k).map fun e => y e.2.toNat).getD 0,
    fun v j h => ?_⟩
  obtain ⟨e, he, rfl⟩ := Option.map_eq_some_iff.mp h
  dsimp only
  rw [he]
  rfl

theorem ReadsReal.at_place (reads : d.ReadsReal x y) (distinct : d.Distinct) {j : Nat} {v : Value}
    (hj : d.variableList[j]? = some v) : y j = x v.key :=
  reads v j (distinct.get?_index hj rfl)

/-- What is asked of every column at a point is asked of every variable at its number. -/
theorem ReadsReal.forall_column_iff (reads : d.ReadsReal x y) (distinct : d.Distinct)
    {side : Value → Extended} {Q : Extended → ℝ → Prop} :
    (∀ (j : Nat) a, (d.variableList.map side)[j]? = some a → Q a (y j)) ↔
      ∀ v ∈ d.variableList, Q (side v) (x v.key) := by
  constructor
  · intro all v hv
    obtain ⟨j, hj⟩ := List.getElem?_of_mem hv
    rw [← reads.at_place distinct hj]
    exact all j _ (by rw [List.getElem?_map, hj, Option.map_some])
  · intro all j a ha
    rw [List.getElem?_map] at ha
    obtain ⟨v, hj, rfl⟩ := Option.map_eq_some_iff.mp ha
    rw [reads.at_place distinct hj]
    exact all v (List.mem_of_getElem? hj)

end

/-! ## Rows -/

/-- A point holds the number of a variable in the column that a term of it was entered in. -/
theorem Entered.real {t : Term} {e : Int × Extended} (h : d.Entered t e)
    (finite : t.coefficient.ReadsFinite) : e.2 = .finite t.coefficient.toRat ∧
      ∀ x y, d.ReadsReal x y → y e.1.toNat = x t.var.key := by
  obtain ⟨j, hj, rest⟩ := bind_eq_ok.mp h.entry
  obtain ⟨c, hc, last⟩ := bind_eq_ok.mp rest
  obtain rfl : (j, c) = e := Except.ok.inj last
  obtain rfl := Except.ok.inj (hc.symm.trans finite)
  exact ⟨rfl, fun x y reads => reads _ _ (Table.require_eq_ok.mp hj).2⟩

theorem Entered.atReal_ofEntries {ts : List Term} {es : List (Int × Extended)}
    (h : List.Forall₂ d.Entered ts es) (finite : ∀ t ∈ ts, t.coefficient.ReadsFinite)
    {x : Key → ℝ} {y : Nat → ℝ} (reads : d.ReadsReal x y) :
    SparseRow.atReal (SparseRow.ofEntries (es.map fun e => (e.1.toNat, e.2))) y =
      (ts.map fun t => (t.coefficient.toRat : ℝ) * x t.var.key).sum := by
  have entries : ∃ qs : List (Nat × Rat),
      es.map (fun e => (e.1.toNat, e.2)) = qs.map (fun e => (e.1, .finite e.2)) ∧
      (qs.map fun e => (e.2 : ℝ) * y e.1) =
        ts.map fun t => (t.coefficient.toRat : ℝ) * x t.var.key := by
    induction h with
    | nil => exact ⟨[], rfl, rfl⟩
    | @cons t e ts es ht _ ih =>
        obtain ⟨head, tail⟩ := List.forall_mem_cons.mp finite
        obtain ⟨qs, hqs, value⟩ := ih tail
        obtain ⟨coefficient, place⟩ := ht.real head
        refine ⟨(e.1.toNat, t.coefficient.toRat) :: qs, by simp [hqs, coefficient], ?_⟩
        rw [List.map_cons, List.map_cons, value, place x y reads]
  obtain ⟨qs, hqs, value⟩ := entries
  rw [hqs, SparseRow.atReal_ofEntries, value]

/-- A row has the value of a constraint's expression at every real point, and the range that the
relation to the right-hand side describes. -/
structure DenotesReal (d : Declarations) (c : Constraint)
    (e : SparseRow Extended × Range Extended) : Prop where
  value : ∀ x y, d.ReadsReal x y → e.1.atReal y = c.lhs.totalReal x
  range : e.2 = c.relation.range c.rhs.extended

/-- The row of a constraint whose right-hand side may be infinite. -/
theorem exists_row (distinct : d.Distinct) {c : Constraint}
    (linear : ∃ l, c.lhs = .linear l) (terms : ∀ t ∈ c.lhs.terms.items, d.Enters t)
    (rhs : c.rhs.ReadsExtended) : ∃ r, Constraint.row d.index.require c = .ok r ∧
      (∀ e ∈ r.1, ∃ i : Nat, i < d.index.size ∧ e.1 = i) ∧
      d.DenotesReal c (SparseRow.ofEntries (r.1.map fun e => (e.1.toNat, e.2)), r.2) := by
  obtain ⟨l, hl⟩ := linear
  obtain ⟨es, hes⟩ := exists_forall₂ fun t ht => (terms t ht).exists_entered distinct
  refine ⟨(es, c.relation.range c.rhs.extended), ?_, Entered.columns hes, fun x y reads => ?_, rfl⟩
  · have entries : c.lhs.entries d.index.require = .ok es := by
      rw [hl] at hes
      rw [hl, Expression.entries, Expression.terms_linear, Series.mapM_ofList, mapM_eq_ok]
      exact hes.imp fun _ _ h => h.entry
    have range : c.range = .ok (c.relation.range c.rhs.extended) := by
      rw [Constraint.range, rhs.ofValue_eq]
      rfl
    exact bind_eq_ok.mpr ⟨_, entries, bind_eq_ok.mpr ⟨_, range, rfl⟩⟩
  · exact Entered.atReal_ofEntries hes (fun t ht => (terms t ht).finite) reads

end Declarations

/-! ## The ranged form -/

namespace Problem

variable {p : Problem} {m : Ranged Extended}

/-- A ranged form has a row for each constraint and a column for each real variable. -/
structure Spells (p : Problem) (m : Ranged Extended) : Prop where
  linear : m.isMixed = false
  lowerSides : m.rowLower.length = m.matrix.rows.length
  upperSides : m.rowUpper.length = m.matrix.rows.length
  rows : List.Forall₂ p.DenotesReal p.constraints.items (m.matrix.rows.zip m.ranges)
  lower : m.lower = p.variableList.map p.lowerSide
  upper : m.upper = p.variableList.map p.upperSide

/-- A problem with `LinearData` has a ranged form that `Spells` it. -/
theorem WellFormed.exists_spelled (h : p.WellFormed) (data : p.LinearData) :
    ∃ m, p.ranged p.index = .ok m ∧ p.Spells m := by
  obtain ⟨n, length⟩ := h.length
  have rowwise : ∀ c ∈ p.constraints.items, ∃ r, Constraint.row p.index.require c = .ok r ∧
      (∀ e ∈ r.1, ∃ i : Nat, i < p.index.size ∧ e.1 = i) ∧
      p.DenotesReal c (SparseRow.ofEntries (r.1.map fun e => (e.1.toNat, e.2)), r.2) := by
    intro c hc
    obtain ⟨l, hl, registered⟩ := h.constraints c hc
    refine Declarations.exists_row h.distinct ⟨l, hl⟩ (fun t ht => ?_) (data.sides c hc)
    exact ⟨registered t (by simpa [hl] using ht), data.coefficients c hc t ht⟩
  obtain ⟨rs, hrs⟩ := exists_forall₂ rowwise
  have places : ∀ r ∈ rs, ∀ e ∈ r.1, ∃ i : Nat, i < p.index.size ∧ e.1 = i := by
    intro r hr
    obtain ⟨i, hi⟩ := List.getElem?_of_mem hr
    obtain ⟨c, -, -, columns, -⟩ := exists_of_forall₂ hrs.flip hi
    exact columns
  have matrix : p.matrix p.index = .ok _ :=
    matrixOf_eq_ok h.complete length (hrs.imp fun _ _ h => h.1) places
  have sides : p.variableList.mapM (p.column Extended) =
      .ok (p.variableList.map fun v => (p.lowerSide v, p.upperSide v, false)) := by
    rw [mapM_eq_ok, List.forall₂_map_right_iff]
    exact List.forall₂_same.mpr fun v hv =>
      Declarations.column_eq_ok (data.real v hv) (data.lower v hv) (data.upper v hv)
  obtain ⟨cost, hcost, -⟩ := h.exists_cost data.costs
  refine ⟨_, bind_eq_ok.mpr ⟨_, Declarations.columns_index sides, bind_eq_ok.mpr ⟨_, matrix,
    bind_eq_ok.mpr ⟨_, hcost, rfl⟩⟩⟩, ⟨?_, by simp, by simp, ?_, ?_, ?_⟩⟩
  · simp [Ranged.isMixed]
  · have ranges : List.zipWith Range.mk ((rs.map (·.2)).map (·.lower))
        ((rs.map (·.2)).map (·.upper)) = rs.map (·.2) := by
      rw [List.zipWith_map, List.zipWith_self, List.map_id']
    rw [Ranged.ranges, ranges, List.zip_map', List.forall₂_map_right_iff]
    exact hrs.imp fun _ _ h => h.2.2
  · simp [Function.comp_def]
  · simp [Function.comp_def]

/-! ## Points of the ranged form -/

/-- Options have no part in what a ranged form says. -/
theorem Spells.withOptions (h : p.Spells m) (opts : Table Value) :
    p.Spells { m with options := opts } :=
  ⟨h.linear, h.lowerSides, h.upperSides, h.rows, h.lower, h.upper⟩

/-- What is asked of every row with its range is asked of every constraint. -/
theorem Spells.rows_iff (h : p.Spells m) {within : SparseRow Extended → Range Extended → Prop}
    {Q : Constraint → Prop}
    (each : ∀ c ∈ p.constraints.items, ∀ e, p.DenotesReal c e → (Q c ↔ within e.1 e.2)) :
    List.Forall₂ within m.matrix.rows m.ranges ↔ ∀ c ∈ p.constraints.items, Q c := by
  have ranged : m.matrix.rows.length = m.ranges.length := by
    simp [Ranged.ranges, h.lowerSides, h.upperSides]
  rw [forall_mem_iff_of_forall₂ h.rows each, List.forall₂_iff_zip]
  exact ⟨fun all e he => all.2 he, fun all => ⟨ranged, fun {_ _} he => all _ he⟩⟩

end Problem

theorem Relation.within_range_iff (r : Relation) {b : Extended} (number : b ≠ .notANumber) (a : ℝ) :
    ((r.range b).lower.BelowReal a ∧ (r.range b).upper.AboveReal a) ↔
      r.HoldsIn a b.toEReal := by
  cases r with
  | le => simp [range, HoldsIn, Extended.BelowReal, Extended.aboveReal_iff number]
  | eq =>
      simp only [range, HoldsIn, Extended.belowReal_iff number, Extended.aboveReal_iff number]
      exact and_comm.trans le_antisymm_iff.symm
  | ge => simp [range, HoldsIn, Extended.AboveReal, Extended.belowReal_iff number]

namespace Problem

variable {p : Problem} {m : Ranged Extended} {x : Key → ℝ} {y : Nat → ℝ}

/-- The ranged form `Encloses` a real point exactly if every constraint and every bound is met there
(`MetAt`). -/
theorem Spells.encloses_iff (h : p.Spells m) (distinct : p.Distinct) (data : p.LinearData)
    (reads : p.ReadsReal x y) : m.Encloses y ↔ p.MetAt x := by
  have rows : List.Forall₂ (fun row r => r.lower.BelowReal (row.atReal y) ∧
      r.upper.AboveReal (row.atReal y)) m.matrix.rows m.ranges ↔
        ∀ c ∈ p.constraints.items, c.MetAt x := by
    refine h.rows_iff fun c hc e denotes => ?_
    rw [denotes.range, denotes.value x y reads]
    exact (Relation.within_range_iff _ (data.sides c hc) _).symm
  have lower : (∀ (j : Nat) lo, m.lower[j]? = some lo → lo.BelowReal (y j)) ↔
      ∀ v ∈ p.variableList, p.LowerMet v (x v.key) := by
    rw [h.lower, reads.forall_column_iff distinct]
    refine forall₂_congr fun v hv => ?_
    rw [Extended.belowReal_iff (Declarations.lowerSide_ne (data.lower v hv)),
      Declarations.lowerSide_le_iff]
  have upper : (∀ (j : Nat) up, m.upper[j]? = some up → up.AboveReal (y j)) ↔
      ∀ v ∈ p.variableList, p.UpperMet v (x v.key) := by
    rw [h.upper, reads.forall_column_iff distinct]
    refine forall₂_congr fun v hv => ?_
    rw [Extended.aboveReal_iff (Declarations.upperSide_ne (data.upper v hv)),
      Declarations.le_upperSide_iff]
  constructor
  · rintro ⟨all, above, below⟩
    exact ⟨rows.mp all, lower.mp above, upper.mp below⟩
  · rintro ⟨all, above, below⟩
    exact ⟨rows.mpr all, lower.mpr above, upper.mpr below⟩

end Problem

end Milp
