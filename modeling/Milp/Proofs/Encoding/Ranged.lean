import Milp.Encoding.Ranged
import Milp.Proofs.Encoding.Matrix

/-!
# Ranged and split form

The points that an engine may answer with. The split form of a linear program admits the same ones
as the ranged form.
-/

namespace Milp

variable {q : Nat → Rat}

/-- A point lies in the ranges of all rows and within the columns. -/
structure Ranged.Admits (m : Ranged Extended) (q : Nat → Rat) : Prop where
  rows : ∀ e ∈ m.matrix.rows.zip m.ranges, e.2.contains (e.1.dot q) = true
  columns : Columns.Admits ⟨m.lower, m.upper, m.integrality.map (· != 0)⟩ q

/-- A point keeps every row at most at its side or equal to it, and lies between the bounds. -/
structure Split.Admits (s : Split Extended) (q : Nat → Rat) : Prop where
  upperRows : ∀ a sides, s.upperRows = some (a, sides) →
    ∀ e ∈ a.rows.zip sides, Numeric.le (e.1.dot q) e.2 = true
  equations : ∀ a sides, s.equations = some (a, sides) →
    ∀ e ∈ a.rows.zip sides, Numeric.eq (e.1.dot q) e.2 = true
  bounds : ∀ (j : Nat) b, s.bounds[j]? = some b →
    (∀ lo, b.lower = some lo → Numeric.le lo (.finite (q j)) = true) ∧
      ∀ up, b.upper = some up → Numeric.le (.finite (q j)) up = true

/-- Rows with their sides, none where there are none. -/
def sided (rows : Option (Matrix Extended × List Extended)) :
    List (SparseRow Extended × Extended) :=
  (rows.map fun e => e.1.rows.zip e.2).getD []

theorem forall_sided_iff {rows : Option (Matrix Extended × List Extended)}
    {P : SparseRow Extended × Extended → Prop} :
    (∀ a sides, rows = some (a, sides) → ∀ e ∈ a.rows.zip sides, P e) ↔ ∀ e ∈ sided rows, P e := by
  obtain _ | ⟨a, sides⟩ := rows
  · simp [sided]
  · simp [sided]

namespace Ranged

/-- What limits a row or a column is a number or an infinity that limits nothing, and every row has
a value at every point. -/
structure Proper (m : Ranged Extended) : Prop where
  lowerSides : m.rowLower.length = m.matrix.rows.length
  upperSides : m.rowUpper.length = m.matrix.rows.length
  columns : m.upper.length = m.lower.length
  rowLower : ∀ a ∈ m.rowLower, a.IsLowerSide
  rowUpper : ∀ a ∈ m.rowUpper, a.IsUpperSide
  lower : ∀ a ∈ m.lower, a.IsLowerSide
  upper : ∀ a ∈ m.upper, a.IsUpperSide
  value : ∀ row ∈ m.matrix.rows, ∀ q, ∃ a, row.dot q = .finite a

/-! ## Sides that match -/

section

variable {K : Type}

theorem getElem?_ranges {m : Ranged K} {i : Nat} {r : Range K} :
    m.ranges[i]? = some r ↔ m.rowLower[i]? = some r.lower ∧ m.rowUpper[i]? = some r.upper := by
  unfold ranges
  rw [List.getElem?_zipWith_eq_some]
  constructor
  · rintro ⟨lo, up, hlo, hup, rfl⟩
    exact ⟨hlo, hup⟩
  · rintro ⟨hlo, hup⟩
    exact ⟨_, _, hlo, hup, rfl⟩

theorem mem_rowsWhere {m : Ranged K} {test : Range K → Bool} {i : Nat} :
    i ∈ m.rowsWhere test ↔ ∃ r, m.ranges[i]? = some r ∧ test r = true := by
  unfold rowsWhere
  simp only [List.mem_map, List.mem_filter, Prod.exists, List.mem_zipIdx_iff_getElem?]
  constructor
  · rintro ⟨r, _, ⟨hr, test⟩, rfl⟩
    exact ⟨r, hr, test⟩
  · rintro ⟨r, hr, test⟩
    exact ⟨r, i, ⟨hr, test⟩, rfl⟩

/-- Every row of the matrix has a lower and an upper side. -/
structure Aligned (m : Ranged K) : Prop where
  lower : m.rowLower.length = m.matrix.rows.length
  upper : m.rowUpper.length = m.matrix.rows.length

theorem Aligned.withOptions {m : Ranged K} (h : m.Aligned) (opts : Table Value) :
    ({ m with options := opts } : Ranged K).Aligned :=
  ⟨h.lower, h.upper⟩

theorem Aligned.lt_of_mem {m : Ranged K} (h : m.Aligned) {test : Range K → Bool} {i : Nat}
    (hi : i ∈ m.rowsWhere test) : i < m.matrix.rows.length := by
  obtain ⟨r, hr, -⟩ := mem_rowsWhere.mp hi
  rw [← h.lower]
  exact (List.getElem?_eq_some_iff.mp (getElem?_ranges.mp hr).1).1

theorem checkPlaces_eq_ok {size : Nat} {places : List Nat} (h : ∀ i ∈ places, i < size) :
    checkPlaces size places = .ok () := by
  have found : places.find? (size ≤ ·) = none :=
    List.find?_eq_none.mpr fun i hi => by simpa using h i hi
  rw [checkPlaces, found]

theorem checkRows_eq_ok {m : Ranged K} {rows : List Nat}
    (h : ∀ i ∈ rows, i < m.matrix.rows.length) : m.checkRows rows = .ok () := by
  have outside : rows.filter (m.matrix.rows.length ≤ ·) = [] :=
    List.filter_eq_nil_iff.mpr fun i hi => by simpa using h i hi
  rw [checkRows, outside, List.max?_nil]

theorem stretched_eq_ok {m : Ranged K} (h : m.rowLower.length = m.rowUpper.length) :
    m.stretched = .ok m := by
  unfold stretched
  split
  · rename_i l lower
    obtain ⟨u, upper⟩ := List.length_eq_one_iff.mp (h.symm.trans (congrArg List.length lower))
    rw [upper, List.length_singleton, List.replicate_one, ← lower]
    exact congrArg (fun us => Except.ok { m with rowUpper := us }) upper.symm
  · rename_i u upper _
    obtain ⟨l, lower⟩ := List.length_eq_one_iff.mp (h.trans (congrArg List.length upper))
    rw [lower, List.length_singleton, List.replicate_one, ← upper]
    exact congrArg (fun ls => Except.ok { m with rowLower := ls }) lower.symm
  · exact if_pos h

/-- `Ranged.aligned` leaves a model as it is whose rows have their sides. -/
theorem Aligned.aligned_eq_ok [Numeric K] {m : Ranged K} (h : m.Aligned) : m.aligned = .ok m := by
  have rows (test : Range K → Bool) : m.checkRows (m.rowsWhere test) = .ok () :=
    checkRows_eq_ok fun _ => h.lt_of_mem
  have places {size : Nat} (count : size = m.matrix.rows.length) (test : Range K → Bool) :
      checkPlaces size (m.rowsWhere test) = .ok () :=
    checkPlaces_eq_ok fun _ hi => count ▸ h.lt_of_mem hi
  refine bind_eq_ok.mpr ⟨m, stretched_eq_ok (h.lower.trans h.upper.symm), ?_⟩
  refine bind_eq_ok.mpr ⟨(), rows _, bind_eq_ok.mpr ⟨(), rows _, ?_⟩⟩
  refine bind_eq_ok.mpr ⟨(), places h.upper _, bind_eq_ok.mpr ⟨(), places h.lower _, ?_⟩⟩
  exact bind_eq_ok.mpr ⟨(), rows _, bind_eq_ok.mpr ⟨(), places h.upper _, rfl⟩⟩

theorem exists_of_stretched {m m' : Ranged K} (h : m.stretched = .ok m') :
    ∃ lower upper, m' = { m with rowLower := lower, rowUpper := upper } := by
  unfold stretched at h
  split at h
  · exact ⟨_, _, (Except.ok.inj h).symm⟩
  · exact ⟨_, _, (Except.ok.inj h).symm⟩
  · split at h
    · exact ⟨_, _, (Except.ok.inj h).symm⟩
    · cases h

/-- `Ranged.aligned` changes nothing of a model but the sides of its rows. -/
theorem exists_of_aligned [Numeric K] {m m' : Ranged K} (h : m.aligned = .ok m') :
    ∃ lower upper, m' = { m with rowLower := lower, rowUpper := upper } := by
  obtain ⟨m₁, stretched, h⟩ := bind_eq_ok.mp h
  obtain ⟨_, -, h⟩ := bind_eq_ok.mp h
  obtain ⟨_, -, h⟩ := bind_eq_ok.mp h
  obtain ⟨_, -, h⟩ := bind_eq_ok.mp h
  obtain ⟨_, -, h⟩ := bind_eq_ok.mp h
  obtain ⟨_, -, h⟩ := bind_eq_ok.mp h
  obtain ⟨_, -, h⟩ := bind_eq_ok.mp h
  obtain rfl := Except.ok.inj h
  exact exists_of_stretched stretched

end

theorem Proper.aligned {m : Ranged Extended} (h : m.Proper) : m.Aligned :=
  ⟨h.lowerSides, h.upperSides⟩

/-! ## Rows that were selected -/

section

variable {α β : Type}

theorem mem_zip_select {xs : List α} {ys : List β} (h : xs.length = ys.length) {is : List Nat}
    {e : α × β} :
    e ∈ (select xs is).zip (select ys is) ↔ ∃ i ∈ is, xs[i]? = some e.1 ∧ ys[i]? = some e.2 := by
  induction is with
  | nil => simp [select]
  | cons i is ih =>
      by_cases hi : i < xs.length
      · have hx := List.getElem?_eq_getElem hi
        have hy := List.getElem?_eq_getElem (h ▸ hi : i < ys.length)
        simp only [select, List.filterMap_cons, hx, hy, List.zip_cons_cons, List.mem_cons,
          exists_eq_or_imp] at ih ⊢
        rw [ih]
        refine or_congr_left ?_
        rw [Prod.ext_iff, Option.some.injEq, Option.some.injEq]
        exact and_congr eq_comm eq_comm
      · have hx := List.getElem?_eq_none (not_lt.mp hi)
        have hy := List.getElem?_eq_none (h ▸ not_lt.mp hi : ys.length ≤ i)
        simp only [select, List.filterMap_cons, hx, hy, List.mem_cons, exists_eq_or_imp] at ih ⊢
        rw [ih]
        simp

end

theorem dot_negated {row : SparseRow Extended} {a : Rat} (h : row.dot q = .finite a) :
    (negated row).dot q = .finite (-a) := by
  induction row generalizing a with
  | nil =>
      obtain rfl := Extended.finite.inj h
      simp [negated]
  | cons e es ih =>
      obtain ⟨r, b, hr, hb, rfl⟩ := SparseRow.dot_cons_eq_finite.mp h
      refine SparseRow.dot_cons_eq_finite.mpr ⟨-r, -b, ?_, ih hb, ?_⟩
      · change -e.2 = _
        rw [hr, Extended.neg_finite]
      · change -r * q e.1 + -b = _
        ring

/-- A value lies in a range if it keeps to the sides that are split off it. -/
theorem contains_iff {r : Range Extended} (lower : r.lower.IsLowerSide)
    (upper : r.upper.IsUpperSide) (a : Rat) :
    r.contains (.finite a) = true ↔
      (isEquation r = true → Numeric.eq (.finite a) r.upper = true) ∧
      (hasUpper r = true → Numeric.le (.finite a) r.upper = true) ∧
      (hasLower r = true → Numeric.le (.finite (-a)) (-r.lower) = true) := by
  obtain ⟨lo, up⟩ := r
  rcases lower with rfl | ⟨l, rfl⟩ <;> rcases upper with rfl | ⟨u, rfl⟩
  · simp [Range.contains, isEquation, hasUpper, hasLower, Numeric.isFinite, Extended.isFinite]
  · simp [Range.contains, isEquation, hasUpper, hasLower, Numeric.isFinite, Extended.isFinite]
  · simp [Range.contains, isEquation, hasUpper, hasLower, Numeric.isFinite, Extended.isFinite,
      Numeric.eq, Extended.eq]
  · by_cases h : l = u
    · subst h
      simp only [Range.contains, isEquation, hasUpper, hasLower, Numeric.isFinite,
        Extended.isFinite, Numeric.eq, Extended.eq, Extended.view_eq, Extended.le_finite,
        Bool.and_eq_true]
      simpa using le_antisymm_iff.symm.trans eq_comm
    · simp [Range.contains, isEquation, hasUpper, hasLower, Numeric.isFinite, Extended.isFinite,
        Numeric.eq, Extended.eq, h]
      exact and_comm

/-! ## The split form -/

section

variable {m : Ranged Extended}

theorem mem_zip_ranges {row : SparseRow Extended} {r : Range Extended} :
    (row, r) ∈ m.matrix.rows.zip m.ranges ↔
      ∃ i : Nat, m.matrix.rows[i]? = some row ∧ m.ranges[i]? = some r := by
  simp only [List.mem_iff_getElem?, List.getElem?_zip_eq_some]

theorem length_select {α β : Type} {xs : List α} {ys : List β} (h : xs.length = ys.length)
    (is : List Nat) : (select xs is).length = (select ys is).length := by
  induction is with
  | nil => rfl
  | cons i is ih =>
      by_cases hi : i < xs.length
      · have hx := List.getElem?_eq_getElem hi
        have hy := List.getElem?_eq_getElem (h ▸ hi : i < ys.length)
        simpa [select, hx, hy] using ih
      · have hx := List.getElem?_eq_none (not_lt.mp hi)
        have hy := List.getElem?_eq_none (h ▸ not_lt.mp hi : ys.length ≤ i)
        simpa [select, hx, hy] using ih

theorem forall_select_iff {sides : List Extended} (h : m.matrix.rows.length = sides.length)
    {test : Range Extended → Bool} {P : SparseRow Extended × Extended → Prop} :
    (∀ e ∈ (select m.matrix.rows (m.rowsWhere test)).zip (select sides (m.rowsWhere test)), P e) ↔
      ∀ (i : Nat) r row s, m.matrix.rows[i]? = some row → m.ranges[i]? = some r → test r = true →
        sides[i]? = some s → P (row, s) := by
  constructor
  · intro all i r row s hrow hr test hs
    exact all _ ((mem_zip_select h).mpr ⟨i, mem_rowsWhere.mpr ⟨r, hr, test⟩, hrow, hs⟩)
  · rintro all ⟨row, s⟩ he
    obtain ⟨i, hi, hrow, hs⟩ := (mem_zip_select h).mp he
    obtain ⟨r, hr, test⟩ := mem_rowsWhere.mp hi
    exact all i r row s hrow hr test hs

theorem length_select_of_forall {α : Type} {xs : List α} {is : List Nat}
    (h : ∀ i ∈ is, ∃ x, xs[i]? = some x) : (select xs is).length = is.length := by
  induction is with
  | nil => rfl
  | cons i is ih =>
      obtain ⟨⟨x, hx⟩, tail⟩ := List.forall_mem_cons.mp h
      simpa [select, hx] using ih tail

theorem length_select_sides (test : Range Extended → Bool) :
    (select m.rowLower (m.rowsWhere test)).length = (m.rowsWhere test).length ∧
      (select m.rowUpper (m.rowsWhere test)).length = (m.rowsWhere test).length := by
  have sides : ∀ i ∈ m.rowsWhere test, (∃ lo, m.rowLower[i]? = some lo) ∧
      ∃ up, m.rowUpper[i]? = some up := by
    intro i hi
    obtain ⟨r, hr, -⟩ := mem_rowsWhere.mp hi
    obtain ⟨lower, upper⟩ := getElem?_ranges.mp hr
    exact ⟨⟨_, lower⟩, ⟨_, upper⟩⟩
  exact ⟨length_select_of_forall fun i hi => (sides i hi).1,
    length_select_of_forall fun i hi => (sides i hi).2⟩

theorem upperRows_split (m : Ranged Extended) :
    m.split.upperRows =
      if (m.rowsWhere hasUpper).isEmpty && (m.rowsWhere hasLower).isEmpty then none
      else some (⟨m.matrix.width, select m.matrix.rows (m.rowsWhere hasUpper) ++
          (select m.matrix.rows (m.rowsWhere hasLower)).map negated⟩,
        select m.rowUpper (m.rowsWhere hasUpper) ++
          (select m.rowLower (m.rowsWhere hasLower)).map fun x => -x) := rfl

theorem equations_split (m : Ranged Extended) :
    m.split.equations = if (m.rowsWhere isEquation).isEmpty then none
      else some (⟨m.matrix.width, select m.matrix.rows (m.rowsWhere isEquation)⟩,
        select m.rowUpper (m.rowsWhere isEquation)) := rfl

/-- There are as many split rows with upper sides as finite sides of ranges. -/
theorem count_split_upperRows (m : Ranged Extended) :
    (m.split.upperRows.map (·.2.length)).getD 0 =
      (m.rowsWhere hasUpper).length + (m.rowsWhere hasLower).length := by
  rw [upperRows_split]
  split
  · rename_i none
    obtain ⟨uppers, lowers⟩ := Bool.and_eq_true_iff.mp none
    simp [List.isEmpty_iff.mp uppers, List.isEmpty_iff.mp lowers]
  · simp [length_select_sides]

/-- There are as many split equations as ranges of a single number. -/
theorem count_split_equations (m : Ranged Extended) :
    (m.split.equations.map (·.2.length)).getD 0 = (m.rowsWhere isEquation).length := by
  rw [equations_split]
  split
  · rename_i none
    simp [List.isEmpty_iff.mp none]
  · simp [length_select_sides]

theorem sided_equations_split (m : Ranged Extended) :
    sided m.split.equations = (select m.matrix.rows (m.rowsWhere isEquation)).zip
      (select m.rowUpper (m.rowsWhere isEquation)) := by
  rw [equations_split]
  split
  · rename_i none
    simp [sided, List.isEmpty_iff.mp none, select]
  · rfl

theorem sided_upperRows_split (upperSides : m.rowUpper.length = m.matrix.rows.length) :
    sided m.split.upperRows =
      (select m.matrix.rows (m.rowsWhere hasUpper)).zip
        (select m.rowUpper (m.rowsWhere hasUpper)) ++
      ((select m.matrix.rows (m.rowsWhere hasLower)).zip
        (select m.rowLower (m.rowsWhere hasLower))).map fun e => (negated e.1, -e.2) := by
  rw [upperRows_split]
  split
  · rename_i none
    obtain ⟨uppers, lowers⟩ := Bool.and_eq_true_iff.mp none
    simp [sided, List.isEmpty_iff.mp uppers, List.isEmpty_iff.mp lowers, select]
  · simp only [sided, Option.map_some, Option.getD_some]
    rw [List.zip_append (length_select upperSides.symm _), List.zip_map]
    rfl

/-- What is asked of every row with the sides of its range is asked of the rows that were split off,
each with its own side. -/
theorem split_rows_iff (lowerSides : m.rowLower.length = m.matrix.rows.length)
    (upperSides : m.rowUpper.length = m.matrix.rows.length)
    (below equals : SparseRow Extended → Extended → Prop)
    (within : SparseRow Extended → Range Extended → Prop)
    (rowwise : ∀ row r, (row, r) ∈ m.matrix.rows.zip m.ranges →
      (within row r ↔ (isEquation r = true → equals row r.upper) ∧
        (hasUpper r = true → below row r.upper) ∧
        (hasLower r = true → below (negated row) (-r.lower)))) :
    ((∀ a sides, m.split.upperRows = some (a, sides) → ∀ e ∈ a.rows.zip sides, below e.1 e.2) ∧
      ∀ a sides, m.split.equations = some (a, sides) → ∀ e ∈ a.rows.zip sides, equals e.1 e.2) ↔
    ∀ e ∈ m.matrix.rows.zip m.ranges, within e.1 e.2 := by
  -- Every row is split by itself; which rows are selected depends on their own ranges only.
  have parts (i : Nat) row r (hrow : m.matrix.rows[i]? = some row) (hr : m.ranges[i]? = some r) :=
    rowwise row r (mem_zip_ranges.mpr ⟨i, hrow, hr⟩)
  rw [forall_sided_iff (P := fun e => below e.1 e.2),
    forall_sided_iff (P := fun e => equals e.1 e.2),
    sided_upperRows_split upperSides, sided_equations_split, List.forall_mem_append,
    List.forall_mem_map,
    forall_select_iff (P := fun e => below e.1 e.2) upperSides.symm,
    forall_select_iff (P := fun e => equals e.1 e.2) upperSides.symm,
    forall_select_iff (P := fun e => below (negated e.1) (-e.2)) lowerSides.symm]
  constructor
  · rintro ⟨⟨uppers, lowers⟩, equations⟩ ⟨row, r⟩ he
    obtain ⟨i, hrow, hr⟩ := mem_zip_ranges.mp he
    obtain ⟨hlo, hup⟩ := getElem?_ranges.mp hr
    exact (parts i row r hrow hr).mpr ⟨fun test => equations i r row _ hrow hr test hup,
      fun test => uppers i r row _ hrow hr test hup, fun test => lowers i r row _ hrow hr test hlo⟩
  · intro all
    have each (i : Nat) row r (hrow : m.matrix.rows[i]? = some row) (hr : m.ranges[i]? = some r) :=
      (parts i row r hrow hr).mp (all _ (mem_zip_ranges.mpr ⟨i, hrow, hr⟩))
    refine ⟨⟨fun i r row s hrow hr test hs => ?_, fun i r row s hrow hr test hs => ?_⟩,
      fun i r row s hrow hr test hs => ?_⟩
    · obtain rfl := Option.some.inj (hs.symm.trans (getElem?_ranges.mp hr).2)
      exact (each i row r hrow hr).2.1 test
    · obtain rfl := Option.some.inj (hs.symm.trans (getElem?_ranges.mp hr).1)
      exact (each i row r hrow hr).2.2 test
    · obtain rfl := Option.some.inj (hs.symm.trans (getElem?_ranges.mp hr).2)
      exact (each i row r hrow hr).1 test

theorem eq_of_finiteBound {a b : Extended} (h : finiteBound a = some b) : a = b := by
  unfold finiteBound at h
  split at h
  · cases h
  · exact Option.some.inj h

theorem finiteBound_lower_iff {lo : Extended} (h : lo.IsLowerSide) {P : Extended → Prop}
    (free : P .negInf) : (∀ l, finiteBound lo = some l → P l) ↔ P lo := by
  rcases h with rfl | ⟨l, rfl⟩
  · simpa [finiteBound, Numeric.isInfinite, Extended.isInfinite] using free
  · simp [finiteBound, Numeric.isInfinite, Extended.isInfinite]

theorem finiteBound_upper_iff {up : Extended} (h : up.IsUpperSide) {P : Extended → Prop}
    (free : P .posInf) : (∀ u, finiteBound up = some u → P u) ↔ P up := by
  rcases h with rfl | ⟨u, rfl⟩
  · simpa [finiteBound, Numeric.isInfinite, Extended.isInfinite] using free
  · simp [finiteBound, Numeric.isInfinite, Extended.isInfinite]

/-- What is asked of the bounds that were split off is asked of the sides of columns that were not
left out. -/
theorem bounds_split_iff (columns : m.upper.length = m.lower.length)
    (above below : Nat → Extended → Prop) :
    (∀ (j : Nat) b, m.split.bounds[j]? = some b →
      (∀ lo, b.lower = some lo → above j lo) ∧ ∀ up, b.upper = some up → below j up) ↔
    (∀ (j : Nat) lo, m.lower[j]? = some lo → ∀ l, finiteBound lo = some l → above j l) ∧
      ∀ (j : Nat) up, m.upper[j]? = some up → ∀ u, finiteBound up = some u → below j u := by
  have bound : ∀ (j : Nat) b, m.split.bounds[j]? = some b ↔
      ∃ lo up, m.lower[j]? = some lo ∧ m.upper[j]? = some up ∧
        ⟨finiteBound lo, finiteBound up⟩ = b :=
    fun j b => List.getElem?_zipWith_eq_some
  constructor
  · intro bounds
    refine ⟨fun j lo hlo => ?_, fun j up hup => ?_⟩
    · obtain ⟨hj, -⟩ := List.getElem?_eq_some_iff.mp hlo
      have hup := List.getElem?_eq_getElem (columns ▸ hj : j < m.upper.length)
      exact (bounds j _ ((bound j _).mpr ⟨lo, _, hlo, hup, rfl⟩)).1
    · obtain ⟨hj, -⟩ := List.getElem?_eq_some_iff.mp hup
      have hlo := List.getElem?_eq_getElem (columns ▸ hj : j < m.lower.length)
      exact (bounds j _ ((bound j _).mpr ⟨_, up, hlo, hup, rfl⟩)).2
  · rintro ⟨lowers, uppers⟩ j b hb
    obtain ⟨lo, up, hlo, hup, rfl⟩ := (bound j b).mp hb
    exact ⟨lowers j lo hlo, uppers j up hup⟩

/-- What is asked of the sides of every column is asked of the bounds that were split off, which
leave out the infinities. -/
theorem split_bounds_iff (h : m.Proper) (above below : Nat → Extended → Prop)
    (free : ∀ j, above j .negInf ∧ below j .posInf) :
    (∀ (j : Nat) b, m.split.bounds[j]? = some b →
      (∀ lo, b.lower = some lo → above j lo) ∧ ∀ up, b.upper = some up → below j up) ↔
    (∀ (j : Nat) lo, m.lower[j]? = some lo → above j lo) ∧
      ∀ (j : Nat) up, m.upper[j]? = some up → below j up := by
  rw [bounds_split_iff h.columns]
  refine and_congr (forall₃_congr fun j lo hlo => ?_) (forall₃_congr fun j up hup => ?_)
  · exact finiteBound_lower_iff (h.lower lo (List.mem_of_getElem? hlo)) (P := above j) (free j).1
  · exact finiteBound_upper_iff (h.upper up (List.mem_of_getElem? hup)) (P := below j) (free j).2

theorem Proper.isSide (h : m.Proper) {row : SparseRow Extended} {r : Range Extended}
    (he : (row, r) ∈ m.matrix.rows.zip m.ranges) :
    row ∈ m.matrix.rows ∧ r.lower.IsLowerSide ∧ r.upper.IsUpperSide := by
  obtain ⟨i, hrow, hr⟩ := mem_zip_ranges.mp he
  obtain ⟨hlo, hup⟩ := getElem?_ranges.mp hr
  exact ⟨List.mem_of_getElem? hrow, h.rowLower _ (List.mem_of_getElem? hlo),
    h.rowUpper _ (List.mem_of_getElem? hup)⟩

theorem admits_split_rows (h : m.Proper) :
    ((∀ a sides, m.split.upperRows = some (a, sides) →
      ∀ e ∈ a.rows.zip sides, Numeric.le (e.1.dot q) e.2 = true) ∧
    ∀ a sides, m.split.equations = some (a, sides) →
      ∀ e ∈ a.rows.zip sides, Numeric.eq (e.1.dot q) e.2 = true) ↔
    ∀ e ∈ m.matrix.rows.zip m.ranges, e.2.contains (e.1.dot q) = true := by
  refine split_rows_iff h.lowerSides h.upperSides
    (fun row side => Numeric.le (row.dot q) side = true)
    (fun row side => Numeric.eq (row.dot q) side = true)
    (fun row r => r.contains (row.dot q) = true) ?_
  intro row r he
  obtain ⟨mem, lower, upper⟩ := h.isSide he
  obtain ⟨a, ha⟩ := h.value row mem q
  rw [ha, dot_negated ha]
  exact contains_iff lower upper a

theorem admits_split_bounds (h : m.Proper) (linear : m.isMixed = false) :
    (∀ (j : Nat) b, m.split.bounds[j]? = some b →
      (∀ lo, b.lower = some lo → Numeric.le lo (.finite (q j)) = true) ∧
        ∀ up, b.upper = some up → Numeric.le (.finite (q j)) up = true) ↔
    Columns.Admits ⟨m.lower, m.upper, m.integrality.map (· != 0)⟩ q := by
  rw [split_bounds_iff h (fun j lo => Numeric.le lo (.finite (q j)) = true)
    (fun j up => Numeric.le (.finite (q j)) up = true) fun _ => ⟨rfl, rfl⟩]
  constructor
  · rintro ⟨lower, upper⟩
    refine ⟨lower, upper, fun j hj => ?_⟩
    obtain ⟨n, hn, integral⟩ := List.mem_map.mp (List.mem_of_getElem? hj)
    have some_integral : m.isMixed = true := List.any_eq_true.mpr ⟨n, hn, integral⟩
    rw [linear] at some_integral
    cases some_integral
  · rintro ⟨lower, upper, -⟩
    exact ⟨lower, upper⟩

/-- `Ranged.split` admits the same points as the ranged form. -/
theorem admits_split_iff (h : m.Proper) (linear : m.isMixed = false) :
    m.split.Admits q ↔ m.Admits q := by
  constructor
  · rintro ⟨upper, equations, bounds⟩
    exact ⟨(admits_split_rows h).mp ⟨upper, equations⟩, (admits_split_bounds h linear).mp bounds⟩
  · rintro ⟨rows, columns⟩
    obtain ⟨upper, equations⟩ := (admits_split_rows h).mpr rows
    exact ⟨upper, equations, (admits_split_bounds h linear).mpr columns⟩

end

end Ranged

end Milp
