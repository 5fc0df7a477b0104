import Milp.Proofs.Encoding.Ranged

/-!
# Multipliers

The numbers that weigh the rows and bounds of a split program at a best point. The rows of the
ranged form are weighed by them as well: a row is given the numbers of the parts that were split off
it, that of its lower side with the other sign.
-/

namespace Milp

variable {q : Nat → Rat} {j : Nat}

/-! ## Rows with weights -/

namespace SparseRow

/-- The coefficient that a row has in a column. -/
def coefficient (row : SparseRow Extended) (j : Nat) : Rat :=
  (row.map fun e => if e.1 = j then e.2.toRat?.getD 0 else 0).sum

/-- The coefficient in a column of the sum of rows with weights. -/
def weigh (rows : List (SparseRow Extended)) (ys : List Rat) (j : Nat) : Rat :=
  (List.zipWith (fun row y => coefficient row j * y) rows ys).sum

theorem coefficient_negated (row : SparseRow Extended) (j : Nat) :
    coefficient (Ranged.negated row) j = -coefficient row j := by
  induction row with
  | nil => rfl
  | cons e es ih =>
      simp only [coefficient, Ranged.negated, List.map_cons, List.sum_cons] at ih ⊢
      rw [ih, Extended.toRat_neg, neg_add]
      split <;> simp

theorem weigh_negated (rows : List (SparseRow Extended)) (ys : List Rat) :
    weigh (rows.map Ranged.negated) ys j = weigh rows (ys.map fun y => -y) j := by
  simp [weigh, List.zipWith_map_left, List.zipWith_map_right, coefficient_negated]

theorem weigh_neg (rows : List (SparseRow Extended)) (ys : List Rat) :
    weigh rows (ys.map fun y => -y) j = -weigh rows ys j := by
  induction rows generalizing ys with
  | nil => exact neg_zero.symm
  | cons row rows ih =>
      cases ys with
      | nil => exact neg_zero.symm
      | cons y ys =>
          have later := ih ys
          simp only [weigh, List.map_cons, List.zipWith_cons_cons, List.sum_cons] at later ⊢
          rw [later]
          ring

theorem weigh_append {rows rows' : List (SparseRow Extended)} {ys ys' : List Rat}
    (h : rows.length = ys.length) :
    weigh (rows ++ rows') (ys ++ ys') j = weigh rows ys j + weigh rows' ys' j := by
  rw [weigh, List.zipWith_append h, List.sum_append]
  rfl

@[simp] theorem weigh_zeros (rows : List (SparseRow Extended)) (n : Nat) :
    weigh rows (List.replicate n 0) j = 0 := by
  induction rows generalizing n with
  | nil => rfl
  | cons row rows ih =>
      cases n with
      | zero => rfl
      | succ n => simpa [weigh, List.replicate_succ] using ih n

/-- What is added to a weight counts as often as the row has the column. -/
theorem weigh_modify {rows : List (SparseRow Extended)} {ys : List Rat} {i : Nat}
    {row : SparseRow Extended} (hrow : rows[i]? = some row) (hi : i < ys.length) (y : Rat) :
    weigh rows (ys.modify i (· + y)) j = weigh rows ys j + coefficient row j * y := by
  induction rows generalizing i ys with
  | nil => cases hrow
  | cons row' rows ih =>
      cases ys with
      | nil => cases hi
      | cons y' ys =>
          cases i with
          | zero =>
              obtain rfl : row' = row := by simpa using hrow
              simp only [weigh, List.modify_zero_cons, List.zipWith_cons_cons, List.sum_cons]
              ring
          | succ i =>
              have later := ih (by simpa using hrow) (by simpa using hi)
              simp only [weigh, List.modify_succ_cons, List.zipWith_cons_cons,
                List.sum_cons] at later ⊢
              rw [later, add_assoc]

end SparseRow

/-! ## Numbers sent to places -/

/-- Numbers are added to the entries at places, one after the other. -/
def deposit (xs : List Rat) (places : List Nat) (ys : List Rat) : List Rat :=
  (places.zip ys).foldl (fun xs z => xs.modify z.1 (· + z.2)) xs

@[simp] theorem length_deposit (xs : List Rat) (places : List Nat) (ys : List Rat) :
    (deposit xs places ys).length = xs.length := by
  unfold deposit
  induction places.zip ys generalizing xs with
  | nil => rfl
  | cons z zs ih => exact (ih _).trans (List.length_modify _ _ _)

/-- What holds of entries before and is kept by every number that is sent to their places holds of
them in the end. -/
theorem forall_deposit {P : Nat → Rat → Prop} {xs : List Rat} {places : List Nat} {ys : List Rat}
    (start : ∀ (i : Nat) a, xs[i]? = some a → P i a)
    (step : ∀ z ∈ places.zip ys, ∀ a, P z.1 a → P z.1 (a + z.2)) :
    ∀ (i : Nat) a, (deposit xs places ys)[i]? = some a → P i a := by
  unfold deposit
  generalize places.zip ys = sent at step ⊢
  induction sent generalizing xs with
  | nil => exact start
  | cons z sent ih =>
      obtain ⟨head, tail⟩ := List.forall_mem_cons.mp step
      refine ih (fun i a ha => ?_) tail
      rw [List.getElem?_modify] at ha
      obtain ⟨b, hb, rfl⟩ := Option.map_eq_some_iff.mp ha
      split
      · rename_i here
        exact here ▸ head b (here ▸ start i b hb)
      · exact start i b hb

/-- Numbers sent to the places of rows weigh the rows that stand there. -/
theorem weigh_deposit {rows : List (SparseRow Extended)} {xs ys : List Rat} {places : List Nat}
    (size : xs.length = rows.length) (there : ∀ i ∈ places, i < rows.length)
    (count : places.length = ys.length) :
    SparseRow.weigh rows (deposit xs places ys) j =
      SparseRow.weigh rows xs j + SparseRow.weigh (Ranged.select rows places) ys j := by
  induction places generalizing xs ys with
  | nil => simp [deposit, Ranged.select, SparseRow.weigh]
  | cons i places ih =>
      obtain ⟨y, ys, rfl⟩ := List.exists_cons_of_length_eq_add_one count.symm
      obtain ⟨head, tail⟩ := List.forall_mem_cons.mp there
      have hrow := List.getElem?_eq_getElem head
      have first := SparseRow.weigh_modify hrow (size ▸ head : i < xs.length) y (j := j)
      have later : SparseRow.weigh rows (deposit (xs.modify i (· + y)) places ys) j =
          SparseRow.weigh rows (xs.modify i (· + y)) j +
            SparseRow.weigh (Ranged.select rows places) ys j :=
        ih (by simpa using size) tail (by simpa using count)
      rw [deposit, List.zip_cons_cons, List.foldl_cons, ← deposit, later, first]
      simp [Ranged.select, hrow, SparseRow.weigh, add_assoc]

/-! ## Optimality conditions -/

/-- Numbers for the rows and bounds of a split program. -/
structure Multipliers where
  upperRows : List Rat
  equations : List Rat
  lower : List Rat
  upper : List Rat

/-- The optimality conditions of a split program at a point: the costs are what the multipliers
weigh, a multiplier has the sign of its side, and none is there for a side that the point does not
lie on. -/
structure Split.Stationary (s : Split Extended) (k : Multipliers) (q : Nat → Rat) : Prop where
  cost : s.cost = (List.zipWith (· + ·) k.lower k.upper).mapIdx fun j d =>
    .finite (SparseRow.weigh ((sided s.upperRows).map (·.1)) k.upperRows j +
      SparseRow.weigh ((sided s.equations).map (·.1)) k.equations j + d)
  upperRows : List.Forall₂ (fun e y => y ≤ 0 ∧ (y ≠ 0 → e.1.dot q = e.2))
    (sided s.upperRows) k.upperRows
  equations : List.Forall₂ (fun e y => y ≠ 0 → e.1.dot q = e.2) (sided s.equations) k.equations
  lower : List.Forall₂ (fun e l => 0 ≤ l ∧ (l ≠ 0 → e.1.lower = some (.finite (q e.2))))
    s.bounds.zipIdx k.lower
  upper : List.Forall₂ (fun e u => u ≤ 0 ∧ (u ≠ 0 → e.1.upper = some (.finite (q e.2))))
    s.bounds.zipIdx k.upper

namespace Ranged

variable {m : Ranged Extended} {k : Multipliers}

/-- A weight of a row has the sign of the side that the row has, and is there only where the point
lies on a side. -/
structure RowDual (row : SparseRow Extended) (r : Range Extended) (q : Nat → Rat) (y : Rat) :
    Prop where
  nonpos : r.lower = .negInf → y ≤ 0
  nonneg : r.upper = .posInf → 0 ≤ y
  tight : y ≠ 0 → row.dot q = r.lower ∨ row.dot q = r.upper

def RowDuals (m : Ranged Extended) (q : Nat → Rat) (ys : List Rat) : Prop :=
  ∀ (i : Nat) row r y, m.matrix.rows[i]? = some row → m.ranges[i]? = some r → ys[i]? = some y →
    RowDual row r q y

/-- Weights of the rows and numbers of the columns make up the costs. The weights have the signs of
the sides, and both are there only where the point lies on a side. -/
structure Duals (m : Ranged Extended) (q : Nat → Rat) (ys ds : List Rat) : Prop where
  rowCount : ys.length = m.matrix.rows.length
  columnCount : ds.length = m.lower.length
  rows : m.RowDuals q ys
  cost : m.cost = ds.mapIdx fun j d => .finite (SparseRow.weigh m.matrix.rows ys j + d)
  column : ∀ (j : Nat) lo up d, m.lower[j]? = some lo → m.upper[j]? = some up →
    ds[j]? = some d → d ≠ 0 → lo = .finite (q j) ∨ up = .finite (q j)

/-- The multipliers of the split rows at the rows that they were split off. -/
def gathered (m : Ranged Extended) (k : Multipliers) : List Rat :=
  let count := (m.rowsWhere hasUpper).length
  let zeros := List.replicate m.matrix.rows.length 0
  let uppers := deposit zeros (m.rowsWhere hasUpper) (k.upperRows.take count)
  let sides := deposit uppers (m.rowsWhere hasLower) ((k.upperRows.drop count).map fun y => -y)
  deposit sides (m.rowsWhere isEquation) k.equations

/-! ## Numbers of the split rows -/

theorem exists_of_mem_rowsWhere (h : m.Proper) {test : Range Extended → Bool} :
    ∀ i ∈ m.rowsWhere test, ∃ row r, m.matrix.rows[i]? = some row ∧ m.ranges[i]? = some r ∧
      test r = true := by
  intro i hi
  obtain ⟨r, hr, passes⟩ := mem_rowsWhere.mp hi
  obtain ⟨hlt, -⟩ := List.getElem?_eq_some_iff.mp (getElem?_ranges.mp hr).1
  exact ⟨_, r, List.getElem?_eq_getElem (h.lowerSides ▸ hlt), hr, passes⟩

/-- What relates selected rows with their sides to numbers relates the row and the range at every
place to the number that is sent there. -/
theorem forall_sent {test : Range Extended → Bool} {side : Range Extended → Extended}
    {sides : List Extended}
    (read : ∀ (i : Nat) r, m.ranges[i]? = some r → sides[i]? = some (side r))
    {R : SparseRow Extended × Extended → Rat → Prop} {places : List Nat} {ys : List Rat}
    (there : ∀ i ∈ places, ∃ row r, m.matrix.rows[i]? = some row ∧ m.ranges[i]? = some r ∧
      test r = true)
    (h : List.Forall₂ R ((select m.matrix.rows places).zip (select sides places)) ys) :
    ∀ z ∈ places.zip ys, ∀ row r, m.matrix.rows[z.1]? = some row → m.ranges[z.1]? = some r →
      test r = true ∧ R (row, side r) z.2 := by
  induction places generalizing ys with
  | nil => simp
  | cons i places ih =>
      obtain ⟨⟨row, r, hrow, hr, passes⟩, tail⟩ := List.forall_mem_cons.mp there
      simp only [select, List.filterMap_cons, hrow, read i r hr, List.zip_cons_cons] at h ih
      obtain _ | ⟨first, later⟩ := h
      refine List.forall_mem_cons.mpr ⟨fun row' r' hrow' hr' => ?_, ih tail later⟩
      obtain rfl := Option.some.inj (hrow.symm.trans hrow')
      obtain rfl := Option.some.inj (hr.symm.trans hr')
      exact ⟨passes, first⟩

/-! ## Weights of rows -/

theorem RowDual.zero (row : SparseRow Extended) (r : Range Extended) : RowDual row r q 0 :=
  ⟨fun _ => le_rfl, fun _ => le_rfl, fun h => absurd rfl h⟩

theorem RowDual.add {row : SparseRow Extended} {r : Range Extended} {y y' : Rat}
    (h : RowDual row r q y) (h' : RowDual row r q y') : RowDual row r q (y + y') where
  nonpos lower := add_nonpos (h.nonpos lower) (h'.nonpos lower)
  nonneg upper := add_nonneg (h.nonneg upper) (h'.nonneg upper)
  tight nonzero := by
    by_cases hy : y = 0
    · exact h'.tight fun hy' => nonzero (by rw [hy, hy', add_zero])
    · exact h.tight hy

theorem RowDuals.deposit {xs ys : List Rat} {places : List Nat} (h : m.RowDuals q xs)
    (sent : ∀ z ∈ places.zip ys, ∀ row r, m.matrix.rows[z.1]? = some row →
      m.ranges[z.1]? = some r → RowDual row r q z.2) :
    m.RowDuals q (deposit xs places ys) := by
  intro i row r y hrow hr hy
  exact forall_deposit (P := fun i y => ∀ row r, m.matrix.rows[i]? = some row →
      m.ranges[i]? = some r → RowDual row r q y)
    (fun i y hy row r hrow hr => h i row r y hrow hr hy)
    (fun z hz a ha row r hrow hr => (ha row r hrow hr).add (sent z hz row r hrow hr))
    i y hy row r hrow hr

/-- The multiplier of an upper side is a weight of its row. -/
theorem rowDual_of_hasUpper {row : SparseRow Extended} {r : Range Extended} {y : Rat}
    (upper : hasUpper r = true) (sign : y ≤ 0) (tight : y ≠ 0 → row.dot q = r.upper) :
    RowDual row r q y where
  nonpos _ := sign
  nonneg infinite := by
    simp [hasUpper, infinite, Numeric.isFinite, Extended.isFinite] at upper
  tight nonzero := .inr (tight nonzero)

theorem rowDual_of_hasLower {row : SparseRow Extended} {r : Range Extended} {y : Rat}
    (lower : hasLower r = true) (sign : 0 ≤ y) (tight : y ≠ 0 → row.dot q = r.lower) :
    RowDual row r q y where
  nonpos infinite := by
    simp [hasLower, infinite, Numeric.isFinite, Extended.isFinite] at lower
  nonneg _ := sign
  tight nonzero := .inl (tight nonzero)

theorem rowDual_of_isEquation {row : SparseRow Extended} {r : Range Extended} {y : Rat}
    (equation : isEquation r = true) (tight : y ≠ 0 → row.dot q = r.upper) :
    RowDual row r q y where
  nonpos infinite := by
    simp [isEquation, infinite, Numeric.isFinite, Extended.isFinite] at equation
  nonneg infinite := by
    obtain ⟨lo, up⟩ := r
    obtain rfl : up = .posInf := infinite
    cases lo <;>
      simp [isEquation, Numeric.isFinite, Extended.isFinite, Numeric.eq, Extended.eq] at equation
  tight nonzero := .inr (tight nonzero)

/-- A row that lies on the side that was split off it below lies on its lower side. -/
theorem dot_eq_of_negated {row : SparseRow Extended} {a : Rat} (value : row.dot q = .finite a)
    {lo : Extended} (h : (negated row).dot q = -lo) : row.dot q = lo := by
  rw [dot_negated value] at h
  cases lo with
  | finite l =>
      rw [Extended.neg_finite, Extended.finite.injEq, neg_inj] at h
      rw [value, h]
  | _ => cases h

theorem length_zip_select (h : m.Proper) {sides : List Extended}
    (count : m.matrix.rows.length = sides.length) (test : Range Extended → Bool) :
    ((select m.matrix.rows (m.rowsWhere test)).zip (select sides (m.rowsWhere test))).length =
      (m.rowsWhere test).length := by
  rw [List.length_zip, ← length_select count, min_self]
  refine length_select_of_forall fun i hi => ?_
  obtain ⟨row, -, hrow, -⟩ := exists_of_mem_rowsWhere h i hi
  exact ⟨row, hrow⟩

/-- The multipliers of the parts of a split row are weights of the row. -/
theorem rowDuals_gathered (h : m.Proper) (stationary : m.split.Stationary k q) :
    m.RowDuals q (m.gathered k) := by
  have parts := stationary.upperRows
  have equations := stationary.equations
  rw [sided_upperRows_split h.upperSides] at parts
  rw [sided_equations_split] at equations
  have uppers := List.forall₂_take (m.rowsWhere hasUpper).length parts
  have lowers := List.forall₂_drop (m.rowsWhere hasUpper).length parts
  rw [List.take_left' (length_zip_select h h.upperSides.symm _)] at uppers
  rw [List.drop_left' (length_zip_select h h.upperSides.symm _),
    List.forall₂_map_left_iff] at lowers
  have opposite : List.Forall₂ (fun e y => 0 ≤ y ∧ (y ≠ 0 → (negated e.1).dot q = -e.2))
      ((select m.matrix.rows (m.rowsWhere hasLower)).zip
        (select m.rowLower (m.rowsWhere hasLower)))
      ((k.upperRows.drop (m.rowsWhere hasUpper).length).map fun y => -y) := by
    refine List.forall₂_map_right_iff.mpr (lowers.imp fun e y hy => ?_)
    exact ⟨neg_nonneg.mpr hy.1, fun nonzero => hy.2 (neg_ne_zero.mp nonzero)⟩
  have lowerAt (i : Nat) r (hr : m.ranges[i]? = some r) := (getElem?_ranges.mp hr).1
  have upperAt (i : Nat) r (hr : m.ranges[i]? = some r) := (getElem?_ranges.mp hr).2
  -- Each of the three blocks sends weights, and weights of one row add up to a weight of it.
  unfold gathered
  refine RowDuals.deposit (RowDuals.deposit (RowDuals.deposit ?_ ?_) ?_) ?_
  · intro i row r y _ _ hy
    obtain rfl := List.eq_of_mem_replicate (List.mem_of_getElem? hy)
    exact .zero row r
  · intro z hz row r hrow hr
    obtain ⟨upper, sign, tight⟩ :=
      forall_sent upperAt (exists_of_mem_rowsWhere h) uppers z hz row r hrow hr
    exact rowDual_of_hasUpper upper sign tight
  · intro z hz row r hrow hr
    obtain ⟨lower, sign, tight⟩ :=
      forall_sent lowerAt (exists_of_mem_rowsWhere h) opposite z hz row r hrow hr
    obtain ⟨a, ha⟩ := h.value row (List.mem_of_getElem? hrow) q
    exact rowDual_of_hasLower lower sign fun nonzero => dot_eq_of_negated ha (tight nonzero)
  · intro z hz row r hrow hr
    obtain ⟨equation, tight⟩ :=
      forall_sent upperAt (exists_of_mem_rowsWhere h) equations z hz row r hrow hr
    exact rowDual_of_isEquation equation tight

theorem map_fst_zip_select {sides : List Extended} (h : m.matrix.rows.length = sides.length)
    (places : List Nat) :
    ((select m.matrix.rows places).zip (select sides places)).map (·.1) =
      select m.matrix.rows places :=
  List.map_fst_zip (length_select h places).le

theorem map_fst_upperRows_split (h : m.Proper) :
    (sided m.split.upperRows).map (·.1) = select m.matrix.rows (m.rowsWhere hasUpper) ++
      (select m.matrix.rows (m.rowsWhere hasLower)).map negated := by
  have lowers := map_fst_zip_select h.lowerSides.symm (m.rowsWhere hasLower)
  rw [sided_upperRows_split h.upperSides, List.map_append, map_fst_zip_select h.upperSides.symm,
    List.map_map]
  refine congrArg (_ ++ ·) (Eq.trans ?_ (congrArg (List.map negated) lowers))
  rw [List.map_map]
  rfl

theorem length_of_stationary (h : m.Proper) (stationary : m.split.Stationary k q) :
    k.upperRows.length = (m.rowsWhere hasUpper).length + (m.rowsWhere hasLower).length ∧
      k.equations.length = (m.rowsWhere isEquation).length := by
  have parts := stationary.upperRows.length_eq
  have equations := stationary.equations.length_eq
  rw [sided_upperRows_split h.upperSides, List.length_append, List.length_map,
    length_zip_select h h.upperSides.symm, length_zip_select h h.lowerSides.symm] at parts
  rw [sided_equations_split, length_zip_select h h.upperSides.symm] at equations
  exact ⟨parts.symm, equations.symm⟩

/-- The `gathered` multipliers weigh the rows as the multipliers weigh the split rows. -/
theorem weigh_gathered (h : m.Proper) (stationary : m.split.Stationary k q) (j : Nat) :
    SparseRow.weigh m.matrix.rows (m.gathered k) j =
      SparseRow.weigh ((sided m.split.upperRows).map (·.1)) k.upperRows j +
        SparseRow.weigh ((sided m.split.equations).map (·.1)) k.equations j := by
  obtain ⟨parts, equations⟩ := length_of_stationary h stationary
  have there (test : Range Extended → Bool) :
      ∀ i ∈ m.rowsWhere test, i < m.matrix.rows.length := by
    intro i hi
    obtain ⟨row, -, hrow, -⟩ := exists_of_mem_rowsWhere h i hi
    exact (List.getElem?_eq_some_iff.mp hrow).1
  have split : SparseRow.weigh ((sided m.split.upperRows).map (·.1)) k.upperRows j =
      SparseRow.weigh (select m.matrix.rows (m.rowsWhere hasUpper))
          (k.upperRows.take (m.rowsWhere hasUpper).length) j +
        SparseRow.weigh (select m.matrix.rows (m.rowsWhere hasLower))
          ((k.upperRows.drop (m.rowsWhere hasUpper).length).map fun y => -y) j := by
    rw [map_fst_upperRows_split h, ← SparseRow.weigh_negated, ← SparseRow.weigh_append,
      List.take_append_drop]
    rw [length_select h.upperSides.symm, (length_select_sides _).2, List.length_take]
    omega
  unfold gathered
  rw [weigh_deposit (by simp) (there _) equations.symm,
    weigh_deposit (by simp) (there _) (by simp; omega),
    weigh_deposit (by simp) (there _) (by simp; omega), SparseRow.weigh_zeros, zero_add, split,
    sided_equations_split, map_fst_zip_select h.upperSides.symm]

theorem length_bounds_of_stationary (h : m.Proper) (stationary : m.split.Stationary k q) :
    k.lower.length = m.lower.length ∧ k.upper.length = m.lower.length := by
  have bounds : m.split.bounds.zipIdx.length = m.lower.length := by
    simp [split, h.columns]
  exact ⟨stationary.lower.length_eq.symm.trans bounds,
    stationary.upper.length_eq.symm.trans bounds⟩

/-- Multipliers with which `Split.Stationary` holds give `Duals` of the ranged form, by way of
`gathered`. -/
theorem duals_of_stationary (h : m.Proper) (stationary : m.split.Stationary k q) :
    m.Duals q (m.gathered k) (List.zipWith (· + ·) k.lower k.upper) := by
  obtain ⟨lowerCount, upperCount⟩ := length_bounds_of_stationary h stationary
  refine ⟨by simp [gathered], ?_, rowDuals_gathered h stationary, ?_, ?_⟩
  · rw [List.length_zipWith, lowerCount, upperCount, min_self]
  · refine stationary.cost.trans (congrArg (fun f => List.mapIdx f _) (funext₂ fun j d => ?_))
    rw [weigh_gathered h stationary]
  · intro j lo up d hlo hup hd nonzero
    obtain ⟨l, u, hl, hu, rfl⟩ := List.getElem?_zipWith_eq_some.mp hd
    have bound : m.split.bounds[j]? = some ⟨finiteBound lo, finiteBound up⟩ :=
      List.getElem?_zipWith_eq_some.mpr ⟨lo, up, hlo, hup, rfl⟩
    have place : m.split.bounds.zipIdx[j]? = some (⟨finiteBound lo, finiteBound up⟩, j) := by
      simp [List.getElem?_zipIdx, bound]
    obtain ⟨l', hl', below⟩ := exists_of_forall₂ stationary.lower place
    obtain ⟨u', hu', above⟩ := exists_of_forall₂ stationary.upper place
    obtain rfl := Option.some.inj (hl.symm.trans hl')
    obtain rfl := Option.some.inj (hu.symm.trans hu')
    by_cases zero : l = 0
    · exact .inr (eq_of_finiteBound (above.2 fun none => nonzero (by rw [zero, none, add_zero])))
    · exact .inl (eq_of_finiteBound (below.2 zero))

end Ranged

end Milp
