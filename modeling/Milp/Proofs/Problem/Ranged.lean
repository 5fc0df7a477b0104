import Milp.Proofs.Encoding.Ranged
import Milp.Proofs.Problem.Optimum

/-!
# What the ranged form says

The ranged form of a problem admits the points that hold numbers with which the problem is
satisfied, and its costs are small where the objective is good.
-/

namespace Milp.Problem

variable {q : Nat → Rat}

/-- A ranged form says of every point what a problem says of the numbers that it holds. -/
structure Presents (p : Problem) (m : Ranged Extended) : Prop where
  proper : m.Proper
  maximize : m.maximize = p.isMaximize
  rowCount : m.matrix.rows.length = p.constraints.items.length
  costCount : m.cost.length = p.index.size
  columnCount : m.lower.length = p.index.size
  integrality : m.integrality = p.variableList.map fun v => if (p.domainOf v).isInt then 1 else 0
  admits : ∀ x q, p.Reads x q → (m.Admits q ↔ p.Feasible x)
  cost : ∀ x q, p.Reads x q → costAt m.cost q = .finite (p.lossAt x)

/-- Options have no part in what a ranged form says. -/
theorem Presents.withOptions {p : Problem} {m : Ranged Extended} (h : p.Presents m)
    (opts : Table Value) : p.Presents { m with options := opts } where
  proper := ⟨h.proper.lowerSides, h.proper.upperSides, h.proper.columns, h.proper.rowLower,
    h.proper.rowUpper, h.proper.lower, h.proper.upper, h.proper.value⟩
  maximize := h.maximize
  rowCount := h.rowCount
  costCount := h.costCount
  columnCount := h.columnCount
  integrality := h.integrality
  admits x q reads :=
    ⟨fun ⟨rows, columns⟩ => (h.admits x q reads).mp ⟨rows, columns⟩, fun feasible =>
      have ⟨rows, columns⟩ := (h.admits x q reads).mpr feasible
      ⟨rows, columns⟩⟩
  cost := h.cost

section

variable {p : Problem} {rows : RangedRows Extended} {columns : Columns Extended}
  {cost : List Extended}

theorem Denotes.counts (h : p.Denotes rows columns cost) :
    rows.matrix.rows.length = rows.ranges.length :=
  h.rowCount.trans h.rangeCount.symm

theorem Denotes.exists_constraint (h : p.Denotes rows columns cost)
    {e : SparseRow Extended × Range Extended} (he : e ∈ rows.matrix.rows.zip rows.ranges) :
    ∃ c ∈ p.constraints.items, p.toDeclarations.Denotes e.1 e.2 c := by
  obtain ⟨i, hi⟩ := List.getElem?_of_mem he
  obtain ⟨hrow, hrange⟩ := List.getElem?_zip_eq_some.mp hi
  obtain ⟨hlt, -⟩ := List.getElem?_eq_some_iff.mp hrow
  have hc := List.getElem?_eq_getElem (h.rowCount ▸ hlt : i < p.constraints.items.length)
  obtain ⟨row, range, hrow', hrange', denotes, -⟩ := h.row i _ hc
  obtain rfl := Option.some.inj (hrow.symm.trans hrow')
  obtain rfl := Option.some.inj (hrange.symm.trans hrange')
  exact ⟨_, List.mem_of_getElem? hc, denotes⟩

theorem Denotes.exists_row (h : p.Denotes rows columns cost) {c : Constraint}
    (hc : c ∈ p.constraints.items) :
    ∃ e ∈ rows.matrix.rows.zip rows.ranges, p.toDeclarations.Denotes e.1 e.2 c := by
  obtain ⟨i, hi⟩ := List.getElem?_of_mem hc
  obtain ⟨row, range, hrow, hrange, denotes, -⟩ := h.row i c hi
  exact ⟨(row, range), List.mem_of_getElem? (List.getElem?_zip_eq_some.mpr ⟨hrow, hrange⟩), denotes⟩

/-- A point is in the ranges of all rows if the constraints hold for the numbers in it. -/
theorem Denotes.rows_iff (h : p.Denotes rows columns cost) {x : Key → Rat} (reads : p.Reads x q) :
    (∀ e ∈ rows.matrix.rows.zip rows.ranges, e.2.contains (e.1.dot q) = true) ↔
      ∀ c ∈ p.constraints.items, Satisfies c x := by
  constructor
  · intro contained c hc
    obtain ⟨e, he, denotes⟩ := h.exists_row hc
    exact (denotes.contains_iff reads).mp (contained e he)
  · intro satisfied e he
    obtain ⟨c, hc, denotes⟩ := h.exists_constraint he
    exact (denotes.contains_iff reads).mpr (satisfied c hc)

theorem Denotes.isSide (h : p.Denotes rows columns cost) {range : Range Extended}
    (hrange : range ∈ rows.ranges) : range.lower.IsLowerSide ∧ range.upper.IsUpperSide := by
  rw [← List.map_snd_zip h.counts.ge] at hrange
  obtain ⟨e, he, rfl⟩ := List.mem_map.mp hrange
  obtain ⟨c, -, denotes⟩ := h.exists_constraint he
  rw [denotes.range]
  exact ⟨Relation.isLowerSide_range _ _, Relation.isUpperSide_range _ _⟩

theorem Denotes.exists_value (h : p.Denotes rows columns cost) {row : SparseRow Extended}
    (hrow : row ∈ rows.matrix.rows) (q : Nat → Rat) : ∃ a, row.dot q = .finite a := by
  rw [← List.map_fst_zip h.counts.le] at hrow
  obtain ⟨e, he, rfl⟩ := List.mem_map.mp hrow
  obtain ⟨c, -, denotes⟩ := h.exists_constraint he
  exact ⟨_, denotes.value _ q (p.reads_assignmentAt q)⟩

end

/-- `Problem.ranged` gives a form of a `WellFormed` problem with `FiniteData`, and the form `Presents`
it. -/
theorem WellFormed.exists_ranged {p : Problem} (h : p.WellFormed) (finite : p.FiniteData) :
    ∃ m, p.ranged p.index = .ok m ∧ p.Presents m := by
  obtain ⟨rows, columns, cost, hrows, hcolumns, hcost, denotes⟩ := h.exists_matrixForm finite
  have ranges : List.zipWith Range.mk (rows.ranges.map (·.lower)) (rows.ranges.map (·.upper)) =
      rows.ranges := by
    rw [List.zipWith_map, List.zipWith_self, List.map_id']
  have flags : (columns.integral.map fun b => if b then (1 : Int) else 0).map (· != 0) =
      columns.integral := by
    rw [List.map_map]
    refine (List.map_congr_left fun b _ => ?_).trans (List.map_id' _)
    cases b <;> rfl
  refine ⟨_, bind_eq_ok.mpr ⟨_, hcolumns, bind_eq_ok.mpr ⟨_, hrows,
    bind_eq_ok.mpr ⟨_, hcost, rfl⟩⟩⟩,
    ⟨⟨?_, ?_, ?_, ?_, ?_, denotes.columns.lower, denotes.columns.upper,
        fun row hrow q => denotes.exists_value hrow q⟩,
      rfl, denotes.rowCount, ?_, denotes.columns.lowerCount, ?_, fun x q reads => ?_,
      fun x q reads => ?_⟩⟩
  · simpa using denotes.counts.symm
  · simpa using denotes.counts.symm
  · exact denotes.columns.upperCount.trans denotes.columns.lowerCount.symm
  · exact List.forall_mem_map.mpr fun range hrange => (denotes.isSide hrange).1
  · exact List.forall_mem_map.mpr fun range hrange => (denotes.isSide hrange).2
  · rw [apply_ite List.length, List.length_map, ite_self, denotes.costCount]
  · simp only [denotes.columns.integral, List.map_map, Function.comp_def]
  · constructor
    · rintro ⟨contained, within⟩
      refine ⟨(denotes.rows_iff reads).mp
        (by simpa only [Ranged.ranges, ranges] using contained), ?_⟩
      exact (denotes.columns.admits x q reads).mp (by simpa only [flags] using within)
    · rintro ⟨satisfied, numbers⟩
      refine ⟨?_, ?_⟩
      · simpa only [Ranged.ranges, ranges] using (denotes.rows_iff reads).mpr satisfied
      · simpa only [flags] using (denotes.columns.admits x q reads).mpr numbers
  · have value := denotes.cost x q reads
    dsimp only
    unfold lossAt
    split
    · exact costFrom_neg value
    · exact value

end Milp.Problem
