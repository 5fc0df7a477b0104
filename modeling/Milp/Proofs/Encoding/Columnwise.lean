import Mathlib.Algebra.BigOperators.Group.List.Lemmas
import Mathlib.Data.List.Induction
import Milp.Encoding.Columnwise
import Milp.Proofs.Encoding.Matrix

/-!
# What the column-wise form stores

The rows of a matrix have their columns in ascending order, each once, with the sum of all
coefficients that were given for it. Stored by columns, the matrix has the same entries, and can be
read back row by row.
-/

namespace Milp

variable {K : Type} [Numeric K]

/-- The sum of numbers from left to right, if there are any. -/
def leftSum? : List K → Option K
  | [] => none
  | x :: xs => some (xs.foldl (· + ·) x)

theorem leftSum?_concat (xs : List K) (x : K) :
    leftSum? (xs ++ [x]) = some ((leftSum? xs).elim x (· + x)) := by
  cases xs with
  | nil => rfl
  | cons y ys => simp [leftSum?]

/-! ## Rows in order -/

namespace SparseRow

section

variable {L : Type} {row : SparseRow L} {i j : Nat} {x y : L}

def Ascending (row : SparseRow L) : Prop :=
  row.Pairwise fun e e' => e.1 < e'.1

theorem lookup_cons_of_ne (h : j ≠ i) :
    List.lookup j ((i, y) :: row) = row.lookup j := by
  have other : (j == i) = false := by simpa using h
  rw [List.lookup_cons, other]

theorem lookup_eq_none (h : ∀ e ∈ row, e.1 ≠ j) : row.lookup j = none := by
  simp only [List.lookup_eq_none_iff, bne_iff_ne]
  exact fun e he => (h e he).symm

theorem mem_iff_lookup (h : row.Ascending) : (j, x) ∈ row ↔ row.lookup j = some x := by
  induction row with
  | nil => simp
  | cons e es ih =>
      obtain ⟨i, y⟩ := e
      obtain ⟨first, rest⟩ := List.pairwise_cons.mp h
      rw [List.mem_cons]
      by_cases hj : j = i
      · subst hj
        have once : (j, x) ∉ es := fun he => lt_irrefl j (first (j, x) he)
        simp [once, eq_comm]
      · rw [lookup_cons_of_ne hj, ← ih rest]
        simp [hj]

/-- There is at most one entry in a column. -/
theorem filter_column (h : row.Ascending) (j : Nat) :
    (row.filter fun e => e.1 == j) = ((row.lookup j).map fun x => (j, x)).toList := by
  induction row with
  | nil => rfl
  | cons e es ih =>
      obtain ⟨i, y⟩ := e
      obtain ⟨first, rest⟩ := List.pairwise_cons.mp h
      by_cases hj : j = i
      · subst hj
        have none : (es.filter fun e => e.1 == j) = [] := by
          rw [List.filter_eq_nil_iff]
          intro e he
          simpa using (first e he).ne'
        simp [none]
      · rw [lookup_cons_of_ne hj, ← ih rest]
        simp [Ne.symm hj]

/-- A row is found again by looking up all columns in order. -/
theorem filterMap_lookup (h : row.Ascending) {n : Nat} (width : ∀ e ∈ row, e.1 < n) :
    ((List.range n).filterMap fun j => (row.lookup j).map fun x => (j, x)) = row := by
  have found : ∀ e, e ∈ ((List.range n).filterMap fun j => (row.lookup j).map fun x => (j, x)) ↔
      e ∈ row := by
    intro e
    rw [mem_iff_lookup h]
    constructor
    · simp only [List.mem_filterMap, Option.map_eq_some_iff]
      rintro ⟨j, -, x, hx, rfl⟩
      exact hx
    · intro he
      refine List.mem_filterMap.mpr ⟨e.1, ?_, by rw [he]; rfl⟩
      exact List.mem_range.mpr (width e ((mem_iff_lookup h).mpr he))
  have ascending : ((List.range n).filterMap fun j => (row.lookup j).map fun x => (j, x)).Pairwise
      fun e e' => e.1 < e'.1 := by
    refine List.pairwise_filterMap.mpr (List.pairwise_lt_range.imp ?_)
    intro i j hij e he e' he'
    obtain ⟨x, -, rfl⟩ := Option.map_eq_some_iff.mp he
    obtain ⟨x', -, rfl⟩ := Option.map_eq_some_iff.mp he'
    exact hij
  have nodup {es : SparseRow L} (hes : es.Pairwise fun e e' => e.1 < e'.1) : es.Nodup :=
    hes.imp fun hlt same => hlt.ne (congrArg Prod.fst same)
  have perm := (List.perm_ext_iff_of_nodup (nodup ascending) (nodup h)).mpr found
  exact perm.eq_of_pairwise (fun a b _ _ hab hba => absurd hab (not_lt.mpr hba.le)) ascending h

end

/-! ## Rows of entries -/

theorem columns_add (j : Nat) (x : K) (row : SparseRow K) :
    ∀ e ∈ add j x row, e.1 = j ∨ ∃ e' ∈ row, e'.1 = e.1 := by
  induction row with
  | nil => simp [add]
  | cons e es ih =>
      intro e' he'
      unfold add at he'
      split at he'
      · rcases List.mem_cons.mp he' with rfl | he'
        · exact .inl rfl
        · exact .inr ⟨e', he', rfl⟩
      · split at he'
        · rcases List.mem_cons.mp he' with rfl | he'
          · exact .inl rfl
          · exact .inr ⟨e', List.mem_cons_of_mem _ he', rfl⟩
        · rcases List.mem_cons.mp he' with rfl | he'
          · exact .inr ⟨e', List.mem_cons_self, rfl⟩
          · refine (ih e' he').imp_right ?_
            rintro ⟨e'', h, same⟩
            exact ⟨e'', List.mem_cons_of_mem _ h, same⟩

theorem ascending_add {row : SparseRow K} (h : row.Ascending) (j : Nat) (x : K) :
    (add j x row).Ascending := by
  induction row with
  | nil => simp [add, Ascending]
  | cons e es ih =>
      obtain ⟨first, rest⟩ := List.pairwise_cons.mp h
      unfold add
      split
      · rename_i hj
        refine List.pairwise_cons.mpr ⟨fun e' he' => ?_, h⟩
        rcases List.mem_cons.mp he' with rfl | he'
        · exact hj
        · exact hj.trans (first e' he')
      · split
        · rename_i hj
          subst hj
          exact List.pairwise_cons.mpr ⟨first, rest⟩
        · refine List.pairwise_cons.mpr ⟨fun e' he' => ?_, ih rest⟩
          rcases columns_add j x es e' he' with same | ⟨e'', he'', same⟩
          · omega
          · exact same ▸ first e'' he''

/-- Adding a coefficient for a column changes the entry of that column alone. -/
theorem lookup_add {row : SparseRow K} (h : row.Ascending) (j : Nat) (x : K) (k : Nat) :
    (add j x row).lookup k =
      if k = j then some ((row.lookup j).elim x (· + x)) else row.lookup k := by
  induction row with
  | nil =>
      by_cases hk : k = j
      · simp [add, hk]
      · simp [add, hk, lookup_cons_of_ne hk]
  | cons e es ih =>
      obtain ⟨i, y⟩ := e
      obtain ⟨first, rest⟩ := List.pairwise_cons.mp h
      unfold add
      split
      · rename_i hj
        have new : List.lookup j ((i, y) :: es) = none := by
          refine lookup_eq_none fun e he => ?_
          rcases List.mem_cons.mp he with rfl | he
          · exact hj.ne'
          · exact (hj.trans (first e he)).ne'
        by_cases hk : k = j
        · simp [hk, new]
        · simp [hk, lookup_cons_of_ne hk]
      · split
        · rename_i hj
          subst hj
          by_cases hk : k = j
          · simp [hk]
          · simp [hk, lookup_cons_of_ne hk]
        · rename_i hj
          rw [lookup_cons_of_ne hj]
          by_cases hk : k = i
          · subst hk
            simp [Ne.symm hj]
          · rw [lookup_cons_of_ne hk, lookup_cons_of_ne hk, ih rest]

theorem ofEntries_concat (es : List (Nat × K)) (e : Nat × K) :
    ofEntries (es ++ [e]) = add e.1 e.2 (ofEntries es) := by
  simp [ofEntries]

theorem ascending_ofEntries (es : List (Nat × K)) : (ofEntries es).Ascending := by
  induction es using List.reverseRecOn with
  | nil => exact List.Pairwise.nil
  | append_singleton es e ih =>
      rw [ofEntries_concat]
      exact ascending_add ih e.1 e.2

theorem columns_ofEntries (es : List (Nat × K)) : ∀ e ∈ ofEntries es, e.1 ∈ es.map (·.1) := by
  induction es using List.reverseRecOn with
  | nil => simp [ofEntries]
  | append_singleton es e ih =>
      intro e' he'
      rw [ofEntries_concat] at he'
      rcases columns_add e.1 e.2 _ e' he' with same | ⟨e'', he'', same⟩
      · simp [same]
      · rw [← same, List.map_append]
        exact List.mem_append_left _ (ih e'' he'')

/-- `SparseRow.ofEntries` has an entry in every column that a coefficient was given for, with their
sum. -/
theorem lookup_ofEntries (es : List (Nat × K)) (j : Nat) :
    (ofEntries es).lookup j = leftSum? ((es.filter fun e => e.1 == j).map (·.2)) := by
  induction es using List.reverseRecOn with
  | nil => rfl
  | append_singleton es e ih =>
      rw [ofEntries_concat, lookup_add (ascending_ofEntries es), List.filter_append,
        List.map_append]
      by_cases hj : e.1 = j
      · subst hj
        simp [leftSum?_concat, ih]
      · simp [hj, Ne.symm hj, ih]

end SparseRow

/-! ## Columns -/

namespace Matrix

variable {L : Type} {m : Matrix L}

theorem mem_column {j i : Nat} {x : L} :
    (i, x) ∈ m.column j ↔ ∃ row, m.rows[i]? = some row ∧ (j, x) ∈ row := by
  simp only [column, List.mem_flatMap, List.mem_map, List.mem_filter, beq_iff_eq, Prod.exists,
    List.mem_zipIdx_iff_getElem?]
  constructor
  · rintro ⟨row, i', hrow, j', x', ⟨he, rfl⟩, same⟩
    obtain ⟨rfl, rfl⟩ := Prod.mk.inj same
    exact ⟨row, hrow, he⟩
  · rintro ⟨row, hrow, he⟩
    exact ⟨row, i, hrow, j, x, ⟨he, rfl⟩, rfl⟩

/-- The rows of a column ascend, if the columns of every row do. -/
theorem ascending_column (h : ∀ row ∈ m.rows, row.Ascending) (j : Nat) :
    SparseRow.Ascending (m.column j) := by
  have picked : m.column j = m.rows.zipIdx.filterMap fun e =>
      (e.1.lookup j).map fun x => (e.2, x) := by
    rw [column, List.filterMap_eq_flatMap_toList]
    refine List.flatMap_congr fun e he => ?_
    have mem : e.1 ∈ m.rows := by
      have := List.mem_zipIdx_iff_getElem?.mp he
      exact List.mem_of_getElem? this
    dsimp only
    rw [SparseRow.filter_column (h e.1 mem)]
    cases e.1.lookup j <;> rfl
  have places : m.rows.zipIdx.Pairwise fun e e' => e.2 < e'.2 := by
    rw [← List.pairwise_map (f := Prod.snd), List.zipIdx_map_snd]
    exact List.pairwise_lt_range'
  rw [picked]
  refine List.pairwise_filterMap.mpr (places.imp ?_)
  intro e e' hlt b hb b' hb'
  obtain ⟨x, -, rfl⟩ := Option.map_eq_some_iff.mp hb
  obtain ⟨x', -, rfl⟩ := Option.map_eq_some_iff.mp hb'
  exact hlt

theorem lookup_column (h : ∀ row ∈ m.rows, row.Ascending) {i : Nat} {row : SparseRow L}
    (hrow : m.rows[i]? = some row) (j : Nat) : (m.column j).lookup i = row.lookup j := by
  refine Option.ext fun x => ?_
  rw [← SparseRow.mem_iff_lookup (ascending_column h j), mem_column,
    ← SparseRow.mem_iff_lookup (h row (List.mem_of_getElem? hrow))]
  simp [hrow]

end Matrix

/-! ## Segments -/

theorem length_partialSums (sum : Nat) (ns : List Nat) :
    (partialSums sum ns).length = ns.length + 1 := by
  induction ns generalizing sum with
  | nil => rfl
  | cons n ns ih => simp [partialSums, ih]

theorem getElem?_partialSums (sum : Nat) (ns : List Nat) {j : Nat} (h : j ≤ ns.length) :
    (partialSums sum ns)[j]? = some (sum + (ns.take j).sum) := by
  induction ns generalizing sum j with
  | nil =>
      obtain rfl := Nat.le_zero.mp h
      rfl
  | cons n ns ih =>
      cases j with
      | zero => rfl
      | succ j =>
          rw [partialSums, List.getElem?_cons_succ, ih (sum + n) (Nat.le_of_succ_le_succ h),
            List.take_succ_cons, List.sum_cons, Nat.add_assoc]

theorem pairwise_partialSums (sum : Nat) (ns : List Nat) :
    (∀ a ∈ partialSums sum ns, sum ≤ a) ∧ (partialSums sum ns).Pairwise (· ≤ ·) := by
  induction ns generalizing sum with
  | nil => simp [partialSums]
  | cons n ns ih =>
      obtain ⟨above, ascending⟩ := ih (sum + n)
      have later : ∀ a ∈ partialSums (sum + n) ns, sum ≤ a := fun a ha => by
        have := above a ha
        omega
      exact ⟨by simpa [partialSums] using later, List.pairwise_cons.mpr ⟨later, ascending⟩⟩

namespace Columnwise

variable {L : Type}

/-- The entries of a column: what is stored from its start to that of the next one. -/
def segment (m : Columnwise L) (j : Nat) : List (Nat × L) :=
  ((m.index.zip m.value).take (m.start.getD (j + 1) 0)).drop (m.start.getD j 0)

/-- The matrix that the entries of all columns are those of, by rows. -/
def decoded (m : Columnwise L) : Matrix L :=
  ⟨m.columns, (List.range m.rows).map fun i => (List.range m.columns).flatMap fun j =>
    ((m.segment j).filter fun e => e.1 == i).map fun e => (j, e.2)⟩

/-- The columns start one after the other, the first at the beginning, and the last one ends where
the entries do. In each the rows ascend. -/
structure Packed (m : Columnwise L) : Prop where
  startCount : m.start.length = m.columns + 1
  first : m.start[0]? = some 0
  ascending : m.start.Pairwise (· ≤ ·)
  last : m.start[m.columns]? = some m.index.length
  valueCount : m.value.length = m.index.length
  rowsAscend : ∀ j < m.columns, ((m.segment j).map (·.1)).Pairwise (· < ·)
  rowBound : ∀ i ∈ m.index, i < m.rows

/-- The columns of a matrix are stored one after the other. -/
structure Stores (m : Columnwise L) (a : Matrix L) : Prop where
  width : m.columns = a.width
  height : m.rows = a.rows.length
  start : m.start = partialSums 0 (((List.range a.width).map a.column).map (·.length))
  index : m.index = ((List.range a.width).map a.column).flatten.map (·.1)
  value : m.value = ((List.range a.width).map a.column).flatten.map (·.2)

section

variable {m : Columnwise L} {a : Matrix L}

theorem Stores.segment_eq (h : m.Stores a) {j : Nat} (hj : j < m.columns) :
    m.segment j = a.column j := by
  have count : ((List.range a.width).map a.column).length = m.columns := by simp [h.width]
  have lengths : (((List.range a.width).map a.column).map (·.length)).length = m.columns := by
    rw [List.length_map, count]
  have entries : m.index.zip m.value = ((List.range a.width).map a.column).flatten := by
    rw [h.index, h.value, List.zip_map', List.map_id']
  have start (k : Nat) (hk : k ≤ m.columns) : m.start.getD k 0 =
      ((((List.range a.width).map a.column).map (·.length)).take k).sum := by
    rw [List.getD_eq_getElem?_getD, h.start, getElem?_partialSums _ _ (lengths ▸ hk)]
    simp
  rw [segment, entries, start j hj.le, start (j + 1) hj,
    List.drop_take_succ_flatten_eq_getElem _ j (by rw [count]; exact hj)]
  simp

theorem Stores.packed (h : m.Stores a) (rows : ∀ row ∈ a.rows, row.Ascending) : m.Packed := by
  have count : (((List.range a.width).map a.column).map (·.length)).length = m.columns := by
    simp [h.width]
  refine ⟨by rw [h.start, length_partialSums, count], ?_, ?_, ?_,
    by rw [h.index, h.value, List.length_map, List.length_map], fun j hj => ?_, fun i hi => ?_⟩
  · rw [h.start, getElem?_partialSums _ _ (Nat.zero_le _)]
    simp
  · rw [h.start]
    exact (pairwise_partialSums _ _).2
  · rw [h.start, getElem?_partialSums _ _ count.ge, ← count, List.take_length, h.index,
      List.length_map, List.length_flatten, Nat.zero_add]
  · rw [h.segment_eq hj, List.pairwise_map]
    exact Matrix.ascending_column rows j
  · rw [h.index] at hi
    obtain ⟨e, he, rfl⟩ := List.mem_map.mp hi
    obtain ⟨_, mem, he⟩ := List.mem_flatten.mp he
    obtain ⟨j, -, rfl⟩ := List.mem_map.mp mem
    obtain ⟨row, hrow, -⟩ := Matrix.mem_column.mp he
    rw [h.height]
    exact (List.getElem?_eq_some_iff.mp hrow).1

/-- A matrix that is stored by columns (`Stores`) is the one that is `decoded`. -/
theorem Stores.decoded_eq (h : m.Stores a) (rows : ∀ row ∈ a.rows, row.Ascending)
    (width : ∀ row ∈ a.rows, ∀ e ∈ row, e.1 < a.width) : m.decoded = a := by
  have row (i : Nat) (hi : i < a.rows.length) :
      ((List.range m.columns).flatMap fun j =>
        ((m.segment j).filter fun e => e.1 == i).map fun e => (j, e.2)) = a.rows[i] := by
    have mem : a.rows[i] ∈ a.rows := List.getElem_mem hi
    conv_rhs => rw [← SparseRow.filterMap_lookup (rows _ mem) (width _ mem),
      List.filterMap_eq_flatMap_toList]
    rw [h.width]
    refine List.flatMap_congr fun j hj => ?_
    rw [h.segment_eq (h.width ▸ List.mem_range.mp hj),
      SparseRow.filter_column (Matrix.ascending_column rows j),
      Matrix.lookup_column rows (List.getElem?_eq_getElem hi)]
    cases a.rows[i].lookup j <;> rfl
  have all : (List.range m.rows).map (fun i => (List.range m.columns).flatMap fun j =>
      ((m.segment j).filter fun e => e.1 == i).map fun e => (j, e.2)) = a.rows := by
    refine List.ext_getElem (by simp [h.height]) fun i hi hi' => ?_
    rw [List.getElem_map, List.getElem_range]
    exact row i hi'
  rw [decoded, all, h.width]

end

end Columnwise

end Milp
