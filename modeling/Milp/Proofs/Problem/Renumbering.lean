import Mathlib.Data.Set.Card
import Mathlib.Order.Interval.Finset.Nat
import Milp.Proofs.Extraction
import Milp.Proofs.Problem.Columnwise
import Milp.Proofs.Problem.Listing

/-!
# Problems with their variables in another order

Two problems may differ in nothing but the order in which their variables are listed. What is made
of them is then the same up to the numbers of columns, and so is what is read off vectors.
-/

namespace Milp

/-- Two computations give results that stand in a relation, or both are broken off. -/
def Together {α β ε : Type} (R : α → β → Prop) : Except ε α → Except ε β → Prop
  | .ok x, .ok y => R x y
  | .error _, .error _ => True
  | _, _ => False

theorem together_of {α β ε : Type} {R : α → β → Prop} {a : Except ε α} {b : Except ε β}
    (forth : ∀ x, a = .ok x → ∃ y, b = .ok y ∧ R x y) (back : ∀ y, b = .ok y → ∃ x, a = .ok x) :
    Together R a b := by
  cases a with
  | ok x =>
      obtain ⟨y, rfl, related⟩ := forth x rfl
      exact related
  | error e =>
      cases b with
      | ok y =>
          obtain ⟨x, hx⟩ := back y rfl
          cases hx
      | error e' => trivial

/-- A list with its entries in other places. -/
structure Moved {α : Type} (π : Nat → Nat) (xs ys : List α) : Prop where
  length : ys.length = xs.length
  entry : ∀ j < xs.length, ys[π j]? = xs[j]?

theorem Moved.map {α β : Type} {π : Nat → Nat} {xs ys : List α} (h : Moved π xs ys) (f : α → β) :
    Moved π (xs.map f) (ys.map f) := by
  refine ⟨by simp [h.length], fun j hj => ?_⟩
  rw [List.getElem?_map, List.getElem?_map, h.entry j (by simpa using hj)]

/-- Columns that stand in other places. -/
structure Columns.Moved {K : Type} (π : Nat → Nat) (cs cs' : Columns K) : Prop where
  lower : Milp.Moved π cs.lower cs'.lower
  upper : Milp.Moved π cs.upper cs'.upper
  integral : Milp.Moved π cs.integral cs'.integral

/-- A matrix with its columns in other places. Rows and their ranges stand where they stood. -/
structure RangedRows.Moved {K : Type} (π : Nat → Nat) (m m' : RangedRows K) : Prop where
  width : m'.matrix.width = m.matrix.width
  rows : List.Forall₂ (fun row row' => row'.Perm (row.map (Prod.map π id))) m.matrix.rows
    m'.matrix.rows
  ranges : m'.ranges = m.ranges

namespace Declarations

/-- The same variables are listed, and the same is declared of them. -/
structure Alike (d d' : Declarations) : Prop where
  listed : ∀ v, d'.Listed v ↔ d.Listed v
  domains : ∀ v, d'.domains.get? v = d.domains.get? v
  lowers : ∀ v, d'.lowers.get? v = d.lowers.get? v
  uppers : ∀ v, d'.uppers.get? v = d.uppers.get? v

/-- The column, among others, of the variable that has a column. -/
def columnIn (d d' : Declarations) (j : Nat) : Nat :=
  (((d.variableList[j]?).bind d'.index.get?).getD 0).toNat

section

variable {d d' : Declarations} {v w : Value} {i j : Nat}

theorem Alike.symm (h : d.Alike d') : d'.Alike d :=
  ⟨fun v => (h.listed v).symm, fun v => (h.domains v).symm, fun v => (h.lowers v).symm,
    fun v => (h.uppers v).symm⟩

/-! ## The numbers of columns -/

theorem columnIn_eq (distinct' : d'.Distinct) (hv : d.variableList[j]? = some v)
    (hw : d'.variableList[i]? = some w) (same : w.key = v.key) : d.columnIn d' j = i := by
  simp [columnIn, hv, distinct'.get?_index hw same]

/-- Every variable has a column among the others, too. -/
theorem Alike.exists_column (h : d.Alike d') (distinct' : d'.Distinct)
    (hv : d.variableList[j]? = some v) :
    ∃ w, d'.variableList[d.columnIn d' j]? = some w ∧ w.key = v.key := by
  have listed : d.Listed v := ⟨v, List.mem_of_getElem? hv, (Value.same_iff v v).mpr rfl⟩
  obtain ⟨w, hw, same⟩ := (h.listed v).mpr listed
  obtain ⟨i, hi⟩ := List.getElem?_of_mem hw
  have key := (Value.same_iff w v).mp same
  exact ⟨w, (columnIn_eq distinct' hv hi key).symm ▸ hi, key⟩

/-- The two numberings are in one-to-one correspondence. -/
theorem Alike.bijOn (h : d.Alike d') (distinct : d.Distinct) (distinct' : d'.Distinct) :
    Set.BijOn (d.columnIn d') (Set.Iio d.index.size) (Set.Iio d'.index.size) := by
  simp only [size_index]
  refine ⟨fun j hj => ?_, fun j hj k hk same => ?_, fun i hi => ?_⟩
  · obtain ⟨w, hw, -⟩ := h.exists_column distinct' (List.getElem?_eq_getElem hj)
    exact (List.getElem?_eq_some_iff.mp hw).1
  · have first := List.getElem?_eq_getElem hj
    have second := List.getElem?_eq_getElem hk
    obtain ⟨w, hw, key⟩ := h.exists_column distinct' first
    obtain ⟨w', hw', key'⟩ := h.exists_column distinct' second
    rw [same] at hw
    obtain rfl := Option.some.inj (hw.symm.trans hw')
    exact (distinct.place_eq_iff first second).mpr (key.symm.trans key')
  · have there := List.getElem?_eq_getElem hi
    obtain ⟨v, hv, key⟩ := h.symm.exists_column distinct there
    exact ⟨_, (List.getElem?_eq_some_iff.mp hv).1, columnIn_eq distinct' hv there key.symm⟩

theorem Alike.length_eq (h : d.Alike d') (distinct : d.Distinct) (distinct' : d'.Distinct) :
    d'.variableList.length = d.variableList.length := by
  have counted := (h.bijOn distinct distinct').ncard_eq
  rw [Set.ncard_eq_toFinset_card', Set.ncard_eq_toFinset_card', Set.toFinset_Iio,
    Set.toFinset_Iio, Nat.card_Iio, Nat.card_Iio, size_index, size_index] at counted
  exact counted.symm

/-- Lists with an entry for each variable, which depends on the variable alone. -/
theorem Alike.moved {α : Type} (h : d.Alike d') (distinct : d.Distinct) (distinct' : d'.Distinct)
    {R R' : Value → α → Prop} {xs ys : List α} (hxs : List.Forall₂ R d.variableList xs)
    (hys : List.Forall₂ R' d'.variableList ys)
    (same : ∀ v w x y, w.key = v.key → R v x → R' w y → y = x) : Moved (d.columnIn d') xs ys := by
  refine ⟨?_, fun j hj => ?_⟩
  · rw [← hxs.length_eq, ← hys.length_eq, h.length_eq distinct distinct']
  · obtain ⟨v, hv, first⟩ := exists_of_forall₂ hxs.flip (List.getElem?_eq_getElem hj)
    obtain ⟨w, hw, key⟩ := h.exists_column distinct' hv
    obtain ⟨y, hy, second⟩ := exists_of_forall₂ hys hw
    rw [hy, List.getElem?_eq_getElem hj, same v w _ y key first second]

/-- Moved lists are moved back by the columns of the first list of variables. -/
theorem Alike.moved_symm {α : Type} (h : d.Alike d') (distinct : d.Distinct)
    (distinct' : d'.Distinct) {xs ys : List α} (length : xs.length = d.variableList.length)
    (moved : Moved (d.columnIn d') xs ys) : Moved (d'.columnIn d) ys xs := by
  refine ⟨moved.length.symm, fun i hi => ?_⟩
  have bound : i < d'.variableList.length := by
    rwa [h.length_eq distinct distinct', ← length, ← moved.length]
  have there := List.getElem?_eq_getElem bound
  obtain ⟨v, hv, key⟩ := h.symm.exists_column distinct there
  have back := moved.entry (d'.columnIn d i) (length ▸ (List.getElem?_eq_some_iff.mp hv).1)
  rw [← back, columnIn_eq distinct' hv there key.symm]

/-! ## Columns -/

variable {K : Type} [Numeric K]

theorem Alike.column (h : d.Alike d') (key : w.key = v.key) : d'.column K w = d.column K v := by
  have domain : d'.domainOf w = d.domainOf v := by
    rw [domainOf, domainOf, h.domains, Table.get?_congr key]
  have lower : d'.lowers.get? w = d.lowers.get? v := by rw [h.lowers, Table.get?_congr key]
  have upper : d'.uppers.get? w = d.uppers.get? v := by rw [h.uppers, Table.get?_congr key]
  have bounds : d'.effectiveBounds w = d.effectiveBounds v := by
    simp only [effectiveBounds, domain, lower, upper]
  rw [Declarations.column, Declarations.column, bounds, domain]

theorem Alike.exists_columns (h : d.Alike d') (distinct : d.Distinct) (distinct' : d'.Distinct)
    {cs : Columns K} (made : d.columns d.index = .ok cs) :
    ∃ cs', d'.columns d'.index = .ok cs' ∧ cs.Moved (d.columnIn d') cs' := by
  obtain ⟨cols, hcols, rfl⟩ := columns_index_iff.mp made
  have each : ∀ w ∈ d'.variableList, ∃ c, d'.column K w = .ok c := by
    intro w hw
    obtain ⟨v, hv, same⟩ := (h.listed w).mp ⟨w, hw, (Value.same_iff w w).mpr rfl⟩
    obtain ⟨j, hj⟩ := List.getElem?_of_mem hv
    obtain ⟨c, -, hc⟩ := exists_of_forall₂ (mapM_eq_ok.mp hcols) hj
    exact ⟨c, (h.column ((Value.same_iff v w).mp same).symm).trans hc⟩
  obtain ⟨cols', hcols'⟩ := exists_forall₂ each
  have moved := h.moved distinct distinct' (mapM_eq_ok.mp hcols) hcols'
    fun v w x y key hx hy => Except.ok.inj ((hy.symm.trans (h.column key)).trans hx)
  exact ⟨_, columns_index (mapM_eq_ok.mpr hcols'), moved.map _, moved.map _, moved.map _⟩

/-! ## Rows -/

theorem ascending_sparseRow (r : List (Int × K) × Range K) : (Problem.sparseRow r).Ascending :=
  SparseRow.ascending_ofEntries _

/-- A row has, in the column of a variable, the sum of its coefficients. -/
theorem RowOf.lookup {c : Constraint} {r : List (Int × K) × Range K} (row : d.RowOf c r)
    (distinct : d.Distinct) (hv : d.variableList[j]? = some v) :
    ∃ xs : List K, (c.lhs.coefficientsOf v).mapM Numeric.ofValue = .ok xs ∧
      (Problem.sparseRow r).lookup j = leftSum? xs := by
  refine ⟨_, mapM_coefficients distinct row.entries hv, ?_⟩
  rw [Problem.sparseRow, SparseRow.lookup_ofEntries, List.filter_map, List.map_map]
  rfl

theorem RowOf.lt_of_mem {c : Constraint} {r : List (Int × K) × Range K} (row : d.RowOf c r)
    {x : K} (h : (j, x) ∈ Problem.sparseRow r) : j < d.variableList.length := by
  obtain ⟨e, he, same⟩ : ∃ e ∈ r.1, e.1.toNat = j := by
    simpa using SparseRow.columns_ofEntries _ _ h
  obtain ⟨i, hi, place⟩ := EntryOf.places row.entries e he
  rw [size_index] at hi
  omega

theorem Alike.mem_row_iff (h : d.Alike d') (distinct : d.Distinct) (distinct' : d'.Distinct)
    {c c' : Constraint} {r r' : List (Int × K) × Range K} (row : d.RowOf c r)
    (row' : d'.RowOf c' r') (lhs : c'.lhs = c.lhs) (hv : d.variableList[j]? = some v) (x : K) :
    (d.columnIn d' j, x) ∈ Problem.sparseRow r' ↔ (j, x) ∈ Problem.sparseRow r := by
  obtain ⟨w, hw, key⟩ := h.exists_column distinct' hv
  obtain ⟨xs, hxs, found⟩ := row.lookup distinct hv
  obtain ⟨ys, hys, found'⟩ := row'.lookup distinct' hw
  have same : c'.lhs.coefficientsOf w = c.lhs.coefficientsOf v := by
    rw [Expression.coefficientsOf, Expression.coefficientsOf, lhs, key]
  obtain rfl : xs = ys := Except.ok.inj (hxs.symm.trans (same ▸ hys))
  rw [SparseRow.mem_iff_lookup (ascending_sparseRow r'), found',
    SparseRow.mem_iff_lookup (ascending_sparseRow r), found]

/-- The same constraint has the same entries, in other columns. -/
theorem Alike.perm_row (h : d.Alike d') (distinct : d.Distinct) (distinct' : d'.Distinct)
    {c c' : Constraint} {r r' : List (Int × K) × Range K} (row : d.RowOf c r)
    (row' : d'.RowOf c' r') (lhs : c'.lhs = c.lhs) :
    (Problem.sparseRow r').Perm ((Problem.sparseRow r).map (Prod.map (d.columnIn d') id)) := by
  have nodup (r : List (Int × K) × Range K) : (Problem.sparseRow r).Nodup :=
    (ascending_sparseRow r).imp fun hlt same => hlt.ne (congrArg Prod.fst same)
  have injective : ∀ e ∈ Problem.sparseRow r, ∀ e' ∈ Problem.sparseRow r,
      Prod.map (d.columnIn d') id e = Prod.map (d.columnIn d') id e' → e = e' := by
    rintro ⟨j, x⟩ hj ⟨k, y⟩ hk same
    obtain ⟨column, value⟩ := Prod.mk.inj same
    refine Prod.ext ((h.bijOn distinct distinct').injOn ?_ ?_ column) value
    · exact (size_index d).symm ▸ row.lt_of_mem hj
    · exact (size_index d).symm ▸ row.lt_of_mem hk
  refine (List.perm_ext_iff_of_nodup (nodup r') ((nodup r).map_on injective)).mpr ?_
  rintro ⟨i, x⟩
  constructor
  · intro he
    have there := List.getElem?_eq_getElem (row'.lt_of_mem he)
    obtain ⟨v, hv, key⟩ := h.symm.exists_column distinct there
    have place := columnIn_eq distinct' hv there key.symm
    rw [← place, h.mem_row_iff distinct distinct' row row' lhs hv] at he
    exact List.mem_map.mpr ⟨_, he, Prod.ext place rfl⟩
  · intro he
    obtain ⟨⟨j, y⟩, hj, same⟩ := List.mem_map.mp he
    cases same
    have here := List.getElem?_eq_getElem (row.lt_of_mem hj)
    exact (h.mem_row_iff distinct distinct' row row' lhs here y).mpr hj

end

end Declarations

/-! ## Values -/

namespace Solution

variable {K : Type} [Numeric K] {d d' : Declarations} {raw raw' : Value → Except Fault K}
  {objective : Option (Reported K)} {s : Solution K}

/-- What is read off a vector, in the columns of variables. -/
def ofVector {α : Type} (d : Declarations) (read : α → Except Fault K) (missing : Nat → Fault)
    (xs : List α) (objective : Option (Reported K)) : Except Fault (Solution K) := do
  let values ← d.index.values xs missing
  extract d (fun v => do read (← values.require v)) objective

omit [Numeric K] in
theorem get?_of_not_listed {number : Value → Number K}
    (primal : s.primal = ⟨d.variableList.map fun v => (v, number v)⟩) {u : Value}
    (h : ¬d.Listed u) : s.primal.get? u = none := by
  have none : ∀ v ∈ d.variableList, v.key ≠ u.key := fun v hv key =>
    h ⟨v, hv, (Value.same_iff v u).mpr key⟩
  simpa [primal, Table.get?] using none

/-- `Solution.extract` gives the same values where the same is read for each variable, in whichever
order. -/
theorem exists_extract_of_alike (alike : d.Alike d') (distinct : d.Distinct)
    (distinct' : d'.Distinct)
    (same : ∀ v ∈ d.variableList, ∀ w ∈ d'.variableList, w.key = v.key → raw' w = raw v)
    (h : extract d raw objective = .ok s) :
    ∃ s', extract d' raw' objective = .ok s' ∧ ∀ u, s'.primal.get? u = s.primal.get? u := by
  obtain ⟨number, hnumber, primal⟩ := exists_number distinct h
  have value {v w : Value} (hv : v ∈ d.variableList) (hw : w ∈ d'.variableList)
      (key : w.key = v.key) : (raw' w >>= roundValue (d'.domainOf w)) = .ok (number v) := by
    rw [same v hv w hw key, Declarations.domainOf, alike.domains, Table.get?_congr key]
    exact hnumber v hv
  have listed {w : Value} (hw : w ∈ d'.variableList) : ∃ v ∈ d.variableList, w.key = v.key := by
    obtain ⟨v, hv, key⟩ := (alike.listed w).mp ⟨w, hw, (Value.same_iff w w).mpr rfl⟩
    exact ⟨v, hv, ((Value.same_iff v w).mp key).symm⟩
  have readable : ∃ s', extract d' raw' objective = .ok s' := by
    refine exists_extract (fun w hw => ?_) objective
    obtain ⟨v, hv, key⟩ := listed hw
    obtain ⟨x, hx, hn⟩ := bind_eq_ok.mp (value hv hw key)
    exact ⟨x, _, hx, hn⟩
  obtain ⟨s', hs'⟩ := readable
  obtain ⟨number', hnumber', primal'⟩ := exists_number distinct' hs'
  refine ⟨s', hs', fun u => ?_⟩
  by_cases hu : d'.Listed u
  · obtain ⟨w, hw, key⟩ := hu
    obtain ⟨v, hv, key'⟩ := listed hw
    have key := (Value.same_iff w u).mp key
    rw [get?_of_number distinct' primal' hw key,
      get?_of_number distinct primal hv (key'.symm.trans key),
      Except.ok.inj ((hnumber' w hw).symm.trans (value hv hw key'))]
  · rw [get?_of_not_listed primal' hu, get?_of_not_listed primal (mt (alike.listed u).mpr hu)]

theorem exists_ofVector_of_alike {α : Type} {read : α → Except Fault K}
    {missing : Nat → Fault} {xs ys : List α} (alike : d.Alike d') (distinct : d.Distinct)
    (distinct' : d'.Distinct) (length : xs.length = d.variableList.length)
    (moved : Moved (d.columnIn d') xs ys) (missing' : Nat → Fault)
    (h : ofVector d read missing xs objective = .ok s) :
    ∃ s', ofVector d' read missing' ys objective = .ok s' ∧
      ∀ u, s'.primal.get? u = s.primal.get? u := by
  have length' : ys.length = d'.variableList.length := by
    rw [moved.length, length, alike.length_eq distinct distinct']
  unfold ofVector at h ⊢
  rw [d.values_index length] at h
  rw [d'.values_index length']
  refine exists_extract_of_alike alike distinct distinct' (fun v hv w hw key => ?_) h
  obtain ⟨j, hj⟩ := List.getElem?_of_mem hv
  obtain ⟨w', hw', key'⟩ := alike.exists_column distinct' hj
  obtain ⟨i, hi⟩ := List.getElem?_of_mem hw
  obtain rfl := Declarations.columnIn_eq distinct' hj hi key
  have here : j < xs.length := length ▸ (List.getElem?_eq_some_iff.mp hj).1
  have entry := List.getElem?_eq_getElem here
  rw [distinct.require_zip length hj entry,
    distinct'.require_zip length' hi ((moved.entry j here).trans entry)]

end Solution

/-! ## Problems -/

namespace Problem

/-- Two problems are the same but for the order of their variables and the names of constraints. -/
structure Alike (p p' : Problem) : Prop extends p.toDeclarations.Alike p'.toDeclarations where
  constraints : List.Forall₂ (fun c c' : Constraint =>
    c'.lhs = c.lhs ∧ c'.operator = c.operator ∧ c'.rhs = c.rhs) p.constraints.items
      p'.constraints.items
  objective : p'.objective = p.objective
  sense : p'.sense = p.sense

/-- All forms of two problems are the same up to the numbers of columns: they can be made of both or
of neither, and what stands in a column of the one stands in the corresponding column of the other.
The same goes for the values that are read off a vector. -/
structure Renumbers (π : Nat → Nat) (p p' : Problem) : Prop where
  bijective : Set.BijOn π (Set.Iio p.index.size) (Set.Iio p'.index.size)
  column : ∀ (v : Value) (j : Nat), p.index.get? v = some (j : Int) →
    p'.index.get? v = some (π j : Int)
  listed : ∀ v, p'.Listed v ↔ p.Listed v
  columns : ∀ (K : Type) [Numeric K],
    Together (Columns.Moved (K := K) π) (p.columns p.index) (p'.columns p'.index)
  cost : ∀ (K : Type) [Numeric K],
    Together (Moved (α := K) π) (p.cost p.index) (p'.cost p'.index)
  matrix : ∀ (K : Type) [Numeric K],
    Together (RangedRows.Moved (K := K) π) (p.matrix p.index) (p'.matrix p'.index)
  maximize : p'.isMaximize = p.isMaximize
  values : ∀ (K : Type) [Numeric K] (α : Type) (read : α → Except Fault K)
    (missing missing' : Nat → Fault) (objective : Option (Reported K)) (xs ys : List α),
    xs.length = p.index.size → Moved π xs ys →
      Together (fun s s' : Solution K => ∀ v, s'.primal.get? v = s.primal.get? v)
        (Solution.ofVector p.toDeclarations read missing xs objective)
        (Solution.ofVector p'.toDeclarations read missing' ys objective)

section

variable {p p' : Problem} {K : Type} [Numeric K]

omit [Numeric K] in
theorem Alike.symm (h : p.Alike p') : p'.Alike p where
  toAlike := h.toAlike.symm
  constraints := h.constraints.flip.imp fun _ _ ⟨lhs, operator, rhs⟩ =>
    ⟨lhs.symm, operator.symm, rhs.symm⟩
  objective := h.objective.symm
  sense := h.sense.symm

/-- The costs of a problem are those of its variables. -/
theorem WellFormed.costs_forall₂ (h : p.WellFormed) {costs : List K}
    (made : p.cost p.index = .ok costs) :
    List.Forall₂ (fun v x => ∃ xs : List K,
      ((p.objective.map (·.coefficientsOf v)).getD []).mapM Numeric.ofValue = .ok xs ∧
        x = xs.foldl (· + ·) Numeric.zero) p.variableList costs := by
  obtain ⟨costs', made', length, each⟩ := h.exists_costs fun _ he => h.readable_costs made he
  obtain rfl := Except.ok.inj (made.symm.trans made')
  refine List.forall₂_iff_get.mpr ⟨length.symm, fun j hj hj' => ?_⟩
  obtain ⟨xs, hxs, cost⟩ := each j _ (List.getElem?_eq_getElem hj)
  exact ⟨xs, hxs, Option.some.inj ((List.getElem?_eq_getElem hj').symm.trans cost)⟩

theorem Alike.exists_cost (h : p.Alike p') (wellFormed : p.WellFormed)
    (wellFormed' : p'.WellFormed) {costs : List K} (made : p.cost p.index = .ok costs) :
    ∃ costs', p'.cost p'.index = .ok costs' ∧
      Moved (p.columnIn p'.toDeclarations) costs costs' := by
  obtain ⟨costs', made', -⟩ := wellFormed'.exists_costs (K := K) fun e he =>
    wellFormed.readable_costs made (h.objective.symm.trans he)
  refine ⟨costs', made', h.moved wellFormed.distinct wellFormed'.distinct
    (wellFormed.costs_forall₂ made) (wellFormed'.costs_forall₂ made') ?_⟩
  rintro v w _ _ key ⟨xs, hxs, rfl⟩ ⟨ys, hys, rfl⟩
  have same (e : Expression) : e.coefficientsOf w = e.coefficientsOf v := by
    rw [Expression.coefficientsOf, Expression.coefficientsOf, key]
  rw [h.objective] at hys
  simp only [same] at hys
  rw [Except.ok.inj (hxs.symm.trans hys)]

/-- What can be read in a constraint can be read in the same constraint of another problem. -/
theorem WellFormed.exists_rowOf_of_same (h : p'.WellFormed) {c c' : Constraint}
    (hc' : c' ∈ p'.constraints.items) (same : c'.lhs = c.lhs ∧ c'.operator = c.operator ∧
      c'.rhs = c.rhs) {r : List (Int × K) × Range K} (row : p.RowOf c r) :
    ∃ r', p'.RowOf c' r' ∧ r'.2 = r.2 := by
  obtain ⟨lhs, operator, rhs⟩ := same
  obtain ⟨l, hl, registered⟩ := h.constraints c' hc'
  have terms : ∀ t ∈ c'.lhs.terms.items, ∃ e : Int × K, p'.EntryOf t e := by
    intro t ht
    obtain ⟨i, hi⟩ := List.getElem?_of_mem (lhs ▸ ht)
    obtain ⟨e, -, entry⟩ := exists_of_forall₂ row.entries hi
    refine Declarations.exists_entryOf h.distinct (registered t ?_) ⟨e.2, entry.value⟩
    simpa [hl] using ht
  obtain ⟨es, hes⟩ := exists_forall₂ terms
  refine ⟨(es, r.2), ⟨hes, ?_⟩, rfl⟩
  rw [← row.range, Constraint.range, Constraint.range, Constraint.relation, Constraint.relation,
    operator, rhs]

theorem Alike.exists_matrix (h : p.Alike p') (wellFormed : p.WellFormed)
    (wellFormed' : p'.WellFormed) {m : RangedRows K} (made : p.matrix p.index = .ok m) :
    ∃ m', p'.matrix p'.index = .ok m' ∧ m.Moved (p.columnIn p'.toDeclarations) m' := by
  obtain ⟨rs, hrs⟩ := wellFormed.rowOf_of_matrix made
  obtain rfl := Except.ok.inj (made.symm.trans (wellFormed.matrix_eq_ok hrs))
  have each : ∀ c' ∈ p'.constraints.items, ∃ r' : List (Int × K) × Range K, p'.RowOf c' r' := by
    intro c' hc'
    obtain ⟨i, hi⟩ := List.getElem?_of_mem hc'
    obtain ⟨c, hc, same⟩ := exists_of_forall₂ h.constraints.flip hi
    obtain ⟨r, -, row⟩ := exists_of_forall₂ hrs hc
    obtain ⟨r', row', -⟩ := wellFormed'.exists_rowOf_of_same hc' same row
    exact ⟨r', row'⟩
  obtain ⟨rs', hrs'⟩ := exists_forall₂ each
  have length : rs.length = rs'.length := by
    rw [← hrs.length_eq, ← hrs'.length_eq, h.constraints.length_eq]
  have both : List.Forall₂ (fun r r' : List (Int × K) × Range K =>
      (sparseRow r').Perm ((sparseRow r).map (Prod.map (p.columnIn p'.toDeclarations) id)) ∧
        r'.2 = r.2) rs rs' := by
    refine List.forall₂_iff_get.mpr ⟨length, fun i hi hi' => ?_⟩
    obtain ⟨c, hc, row⟩ := exists_of_forall₂ hrs.flip (List.getElem?_eq_getElem hi)
    obtain ⟨c', hc', same⟩ := exists_of_forall₂ h.constraints hc
    obtain ⟨r', hr', row'⟩ := exists_of_forall₂ hrs' hc'
    obtain rfl := Option.some.inj ((List.getElem?_eq_getElem hi').symm.trans hr')
    obtain ⟨_, other, range⟩ := wellFormed'.exists_rowOf_of_same (List.mem_of_getElem? hc') same row
    refine ⟨h.perm_row wellFormed.distinct wellFormed'.distinct row row' same.1, ?_⟩
    exact (Except.ok.inj (row'.range.symm.trans other.range)).trans range
  refine ⟨_, wellFormed'.matrix_eq_ok hrs', ?_, ?_, ?_⟩
  · simp [h.length_eq wellFormed.distinct wellFormed'.distinct]
  · exact List.forall₂_map_left_iff.mpr (List.forall₂_map_right_iff.mpr
      (both.imp fun _ _ related => related.1))
  · refine List.forall₂_eq_eq_eq ▸ ?_
    exact List.forall₂_map_left_iff.mpr (List.forall₂_map_right_iff.mpr
      (both.flip.imp fun _ _ related => related.2))

end

/-- Problems that are `Alike` renumber each other (`Renumbers`). -/
theorem Alike.renumbers {p p' : Problem} (h : p.Alike p') (wellFormed : p.WellFormed)
    (wellFormed' : p'.WellFormed) : p.Renumbers (p.columnIn p'.toDeclarations) p' := by
  have distinct := wellFormed.distinct
  have distinct' := wellFormed'.distinct
  refine ⟨h.bijOn distinct distinct', fun v j hj => ?_, h.listed, fun K _ => ?_, fun K _ => ?_,
    fun K _ => ?_, ?_, fun K _ α read missing missing' objective xs ys length moved => ?_⟩
  · obtain ⟨i, u, hu, key, place⟩ := Declarations.exists_place hj
    obtain rfl : j = i := Int.ofNat.inj place
    obtain ⟨w, hw, key'⟩ := h.exists_column distinct' hu
    exact distinct'.get?_index hw (key'.trans key)
  · refine together_of (fun _ => h.exists_columns distinct distinct') fun cs' made => ?_
    obtain ⟨cs, made, -⟩ := h.symm.exists_columns distinct' distinct made
    exact ⟨cs, made⟩
  · refine together_of (fun _ => h.exists_cost wellFormed wellFormed') fun costs' made => ?_
    obtain ⟨costs, made, -⟩ := h.symm.exists_cost wellFormed' wellFormed made
    exact ⟨costs, made⟩
  · refine together_of (fun _ => h.exists_matrix wellFormed wellFormed') fun m' made => ?_
    obtain ⟨m, made, -⟩ := h.symm.exists_matrix wellFormed' wellFormed made
    exact ⟨m, made⟩
  · rw [isMaximize, isMaximize, h.objective, h.sense]
  · rw [Declarations.size_index] at length
    refine together_of (fun s made => ?_) fun s' made => ?_
    · exact Solution.exists_ofVector_of_alike h.toAlike distinct distinct' length moved missing'
        made
    · have back := h.moved_symm distinct distinct' length moved
      obtain ⟨s, made, -⟩ := Solution.exists_ofVector_of_alike h.toAlike.symm distinct' distinct
        (moved.length.trans (length.trans (h.length_eq distinct distinct').symm)) back missing made
      exact ⟨s, made⟩

end Problem

end Milp
