import Mathlib.Tactic.Ring
import Milp.Encoding.Matrix
import Milp.Proofs.Encoding.Columns

/-!
# What the rows and the costs say

A row of the matrix has the value of its constraint's terms at every point, however often a variable
occurs in them, and the costs have that of the objective.
-/

namespace Milp

variable {p : Nat → Rat}

/-! ## Sparse rows -/

namespace SparseRow

/-- The product of a row and a point. -/
def dot (row : SparseRow Extended) (p : Nat → Rat) : Extended :=
  row.foldr (fun e s => e.2 * .finite (p e.1) + s) (.finite 0)

@[simp] theorem dot_nil : dot [] p = .finite 0 := rfl

@[simp] theorem dot_cons (e : Nat × Extended) (es : SparseRow Extended) :
    dot (e :: es) p = e.2 * .finite (p e.1) + dot es p := rfl

theorem dot_cons_eq_finite {e : Nat × Extended} {es : SparseRow Extended} {a : Rat} :
    dot (e :: es) p = .finite a ↔
      ∃ q b, e.2 = .finite q ∧ dot es p = .finite b ∧ q * p e.1 + b = a := by
  rw [dot_cons, Extended.add_eq_finite]
  constructor
  · rintro ⟨r, b, hr, hb, rfl⟩
    obtain ⟨q, hq, rfl⟩ := Extended.mul_finite_eq_finite.mp hr
    exact ⟨q, b, hq, hb, rfl⟩
  · rintro ⟨q, b, hq, hb, rfl⟩
    exact ⟨_, b, Extended.mul_finite_eq_finite.mpr ⟨q, hq, rfl⟩, hb, rfl⟩

/-- A coefficient that is added counts, whether its column had an entry or not. -/
theorem dot_add {row : SparseRow Extended} {j : Nat} {q a : Rat} (h : dot row p = .finite a) :
    dot (add j (.finite q) row) p = .finite (a + q * p j) := by
  induction row generalizing a with
  | nil =>
      obtain rfl := Extended.finite.inj h
      simp [add]
  | cons e es ih =>
      obtain ⟨r, b, hr, hb, rfl⟩ := dot_cons_eq_finite.mp h
      unfold add
      split
      · refine dot_cons_eq_finite.mpr ⟨q, r * p e.1 + b, rfl, h, ?_⟩
        ring
      · split
        · rename_i hj
          refine dot_cons_eq_finite.mpr ⟨r + q, b, ?_, hb, ?_⟩
          · rw [hr, Extended.finite_add]
          · rw [hj]
            ring
        · refine dot_cons_eq_finite.mpr ⟨r, b + q * p j, hr, ih hb, ?_⟩
          ring

theorem dot_foldl_add (es : List (Nat × Rat)) {row : SparseRow Extended} {a : Rat}
    (h : dot row p = .finite a) :
    dot ((es.map fun e => (e.1, Extended.finite e.2)).foldl (fun row e => add e.1 e.2 row) row) p =
      .finite (a + (es.map fun e => e.2 * p e.1).sum) := by
  induction es generalizing row a with
  | nil => simpa using h
  | cons e es ih => simpa [add_assoc] using ih (dot_add h)

/-- `SparseRow.ofEntries` has the value of the entries one by one. -/
theorem dot_ofEntries (es : List (Nat × Rat)) :
    dot (ofEntries (es.map fun e => (e.1, .finite e.2))) p =
      .finite (es.map fun e => e.2 * p e.1).sum := by
  have := dot_foldl_add es (dot_nil (p := p))
  rwa [zero_add] at this

end SparseRow

/-! ## Costs -/

def costFrom (k : Nat) (cost : List Extended) (p : Nat → Rat) : Extended :=
  SparseRow.dot ((cost.zipIdx k).map Prod.swap) p

/-- The product of a vector of costs and a point. -/
def costAt (cost : List Extended) (p : Nat → Rat) : Extended :=
  costFrom 0 cost p

theorem costFrom_cons_eq_finite {k : Nat} {c : Extended} {cost : List Extended} {a : Rat} :
    costFrom k (c :: cost) p = .finite a ↔
      ∃ q b, c = .finite q ∧ costFrom (k + 1) cost p = .finite b ∧ q * p k + b = a :=
  SparseRow.dot_cons_eq_finite

theorem costFrom_replicate (k n : Nat) :
    costFrom k (List.replicate n Numeric.zero) p = .finite 0 := by
  induction n generalizing k with
  | zero => rfl
  | succ n ih =>
      exact costFrom_cons_eq_finite.mpr ⟨0, 0, Extended.numericZero, ih (k + 1), by simp⟩

theorem costFrom_modify {cost : List Extended} {j k : Nat} (hj : j < cost.length) {q a : Rat}
    (h : costFrom k cost p = .finite a) :
    costFrom k (cost.modify j (· + .finite q)) p = .finite (a + q * p (k + j)) := by
  induction cost generalizing j k a with
  | nil => simp at hj
  | cons c cost ih =>
      obtain ⟨r, b, rfl, hb, rfl⟩ := costFrom_cons_eq_finite.mp h
      cases j with
      | zero =>
          rw [List.modify_zero_cons, Extended.finite_add]
          refine costFrom_cons_eq_finite.mpr ⟨r + q, b, rfl, hb, ?_⟩
          rw [Nat.add_zero]
          ring
      | succ j =>
          rw [List.modify_succ_cons]
          have later := ih (by simpa using hj) hb
          refine costFrom_cons_eq_finite.mpr ⟨r, _, rfl, later, ?_⟩
          rw [show k + 1 + j = k + (j + 1) by omega]
          ring

theorem costAt_modify {cost : List Extended} {j : Nat} (hj : j < cost.length) {q a : Rat}
    (h : costAt cost p = .finite a) :
    costAt (cost.modify j (· + .finite q)) p = .finite (a + q * p j) := by
  have := costFrom_modify (q := q) hj h
  rwa [Nat.zero_add] at this

theorem costFrom_neg {k : Nat} {cost : List Extended} {a : Rat}
    (h : costFrom k cost p = .finite a) : costFrom k (cost.map fun x => -x) p = .finite (-a) := by
  induction cost generalizing k a with
  | nil =>
      obtain rfl := Extended.finite.inj h
      rfl
  | cons c cost ih =>
      obtain ⟨r, b, rfl, hb, rfl⟩ := costFrom_cons_eq_finite.mp h
      refine costFrom_cons_eq_finite.mpr ⟨-r, -b, rfl, ih hb, ?_⟩
      ring

/-! ## Terms as entries -/

/-- A term can be entered: its variable has a column, and its coefficient is a finite number. -/
structure Declarations.Enters (d : Declarations) (t : Term) : Prop where
  registered : d.Registered t.var
  finite : t.coefficient.ReadsFinite

/-- The value of an expression where variables have numbers. -/
def Expression.total (e : Expression) (x : Key → Rat) : Rat :=
  (e.terms.items.map fun t => t.coefficient.toRat * x t.var.key).sum

/-- A term was entered as a column with its coefficient. -/
structure Declarations.Entered (d : Declarations) (t : Term) (e : Int × Extended) : Prop where
  entry : Term.entry d.index.require t = .ok e
  column : ∃ i : Nat, i < d.index.size ∧ e.1 = i
  value : ∃ q, e.2 = .finite q ∧
    ∀ x p, d.Reads x p → q * p e.1.toNat = t.coefficient.toRat * x t.var.key

section

variable {d : Declarations}

theorem Declarations.Enters.exists_entered (distinct : d.Distinct) {t : Term} (h : d.Enters t) :
    ∃ e, d.Entered t e := by
  obtain ⟨i, w, hi, hk, hrequire⟩ := distinct.require_index h.registered
  obtain ⟨hlt, -⟩ := List.getElem?_eq_some_iff.mp hi
  refine ⟨((i : Int), .finite t.coefficient.toRat), ?_, ⟨i, by simpa using hlt, rfl⟩, _, rfl, ?_⟩
  · rw [Term.entry, hrequire]
    exact bind_eq_ok.mpr ⟨_, rfl, bind_eq_ok.mpr ⟨_, h.finite, rfl⟩⟩
  · intro x p reads
    rw [Int.toNat_natCast, reads.at_place distinct hi, hk]

/-- Entered terms are entries with rational coefficients, which have the values of the terms. -/
theorem Declarations.Entered.exists_entries {ts : List Term} {es : List (Int × Extended)}
    (h : List.Forall₂ d.Entered ts es) : ∃ qs : List (Nat × Rat),
      es.map (fun e => (e.1.toNat, e.2)) = qs.map (fun e => (e.1, .finite e.2)) ∧
      ∀ x p, d.Reads x p →
        (qs.map fun e => e.2 * p e.1) = ts.map fun t => t.coefficient.toRat * x t.var.key := by
  induction h with
  | nil => exact ⟨[], rfl, fun _ _ _ => rfl⟩
  | @cons t e ts es ht _ ih =>
      obtain ⟨qs, hqs, value⟩ := ih
      obtain ⟨q, hq, same⟩ := ht.value
      refine ⟨(e.1.toNat, q) :: qs, by simp [hqs, hq], fun x p reads => ?_⟩
      simp [value x p reads, same x p reads]

theorem Declarations.Entered.dot_ofEntries {ts : List Term} {es : List (Int × Extended)}
    (h : List.Forall₂ d.Entered ts es) {x : Key → Rat} {p : Nat → Rat} (reads : d.Reads x p) :
    SparseRow.dot (SparseRow.ofEntries (es.map fun e => (e.1.toNat, e.2))) p =
      .finite (ts.map fun t => t.coefficient.toRat * x t.var.key).sum := by
  obtain ⟨qs, hqs, value⟩ := exists_entries h
  rw [hqs, SparseRow.dot_ofEntries, value x p reads]

theorem Declarations.Entered.columns {ts : List Term} {es : List (Int × Extended)}
    (h : List.Forall₂ d.Entered ts es) : ∀ e ∈ es, ∃ i : Nat, i < d.index.size ∧ e.1 = i := by
  intro e he
  obtain ⟨i, hi⟩ := List.getElem?_of_mem he
  obtain ⟨t, -, entered⟩ := exists_of_forall₂ h.flip hi
  exact entered.column

theorem foldl_choose {r : Int → Int → Prop} [DecidableRel r] {P : Int → Prop} {a : Int}
    {columns : List Int} (start : P a) (h : ∀ j ∈ columns, P j) :
    P (columns.foldl (fun a b => if r a b then b else a) a) := by
  induction columns generalizing a with
  | nil => exact start
  | cons j columns ih =>
      obtain ⟨head, tail⟩ := List.forall_mem_cons.mp h
      refine ih ?_ tail
      dsimp only
      split
      · exact head
      · exact start

/-- `checkColumns` lets entries pass whose columns are those of variables. -/
theorem checkColumns_eq_ok {width : Nat} {columns : List Int}
    (h : ∀ j ∈ columns, ∃ i : Nat, i < width ∧ j = i) : checkColumns width columns = .ok () := by
  cases columns with
  | nil => rfl
  | cons j columns =>
      obtain ⟨i, hi, -⟩ := h j List.mem_cons_self
      have greatest : ((j :: columns).foldl (fun a b => if a < b then b else a) 0) < width := by
        refine foldl_choose (r := (· < ·)) (P := fun a => a < (width : Int)) (by omega) ?_
        intro k hk
        obtain ⟨i, hi, rfl⟩ := h k hk
        omega
      have least : 0 ≤ (j :: columns).foldl (fun a b => if b < a then b else a) 0 := by
        refine foldl_choose (r := fun a b => b < a) (P := fun a => 0 ≤ a) le_rfl ?_
        intro k hk
        obtain ⟨i, hi, rfl⟩ := h k hk
        omega
      unfold checkColumns
      simp only [List.isEmpty_cons, not_le.mpr greatest, not_lt.mpr least, if_false,
        Bool.false_eq_true]
      rfl

end

/-! ## Constraints -/

/-- A constraint can be entered: it is one over an expression whose terms can be, and its right-hand
side is a finite number. -/
structure Declarations.EntersRow (d : Declarations) (c : Constraint) : Prop where
  linear : ∃ l, c.lhs = .linear l
  terms : ∀ t ∈ c.lhs.terms.items, d.Enters t
  rhs : c.rhs.ReadsFinite

/-- A constraint without terms is decided by its right-hand side. -/
theorem Constraint.holdsWithoutTerms_eq_ok {c : Constraint} (h : c.rhs.ReadsFinite) :
    ∃ b, c.holdsWithoutTerms Extended = .ok b ∧ (b = true ↔ c.relation.Holds 0 c.rhs.toRat) := by
  have range : (c.range : Except Fault (Range Extended)) =
      .ok (c.relation.range (.finite c.rhs.toRat)) := by
    rw [Constraint.range, h]
    rfl
  refine ⟨_, bind_eq_ok.mpr ⟨_, range, rfl⟩, ?_⟩
  rw [Extended.numericZero, Relation.contains_range]

/-- A row has the value of a constraint's left-hand side at every point, and the range that
`Relation.range` gives for its right-hand side. -/
structure Declarations.Denotes (d : Declarations) (row : SparseRow Extended)
    (range : Range Extended) (c : Constraint) : Prop where
  value : ∀ x p, d.Reads x p → row.dot p = .finite (c.lhs.total x)
  range : range = c.relation.range (.finite c.rhs.toRat)

/-- A row says of a point what a constraint says of the numbers of variables. -/
theorem Declarations.Denotes.contains_iff {d : Declarations} {row : SparseRow Extended}
    {range : Range Extended} {c : Constraint} (h : d.Denotes row range c) {x : Key → Rat}
    (reads : d.Reads x p) :
    range.contains (row.dot p) = true ↔ c.relation.Holds (c.lhs.total x) c.rhs.toRat := by
  rw [h.value x p reads, h.range, Relation.contains_range]

section

variable {d : Declarations}

/-- The row of a constraint, before its columns are looked at. -/
structure Declarations.EnteredRow (d : Declarations) (c : Constraint)
    (r : List (Int × Extended) × Range Extended) : Prop where
  row : Constraint.row d.index.require c = .ok r
  columns : ∀ e ∈ r.1, ∃ i : Nat, i < d.index.size ∧ e.1 = i
  denotes : d.Denotes (SparseRow.ofEntries (r.1.map fun e => (e.1.toNat, e.2))) r.2 c

theorem Declarations.EntersRow.exists_entered (distinct : d.Distinct) {c : Constraint}
    (h : d.EntersRow c) : ∃ r, d.EnteredRow c r := by
  obtain ⟨l, hl⟩ := h.linear
  have terms := h.terms
  rw [hl] at terms
  obtain ⟨es, hes⟩ := exists_forall₂ fun t ht => (terms t ht).exists_entered distinct
  refine ⟨(es, c.relation.range (Extended.finite c.rhs.toRat)), ?_, ?_, ?_⟩
  · have entries : c.lhs.entries d.index.require = .ok es := by
      rw [hl, Expression.entries, Expression.terms_linear, Series.mapM_ofList, mapM_eq_ok]
      exact hes.imp fun _ _ h => h.entry
    have range : c.range = .ok (c.relation.range (Extended.finite c.rhs.toRat)) := by
      rw [Constraint.range, h.rhs]
      rfl
    rw [Constraint.row, entries, range]
    rfl
  · exact Declarations.Entered.columns hes
  · refine ⟨fun x p reads => ?_, rfl⟩
    rw [Declarations.Entered.dot_ofEntries hes reads, hl]
    rfl

/-- `matrixOf` has a row of entries for each constraint. -/
theorem matrixOf_eq_ok {K : Type} [Numeric K] {d : Declarations} {cs : Series Constraint} {n : Nat}
    {rs : List (List (Int × K) × Range K)} (complete : cs.ending = .complete)
    (length : cs.length = .ok n)
    (rows : List.Forall₂ (fun c r => Constraint.row d.index.require c = .ok r) cs.items rs)
    (columns : ∀ r ∈ rs, ∀ e ∈ r.1, ∃ i : Nat, i < d.index.size ∧ e.1 = i) :
    matrixOf d.index.size d.index.require (fun _ => .ok ()) pure cs =
      .ok ⟨⟨d.index.size, rs.map fun r => SparseRow.ofEntries (r.1.map fun e => (e.1.toNat, e.2))⟩,
        rs.map (·.2)⟩ := by
  have entered : cs.mapM "lhs" (Constraint.row d.index.require) = .ok rs := by
    refine bind_eq_ok.mpr ⟨rs, mapM_eq_ok.mpr rows, ?_⟩
    rw [Series.finish, complete]
    rfl
  have numbers : rs.mapM (fun r => r.1.mapM fun e => (pure e.1 : Except Fault Int)) =
      .ok (rs.map fun r => r.1.map (·.1)) := by
    simp only [List.mapM_pure]
    rfl
  have fits : checkColumns d.index.size (rs.map fun r => r.1.map (·.1)).flatten = .ok () := by
    refine checkColumns_eq_ok fun j hj => ?_
    obtain ⟨_, mem, hj⟩ := List.mem_flatten.mp hj
    obtain ⟨r, hr, rfl⟩ := List.mem_map.mp mem
    obtain ⟨e, he, rfl⟩ := List.mem_map.mp hj
    exact columns r hr e he
  have paired : rs.zip (rs.map fun r => r.1.map (·.1)) = rs.map fun r => (r, r.1.map (·.1)) := by
    simpa using List.zip_map' (f := id) (g := fun r => r.1.map (·.1)) (l := rs)
  unfold matrixOf
  simp only [length, entered, numbers, fits, bind, Except.bind, paired, List.map_map]
  refine congrArg (fun rows => Except.ok (RangedRows.mk ⟨d.index.size, rows⟩ (rs.map (·.2))))
    (List.map_congr_left fun r _ => ?_)
  rw [Function.comp_apply, List.map_map, List.zip_map']
  rfl

theorem exists_matrix (distinct : d.Distinct) {cs : Series Constraint} {n : Nat}
    (complete : cs.ending = .complete) (length : cs.length = .ok n)
    (enters : ∀ c ∈ cs.items, d.EntersRow c) :
    ∃ m : RangedRows Extended,
      matrixOf d.index.size d.index.require (fun _ => .ok ()) pure cs = .ok m ∧
      m.matrix.width = d.index.size ∧ m.matrix.rows.length = cs.items.length ∧
      m.ranges.length = cs.items.length ∧
      ∀ (i : Nat) c, cs.items[i]? = some c → ∃ row range, m.matrix.rows[i]? = some row ∧
        m.ranges[i]? = some range ∧ d.Denotes row range c := by
  obtain ⟨rs, hrs⟩ := exists_forall₂ fun c hc => (enters c hc).exists_entered distinct
  have columns : ∀ r ∈ rs, ∀ e ∈ r.1, ∃ i : Nat, i < d.index.size ∧ e.1 = i := by
    intro r hr
    obtain ⟨i, hi⟩ := List.getElem?_of_mem hr
    obtain ⟨c, -, entered⟩ := exists_of_forall₂ hrs.flip hi
    exact entered.columns
  have joined := matrixOf_eq_ok complete length (hrs.imp fun _ _ h => h.row) columns
  refine ⟨_, joined, rfl, by simp [hrs.length_eq], by simp [hrs.length_eq], fun i c hc => ?_⟩
  obtain ⟨r, hr, entered⟩ := exists_of_forall₂ hrs hc
  exact ⟨_, _, by simp [hr], by simp [hr], entered.denotes⟩

/-! ## Objectives -/

/-- Adds entries to a vector of coefficients, from left to right. -/
def addEntries {K : Type} [Numeric K] (cost : List K) (es : List (Int × K)) : List K :=
  es.foldl (fun cost e => cost.modify e.1.toNat (· + e.2)) cost

@[simp] theorem length_addEntries {K : Type} [Numeric K] (cost : List K) (es : List (Int × K)) :
    (addEntries cost es).length = cost.length := by
  induction es generalizing cost with
  | nil => rfl
  | cons e es ih => exact (ih _).trans (List.length_modify _ _ _)

theorem foldlM_addCost {K : Type} [Numeric K] {d : Declarations} {ts : List Term}
    {es : List (Int × K)}
    (h : List.Forall₂ (fun t e => Term.entry d.index.require t = .ok e) ts es)
    (columns : ∀ e ∈ es, ∃ i : Nat, i < d.index.size ∧ e.1 = i) (cost : List K) :
    ts.foldlM (addCost fun v => d.index.require v >>= columnPlaces d.index.size) cost =
      .ok (addEntries cost es) := by
  induction h generalizing cost with
  | nil => rfl
  | @cons t e ts es ht _ ih =>
      obtain ⟨⟨i, hi, hcolumn⟩, later⟩ := List.forall_mem_cons.mp columns
      obtain ⟨j, hj, hentry⟩ := bind_eq_ok.mp ht
      obtain ⟨c, hc, hentry⟩ := bind_eq_ok.mp hentry
      obtain rfl : (j, c) = e := Except.ok.inj hentry
      obtain rfl : j = i := hcolumn
      have step : addCost (fun v => d.index.require v >>= columnPlaces d.index.size) cost t =
          .ok (cost.modify i (· + c)) := by
        rw [addCost, hj]
        exact bind_eq_ok.mpr ⟨[i], columnPlaces_natCast hi, bind_eq_ok.mpr ⟨c, hc, rfl⟩⟩
      rw [List.foldlM_cons, step]
      exact ih later _

theorem costAt_addEntries {es : List (Int × Extended)} {qs : List (Nat × Rat)}
    (same : es.map (fun e => (e.1.toNat, e.2)) = qs.map fun e => (e.1, .finite e.2)) {n : Nat}
    (columns : ∀ e ∈ es, ∃ i : Nat, i < n ∧ e.1 = i) {cost : List Extended}
    (size : cost.length = n) {a : Rat} (value : costAt cost p = .finite a) :
    costAt (addEntries cost es) p = .finite (a + (qs.map fun e => e.2 * p e.1).sum) := by
  induction qs generalizing es cost a with
  | nil =>
      obtain rfl := List.map_eq_nil_iff.mp same
      simpa [addEntries] using value
  | cons q qs ih =>
      obtain ⟨e, es, rfl, he, hes⟩ := List.map_eq_cons_iff.mp same
      obtain ⟨hj, hq⟩ := Prod.mk.inj he
      obtain ⟨⟨i, hi, place⟩, later⟩ := List.forall_mem_cons.mp columns
      have added :=
        costAt_modify (j := e.1.toNat) (by simpa [place, size] using hi) (q := q.2) value
      rw [← hq] at added
      rw [List.map_cons, List.sum_cons, ← add_assoc, ← hj]
      exact ih hes later (by simpa using size) added

theorem exists_cost (distinct : d.Distinct) {objective : Option Expression}
    (linear : ∀ e, objective = some e → ∃ l, e = .linear l)
    (terms : ∀ e, objective = some e → ∀ t ∈ e.terms.items, d.Enters t) :
    ∃ cost : List Extended,
      costOf d.index.size (fun v => d.index.require v >>= columnPlaces d.index.size) objective =
        .ok cost ∧ cost.length = d.index.size ∧
      ∀ x p, d.Reads x p →
        costAt cost p = .finite ((objective.map fun e => e.total x).getD 0) := by
  cases objective with
  | none =>
      exact ⟨_, rfl, List.length_replicate, fun x p _ => costFrom_replicate 0 _⟩
  | some e =>
      obtain ⟨l, rfl⟩ := linear e rfl
      obtain ⟨es, hes⟩ := exists_forall₂ fun t ht => (terms _ rfl t ht).exists_entered distinct
      have columns := Declarations.Entered.columns hes
      refine ⟨addEntries (List.replicate d.index.size Numeric.zero) es, ?_, by simp,
        fun x p reads => ?_⟩
      · rw [costOf, Expression.terms_linear, Series.foldlM_ofList]
        exact foldlM_addCost (hes.imp fun _ _ h => h.entry) columns _
      · obtain ⟨qs, hqs, value⟩ := Declarations.Entered.exists_entries hes
        rw [costAt_addEntries hqs columns List.length_replicate (costFrom_replicate 0 _), zero_add,
          value x p reads]
        rfl

end

end Milp
