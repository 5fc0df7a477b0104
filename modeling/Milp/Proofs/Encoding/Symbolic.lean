import Milp.Encoding.Symbolic
import Milp.Proofs.Encoding.Bounds

/-!
# What the symbolic form says

The symbolic form of a problem admits the points that hold numbers with which the problem is
satisfied. Constraints without terms have no rows in it: one that fails leaves no form at all.
-/

namespace Milp

/-- A finite number by which a symbol can be multiplied; a truth value is none. -/
structure Value.IsFactor (v : Value) : Prop where
  finite : v.IsFinite
  notTruth : ∀ b, v ≠ .bool b
  notFlag : ∀ b, v ≠ .scalar (.flag b)

/-- The number, whether it is known to be whole or not. -/
def Number.exact : Number Extended → Extended
  | .whole n => .finite n
  | .real x => x

namespace Symbolic

/-- What terms are worth at a point. -/
def valueAt (terms : List (Nat × Number Extended)) (q : Nat → Rat) : Extended :=
  SparseRow.dot (terms.map fun e => (e.1, e.2.exact)) q

end Symbolic

/-- The terms of a row lie between its sides. -/
structure SymbolicRow.Admits (r : SymbolicRow Extended) (q : Nat → Rat) : Prop where
  lower : ∀ a, r.bounds.lower = some a → Numeric.le a (Symbolic.valueAt r.terms q) = true
  upper : ∀ a, r.bounds.upper = some a → Numeric.le (Symbolic.valueAt r.terms q) a = true

namespace Symbolic

/-- A point satisfies the symbolic form. -/
structure Admits (m : Symbolic Extended) (q : Nat → Rat) : Prop where
  vars : ∀ (j : Nat) (v : SymbolicVariable), m.vars[j]? = some v → v.bounds.Admit v.domain (q j)
  rows : ∀ r ∈ m.rows, r.Admits q

/-! ## Terms -/

theorem coefficientOf_of_isFactor {v : Value} (h : v.IsFactor) :
    ∃ x : Number Extended, coefficientOf v = .ok x ∧ Numeric.ofValue v = .ok x.exact := by
  have number := h.finite
  unfold Value.IsFinite at number
  cases v with
  | bool b => exact absurd rfl (h.notTruth b)
  | int n => exact ⟨.whole n, rfl, rfl⟩
  | real x => exact ⟨.real (Numeric.ofFloat x), rfl, rfl⟩
  | scalar s =>
      cases s with
      | integer kind n => exact ⟨.whole n, rfl, rfl⟩
      | single x => exact ⟨.real (Numeric.ofFloat x), rfl, rfl⟩
      | double x => exact ⟨.real (Numeric.ofFloat x), rfl, rfl⟩
      | flag b => exact absurd rfl (h.notFlag b)
  | symbol s =>
      cases s with
      | parameter p => exact ⟨.whole p.code, rfl, rfl⟩
      | _ => cases number
  | _ => cases number

section

variable {d : Declarations}

theorem exists_entries (distinct : d.Distinct) {ts : List Term}
    (registered : ∀ t ∈ ts, d.Registered t.var) (factors : ∀ t ∈ ts, t.coefficient.IsFactor) :
    ∃ es : List (Nat × Number Extended), ts.mapM (entry d.index) = .ok es ∧
      List.Forall₂ d.EntryOf ts (es.map fun e => ((e.1 : Int), e.2.exact)) := by
  have each (t : Term) (ht : t ∈ ts) : ∃ e : Nat × Number Extended,
      entry d.index t = .ok e ∧ d.EntryOf t ((e.1 : Int), e.2.exact) := by
    obtain ⟨i, v, hv, same, found⟩ := distinct.require_index (registered t ht)
    obtain ⟨x, hx, value⟩ := coefficientOf_of_isFactor (factors t ht)
    refine ⟨(i, x), ?_, ⟨i, v, hv, same, rfl⟩, value⟩
    exact bind_eq_ok.mpr ⟨_, found, bind_eq_ok.mpr ⟨x, hx, rfl⟩⟩
  obtain ⟨es, hes⟩ := exists_forall₂ each
  refine ⟨es, mapM_eq_ok.mpr (hes.imp fun _ _ h => h.1), ?_⟩
  rw [List.forall₂_map_right_iff]
  exact hes.imp fun _ _ h => h.2

theorem valueAt_of_entries {ts : List Term} {es : List (Nat × Number Extended)}
    (h : List.Forall₂ d.EntryOf ts (es.map fun e => ((e.1 : Int), e.2.exact)))
    (factors : ∀ t ∈ ts, t.coefficient.IsFactor) (distinct : d.Distinct) {x : Key → Rat}
    {q : Nat → Rat} (reads : d.Reads x q) :
    valueAt es q = .finite (ts.map fun t => t.coefficient.toRat * x t.var.key).sum := by
  rw [← Declarations.EntryOf.dot h (fun t ht => (factors t ht).finite.readsFinite) distinct reads,
    List.map_map]
  rfl

/-! ## Rows -/

@[simp] theorem isEmpty_linear (l : Linear) :
    (Expression.linear l).isEmpty = .ok l.terms.isEmpty := by
  cases h : l.terms <;> simp [Expression.isEmpty, Except.map, h]

/-- The sides of a row are those of its constraint. -/
theorem admits_sides (r : Relation) (a b : Rat) :
    ((∀ lo, (sides r (Extended.finite b)).lower = some lo → Numeric.le lo (.finite a) = true) ∧
      ∀ up, (sides r (Extended.finite b)).upper = some up → Numeric.le (.finite a) up = true) ↔
    r.Holds a b := by
  cases r with
  | le => simp [sides, Relation.Holds]
  | ge => simp [sides, Relation.Holds]
  | eq => simpa [sides, Relation.Holds] using le_antisymm_iff.symm.trans eq_comm

/-- `Symbolic.rowOf` says of a point what the constraint says; for a constraint without terms it
gives no row. -/
theorem exists_rowOf (distinct : d.Distinct) {c : Constraint} {l : Linear} (hl : c.lhs = .linear l)
    (registered : ∀ t ∈ l.terms, d.Registered t.var)
    (factors : ∀ t ∈ l.terms, t.coefficient.IsFactor) (rhs : c.rhs.ReadsFinite) (i : Nat) :
    ∃ o : Option (SymbolicRow Extended), rowOf d.index (c, i) = .ok o ∧
      (o = none ↔ c.lhs.terms.items = []) ∧
      ∀ r, o = some r → ∀ x q, d.Reads x q →
        (r.Admits q ↔ c.relation.Holds (c.lhs.total x) c.rhs.toRat) := by
  by_cases empty : l.terms = []
  · refine ⟨none, ?_, by simp [hl, empty], by simp⟩
    rw [rowOf, hl, isEmpty_linear, empty]
    rfl
  · obtain ⟨es, hes, entries⟩ := exists_entries distinct registered factors
    refine ⟨some ⟨i, es, sides c.relation (.finite c.rhs.toRat)⟩, ?_, by simp [hl, empty], ?_⟩
    · have terms : Symbolic.entries d.index c.lhs = .ok es := by
        rw [hl, Symbolic.entries, Expression.terms_linear, Series.mapM_ofList, hes]
      have some : c.lhs.isEmpty = .ok false := by
        rw [hl, isEmpty_linear]
        simpa using empty
      have rhs : (Numeric.ofValue c.rhs : Except Fault Extended) = .ok (.finite c.rhs.toRat) := rhs
      simp only [rowOf, some, terms, rhs, bind, Except.bind]
      rfl
    · rintro r hr x q reads
      obtain rfl := Option.some.inj hr
      have value := valueAt_of_entries entries factors distinct reads
      have total : c.lhs.total x =
          (l.terms.map fun t => t.coefficient.toRat * x t.var.key).sum := by
        rw [hl]
        rfl
      rw [total, ← admits_sides, ← value]
      exact ⟨fun ⟨lower, upper⟩ => ⟨lower, upper⟩, fun ⟨lower, upper⟩ => ⟨lower, upper⟩⟩

end

/-! ## Constraints without terms -/

/-- `emptyRowsHold` finds a constraint that fails without terms if there is one. -/
theorem emptyRowsHold_go_eq_ok {cs : Series Constraint} (complete : cs.ending = .complete)
    {rest : List Constraint} (linear : ∀ c ∈ rest, ∃ l, c.lhs = .linear l)
    (finite : ∀ c ∈ rest, c.rhs.ReadsFinite) :
    ∃ b, emptyRowsHold.go Extended cs rest = .ok b ∧
      (b = true ↔ ∀ c ∈ rest, c.lhs.terms.items = [] → c.relation.Holds 0 c.rhs.toRat) := by
  have finish : (cs.finish "lhs").map (fun _ => true) = .ok true := by
    rw [Series.finish, complete]
    rfl
  induction rest with
  | nil => exact ⟨true, finish, by simp⟩
  | cons c rest ih =>
      obtain ⟨⟨l, hl⟩, linear⟩ := List.forall_mem_cons.mp linear
      obtain ⟨rhs, finite⟩ := List.forall_mem_cons.mp finite
      obtain ⟨b, hb, rest_iff⟩ := ih linear finite
      by_cases empty : l.terms = []
      · have none : c.lhs.isEmpty = .ok true := by
          rw [hl, isEmpty_linear]
          simpa using empty
        have items : c.lhs.terms.items = [] := by simp [hl, empty]
        obtain ⟨here, hhere, here_iff⟩ := Constraint.holdsWithoutTerms_eq_ok rhs
        cases here with
        | true =>
            refine ⟨b, ?_, ?_⟩
            · simp only [emptyRowsHold.go, none, hhere, bind, Except.bind]
              exact hb
            · simp [rest_iff, items, here_iff.mp rfl]
        | false =>
            refine ⟨false, ?_, ?_⟩
            · simp only [emptyRowsHold.go, none, hhere, bind, Except.bind]
              rfl
            · have fails : ¬ c.relation.Holds 0 c.rhs.toRat := fun h => by cases here_iff.mpr h
              simp [items, fails]
      · have some : c.lhs.isEmpty = .ok false := by
          rw [hl, isEmpty_linear]
          simpa using empty
        refine ⟨b, ?_, ?_⟩
        · simp only [emptyRowsHold.go, some, bind, Except.bind]
          exact hb
        · simp [rest_iff, hl, empty]

end Symbolic

end Milp
