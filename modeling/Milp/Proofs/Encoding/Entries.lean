import Milp.Proofs.Encoding.Matrix

/-!
# Entries of terms

A term that is entered has the column of its variable and its coefficient as a number. Every form of
a problem takes its entries from the terms in this way.
-/

namespace Milp

variable {K : Type} [Numeric K]

/-- The coefficients of a variable in an expression, in order of terms. -/
def Expression.coefficientsOf (e : Expression) (v : Value) : List Value :=
  (e.terms.items.filter fun t => t.var.key == v.key).map (·.coefficient)

namespace Declarations

variable {d : Declarations}

theorem Distinct.place_eq_iff (distinct : d.Distinct) {i j : Nat} {v w : Value}
    (hv : d.variableList[i]? = some v) (hw : d.variableList[j]? = some w) :
    i = j ↔ v.key = w.key := by
  constructor
  · rintro rfl
    rw [Option.some.inj (hv.symm.trans hw)]
  · intro same
    have first := distinct.get?_index hv same
    have second := distinct.get?_index hw rfl
    exact_mod_cast Option.some.inj (first.symm.trans second)

/-- A term has the column of its variable as its entry, with its coefficient. -/
structure EntryOf (d : Declarations) (t : Term) (e : Int × K) : Prop where
  column : ∃ (i : Nat) (v : Value), d.variableList[i]? = some v ∧ v.key = t.var.key ∧ e.1 = i
  value : Numeric.ofValue t.coefficient = .ok e.2

theorem EntryOf.place {t : Term} {e : Int × K} (h : d.EntryOf t e) :
    ∃ i : Nat, i < d.index.size ∧ e.1 = i := by
  obtain ⟨i, v, hv, -, same⟩ := h.column
  exact ⟨i, by simpa using (List.getElem?_eq_some_iff.mp hv).1, same⟩

theorem EntryOf.place_iff {t : Term} {e : Int × K} (h : d.EntryOf t e) (distinct : d.Distinct)
    {j : Nat} {v : Value} (hv : d.variableList[j]? = some v) :
    e.1.toNat = j ↔ t.var.key = v.key := by
  obtain ⟨i, w, hw, same, place⟩ := h.column
  rw [place, Int.toNat_natCast, ← same]
  exact distinct.place_eq_iff hw hv

theorem EntryOf.places {ts : List Term} {es : List (Int × K)} (h : List.Forall₂ d.EntryOf ts es) :
    ∀ e ∈ es, ∃ i : Nat, i < d.index.size ∧ e.1 = i := by
  intro e he
  obtain ⟨j, hj⟩ := List.getElem?_of_mem he
  obtain ⟨t, -, entry⟩ := exists_of_forall₂ h.flip hj
  exact entry.place

theorem exists_entryOf (distinct : d.Distinct) {t : Term} (registered : d.Registered t.var)
    (read : ∃ x : K, Numeric.ofValue t.coefficient = .ok x) : ∃ e : Int × K, d.EntryOf t e := by
  obtain ⟨i, v, hv, same, -⟩ := distinct.require_index registered
  obtain ⟨x, hx⟩ := read
  exact ⟨(i, x), ⟨i, v, hv, same, rfl⟩, hx⟩

theorem EntryOf.require {t : Term} {e : Int × K} (h : d.EntryOf t e) (distinct : d.Distinct)
    (registered : d.Registered t.var) : d.index.require t.var = .ok e.1 := by
  obtain ⟨i, v, hv, same, found⟩ := distinct.require_index registered
  obtain ⟨j, w, hw, also, place⟩ := h.column
  obtain rfl := (distinct.place_eq_iff hv hw).mpr (same.trans also.symm)
  rw [found, place]

theorem entry_eq_ok (distinct : d.Distinct) {t : Term} (registered : d.Registered t.var)
    {e : Int × K} : Term.entry d.index.require t = .ok e ↔ d.EntryOf t e := by
  constructor
  · intro h
    obtain ⟨i, v, hv, same, found⟩ := distinct.require_index registered
    obtain ⟨j, hj, h⟩ := bind_eq_ok.mp h
    obtain rfl := Except.ok.inj (found.symm.trans hj)
    obtain ⟨x, hx, h⟩ := bind_eq_ok.mp h
    obtain rfl := Except.ok.inj h
    exact ⟨⟨i, v, hv, same, rfl⟩, hx⟩
  · intro h
    exact bind_eq_ok.mpr ⟨e.1, h.require distinct registered, bind_eq_ok.mpr ⟨e.2, h.value, rfl⟩⟩

/-- The entries in the column of a variable hold its coefficients. -/
theorem mapM_coefficients (distinct : d.Distinct) {ts : List Term} {es : List (Int × K)}
    (h : List.Forall₂ d.EntryOf ts es) {j : Nat} {v : Value} (hv : d.variableList[j]? = some v) :
    ((ts.filter fun t => t.var.key == v.key).map (·.coefficient)).mapM Numeric.ofValue =
      .ok ((es.filter fun e => e.1.toNat == j).map (·.2)) := by
  rw [mapM_eq_ok, List.forall₂_map_left_iff, List.forall₂_map_right_iff]
  induction h with
  | nil => exact .nil
  | @cons t e ts es ht _ ih =>
      have here := ht.place_iff distinct hv
      by_cases hk : t.var.key = v.key
      · simpa [hk, here.mpr hk] using ⟨ht.value, ih⟩
      · simpa [hk, mt here.mp hk] using ih

/-- The row of a constraint is made of the entries of its terms (`EntryOf`) and of its range. -/
structure RowOf (d : Declarations) (c : Constraint) (r : List (Int × K) × Range K) : Prop where
  entries : List.Forall₂ d.EntryOf c.lhs.terms.items r.1
  range : c.range = .ok r.2

theorem row_eq_ok (distinct : d.Distinct) {c : Constraint} {l : Linear} (hl : c.lhs = .linear l)
    (registered : ∀ t ∈ l.terms, d.Registered t.var) {r : List (Int × K) × Range K} :
    Constraint.row d.index.require c = .ok r ↔ d.RowOf c r := by
  have entries (es : List (Int × K)) :
      c.lhs.entries d.index.require = .ok es ↔ List.Forall₂ d.EntryOf c.lhs.terms.items es := by
    rw [hl, Expression.entries, Expression.terms_linear, Series.mapM_ofList, mapM_eq_ok]
    exact forall₂_congr_of_mem fun t ht e => entry_eq_ok distinct (registered t ht)
  rw [Constraint.row]
  constructor
  · intro h
    obtain ⟨es, hes, h⟩ := bind_eq_ok.mp h
    obtain ⟨range, hrange, h⟩ := bind_eq_ok.mp h
    obtain rfl := Except.ok.inj h
    exact ⟨(entries es).mp hes, hrange⟩
  · rintro ⟨hes, hrange⟩
    exact bind_eq_ok.mpr ⟨r.1, (entries r.1).mpr hes, bind_eq_ok.mpr ⟨r.2, hrange, rfl⟩⟩

end Declarations

end Milp
