import Milp.Proofs.Problem.Duals
import Milp.Proofs.Table

/-!
# Tables of duals

Reduced costs and duals of rows share a table, under variables and under names of constraints. Of
two entries under one key only the later one is kept: that of the last constraint with the name.
-/

namespace Milp.Problem

variable {α : Type} {p : Problem}

/-- A table gives duals of a problem: under a name, the one of the last constraint of that name, and
under a variable that no constraint is named like, the one of its column. All of them are there if
and only if names tell the constraints apart, from each other and from the variables. -/
structure Tabulates (p : Problem) (t : Table α) (rows columns : List α) : Prop where
  row : ∀ (i : Nat) c y, p.constraints.items[i]? = some c → rows[i]? = some y →
    (∀ (k : Nat) c', i < k → p.constraints.items[k]? = some c' → c'.name.key ≠ c.name.key) →
    t.get? c.name = some y
  column : ∀ (j : Nat) v d, p.variableList[j]? = some v → columns[j]? = some d →
    (∀ c ∈ p.constraints.items, c.name.key ≠ v.key) → t.get? v = some d
  full : t.size = p.variableList.length + p.constraints.items.length ↔ p.Named

/-- What is entered for a problem: reduced costs by variable, then duals of rows by name. -/
def dualEntries (p : Problem) (rows columns : List α) : List (Value × α) :=
  p.variableList.zip columns ++ (p.constraints.items.map (·.name)).zip rows

theorem checkKey_dualEntries (distinct : p.Distinct)
    (hashable : ∀ c ∈ p.constraints.items, c.name.checkKey = .ok ()) (rows columns : List α) :
    ∀ e ∈ p.dualEntries rows columns, e.1.checkKey = .ok () := by
  rintro ⟨k, y⟩ he
  rcases List.mem_append.mp he with he | he
  · exact distinct.hashable k (List.of_mem_zip he).1
  · obtain ⟨c, hc, rfl⟩ := List.mem_map.mp (List.of_mem_zip he).1
    exact hashable c hc

/-- Entries whose duals stand in a relation one by one. -/
theorem forall₂_dualEntries {β : Type} {R : α → β → Prop} (p : Problem) {rows columns : List α}
    {rows' columns' : List β} (hr : List.Forall₂ R rows rows')
    (hc : List.Forall₂ R columns columns') :
    List.Forall₂ (fun e e' => e.1 = e'.1 ∧ R e.2 e'.2) (p.dualEntries rows columns)
      (p.dualEntries rows' columns') := by
  have zipped {xs : List α} {ys : List β} (h : List.Forall₂ R xs ys) (ks : List Value) :
      List.Forall₂ (fun e e' => e.1 = e'.1 ∧ R e.2 e'.2) (ks.zip xs) (ks.zip ys) := by
    induction h generalizing ks with
    | nil => simp
    | cons hxy _ ih =>
        cases ks with
        | nil => exact .nil
        | cons k ks => exact .cons ⟨rfl, hxy⟩ (ih ks)
  exact List.rel_append (zipped hc _) (zipped hr _)

section

variable {rows columns : List α}

theorem getElem?_dualEntries (columnCount : columns.length = p.variableList.length) (i : Nat) :
    (p.dualEntries rows columns)[p.variableList.length + i]? =
      ((p.constraints.items.map (·.name)).zip rows)[i]? := by
  rw [dualEntries, List.getElem?_append_right (by simp)]
  simp [columnCount]

theorem getElem?_dualEntries_of_lt (columnCount : columns.length = p.variableList.length) {j : Nat}
    (hj : j < p.variableList.length) :
    (p.dualEntries rows columns)[j]? = (p.variableList.zip columns)[j]? :=
  List.getElem?_append_left (by simpa [columnCount] using hj)

/-- The table of `dualEntries` has them all if and only if the problem is `Named`. -/
theorem size_ofList_dualEntries (distinct : p.Distinct)
    (hashable : ∀ c ∈ p.constraints.items, c.name.checkKey = .ok ())
    (rowCount : rows.length = p.constraints.items.length)
    (columnCount : columns.length = p.variableList.length) :
    (Table.ofList (p.dualEntries rows columns)).size =
      p.variableList.length + p.constraints.items.length ↔ p.Named := by
  have keys : (p.dualEntries rows columns).map (·.1) =
      p.variableList ++ p.constraints.items.map (·.name) := by
    rw [dualEntries, List.map_append, List.map_fst_zip columnCount.ge,
      List.map_fst_zip (by simp [rowCount])]
  have count : (p.dualEntries rows columns).length =
      p.variableList.length + p.constraints.items.length := by
    rw [← List.length_map (fun e : Value × α => e.1), keys, List.length_append, List.length_map]
  rw [← count, Table.size_ofList_eq_iff, keys, List.pairwise_append]
  constructor
  · rintro ⟨-, apart, fresh⟩
    exact ⟨hashable, apart, fun v hv c hc => fresh v hv c.name (List.mem_map_of_mem hc)⟩
  · rintro ⟨-, apart, fresh⟩
    refine ⟨distinct.keys, apart, fun v hv w hw => ?_⟩
    obtain ⟨c, hc, rfl⟩ := List.mem_map.mp hw
    exact fresh v hv c hc

/-- The table of `dualEntries` `Tabulates` the duals of a problem. -/
theorem tabulates_ofList (distinct : p.Distinct)
    (hashable : ∀ c ∈ p.constraints.items, c.name.checkKey = .ok ())
    (rowCount : rows.length = p.constraints.items.length)
    (columnCount : columns.length = p.variableList.length) :
    p.Tabulates (Table.ofList (p.dualEntries rows columns)) rows columns := by
  have named (k : Nat) (e : Value × α)
      (he : (p.dualEntries rows columns)[p.variableList.length + k]? = some e) :
      ∃ c, p.constraints.items[k]? = some c ∧ e.1 = c.name := by
    rw [getElem?_dualEntries columnCount] at he
    obtain ⟨hname, -⟩ := List.getElem?_zip_eq_some.mp he
    obtain ⟨c, hc, same⟩ := Option.map_eq_some_iff.mp (List.getElem?_map.symm.trans hname)
    exact ⟨c, hc, same.symm⟩
  refine ⟨fun i c y hc hy last => ?_, fun j v d hv hd fresh => ?_,
    size_ofList_dualEntries distinct hashable rowCount columnCount⟩
  · have here : (p.dualEntries rows columns)[p.variableList.length + i]? = some (c.name, y) := by
      rw [getElem?_dualEntries columnCount]
      exact List.getElem?_zip_eq_some.mpr ⟨by simp [hc], hy⟩
    refine Table.get?_insertAll_of_last here fun k e hk he => ?_
    obtain ⟨k, rfl⟩ := Nat.exists_eq_add_of_le (Nat.le_of_add_right_le hk.le)
    obtain ⟨c', hc', key⟩ := named k e he
    rw [key]
    exact last k c' (by omega) hc'
  · have hj : j < p.variableList.length := (List.getElem?_eq_some_iff.mp hv).1
    have here : (p.dualEntries rows columns)[j]? = some (v, d) := by
      rw [getElem?_dualEntries_of_lt columnCount hj]
      exact List.getElem?_zip_eq_some.mpr ⟨hv, hd⟩
    refine Table.get?_insertAll_of_last here fun k e hk he => ?_
    rcases Nat.lt_or_ge k p.variableList.length with hlt | hge
    · rw [getElem?_dualEntries_of_lt columnCount hlt] at he
      obtain ⟨hw, -⟩ := List.getElem?_zip_eq_some.mp he
      obtain ⟨-, rfl⟩ := List.getElem?_eq_some_iff.mp hv
      obtain ⟨_, there⟩ := List.getElem?_eq_some_iff.mp hw
      rw [← there]
      exact (List.pairwise_iff_getElem.mp distinct.keys j k hj hlt hk).symm
    · obtain ⟨k, rfl⟩ := Nat.exists_eq_add_of_le hge
      obtain ⟨c, hc, key⟩ := named k e he
      rw [key]
      exact fresh c (List.mem_of_getElem? hc)

end

end Milp.Problem
