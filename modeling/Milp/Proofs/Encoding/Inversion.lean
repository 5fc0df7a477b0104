import Milp.Proofs.Encoding.Matrix

/-!
# What a form was made of

A form that could be made gives away what it was made of: the column of every variable could be
found, and the row of every constraint.
-/

namespace Milp

variable {K : Type} [Numeric K]

namespace Declarations

variable {d : Declarations}

theorem exists_column_of_enterColumn {γ : Type} {places : γ → Except Fault (List Nat)}
    {cs cs' : Columns K} {e : Value × γ} (h : d.enterColumn places cs e = .ok cs') :
    ∃ c, d.column K e.1 = .ok c := by
  obtain ⟨⟨lower, upper⟩, hbounds, h⟩ := bind_eq_ok.mp h
  have found {lo up : K} (hlo : side Numeric.negInf lower = .ok lo)
      (hup : side Numeric.posInf upper = .ok up) : ∃ c, d.column K e.1 = .ok c :=
    ⟨_, bind_eq_ok.mpr ⟨_, hbounds, bind_eq_ok.mpr ⟨_, hlo, bind_eq_ok.mpr ⟨_, hup, rfl⟩⟩⟩⟩
  cases lower with
  | none =>
      cases upper with
      | none => exact found rfl rfl
      | some b =>
          obtain ⟨_, -, h⟩ := bind_eq_ok.mp h
          obtain ⟨_, hup, -⟩ := bind_eq_ok.mp h
          exact found rfl hup
  | some a =>
      obtain ⟨_, hlo, h⟩ := bind_eq_ok.mp h
      cases upper with
      | none => exact found hlo rfl
      | some b =>
          obtain ⟨_, -, h⟩ := bind_eq_ok.mp h
          obtain ⟨_, hup, -⟩ := bind_eq_ok.mp h
          exact found hlo hup

/-- The columns of all variables are those of each of them, side by side. -/
theorem columns_index_iff {cs : Columns K} :
    d.columns d.index = .ok cs ↔ ∃ cols, d.variableList.mapM (d.column K) = .ok cols ∧
      cs = ⟨cols.map (·.1), cols.map (·.2.1), cols.map (·.2.2)⟩ := by
  constructor
  · intro h
    have each : ∀ v ∈ d.variableList, ∃ c, d.column K v = .ok c := by
      intro v hv
      obtain ⟨i, hi⟩ := List.getElem?_of_mem hv
      have entry : (v, (i : Int)) ∈ d.index.entries :=
        List.mem_map.mpr ⟨(v, i), List.mem_zipIdx_iff_getElem?.mpr hi, rfl⟩
      obtain ⟨_, _, entered⟩ := foldlM_eq_ok_mem h _ entry
      exact exists_column_of_enterColumn entered
    obtain ⟨cols, hcols⟩ := exists_forall₂ each
    have made := mapM_eq_ok.mpr hcols
    exact ⟨cols, made, Except.ok.inj (h.symm.trans (columns_index made))⟩
  · rintro ⟨cols, made, rfl⟩
    exact columns_index made

end Declarations

namespace Problem

variable {p : Problem}

/-- The row of a matrix that entries in any order amount to. -/
def sparseRow (r : List (Int × K) × Range K) : SparseRow K :=
  SparseRow.ofEntries (r.1.map fun e => (e.1.toNat, e.2))

/-- The rows that `Problem.matrix` gives are those of the constraints, one by one. -/
theorem exists_of_matrix {m : RangedRows K} (h : p.matrix p.index = .ok m) :
    ∃ rs, List.Forall₂ (fun c r => Constraint.row p.index.require c = .ok r)
        p.constraints.items rs ∧
      m = ⟨⟨p.index.size, rs.map sparseRow⟩, rs.map (·.2)⟩ := by
  unfold matrix matrixOf at h
  obtain ⟨_, -, h⟩ := bind_eq_ok.mp h
  obtain ⟨rs, entered, h⟩ := bind_eq_ok.mp h
  obtain ⟨_, -, h⟩ := bind_eq_ok.mp h
  obtain ⟨columns, hcolumns, h⟩ := bind_eq_ok.mp h
  obtain ⟨_, -, h⟩ := bind_eq_ok.mp h
  obtain ⟨rs', hrs, finished⟩ := bind_eq_ok.mp entered
  obtain ⟨_, -, finished⟩ := bind_eq_ok.mp finished
  obtain rfl : rs' = rs := Except.ok.inj finished
  refine ⟨rs', mapM_eq_ok.mp hrs, ?_⟩
  have numbers : columns = rs'.map fun r => r.1.map (·.1) := by
    simp only [List.mapM_pure] at hcolumns
    exact (Except.ok.inj hcolumns).symm
  have paired : rs'.zip (rs'.map fun r => r.1.map (·.1)) =
      rs'.map fun r => (r, r.1.map (·.1)) := by
    simpa using List.zip_map' (f := id) (g := fun r => r.1.map (·.1)) (l := rs')
  rw [numbers, paired] at h
  rw [← Except.ok.inj h, List.map_map]
  refine congrArg (fun rows => RangedRows.mk ⟨p.index.size, rows⟩ (rs'.map (·.2)))
    (List.map_congr_left fun r _ => ?_)
  rw [Function.comp_apply, List.map_map, List.zip_map']
  rfl

end Problem

end Milp
