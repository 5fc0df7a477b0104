import Mathlib.Data.Real.Basic
import Mathlib.Tactic.Linarith
import Milp.Proofs.Encoding.Ranged
import Milp.Proofs.Engine.Scipy.Course

/-!
# The real points of a model

The points of real numbers within the rows and the bounds of a model, whatever its integrality. A
model may have any ranges, those that hooks leave included: two finite sides, equal or crossed,
one, or none. Told as a linear program or as a mixed one, it has the same points.
-/

namespace Milp

variable {x : Nat → ℝ}

/-! ## Sides and rows at real numbers -/

/-- A number is at most a real one; the undefined number compares with nothing. -/
def Extended.BelowReal : Extended → ℝ → Prop
  | negInf, _ => True
  | finite q, x => q ≤ x
  | posInf, _ => False
  | notANumber, _ => False

def Extended.AboveReal : Extended → ℝ → Prop
  | posInf, _ => True
  | finite q, x => x ≤ q
  | negInf, _ => False
  | notANumber, _ => False

def Extended.EqReal : Extended → ℝ → Prop
  | finite q, x => x = q
  | _, _ => False

/-- The product of a row of finite coefficients and a real point. -/
def SparseRow.atReal (row : SparseRow Extended) (x : Nat → ℝ) : ℝ :=
  (row.map fun e => (e.2.toRat?.getD 0 : ℝ) * x e.1).sum

namespace Ranged

/-- A real point keeps every row in its range and every column between its bounds. -/
structure Encloses (m : Ranged Extended) (x : Nat → ℝ) : Prop where
  rows : List.Forall₂ (fun row r => r.lower.BelowReal (row.atReal x) ∧
    r.upper.AboveReal (row.atReal x)) m.matrix.rows m.ranges
  lower : ∀ (j : Nat) lo, m.lower[j]? = some lo → lo.BelowReal (x j)
  upper : ∀ (j : Nat) up, m.upper[j]? = some up → up.AboveReal (x j)

end Ranged

/-- A real point keeps every row at most at its side or equal to it, and lies between the bounds
that are there. -/
structure Split.Encloses (s : Split Extended) (x : Nat → ℝ) : Prop where
  upperRows : ∀ a sides, s.upperRows = some (a, sides) →
    List.Forall₂ (fun row side => side.AboveReal (row.atReal x)) a.rows sides
  equations : ∀ a sides, s.equations = some (a, sides) →
    List.Forall₂ (fun row side => side.EqReal (row.atReal x)) a.rows sides
  bounds : ∀ (j : Nat) b, s.bounds[j]? = some b →
    (∀ lo, b.lower = some lo → lo.BelowReal (x j)) ∧ ∀ up, b.upper = some up → up.AboveReal (x j)

namespace Ranged

/-! ## The split form -/

theorem atReal_negated (row : SparseRow Extended) (x : Nat → ℝ) :
    (negated row).atReal x = -row.atReal x := by
  induction row with
  | nil => simp [negated, SparseRow.atReal]
  | cons e es ih =>
      simp only [SparseRow.atReal, negated, List.map_cons, List.sum_cons] at ih ⊢
      rw [ih, Extended.toRat_neg]
      push_cast
      ring

/-- A real number lies in a range if it keeps to the sides that are split off it. -/
theorem within_iff {r : Range Extended} (lower : r.lower.IsLowerSide)
    (upper : r.upper.IsUpperSide) (a : ℝ) :
    (r.lower.BelowReal a ∧ r.upper.AboveReal a) ↔
      (isEquation r = true → r.upper.EqReal a) ∧
      (hasUpper r = true → r.upper.AboveReal a) ∧
      (hasLower r = true → (-r.lower).AboveReal (-a)) := by
  obtain ⟨lo, up⟩ := r
  rcases lower with rfl | ⟨l, rfl⟩ <;> rcases upper with rfl | ⟨u, rfl⟩
  · simp [isEquation, hasUpper, hasLower, Numeric.isFinite, Extended.isFinite,
      Extended.BelowReal, Extended.AboveReal]
  · simp [isEquation, hasUpper, hasLower, Numeric.isFinite, Extended.isFinite,
      Extended.BelowReal]
  · simp [isEquation, hasUpper, hasLower, Numeric.isFinite, Extended.isFinite,
      Numeric.eq, Extended.eq, Extended.BelowReal, Extended.AboveReal]
  · by_cases h : l = u
    · subst h
      simp [isEquation, hasUpper, hasLower, Numeric.isFinite, Extended.isFinite, Numeric.eq,
        Extended.eq, Extended.BelowReal, Extended.AboveReal, Extended.EqReal]
      exact ⟨fun h => le_antisymm h.2 h.1, fun h => ⟨h.ge, h.le⟩⟩
    · simp [isEquation, hasUpper, hasLower, Numeric.isFinite, Extended.isFinite, Numeric.eq,
        Extended.eq, h, Extended.BelowReal, Extended.AboveReal]
      exact and_comm

/-- Every row that was split off has a side. -/
theorem length_split {m : Ranged Extended}
    (lowerSides : m.rowLower.length = m.matrix.rows.length)
    (upperSides : m.rowUpper.length = m.matrix.rows.length) :
    (∀ a sides, m.split.upperRows = some (a, sides) → a.rows.length = sides.length) ∧
      ∀ a sides, m.split.equations = some (a, sides) → a.rows.length = sides.length := by
  rw [upperRows_split, equations_split]
  constructor
  · intro a sides hs
    split at hs
    · cases hs
    · cases hs
      simp [length_select upperSides, length_select lowerSides]
  · intro a sides hs
    split at hs
    · cases hs
    · cases hs
      simp [length_select upperSides]

/-- The split form has a real point if every row allows it with the sides that are split off its
range, and every column with the bounds that are not left out. -/
theorem encloses_split_iff_rowwise {m : Ranged Extended}
    (lowerSides : m.rowLower.length = m.matrix.rows.length)
    (upperSides : m.rowUpper.length = m.matrix.rows.length)
    (columns : m.upper.length = m.lower.length)
    {within : SparseRow Extended → Range Extended → Prop}
    (rowwise : ∀ row r, (row, r) ∈ m.matrix.rows.zip m.ranges →
      (within row r ↔ (isEquation r = true → r.upper.EqReal (row.atReal x)) ∧
        (hasUpper r = true → r.upper.AboveReal (row.atReal x)) ∧
        (hasLower r = true → (-r.lower).AboveReal (-row.atReal x)))) :
    m.split.Encloses x ↔ List.Forall₂ within m.matrix.rows m.ranges ∧
      (∀ (j : Nat) lo, m.lower[j]? = some lo → ∀ l, finiteBound lo = some l → l.BelowReal (x j)) ∧
      ∀ (j : Nat) up, m.upper[j]? = some up → ∀ u, finiteBound up = some u → u.AboveReal (x j) := by
  have rows := split_rows_iff lowerSides upperSides
    (fun row side => side.AboveReal (row.atReal x))
    (fun row side => side.EqReal (row.atReal x)) within
    fun row r he => by
      rw [atReal_negated]
      exact rowwise row r he
  have bounds := bounds_split_iff columns (fun j lo => lo.BelowReal (x j))
    (fun j up => up.AboveReal (x j))
  have ranged : m.matrix.rows.length = m.ranges.length := by
    simp [ranges, lowerSides, upperSides]
  obtain ⟨uppers, equations⟩ := length_split lowerSides upperSides
  constructor
  · rintro ⟨upper, equation, between⟩
    refine ⟨List.forall₂_iff_zip.mpr ⟨ranged, fun {row r} he => ?_⟩, bounds.mp between⟩
    exact rows.mp ⟨fun a sides hs e he => (List.forall₂_iff_zip.mp (upper a sides hs)).2 he,
      fun a sides hs e he => (List.forall₂_iff_zip.mp (equation a sides hs)).2 he⟩ (row, r) he
  · rintro ⟨all, between⟩
    obtain ⟨upper, equation⟩ := rows.mpr fun e he => (List.forall₂_iff_zip.mp all).2 he
    refine ⟨fun a sides hs => ?_, fun a sides hs => ?_, bounds.mpr between⟩
    · exact List.forall₂_iff_zip.mpr ⟨uppers a sides hs, fun he => upper a sides hs _ he⟩
    · exact List.forall₂_iff_zip.mpr ⟨equations a sides hs, fun he => equation a sides hs _ he⟩

/-- The split form has the same real points as the ranged form. -/
theorem encloses_split_iff {m : Ranged Extended} (h : m.Proper) :
    m.split.Encloses x ↔ m.Encloses x := by
  rw [encloses_split_iff_rowwise h.lowerSides h.upperSides h.columns fun row r he =>
    have ⟨_, lower, upper⟩ := h.isSide he
    within_iff lower upper _]
  have lower (j : Nat) (lo : Extended) (hlo : m.lower[j]? = some lo) :=
    finiteBound_lower_iff (h.lower lo (List.mem_of_getElem? hlo))
      (P := fun l => l.BelowReal (x j)) trivial
  have upper (j : Nat) (up : Extended) (hup : m.upper[j]? = some up) :=
    finiteBound_upper_iff (h.upper up (List.mem_of_getElem? hup))
      (P := fun u => u.AboveReal (x j)) trivial
  rw [forall₃_congr lower, forall₃_congr upper]
  exact ⟨fun ⟨rows, lower, upper⟩ => ⟨rows, lower, upper⟩,
    fun ⟨rows, lower, upper⟩ => ⟨rows, lower, upper⟩⟩

end Ranged

namespace Scipy

/-! ## What SciPy is told -/

def Call.Encloses : Call Extended → (Nat → ℝ) → Prop
  | .mixed m, x => m.Encloses x
  | .linear s, x => s.Encloses x

/-- SciPy is told once about a model, as a linear program if no column is integral, and encloses the
same real points in either form (`Encloses`). -/
theorem encloses_told {m : Ranged Extended} (proper : m.Proper) (engine : Engine Extended)
    (p : Problem) (s : Logged (Session (Call Extended))) :
    ((ask engine p p.index m).runOn s).2.state.tellings =
        s.state.tellings ++ [if m.isMixed then .mixed m else .linear m.split] ∧
      ∀ x, (Call.linear m.split).Encloses x ↔ (Call.mixed m).Encloses x :=
  ⟨tellings_ask engine p proper.aligned s, fun _ => Ranged.encloses_split_iff proper⟩

/-- A model with a row of each kind: an upper side, a lower side that may cross the upper one, two
sides that are equal, and none. -/
def rangedModel (side : Rat) : Ranged Extended :=
  { cost := [.finite 1, .finite 1]
    matrix := ⟨2, [[(0, .finite 1), (1, .finite 2)], [(0, .finite 1)],
      [(0, .finite 1), (1, .finite (-1))], [(1, .finite 3)]]⟩
    rowLower := [.negInf, .finite side, .finite (1 / 2), .negInf]
    rowUpper := [.finite 4, .finite 2, .finite (1 / 2), .posInf]
    lower := [.finite 0, .negInf], upper := [.posInf, .finite 5]
    integrality := [0, 0], maximize := false, options := .empty }

theorem proper_rangedModel (side : Rat) : (rangedModel side).Proper where
  lowerSides := rfl
  upperSides := rfl
  columns := rfl
  rowLower := by simp [rangedModel, Extended.IsLowerSide]
  rowUpper := by simp [rangedModel, Extended.IsUpperSide]
  lower := by simp [rangedModel, Extended.IsLowerSide]
  upper := by simp [rangedModel, Extended.IsUpperSide]
  value := by simp [rangedModel]

theorem encloses_rangedModel {side : Rat} (h : side ≤ 3 / 2) :
    (rangedModel side).Encloses fun j => if j = 0 then 3 / 2 else 1 := by
  have row : (side : ℝ) ≤ 3 / 2 :=
    calc (side : ℝ) ≤ ((3 / 2 : Rat) : ℝ) := Rat.cast_le.mpr h
      _ = 3 / 2 := by norm_num
  refine ⟨?_, fun j lo hlo => ?_, fun j up hup => ?_⟩
  · simp only [rangedModel, Ranged.ranges, List.zipWith, List.forall₂_cons, List.Forall₂.nil,
      SparseRow.atReal, Extended.BelowReal, Extended.AboveReal, Extended.toRat?]
    norm_num
    exact row
  · rcases j with _ | _ | j
    · cases hlo
      norm_num [Extended.BelowReal]
    · cases hlo
      trivial
    · cases hlo
  · rcases j with _ | _ | j
    · cases hup
      trivial
    · cases hup
      norm_num [Extended.AboveReal]
    · cases hup

theorem not_encloses_rangedModel {side : Rat} (h : 2 < side) (x : Nat → ℝ) :
    ¬ (rangedModel side).Encloses x := by
  rintro ⟨rows, -, -⟩
  have crossed : (2 : ℝ) < side := by exact_mod_cast h
  simp only [rangedModel, Ranged.ranges, List.zipWith, List.forall₂_cons, Extended.BelowReal,
    Extended.AboveReal] at rows
  obtain ⟨-, ⟨lower, upper⟩, -⟩ := rows
  push_cast at upper
  linarith

/-- Told as a linear program, the model keeps its points, and has none where a range is crossed. -/
theorem encloses_told_rangedModel :
    let told (side : Rat) : List (Call Extended) :=
      ((ask (fun _ => .error .unfinished) Problem.empty Problem.empty.index
        (rangedModel side)).runOn ⟨⟨.none, none, []⟩, []⟩).2.state.tellings
    told 1 = [.linear (rangedModel 1).split] ∧ told 3 = [.linear (rangedModel 3).split] ∧
      (Call.linear (rangedModel 1).split).Encloses (fun j => if j = 0 then 3 / 2 else 1) ∧
      ∀ x, ¬ (Call.linear (rangedModel 3).split).Encloses x := by
  intro told
  obtain ⟨once, same⟩ := encloses_told (proper_rangedModel 1) (fun _ => .error .unfinished)
    Problem.empty ⟨⟨.none, none, []⟩, []⟩
  obtain ⟨once', same'⟩ := encloses_told (proper_rangedModel 3) (fun _ => .error .unfinished)
    Problem.empty ⟨⟨.none, none, []⟩, []⟩
  refine ⟨once, once', (same _).mpr (encloses_rangedModel (by norm_num)), fun x h => ?_⟩
  exact not_encloses_rangedModel (by norm_num) x ((same' x).mp h)

end Scipy

end Milp
