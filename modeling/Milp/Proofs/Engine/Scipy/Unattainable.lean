import Milp.Proofs.Problem.Reals
import Milp.Proofs.Store.Built

/-!
# Linear programs with infinite numbers

`Ranged.split` leaves out a side that is infinite, whichever infinity it is. Where the infinity
limits nothing, that loses nothing. A constraint or a bound that no number meets is lost with it, so
SciPy is told a linear program that has points where the problem has none.
-/

namespace Milp

namespace Problem

/-- Every constraint and every bound can be met by some number. -/
structure Attainable (p : Problem) : Prop where
  constraints : ∀ c ∈ p.constraints.items, c.Attainable
  lower : ∀ v ∈ p.variableList, ∃ a, p.LowerMet v a
  upper : ∀ v ∈ p.variableList, ∃ a, p.UpperMet v a

/-- Every constraint and every bound is met that can be met by some number. -/
structure MetWherePossible (p : Problem) (x : Key → ℝ) : Prop where
  constraints : ∀ c ∈ p.constraints.items, c.Attainable → c.MetAt x
  lower : ∀ v ∈ p.variableList, (∃ a, p.LowerMet v a) → p.LowerMet v (x v.key)
  upper : ∀ v ∈ p.variableList, (∃ a, p.UpperMet v a) → p.UpperMet v (x v.key)

/-- What is met everywhere is what is met where possible, as long as everything can be met. -/
theorem metAt_iff {p : Problem} {x : Key → ℝ} :
    p.MetAt x ↔ p.Attainable ∧ p.MetWherePossible x := by
  constructor
  · rintro ⟨constraints, lower, upper⟩
    exact ⟨⟨fun c hc => ⟨_, constraints c hc⟩, fun v hv => ⟨_, lower v hv⟩,
        fun v hv => ⟨_, upper v hv⟩⟩,
      ⟨fun c hc _ => constraints c hc, fun v hv _ => lower v hv, fun v hv _ => upper v hv⟩⟩
  · rintro ⟨attainable, met⟩
    exact ⟨fun c hc => met.constraints c hc (attainable.constraints c hc),
      fun v hv => met.lower v hv (attainable.lower v hv),
      fun v hv => met.upper v hv (attainable.upper v hv)⟩

end Problem

/-! ## What is split off -/

/-- An infinite number is met by all real numbers or by none. -/
theorem Relation.holdsIn_of_infinite (r : Relation) {b : EReal} (infinite : b = ⊤ ∨ b = ⊥) {a' : ℝ}
    (met : r.HoldsIn a' b) (a : ℝ) : r.HoldsIn a b := by
  rcases infinite with rfl | rfl
  · cases r with
    | le => exact le_top
    | eq => exact absurd met (EReal.coe_ne_top a')
    | ge => exact absurd met (EReal.coe_lt_top a').not_ge
  · cases r with
    | le => exact absurd met (EReal.bot_lt_coe a').not_ge
    | eq => exact absurd met (EReal.coe_ne_bot a')
    | ge => exact bot_le

namespace Ranged

/-- Nothing is split off the range of a relation to an infinite number. -/
theorem split_range_of_infinite (r : Relation) {b : Extended} (infinite : b.isFinite = false) :
    isEquation (r.range b) = false ∧ hasUpper (r.range b) = false ∧
      hasLower (r.range b) = false := by
  have neg : (Extended.isFinite .negInf) = false := rfl
  have pos : (Extended.isFinite .posInf) = false := rfl
  cases r with
  | le => simp [Relation.range, isEquation, hasUpper, hasLower, Numeric.isFinite, infinite, neg]
  | eq => simp [Relation.range, isEquation, hasUpper, hasLower, Numeric.isFinite, infinite]
  | ge => simp [Relation.range, isEquation, hasUpper, hasLower, Numeric.isFinite, infinite, pos]

/-- The sides that are split off the range of a relation are kept by a number exactly if it stands
in the relation, or no number does. -/
theorem split_range_iff (r : Relation) {b : Extended} (number : b ≠ .notANumber) (a : ℝ) :
    ((∃ a' : ℝ, r.HoldsIn a' b.toEReal) → r.HoldsIn a b.toEReal) ↔
      (isEquation (r.range b) = true → (r.range b).upper.EqReal a) ∧
      (hasUpper (r.range b) = true → (r.range b).upper.AboveReal a) ∧
      (hasLower (r.range b) = true → (-(r.range b).lower).AboveReal (-a)) := by
  have unlimited (infinite : b.toEReal = ⊤ ∨ b.toEReal = ⊥) (part : b.isFinite = false) :
      ((∃ a' : ℝ, r.HoldsIn a' b.toEReal) → r.HoldsIn a b.toEReal) ↔
        (isEquation (r.range b) = true → (r.range b).upper.EqReal a) ∧
        (hasUpper (r.range b) = true → (r.range b).upper.AboveReal a) ∧
        (hasLower (r.range b) = true → (-(r.range b).lower).AboveReal (-a)) := by
    obtain ⟨equation, upper, lower⟩ := split_range_of_infinite r part
    rw [equation, upper, lower]
    exact iff_of_true (fun ⟨_, met⟩ => r.holdsIn_of_infinite infinite met a) (by simp)
  cases b with
  | notANumber => exact absurd rfl number
  | negInf => exact unlimited (.inr rfl) rfl
  | posInf => exact unlimited (.inl rfl) rfl
  | finite q =>
      have attainable : ∃ a' : ℝ, r.HoldsIn a' (Extended.finite q).toEReal := by
        refine ⟨q, ?_⟩
        cases r with
        | le => exact le_rfl
        | eq => rfl
        | ge => exact le_rfl
      rw [imp_iff_right attainable, ← r.within_range_iff number]
      exact within_iff (r.isLowerSide_range q) (r.isUpperSide_range q) a

theorem finiteBound_belowReal_iff {lo : Extended} (number : lo ≠ .notANumber) (a : ℝ) :
    (∀ l, finiteBound lo = some l → l.BelowReal a) ↔
      ((∃ a' : ℝ, lo.toEReal ≤ a') → lo.toEReal ≤ a) := by
  cases lo with
  | notANumber => exact absurd rfl number
  | negInf => exact iff_of_true (fun l hl => by cases hl) fun _ => bot_le
  | posInf =>
      refine iff_of_true (fun l hl => by cases hl) ?_
      exact fun ⟨a', met⟩ => absurd met (EReal.coe_lt_top a').not_ge
  | finite q =>
      rw [imp_iff_right ⟨(q : ℝ), le_rfl⟩, ← Extended.belowReal_iff number]
      exact ⟨fun all => all _ rfl, fun below l hl => Option.some.inj hl ▸ below⟩

theorem finiteBound_aboveReal_iff {up : Extended} (number : up ≠ .notANumber) (a : ℝ) :
    (∀ u, finiteBound up = some u → u.AboveReal a) ↔
      ((∃ a' : ℝ, a' ≤ up.toEReal) → a ≤ up.toEReal) := by
  cases up with
  | notANumber => exact absurd rfl number
  | posInf => exact iff_of_true (fun u hu => by cases hu) fun _ => le_top
  | negInf =>
      refine iff_of_true (fun u hu => by cases hu) ?_
      exact fun ⟨a', met⟩ => absurd met (EReal.bot_lt_coe a').not_ge
  | finite q =>
      rw [imp_iff_right ⟨(q : ℝ), le_rfl⟩, ← Extended.aboveReal_iff number]
      exact ⟨fun all => all _ rfl, fun above u hu => Option.some.inj hu ▸ above⟩

end Ranged

/-- The split form has a real point exactly if every constraint and every bound is met there that
can be met by some number. -/
theorem Problem.Spells.encloses_split_iff {p : Problem} {m : Ranged Extended} {x : Key → ℝ}
    {y : Nat → ℝ} (h : p.Spells m) (distinct : p.Distinct) (data : p.LinearData)
    (reads : p.ReadsReal x y) : m.split.Encloses y ↔ p.MetWherePossible x := by
  have lower : (∀ (j : Nat) lo, m.lower[j]? = some lo →
      ∀ l, Ranged.finiteBound lo = some l → l.BelowReal (y j)) ↔
        ∀ v ∈ p.variableList, (∃ a, p.LowerMet v a) → p.LowerMet v (x v.key) := by
    rw [h.lower, reads.forall_column_iff distinct
      (Q := fun lo a => ∀ l, Ranged.finiteBound lo = some l → l.BelowReal a)]
    refine forall₂_congr fun v hv => ?_
    rw [Ranged.finiteBound_belowReal_iff (Declarations.lowerSide_ne (data.lower v hv))]
    simp only [Declarations.lowerSide_le_iff]
  have upper : (∀ (j : Nat) up, m.upper[j]? = some up →
      ∀ u, Ranged.finiteBound up = some u → u.AboveReal (y j)) ↔
        ∀ v ∈ p.variableList, (∃ a, p.UpperMet v a) → p.UpperMet v (x v.key) := by
    rw [h.upper, reads.forall_column_iff distinct
      (Q := fun up a => ∀ u, Ranged.finiteBound up = some u → u.AboveReal a)]
    refine forall₂_congr fun v hv => ?_
    rw [Ranged.finiteBound_aboveReal_iff (Declarations.upperSide_ne (data.upper v hv))]
    simp only [Declarations.le_upperSide_iff]
  have columns : m.upper.length = m.lower.length := by
    rw [h.lower, h.upper, List.length_map, List.length_map]
  -- What the sides say that are split off a range, before it is known which constraint it is for.
  let within (row : SparseRow Extended) (r : Range Extended) : Prop :=
    (Ranged.isEquation r = true → r.upper.EqReal (row.atReal y)) ∧
      (Ranged.hasUpper r = true → r.upper.AboveReal (row.atReal y)) ∧
      (Ranged.hasLower r = true → (-r.lower).AboveReal (-row.atReal y))
  have rows : List.Forall₂ within m.matrix.rows m.ranges ↔
      ∀ c ∈ p.constraints.items, c.Attainable → c.MetAt x := by
    refine h.rows_iff fun c hc e denotes => ?_
    dsimp only [within]
    rw [denotes.range, denotes.value x y reads]
    exact Ranged.split_range_iff _ (data.sides c hc) _
  have split := Ranged.encloses_split_iff_rowwise h.lowerSides h.upperSides columns
    fun row r _ => (Iff.rfl : within row r ↔ _)
  rw [split, rows, lower, upper]
  exact ⟨fun ⟨constraints, lower, upper⟩ => ⟨constraints, lower, upper⟩,
    fun ⟨constraints, lower, upper⟩ => ⟨constraints, lower, upper⟩⟩

namespace Store

open Scipy

/-- SciPy is told once about a linear program that is `Store.Built`. In the ranged form, by which
mixed problems are told, the numbers of a real point meet every constraint and every bound over the
extended reals (`MetAt`), and no others do. In the form that SciPy is told they are
`MetWherePossible`: infinities keep their meaning where everything is `Attainable`, and what is not
is lost. -/
theorem Built.linear_told {id : Nat} {s : Store} (built : Built id s)
    (data : (s.viewProblem id).LinearData) (inhabited : (s.viewProblem id).index.size ≠ 0)
    (engine : Scipy.Engine Extended) (hooks : Hooks (Ranged Extended)) {solver : Solver}
    (plain : solver.hooks = []) {settings : Settings}
    (frozen : (Settings.ofParameters solver.name solver.parameters).1 = .ok settings) :
    ∃ m : Ranged Extended,
      ((solve engine hooks solver (s.viewProblem id)).perform (.start solver)).2.state.tellings =
        [.linear m.split] ∧
      ∀ x y, (s.viewProblem id).ReadsReal x y →
        ((Call.mixed m).Encloses y ↔ (s.viewProblem id).MetAt x) ∧
        ((Call.linear m.split).Encloses y ↔ (s.viewProblem id).MetWherePossible x) ∧
        ((s.viewProblem id).Attainable →
          ((Call.linear m.split).Encloses y ↔ (s.viewProblem id).MetAt x)) := by
  have formed := built.sound.wellFormed
  obtain ⟨m, model, spells⟩ := formed.exists_spelled data
  obtain ⟨opts, log, course⟩ := perform_solve engine hooks plain frozen model
  have spells' := spells.withOptions opts
  have told : callOf { m with options := opts } = .linear { m with options := opts }.split :=
    if_neg (by simpa using spells'.linear)
  refine ⟨{ m with options := opts }, ?_, fun x y reads => ?_⟩
  · rw [course, if_neg inhabited, told]
    exact tellings_answer engine solver _ _ _ _
  · have relaxed := spells'.encloses_split_iff formed.distinct data reads
    refine ⟨spells'.encloses_iff formed.distinct data reads, relaxed, fun attainable => ?_⟩
    refine relaxed.trans ⟨fun met => ?_, fun met => ?_⟩
    · exact Problem.metAt_iff.mpr ⟨attainable, met⟩
    · exact (Problem.metAt_iff.mp met).2

/-- A variable that is to be at least infinite. -/
def unbounded : Store :=
  (newProblem.perform .empty).2.state
    |> called "add" [.text "cap", .tuple [.term (.text "x") (.int 1)], .text ">=",
      .real Binary64.infinity]

theorem built_unbounded : Built 0 unbounded :=
  built_first.called rfl (by decide)

set_option maxRecDepth 4000 in
theorem items_unbounded : (unbounded.viewProblem 0).constraints.items =
    [⟨.linear ⟨[⟨.text "x", .int 1⟩]⟩, .symbol (.relation .ge), .real Binary64.infinity,
      .text "cap"⟩] := by
  with_unfolding_all rfl

set_option maxRecDepth 4000 in
theorem declarations_unbounded : (unbounded.viewProblem 0).objective = none ∧
    (unbounded.viewProblem 0).variableList = [.text "x"] ∧
    (unbounded.viewProblem 0).domainOf (.text "x") = .real ∧
    (unbounded.viewProblem 0).lowers = ⟨[]⟩ ∧ (unbounded.viewProblem 0).uppers = ⟨[]⟩ := by
  with_unfolding_all exact ⟨rfl, rfl, rfl, rfl, rfl⟩

theorem extended_infinity : (Value.real Binary64.infinity).extended = .posInf :=
  Extended.numericPosInf

theorem linearData_unbounded : (unbounded.viewProblem 0).LinearData := by
  obtain ⟨objective, columns, real, lowers, uppers⟩ := declarations_unbounded
  have one : (Value.int 1).ReadsFinite := Value.readsFinite_of_eq rfl
  refine ⟨?_, ?_, ?_, ?_, ?_, ?_⟩
  · simpa [columns] using real
  · simp [items_unbounded, one]
  · simp [items_unbounded, Value.ReadsExtended, extended_infinity]
  · simp [objective]
  · simp [lowers, Table.get?]
  · simp [uppers, Table.get?]

theorem not_attainable_unbounded : ∀ c ∈ (unbounded.viewProblem 0).constraints.items,
    ¬ c.Attainable := by
  rw [items_unbounded, List.forall_mem_singleton]
  rintro ⟨a, met⟩
  have above : (Extended.posInf.toEReal ≤ (a : EReal)) := extended_infinity ▸ met
  exact absurd above (EReal.coe_lt_top a).not_ge

/-- Told as a linear program, a problem without points has them all. -/
theorem linear_told_unbounded :
    let p := unbounded.viewProblem 0
    let solver := Solver.fresh .scipy "scipy"
    ∃ call : Split Extended,
      ((solve (fun _ => .error .unfinished) (fun _ _ m => (m, none)) solver p).perform
        (.start solver)).2.state.tellings = [.linear call] ∧
      (∀ x, ¬ p.MetAt x) ∧ ∀ y, (Call.linear call).Encloses y := by
  intro p solver
  obtain ⟨-, columns, -, lowers, uppers⟩ := declarations_unbounded
  have inhabited : p.index.size ≠ 0 := by
    rw [Declarations.size_index, columns]
    exact Nat.one_ne_zero
  have frozen : (Settings.ofParameters solver.name solver.parameters).1 =
      .ok (Settings.initial (.text "scipy")) := rfl
  obtain ⟨m, told, points⟩ := built_unbounded.linear_told linearData_unbounded inhabited
    (fun _ => .error .unfinished) (fun _ _ m => (m, none)) rfl frozen
  refine ⟨m.split, told, fun x met => ?_, fun y => ?_⟩
  · obtain ⟨c, hc⟩ : ∃ c, c ∈ p.constraints.items := by
      rw [items_unbounded]
      exact ⟨_, List.mem_cons_self⟩
    exact not_attainable_unbounded c hc ⟨_, met.constraints c hc⟩
  · obtain ⟨x, reads⟩ := p.exists_readsReal y
    refine (points x y reads).2.1.mpr ⟨fun c hc attainable => ?_, fun v _ _ => ?_, fun v _ _ => ?_⟩
    · exact absurd attainable (not_attainable_unbounded c hc)
    · simp [Declarations.LowerMet, lowers, Table.get?]
    · simp [Declarations.UpperMet, uppers, Table.get?]

end Store

end Milp
