import Milp.Proofs.Encoding.Inversion
import Milp.Proofs.Engine.Scipy.Replied
import Milp.Proofs.Engine.Scipy.Reply
import Milp.Proofs.Extraction

/-!
# The table of duals of SciPy

The marginals of a split linear program are those of the sides of its rows. They are gathered at the
rows that the sides were split off, and a solution takes all of them over in its own sense.
-/

namespace Milp.Scipy

variable {K : Type} [Numeric K]

/-! ## Duals of rows -/

/-- A number, and what is added to it if there is something. -/
def plus (x : K) (y : Option K) : K :=
  y.elim x (x + ·)

/-- The dual of a row: the marginal of its upper side, the opposite of that of its lower side, or the
marginal of the equation that it is. -/
def rowDual (m : Ranged K) (uppers equations : List K) (i : Nat) : K :=
  let count := (m.rowsWhere Ranged.hasUpper).length
  let above := plus Numeric.zero
    (((m.rowsWhere Ranged.hasUpper).zip (uppers.take count)).lookup i)
  let sides := plus above
    (((m.rowsWhere Ranged.hasLower).zip ((uppers.drop count).map fun x => -x)).lookup i)
  plus sides (((m.rowsWhere Ranged.isEquation).zip equations).lookup i)

/-- Numbers that are sent to different places are added to what stands there. -/
theorem getElem?_scatter {xs ys : List K} {places : List Nat} (apart : places.Nodup) (i : Nat) :
    (scatter xs places ys)[i]? = xs[i]?.map fun x => plus x ((places.zip ys).lookup i) := by
  induction places generalizing xs ys with
  | nil => simp [scatter, plus]
  | cons a places ih =>
      obtain ⟨fresh, apart⟩ := List.nodup_cons.mp apart
      cases ys with
      | nil => simp [plus]
      | cons y ys =>
          have later : (scatter (xs.modify a (· + y)) places ys)[i]? =
              (xs.modify a (· + y))[i]?.map fun x => plus x ((places.zip ys).lookup i) := ih apart
          rw [scatter, List.zip_cons_cons, List.foldl_cons, ← scatter, later, List.lookup_cons,
            List.getElem?_modify]
          by_cases h : i = a
          · subst h
            have none : (places.zip ys).lookup i = none := by
              refine List.lookup_eq_none_iff.mpr fun e he => ?_
              have other : i ≠ e.1 := by
                rintro rfl
                exact fresh (List.of_mem_zip he).1
              simpa using other
            simp [none, plus, Option.map_map, Function.comp_def]
          · have other : (i == a) = false := by simpa using h
            simp [other, Ne.symm h]

omit [Numeric K] in
theorem nodup_rowsWhere (m : Ranged K) (test : Range K → Bool) :
    (m.rowsWhere test).Nodup := by
  have sub : (m.rowsWhere test).Sublist (m.ranges.zipIdx.map (·.2)) :=
    List.filter_sublist.map _
  refine sub.nodup ?_
  rw [List.zipIdx_map_snd]
  exact List.nodup_range'

/-- `gatherRows` gives each row its `rowDual`. -/
theorem gatherRows_eq (m : Ranged K) (uppers equations : List K) :
    gatherRows m uppers equations =
      (List.range m.matrix.rows.length).map (rowDual m uppers equations) := by
  refine List.ext_getElem? fun i => ?_
  unfold gatherRows rowDual
  dsimp only
  rw [getElem?_scatter (nodup_rowsWhere _ _), getElem?_scatter (nodup_rowsWhere _ _),
    getElem?_scatter (nodup_rowsWhere _ _), List.getElem?_map]
  by_cases h : i < m.matrix.rows.length
  · simp [h]
  · simp [h]

/-! ## Replies with marginals -/

/-- There are marginals for all sides of rows and for all columns. -/
structure Reply.Marginal (r : Reply K) (m : Ranged K) : Prop where
  upper : (r.upperMarginals.getD []).length =
    (m.rowsWhere Ranged.hasUpper).length + (m.rowsWhere Ranged.hasLower).length
  equation : (r.equationMarginals.getD []).length = (m.rowsWhere Ranged.isEquation).length
  lowerBound : (r.lowerBoundMarginals.getD []).length = m.lower.length
  upperBound : (r.upperBoundMarginals.getD []).length = m.lower.length

/-- The duals of the rows of a model, in its own sense. -/
def Reply.rowDuals (r : Reply K) (m : Ranged K) : List K :=
  (List.range m.matrix.rows.length).map fun i =>
    signed m (rowDual m (r.upperMarginals.getD []) (r.equationMarginals.getD []) i)

/-- The reduced costs of the columns of a model, in its own sense. -/
def Reply.reducedCosts (r : Reply K) (m : Ranged K) : List K :=
  List.zipWith (fun l u => signed m (Numeric.zero + l + u)) (r.lowerBoundMarginals.getD [])
    (r.upperBoundMarginals.getD [])

/-- An optimal reply that gives every column a value, with marginals. -/
structure Reply.Complete (r : Reply K) (p : Problem) (m : Ranged K) : Prop where
  optimal : classify r.code true = .ok .optimal
  values : ∃ xs, r.values = some xs ∧ xs.length = p.variableList.length
  objective : ∀ y, r.objective = some y → ∃ z, y.neg = .ok z
  marginal : r.Marginal m

section

variable {p : Problem} {m : Ranged K} {r : Reply K}

theorem rowDuals_of_marginal (aligned : m.Aligned) (h : r.Marginal m) :
    rowDuals m.matrix.rows.length m r = .ok ((List.range m.matrix.rows.length).map
      (rowDual m (r.upperMarginals.getD []) (r.equationMarginals.getD []))) := by
  rw [← gatherRows_eq]
  refine rowDuals_eq_ok aligned (fun ys hys => ?_) fun ys hys => ?_
  · have count := h.upper
    rwa [hys] at count
  · have count := h.equation
    rwa [hys] at count

/-- Marginals that are there in the number of what they are added to. -/
theorem addPresent_of_length {ys : Option (List K)} {xs : List K}
    (h : (ys.getD []).length = xs.length) :
    addPresent ys xs = .ok (List.zipWith (· + ·) xs (ys.getD [])) := by
  cases ys with
  | none =>
      obtain rfl := List.eq_nil_of_length_eq_zero h.symm
      rfl
  | some ys => exact bind_eq_ok.mpr ⟨ys, fit_eq_ok h, rfl⟩

theorem columnDuals_of_marginal (h : r.Marginal m) :
    columnDuals m.lower.length r = .ok (List.zipWith (fun l u => Numeric.zero + l + u)
      (r.lowerBoundMarginals.getD []) (r.upperBoundMarginals.getD [])) := by
  have zeros : List.zipWith (· + ·) (List.replicate m.lower.length (Numeric.zero : K))
      (r.lowerBoundMarginals.getD []) =
        (r.lowerBoundMarginals.getD []).map (Numeric.zero + ·) := by
    refine List.ext_getElem (by simp [h.lowerBound]) fun i _ _ => by simp
  refine bind_eq_ok.mpr ⟨_, addPresent_of_length (by simp [h.lowerBound]), ?_⟩
  rw [zeros, addPresent_of_length (by simp [h.lowerBound, h.upperBound]), List.zipWith_map_left]

/-- The duals of a linear program are entered for all of its rows and columns. -/
theorem duals_of_marginal (h : p.WellFormed)
    (hashable : ∀ c ∈ p.constraints.items, c.name.checkKey = .ok ()) (aligned : m.Aligned)
    (marginal : r.Marginal m) (rowCount : m.matrix.rows.length = p.constraints.items.length)
    (columnCount : m.lower.length = p.variableList.length) :
    duals p p.index m r =
      .ok (Table.ofList (p.dualEntries (r.rowDuals m) (r.reducedCosts m))) := by
  have constraints : p.constraints.toList "name" = .ok p.constraints.items := by
    rw [Series.toList, Series.finish, h.complete]
    rfl
  have rows : ((List.range m.matrix.rows.length).map
      (rowDual m (r.upperMarginals.getD []) (r.equationMarginals.getD []))).map (signed m) =
        r.rowDuals m := by
    simp [Reply.rowDuals, Function.comp_def]
  have columns : (List.zipWith (fun l u => Numeric.zero + l + u) (r.lowerBoundMarginals.getD [])
      (r.upperBoundMarginals.getD [])).map (signed m) = r.reducedCosts m := by
    rw [List.map_zipWith]
    rfl
  have count : (r.reducedCosts m).length = p.variableList.length := by
    simp [Reply.reducedCosts, marginal.lowerBound, marginal.upperBound, columnCount]
  have summed := columnDuals_of_marginal marginal
  rw [columnCount, ← Declarations.size_index] at summed
  refine bind_eq_ok.mpr ⟨_, constraints, ?_⟩
  rw [← rowCount]
  refine bind_eq_ok.mpr ⟨_, rowDuals_of_marginal aligned marginal, ?_⟩
  refine bind_eq_ok.mpr ⟨_, summed, ?_⟩
  dsimp only
  rw [rows, columns, p.values_index count]
  exact Table.collect_eq_ok (Problem.checkKey_dualEntries h.distinct hashable _ _)

/-- Such a reply is read as a solution with the table of its duals. -/
theorem exists_readSolution_of_marginal (h : p.WellFormed)
    (real : ∀ v ∈ p.variableList, p.domainOf v = .real) (complete : r.Complete p m)
    (es : List (Value × K)) :
    ∃ s, readSolution p p.index m ⟨.optimal, r, Table.ofList es⟩ = .ok s ∧
      s.dual = Table.ofList es := by
  obtain ⟨xs, hxs, count⟩ := complete.values
  obtain ⟨o, ho⟩ := exists_readObjective (p := p) (m := m) complete.objective
  have entered (v : Value) (hv : v ∈ p.variableList) :
      ∃ x, (⟨p.variableList.zip xs⟩ : Table K).require v = .ok x := by
    obtain ⟨i, hi⟩ := List.getElem?_of_mem hv
    have hlt : i < xs.length := count ▸ (List.getElem?_eq_some_iff.mp hi).1
    exact ⟨xs[i], h.distinct.require_zip count hi (List.getElem?_eq_getElem hlt)⟩
  obtain ⟨s, hs⟩ := Solution.exists_extract_of_real real entered o
  refine ⟨s.withDuals (Table.ofList es), ?_, ?_⟩
  · exact readSolution_eq_ok ho hxs (p.values_index count) hs
  · rw [Solution.withDuals, (Solution.covers_of_extract hs).2]
    exact Table.insertAll_entries_ofList es

/-- The ranged form of a linear program has no integral columns, and as many rows and columns as
there are constraints and variables. -/
theorem shape_of_ranged (real : ∀ v ∈ p.variableList, p.domainOf v = .real)
    (made : p.ranged p.index = .ok m) :
    m.isMixed = false ∧ m.matrix.rows.length = p.constraints.items.length ∧
      m.lower.length = p.variableList.length := by
  obtain ⟨cols, hcols, made⟩ := bind_eq_ok.mp made
  obtain ⟨rows, hrows, made⟩ := bind_eq_ok.mp made
  obtain ⟨cost, -, made⟩ := bind_eq_ok.mp made
  obtain rfl := Except.ok.inj made
  obtain ⟨rs, entered, rfl⟩ := Problem.exists_of_matrix hrows
  obtain ⟨cs, each, rfl⟩ := Declarations.columns_index_iff.mp hcols
  have columns := mapM_eq_ok.mp each
  refine ⟨?_, by simp [entered.length_eq], by simp [columns.length_eq]⟩
  have continuous : ∀ c ∈ cs, c.2.2 = false := by
    intro c hc
    obtain ⟨i, hi⟩ := List.getElem?_of_mem hc
    obtain ⟨v, hv, column⟩ := exists_of_forall₂ columns.flip hi
    obtain ⟨_, -, column⟩ := bind_eq_ok.mp column
    obtain ⟨_, -, column⟩ := bind_eq_ok.mp column
    obtain ⟨_, -, column⟩ := bind_eq_ok.mp column
    obtain rfl := Except.ok.inj column
    rw [real v (List.mem_of_getElem? hv)]
    rfl
  refine List.any_eq_false.mpr fun b hb => ?_
  simp only [List.map_map, List.mem_map] at hb
  obtain ⟨c, hc, rfl⟩ := hb
  simp [continuous c hc]

/-- A `Reply.Complete` reply about a linear program gives a solution with the table of its duals,
with any options. -/
theorem exists_answer_of_complete (h : p.WellFormed)
    (real : ∀ v ∈ p.variableList, p.domainOf v = .real)
    (hashable : ∀ c ∈ p.constraints.items, c.name.checkKey = .ok ())
    (made : p.ranged p.index = .ok m) (complete : r.Complete p m) {opts : Table Value}
    {engine : Engine K} (reply : engine (callOf { m with options := opts }) = .ok r)
    (solver : Solver) (t : Logged (Session (Call K))) :
    ∃ s t', (guarded solver.name (takeReply engine p { m with options := opts }) >>=
        conclude p { m with options := opts }).runOn t = (.ok (some s), t') ∧
      s.dual = Table.ofList (p.dualEntries (r.rowDuals m) (r.reducedCosts m)) := by
  obtain ⟨linear, rowCount, columnCount⟩ := shape_of_ranged real made
  have marginal : r.Marginal { m with options := opts } :=
    ⟨complete.marginal.upper, complete.marginal.equation, complete.marginal.lowerBound,
      complete.marginal.upperBound⟩
  have entered : duals p p.index { m with options := opts } r =
      .ok (Table.ofList (p.dualEntries (r.rowDuals m) (r.reducedCosts m))) :=
    duals_of_marginal h hashable ((aligned_of_ranged made).withOptions opts) marginal rowCount
      columnCount
  obtain ⟨s, read, dual⟩ := exists_readSolution_of_marginal h real complete
    (p.dualEntries (r.rowDuals m) (r.reducedCosts m))
  have classified : classify r.code r.values.isSome = .ok .optimal := by
    obtain ⟨xs, hxs, -⟩ := complete.values
    rw [hxs]
    exact complete.optimal
  obtain ⟨log, solved⟩ := runOn_of_solved solver reply classified rfl
    (.inr ⟨linear, entered⟩) read t
  exact ⟨s, _, solved, dual⟩

/-- A solve in which SciPy gave a complete reply about the ranged form of a linear program gives a
table of the duals of all rows and columns. -/
theorem exists_tabulates (h : p.WellFormed)
    (real : ∀ v ∈ p.variableList, p.domainOf v = .real)
    (hashable : ∀ c ∈ p.constraints.items, c.name.checkKey = .ok ())
    (made : p.ranged p.index = .ok m) (complete : r.Complete p m) {engine : Engine K}
    {hooks : Hooks (Ranged K)} (only : OnlyOptions hooks) {solver : Solver}
    (replied : Replied engine
      ((solve engine hooks solver p).perform (.start solver)).2.state.tellings r) :
    ∃ s, ((solve engine hooks solver p).perform (.start solver)).1 = .ok (some s) ∧
      p.Tabulates s.dual (r.rowDuals m) (r.reducedCosts m) := by
  obtain ⟨_, _, t, presented, given, -, reply, course⟩ := exists_of_replied replied
  obtain ⟨m₀, opts, made₀, rfl⟩ := exists_of_present only presented
  obtain rfl : m₀ = m := Except.ok.inj (made₀.symm.trans made)
  rw [matched_eq_ok ((aligned_of_ranged made).withOptions opts)] at given
  obtain rfl := Except.ok.inj given
  obtain ⟨-, rowCount, columnCount⟩ := shape_of_ranged real made
  obtain ⟨s, t', read, dual⟩ := exists_answer_of_complete h real hashable made complete reply
    solver (asked { m₀ with options := opts } t)
  rw [course, read]
  refine ⟨s, rfl, dual ▸ Problem.tabulates_ofList h.distinct hashable ?_ ?_⟩
  · simp [Reply.rowDuals, rowCount]
  · simp [Reply.reducedCosts, complete.marginal.lowerBound, complete.marginal.upperBound,
      columnCount]

end

end Milp.Scipy
