import Milp.Proofs.Engine.Gurobi.Course
import Milp.Proofs.Extraction

/-!
# Duals of Gurobi

Gurobi gives a dual for every row and a reduced cost for every column when its model is a linear
program. A solution takes all of them over.
-/

namespace Milp.Gurobi

variable {K : Type} [Numeric K]

/-- An optimal reply about a linear program that gives every column a value, with these duals of the
rows and of the columns. -/
structure Reply.Carries (r : Reply K) (p : Problem) (ys ds : List K) : Prop where
  optimal : r.status? = .ok (some .optimal)
  linear : r.mixed = false
  values : ∀ j < p.variableList.length, ∃ a, (r.value j).read = .ok a
  rowDuals : ∀ (i : Nat) y, ys[i]? = some y → (r.rowDual i).read = .ok y
  rowCount : ys.length = p.constraints.items.length
  columnDuals : ∀ (j : Nat) d, ds[j]? = some d → (r.reducedCost j).read = .ok d
  columnCount : ds.length = p.variableList.length

section

variable {p : Problem} {r : Reply K} {ys ds : List K}

/-- What Gurobi gives for so many places, in order. -/
def listed {α : Type} (f : Nat → α) (count : Nat) : List α :=
  (List.range count).map f

omit [Numeric K] in
theorem zipIdx_map_rowDual (cs : List Constraint) (r : Reply K) :
    cs.zipIdx.map (fun (c, i) => (c.name, r.rowDual i)) =
      (cs.map (·.name)).zip (listed r.rowDual cs.length) := by
  refine List.ext_getElem (by simp [listed]) fun i hi hi' => ?_
  simp [listed]

omit [Numeric K] in
theorem duals_eq_ok (h : p.WellFormed)
    (hashable : ∀ c ∈ p.constraints.items, c.name.checkKey = .ok ()) :
    duals p p.index r = .ok (Table.ofList (p.dualEntries (listed r.rowDual p.constraints.items.length)
      (listed r.reducedCost p.variableList.length))) := by
  have columns : p.index.entries.map (fun e => (e.1, r.reducedCost e.2.toNat)) =
      p.variableList.zip (listed r.reducedCost p.variableList.length) := by
    refine List.ext_getElem (by simp [Declarations.index, listed]) fun i hi hi' => ?_
    simp [Declarations.index, listed]
  unfold duals
  rw [columns, zipIdx_map_rowDual]
  exact Table.collect_eq_ok (Problem.checkKey_dualEntries h.distinct hashable _ _)

/-- What is given for places is read one by one. -/
theorem forall₂_listed {f : Nat → Reported K} {xs : List K} {count : Nat} (h : xs.length = count)
    (each : ∀ (i : Nat) x, xs[i]? = some x → (f i).read = .ok x) :
    List.Forall₂ (fun y a => Reported.read y = .ok a) (listed f count) xs := by
  refine List.forall₂_iff_get.mpr ⟨by simp [listed, h], fun i hi hi' => ?_⟩
  simpa [listed] using each i _ (List.getElem?_eq_getElem hi')

/-- Such a reply is read as a solution with the table of its duals. -/
theorem exists_readSolution (h : p.WellFormed)
    (real : ∀ v ∈ p.variableList, p.domainOf v = .real)
    (hashable : ∀ c ∈ p.constraints.items, c.name.checkKey = .ok ()) (carries : r.Carries p ys ds) :
    ∃ s, readSolution p r = .ok s ∧ s.dual = Table.ofList (p.dualEntries ys ds) := by
  have entered (v : Value) (hv : v ∈ p.variableList) :
      ∃ x, (do (r.value (← p.index.require v).toNat).read) = (.ok x : Except Fault K) := by
    obtain ⟨i, hi⟩ := List.getElem?_of_mem hv
    obtain ⟨x, hx⟩ := carries.values i (List.getElem?_eq_some_iff.mp hi).1
    exact ⟨x, bind_eq_ok.mpr ⟨_, h.distinct.require_at hi, hx⟩⟩
  obtain ⟨s, hs⟩ := Solution.exists_extract_of_real real entered
    (p.objective.bind fun _ => r.objective.given)
  have new := (Solution.covers_of_extract hs).2
  have taken := Solution.enterDuals_ofList new
    (p.forall₂_dualEntries (forall₂_listed carries.rowCount carries.rowDuals)
      (forall₂_listed carries.columnCount carries.columnDuals))
  refine ⟨{ s with dual := Table.ofList (p.dualEntries ys ds) }, ?_, rfl⟩
  unfold readSolution
  rw [carries.linear]
  exact bind_eq_ok.mpr ⟨_, duals_eq_ok h hashable, bind_eq_ok.mpr ⟨s, hs, taken⟩⟩

/-- Such a reply gives a solution with the table of its duals. -/
theorem exists_readReply (h : p.WellFormed)
    (real : ∀ v ∈ p.variableList, p.domainOf v = .real)
    (hashable : ∀ c ∈ p.constraints.items, c.name.checkKey = .ok ()) (carries : r.Carries p ys ds)
    (name : Value) (t : Logged (Session (Call K))) :
    ∃ s t', (readReply name p p.index r).runOn t = (.ok (some s), t') ∧
      s.dual = Table.ofList (p.dualEntries ys ds) := by
  obtain ⟨s, hs, dual⟩ := exists_readSolution h real hashable carries
  have taken := runOn_readReply (p := p) name carries.optimal t
  rw [hs] at taken
  exact ⟨s, _, taken, dual⟩

/-- A solve in which Gurobi gave such a reply gives a table of the duals of all rows and columns. -/
theorem exists_tabulates (h : p.WellFormed)
    (real : ∀ v ∈ p.variableList, p.domainOf v = .real)
    (hashable : ∀ c ∈ p.constraints.items, c.name.checkKey = .ok ()) (carries : r.Carries p ys ds)
    {engine : Engine K} {hooks : Hooks (Incremental K)} {solver : Solver}
    (replied : Replied engine
      ((solve engine hooks solver p).perform (.start solver)).2.state.tellings r) :
    ∃ s, ((solve engine hooks solver p).perform (.start solver)).1 = .ok (some s) ∧
      p.Tabulates s.dual ys ds := by
  obtain ⟨m, t, -, course⟩ := exists_of_replied replied
  obtain ⟨s, t', read, dual⟩ := exists_readReply h real hashable carries solver.name
    (closed [.stage .optimize] t)
  rw [course, read]
  exact ⟨s, rfl, dual ▸ Problem.tabulates_ofList h.distinct hashable carries.rowCount
    carries.columnCount⟩

end

end Milp.Gurobi
