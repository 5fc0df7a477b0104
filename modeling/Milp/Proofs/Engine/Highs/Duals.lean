import Milp.Proofs.Engine.Highs.Course
import Milp.Proofs.Extraction

/-!
# Duals of HiGHS

HiGHS reports a dual for every row and for every column. A solution of a problem without integral
variables takes all of them over.
-/

namespace Milp.Highs

variable {K : Type} [Numeric K]

/-- An optimal reply that gives every column a value, with these duals of the rows and of the
columns. -/
structure Reply.Carries (r : Reply K) (p : Problem) (ys ds : List K) : Prop where
  succeeded : r.failed = false
  optimal : r.modelStatus.outcome? = some .optimal
  valid : r.dualValid = true
  values : ∃ xs, List.Forall₂ (fun x a => Reported.read x = .ok a) r.values xs ∧
    xs.length = p.variableList.length
  rowDuals : List.Forall₂ (fun y a => Reported.read y = .ok a) r.rowDuals ys
  rowCount : ys.length = p.constraints.items.length
  columnDuals : List.Forall₂ (fun d a => Reported.read d = .ok a) r.columnDuals ds
  columnCount : ds.length = p.variableList.length

section

variable {p : Problem} {r : Reply K} {ys ds : List K}

omit [Numeric K] in
theorem duals_eq_ok (h : p.WellFormed)
    (hashable : ∀ c ∈ p.constraints.items, c.name.checkKey = .ok ())
    (columnCount : r.columnDuals.length = p.variableList.length) :
    duals p p.index r = .ok (Table.ofList (p.dualEntries r.rowDuals r.columnDuals)) := by
  have constraints : p.constraints.toList "name" = .ok p.constraints.items := by
    rw [Series.toList, Series.finish, h.complete]
    rfl
  refine bind_eq_ok.mpr ⟨_, Declarations.values_index _ columnCount, ?_⟩
  refine bind_eq_ok.mpr ⟨_, constraints, ?_⟩
  exact Table.collect_eq_ok (Problem.checkKey_dualEntries h.distinct hashable _ _)

omit [Numeric K] in
theorem hasIntegers_eq_false (real : ∀ v ∈ p.variableList, p.domainOf v = .real) :
    p.hasIntegers p.index = false := by
  have keys : p.index.keys = p.variableList := by
    simp [Declarations.index, Table.keys, Function.comp_def]
  rw [Declarations.hasIntegers, keys]
  refine List.any_eq_false.mpr fun v hv => ?_
  rw [real v hv]
  exact Bool.false_ne_true

/-- Such a reply is read as a solution with the table of its duals. -/
theorem exists_readSolution (h : p.WellFormed)
    (real : ∀ v ∈ p.variableList, p.domainOf v = .real)
    (hashable : ∀ c ∈ p.constraints.items, c.name.checkKey = .ok ()) (carries : r.Carries p ys ds) :
    ∃ s, readSolution p p.index r = .ok s ∧ s.dual = Table.ofList (p.dualEntries ys ds) := by
  obtain ⟨xs, read, count⟩ := carries.values
  have values : p.index.values r.values (fun _ => .indexOutOfRange "list") =
      .ok ⟨p.variableList.zip r.values⟩ := p.values_index (read.length_eq.trans count)
  have columnCount := carries.columnDuals.length_eq.trans carries.columnCount
  have entered (v : Value) (hv : v ∈ p.variableList) :
      ∃ x, (do (← (⟨p.variableList.zip r.values⟩ : Table (Reported K)).require v).read) =
        (.ok x : Except Fault K) := by
    obtain ⟨i, hi⟩ := List.getElem?_of_mem hv
    have hlt : i < r.values.length := by
      rw [read.length_eq, count]
      exact (List.getElem?_eq_some_iff.mp hi).1
    have entry := List.getElem?_eq_getElem hlt
    obtain ⟨x, -, hx⟩ := exists_of_forall₂ read entry
    refine ⟨x, bind_eq_ok.mpr ⟨_, ?_, hx⟩⟩
    exact h.distinct.require_zip (read.length_eq.trans count) hi entry
  obtain ⟨s, hs⟩ := Solution.exists_extract_of_real real entered
    (p.objective.bind fun _ => r.objective.given)
  have new := (Solution.covers_of_extract hs).2
  have taken := Solution.enterDuals_ofList new
    (p.forall₂_dualEntries carries.rowDuals carries.columnDuals)
  refine ⟨{ s with dual := Table.ofList (p.dualEntries ys ds) }, ?_, rfl⟩
  refine bind_eq_ok.mpr ⟨_, values, ?_⟩
  dsimp only
  rw [hasIntegers_eq_false real, carries.valid, if_pos (by rfl)]
  exact bind_eq_ok.mpr ⟨_, duals_eq_ok h hashable columnCount, bind_eq_ok.mpr ⟨s, hs, taken⟩⟩

/-- Such a reply gives a solution with the table of its duals. -/
theorem exists_takeReply (h : p.WellFormed)
    (real : ∀ v ∈ p.variableList, p.domainOf v = .real)
    (hashable : ∀ c ∈ p.constraints.items, c.name.checkKey = .ok ()) (carries : r.Carries p ys ds)
    (solver : Solver) (t : Logged (Session (Call K))) :
    ∃ s t', (takeReply solver p r).runOn t = (.ok (some s), t') ∧
      s.dual = Table.ofList (p.dualEntries ys ds) := by
  obtain ⟨s, hs, dual⟩ := exists_readSolution h real hashable carries
  have status : r.status? = some .optimal := by
    rw [Reply.status?, carries.optimal]
    rfl
  obtain ⟨log, taken⟩ := runOn_takeReply carries.succeeded status t
  refine ⟨s, ⟨{ t.state with status := .symbol (.status .optimal) }, log⟩, ?_, dual⟩
  rw [taken, hs]
  rfl

/-- A solve in which HiGHS gave such a reply gives a table of the duals of all rows and columns. -/
theorem exists_tabulates (h : p.WellFormed)
    (real : ∀ v ∈ p.variableList, p.domainOf v = .real)
    (hashable : ∀ c ∈ p.constraints.items, c.name.checkKey = .ok ()) (carries : r.Carries p ys ds)
    {engine : Engine K} {hooks : Hooks (Columnwise K)} {solver : Solver}
    (replied : Replied engine
      ((solve engine hooks solver p).perform (.start solver)).2.state.tellings r) :
    ∃ s, ((solve engine hooks solver p).perform (.start solver)).1 = .ok (some s) ∧
      p.Tabulates s.dual ys ds := by
  obtain ⟨m, t, -, course⟩ := exists_of_replied replied
  obtain ⟨s, t', read, dual⟩ := exists_takeReply h real hashable carries solver
    ⟨{ t.state with events := t.state.events ++ [.told (.run m)] }, t.log⟩
  rw [course, read]
  exact ⟨s, rfl, dual ▸ Problem.tabulates_ofList h.distinct hashable carries.rowCount
    carries.columnCount⟩

end

end Milp.Highs
