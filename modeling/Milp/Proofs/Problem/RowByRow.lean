import Milp.Proofs.Encoding.Symbolic
import Milp.Proofs.Engine.Gurobi.Building
import Milp.Proofs.Problem.Ranged
import Milp.Proofs.Store.Built

/-!
# The forms that take a problem row by row

The symbolic form and the pieces that Gurobi is told about admit the same points as the matrix form,
and their objectives have the same value. They differ from it where an objective has no terms, where
a coefficient is a truth value, and where a bound is as large as the number that stands for none.
-/

namespace Milp

namespace Problem

variable {p : Problem}

/-- Symbols can be multiplied by all coefficients of a problem. -/
structure Factors (p : Problem) : Prop where
  coefficients : ∀ c ∈ p.constraints.items, ∀ t ∈ c.lhs.terms.items, t.coefficient.IsFactor
  costs : ∀ e, p.objective = some e → ∀ t ∈ e.terms.items, t.coefficient.IsFactor

/-- The symbolic form states a problem. -/
structure StatedBy (p : Problem) (m : Symbolic Extended) : Prop where
  admits : ∀ x q, p.Reads x q → (m.Admits q ↔ p.Feasible x)
  value : ∀ x q, p.Reads x q → Symbolic.valueAt m.objective q = .finite (p.objectiveAt x)
  maximize : m.maximize = true ↔
    p.isMaximize = true ∧ ∃ e, p.objective = some e ∧ e.terms.items ≠ []

/-- The rows of the constraints with terms say what these say. -/
theorem WellFormed.exists_symbolicRows (h : p.WellFormed) (finite : p.FiniteData)
    (factors : p.Factors) :
    ∃ rows : List (Option (SymbolicRow Extended)),
      p.constraints.items.zipIdx.mapM (Symbolic.rowOf p.index) = .ok rows ∧
      ∀ x q, p.Reads x q → ((∀ r ∈ rows.filterMap id, r.Admits q) ↔
        ∀ c ∈ p.constraints.items, c.lhs.terms.items ≠ [] → Satisfies c x) := by
  have each (c : Constraint × Nat) (hc : c ∈ p.constraints.items.zipIdx) :
      ∃ o : Option (SymbolicRow Extended), Symbolic.rowOf p.index c = .ok o ∧
        (o = none ↔ c.1.lhs.terms.items = []) ∧
        ∀ r, o = some r → ∀ x q, p.Reads x q → (r.Admits q ↔ Satisfies c.1 x) := by
    have mem : c.1 ∈ p.constraints.items :=
      List.mem_of_getElem? (List.mem_zipIdx_iff_getElem?.mp hc)
    obtain ⟨l, hl, registered⟩ := h.constraints c.1 mem
    have coefficients (t : Term) (ht : t ∈ l.terms) : t.coefficient.IsFactor :=
      factors.coefficients c.1 mem t (by simpa [hl] using ht)
    exact Symbolic.exists_rowOf h.distinct hl registered coefficients (finite.sides c.1 mem) c.2
  obtain ⟨rows, hrows⟩ := exists_forall₂ each
  refine ⟨rows, mapM_eq_ok.mpr (hrows.imp fun _ _ h => h.1), fun x q reads => ?_⟩
  have present : (∀ r ∈ rows.filterMap id, r.Admits q) ↔
      ∀ o ∈ rows, ∀ r, o = some r → r.Admits q := by
    simp only [List.mem_filterMap, id]
    exact ⟨fun all o ho r hr => all r ⟨o, ho, hr⟩, fun all r ⟨o, ho, hr⟩ => all o ho r hr⟩
  rw [present, ← forall_mem_iff_of_forall₂ (P := fun c : Constraint × Nat =>
    c.1.lhs.terms.items ≠ [] → Satisfies c.1 x) hrows]
  · conv_rhs => rw [← List.zipIdx_map_fst 0 p.constraints.items, List.forall_mem_map]
  · rintro c - o ⟨-, empty, admits⟩
    cases o with
    | none => simp [empty.mp rfl]
    | some r =>
        have some : c.1.lhs.terms.items ≠ [] := fun h => by cases empty.mpr h
        simp [some, admits r rfl x q reads]

theorem WellFormed.exists_symbolicVars (h : p.WellFormed) (finite : p.FiniteData) :
    ∃ vars : List SymbolicVariable, p.variableList.mapM (Symbolic.variableOf p) = .ok vars ∧
      ∀ x q, p.Reads x q →
        ((∀ (j : Nat) v, vars[j]? = some v → v.bounds.Admit v.domain (q j)) ↔
          ∀ v ∈ p.variableList, p.Admits v (x v.key)) := by
  have each (v : Value) (hv : v ∈ p.variableList) : ∃ w, Symbolic.variableOf p v = .ok w ∧
      ∀ y, w.bounds.Admit w.domain y ↔ p.Admits v y := by
    obtain ⟨b, bounded⟩ := Declarations.exists_bounded (finite.bounds v hv)
    exact ⟨⟨p.domainOf v, b⟩, bind_eq_ok.mpr ⟨b, bounded.made, rfl⟩, bounded.admits⟩
  obtain ⟨vars, hvars⟩ := exists_forall₂ each
  exact ⟨vars, mapM_eq_ok.mpr (hvars.imp fun _ _ h => h.1), fun x q reads =>
    Declarations.forall_place_iff h.distinct (hvars.imp fun _ _ h => h.2) reads⟩

/-- The terms of the symbolic objective, of which there are none if the objective has none. -/
def symbolicObjective (p : Problem) : Except Fault (List (Nat × Number Extended)) :=
  match p.objective with
  | some o => do if ← o.isEmpty then pure [] else Symbolic.entries p.index o
  | none => pure []

theorem WellFormed.exists_symbolicObjective (h : p.WellFormed) (factors : p.Factors) :
    ∃ es, p.symbolicObjective = .ok es ∧
      (es ≠ [] ↔ ∃ e, p.objective = some e ∧ e.terms.items ≠ []) ∧
      ∀ x q, p.Reads x q → Symbolic.valueAt es q = .finite (p.objectiveAt x) := by
  cases ho : p.objective with
  | none =>
      refine ⟨[], by rw [symbolicObjective, ho]; rfl, by simp, fun x q _ => ?_⟩
      rw [objectiveAt, ho]
      rfl
  | some e =>
      obtain ⟨l, rfl, registered⟩ := h.objective e ho
      have costs (t : Term) (ht : t ∈ l.terms) : t.coefficient.IsFactor :=
        factors.costs _ ho t (by simpa using ht)
      obtain ⟨es, hes, entries⟩ := Symbolic.exists_entries h.distinct registered costs
      have length : l.terms.length = es.length := by simpa using entries.length_eq
      refine ⟨es, ?_, ?_, fun x q reads => ?_⟩
      · rw [symbolicObjective, ho]
        simp only [Symbolic.isEmpty_linear, bind, Except.bind]
        by_cases empty : l.terms = []
        · obtain rfl := List.length_eq_zero_iff.mp (length.symm.trans (congrArg _ empty))
          simp [empty, pure, Except.pure]
        · have more : l.terms.isEmpty = false := by simpa using empty
          simp only [more, Bool.false_eq_true, if_false]
          rw [Symbolic.entries, Expression.terms_linear, Series.mapM_ofList, hes]
      · simp [← List.length_pos_iff, length]
      · rw [objectiveAt, ho]
        exact Symbolic.valueAt_of_entries entries costs h.distinct reads

theorem symbolic_eq_ok {vars : List SymbolicVariable} {b : Bool} {n : Nat}
    {rows : List (Option (SymbolicRow Extended))} {es : List (Nat × Number Extended)}
    (hvars : p.variableList.mapM (Symbolic.variableOf p) = .ok vars)
    (hold : emptyRowsHold Extended p.constraints = .ok b) (length : p.constraints.length = .ok n)
    (hrows : p.constraints.items.zipIdx.mapM (Symbolic.rowOf p.index) = .ok rows)
    (hes : p.symbolicObjective = .ok es) :
    p.symbolic p.index = .ok (if b then some ⟨vars, rows.filterMap id, es,
      !es.isEmpty && p.sense == .max, !p.hasIntegers p.index⟩ else none) := by
  unfold symbolic
  simp only [hvars, hold, length, hrows, bind, Except.bind]
  cases b with
  | false => rfl
  | true =>
      unfold symbolicObjective at hes
      cases ho : p.objective with
      | none =>
          rw [ho] at hes
          obtain rfl := Except.ok.inj hes
          rfl
      | some o =>
          simp only [ho] at hes
          obtain ⟨empty, hempty, hes⟩ := bind_eq_ok.mp hes
          simp only [hempty]
          cases empty with
          | true =>
              obtain rfl := Except.ok.inj hes
              rfl
          | false =>
              simp only [Bool.false_eq_true, if_false] at hes
              simp only [Bool.not_true, Bool.false_eq_true, if_false, hes]
              rfl

/-- `Problem.symbolic` states a problem (`StatedBy`) unless some constraint without terms fails. -/
theorem WellFormed.exists_symbolic (h : p.WellFormed) (finite : p.FiniteData)
    (factors : p.Factors) :
    ∃ r, p.symbolic p.index = .ok r ∧
      (r = none ↔ ∃ c ∈ p.constraints.items,
        c.lhs.terms.items = [] ∧ ¬ c.relation.Holds 0 c.rhs.toRat) ∧
      ∀ m, r = some m → p.StatedBy m := by
  obtain ⟨n, length⟩ := h.length
  obtain ⟨vars, hvars, numbers⟩ := h.exists_symbolicVars finite
  obtain ⟨rows, hrows, constraints⟩ := h.exists_symbolicRows finite factors
  obtain ⟨es, hes, some_iff, value⟩ := h.exists_symbolicObjective factors
  have linear (c : Constraint) (hc : c ∈ p.constraints.items) : ∃ l, c.lhs = .linear l :=
    have ⟨l, hl, _⟩ := h.constraints c hc
    ⟨l, hl⟩
  obtain ⟨b, hb, hold⟩ := Symbolic.emptyRowsHold_go_eq_ok h.complete linear finite.sides
  refine ⟨_, symbolic_eq_ok hvars hb length hrows hes, ?_, ?_⟩
  · cases b with
    | false => simpa using hold
    | true => simpa using hold
  · rintro m hm
    cases b with
    | false => cases hm
    | true =>
        obtain rfl := Option.some.inj hm
        have empties := hold.mp rfl
        refine ⟨fun x q reads => ?_, value, ?_⟩
        · constructor
          · rintro ⟨vars, rows⟩
            refine ⟨fun c hc => ?_, (numbers x q reads).mp vars⟩
            by_cases empty : c.lhs.terms.items = []
            · exact (satisfies_of_items_eq_nil empty x).mpr (empties c hc empty)
            · exact (constraints x q reads).mp rows c hc empty
          · rintro ⟨satisfied, admitted⟩
            exact ⟨(numbers x q reads).mpr admitted,
              (constraints x q reads).mpr fun c hc _ => satisfied c hc⟩
        · have some_iff : es.isEmpty = false ↔
              ∃ e, p.objective = some e ∧ e.terms.items ≠ [] := by
            rw [← some_iff]
            simp
          simp only [Bool.and_eq_true, Bool.not_eq_true', beq_iff_eq, some_iff, isMaximize,
            Option.isSome_iff_exists]
          constructor
          · rintro ⟨⟨e, he, terms⟩, sense⟩
            exact ⟨⟨⟨e, he⟩, sense⟩, e, he, terms⟩
          · rintro ⟨⟨-, sense⟩, e, he, terms⟩
            exact ⟨⟨e, he, terms⟩, sense⟩

end Problem

/-! ## Agreement with the matrix form -/

/-- The product of every row and a point lies in the range of the row. -/
def RangedRows.Contain (rows : RangedRows Extended) (q : Nat → Rat) : Prop :=
  ∀ e ∈ rows.matrix.rows.zip rows.ranges, e.2.contains (e.1.dot q) = true

namespace Problem

/-- The symbolic form is missing exactly if a constraint without terms fails, and then no point lies
in all rows. Otherwise it admits the points that the matrix form does, and its objective has the
value that the costs have; it is made large where the problem is and has an objective with terms. -/
def SymbolicAgrees (p : Problem) (rows : RangedRows Extended) (columns : Columns Extended)
    (cost : List Extended) : Prop :=
  ∃ r, p.symbolic p.index = .ok r ∧
    (r = none ↔ ∃ c ∈ p.constraints.items,
      c.lhs.terms.items = [] ∧ ¬ c.relation.Holds 0 c.rhs.toRat) ∧
    (r = none → ∀ q, ¬ rows.Contain q) ∧
    ∀ m, r = some m →
      (∀ q, m.Admits q ↔ columns.Admits q ∧ rows.Contain q) ∧
      (∀ q, Symbolic.valueAt m.objective q = costAt cost q) ∧
      (m.maximize = true ↔ p.isMaximize = true ∧ ∃ e, p.objective = some e ∧ e.terms.items ≠ [])

/-- The pieces that Gurobi is told about admit the points that the matrix form does, and their
objective has the value that the costs have; it is made large where the problem is. -/
def PiecesAgree (p : Problem) (free : Extended → Prop) (engine : Gurobi.Engine Extended)
    (rows : RangedRows Extended) (columns : Columns Extended) (cost : List Extended) : Prop :=
  ∃ (m : Incremental Extended) (told : List (Gurobi.Call Extended)),
    (∀ s, (Gurobi.build engine p p.index).runOn s =
      ((engine.breaksOff .update).elim (.ok m) .error, ⟨s.state.telling told, s.log⟩)) ∧
    Gurobi.handedOver told = m ∧
    (∀ q, m.Admits free q ↔ columns.Admits q ∧ rows.Contain q) ∧
    (∀ q, m.costAt q = costAt cost q) ∧
    ((∃ o, m.objective = some o ∧ o.sense = .max) ↔ p.isMaximize = true)

variable {p : Problem} {rows : RangedRows Extended} {columns : Columns Extended}
  {cost : List Extended}

/-- The matrix form admits the points that hold numbers with which the problem is satisfied. -/
theorem Denotes.feasible_iff (h : p.Denotes rows columns cost) {x : Key → Rat} {q : Nat → Rat}
    (reads : p.Reads x q) : p.Feasible x ↔ columns.Admits q ∧ rows.Contain q := by
  constructor
  · rintro ⟨satisfied, admitted⟩
    exact ⟨(h.columns.admits x q reads).mpr admitted, (h.rows_iff reads).mpr satisfied⟩
  · rintro ⟨admits, contains⟩
    exact ⟨(h.rows_iff reads).mp contains, (h.columns.admits x q reads).mp admits⟩

theorem Denotes.symbolicAgrees (h : p.Denotes rows columns cost) (wellFormed : p.WellFormed)
    (finite : p.FiniteData) (factors : p.Factors) : p.SymbolicAgrees rows columns cost := by
  obtain ⟨r, made, none_iff, states⟩ := wellFormed.exists_symbolic finite factors
  refine ⟨r, made, none_iff, fun hr q contains => ?_, fun m hm => ?_⟩
  · obtain ⟨c, hc, empty, fails⟩ := none_iff.mp hr
    have reads := p.reads_assignmentAt q
    have satisfied := (h.rows_iff reads).mp contains c hc
    exact fails ((satisfies_of_items_eq_nil empty _).mp satisfied)
  · obtain ⟨admits, value, maximize⟩ := states m hm
    refine ⟨fun q => ?_, fun q => ?_, maximize⟩
    · have reads := p.reads_assignmentAt q
      rw [admits _ q reads, h.feasible_iff reads]
    · have reads := p.reads_assignmentAt q
      rw [value _ q reads, h.cost _ q reads]

theorem Denotes.piecesAgree (h : p.Denotes rows columns cost) (wellFormed : p.WellFormed)
    (finite : p.FiniteData)
    (given : ∀ c ∈ p.constraints.items, ∃ r, c.operator = .symbol (.relation r))
    {free : Extended → Prop} (frees : Incremental.Frees free)
    (binds : ∀ v ∈ p.variableList, Incremental.Binds free p.toDeclarations v)
    (engine : Gurobi.Engine Extended) : p.PiecesAgree free engine rows columns cost := by
  obtain ⟨m, tells, admits, value, maximize⟩ :=
    Gurobi.exists_build wellFormed finite given frees binds engine
  refine ⟨m, _, tells, Gurobi.handedOver_callsOf m, fun q => ?_, fun q => ?_, maximize⟩
  · have reads := p.reads_assignmentAt q
    rw [admits _ q reads, h.feasible_iff reads]
  · have reads := p.reads_assignmentAt q
    rw [value _ q reads, h.cost _ q reads]

end Problem

namespace Store

/-- For a problem that is `Store.Built`, `Problem.symbolic` and the pieces that Gurobi is told agree
with the matrix form (`SymbolicAgrees`, `PiecesAgree`). -/
theorem Built.rowByRow_agrees {id : Nat} {s : Store} (built : Built id s)
    (finite : (s.viewProblem id).FiniteData) :
    ∃ rows columns cost, (s.viewProblem id).matrix (s.viewProblem id).index = .ok rows ∧
      (s.viewProblem id).columns (s.viewProblem id).index = .ok columns ∧
      (s.viewProblem id).cost (s.viewProblem id).index = .ok cost ∧
      ((s.viewProblem id).Factors → (s.viewProblem id).SymbolicAgrees rows columns cost) ∧
      ((∀ c ∈ (s.viewProblem id).constraints.items, ∃ r, c.operator = .symbol (.relation r)) →
        ∀ free, Incremental.Frees free →
          (∀ v ∈ (s.viewProblem id).variableList,
            Incremental.Binds free (s.viewProblem id).toDeclarations v) →
          ∀ engine, (s.viewProblem id).PiecesAgree free engine rows columns cost) := by
  have wellFormed := built.sound.wellFormed
  obtain ⟨rows, columns, cost, hrows, hcolumns, hcost, denotes⟩ :=
    wellFormed.exists_matrixForm finite
  exact ⟨rows, columns, cost, hrows, hcolumns, hcost,
    fun factors => denotes.symbolicAgrees wellFormed finite factors,
    fun given _ frees binds engine =>
      denotes.piecesAgree wellFormed finite given frees binds engine⟩

/-- Numbers from a hundred quintillions on are taken for no bounds. -/
def farOff (a : Extended) : Prop :=
  Numeric.le (.finite (10 ^ 20)) a = true

theorem frees_farOff : Incremental.Frees farOff where
  large := by
    unfold farOff
    decide +kernel
  small a ha := by
    intro far
    have := Extended.le_finite.mp far
    norm_num at this
    linarith

theorem rowByRow_agrees_decision : Built 0 decision ∧ (decision.viewProblem 0).FiniteData ∧
    ∃ rows columns cost, (decision.viewProblem 0).matrix (decision.viewProblem 0).index = .ok rows ∧
      (decision.viewProblem 0).columns (decision.viewProblem 0).index = .ok columns ∧
      (decision.viewProblem 0).cost (decision.viewProblem 0).index = .ok cost ∧
      (decision.viewProblem 0).SymbolicAgrees rows columns cost ∧
      ∀ engine, (decision.viewProblem 0).PiecesAgree farOff engine rows columns cost := by
  have whole (n : Int) : (Value.int n).IsFactor := ⟨rfl, fun _ => by simp, fun _ => by simp⟩
  have factors : (decision.viewProblem 0).Factors :=
    ⟨by simp [items_decision, whole], by simp [objective_decision, whole]⟩
  have binds (v : Value) :
      Incremental.Binds farOff (decision.viewProblem 0).toDeclarations v := by
    constructor
    · intro b hb
      obtain rfl := Table.eq_of_get?_singleton (lowers_decision ▸ hb)
      unfold farOff
      decide +kernel
    · intro b hb
      obtain rfl := Table.eq_of_get?_singleton (uppers_decision ▸ hb)
      unfold farOff
      decide +kernel
  obtain ⟨rows, columns, cost, hrows, hcolumns, hcost, symbolic, pieces⟩ :=
    built_decision.rowByRow_agrees finiteData_decision
  exact ⟨built_decision, finiteData_decision, rows, columns, cost, hrows, hcolumns, hcost,
    symbolic factors, pieces (by simp [items_decision]) farOff frees_farOff fun v _ => binds v⟩

/-! ## Where the forms differ -/

/-- A problem with an objective that has no terms. -/
def termless : Store :=
  (newProblem.perform .empty).2.state
    |> called "set_objective" [.tuple [], .text "max"]
    |> called "add" [.text "cap", .tuple [.term (.text "x") (.int 2)], .text "<=", .int 5]

/-- A problem with a truth value for a coefficient. -/
def flagged : Store :=
  (newProblem.perform .empty).2.state
    |> called "set_objective" [.tuple [.term (.text "x") (.bool true)], .text "min"]

/-- A problem with a real variable that is bounded by the number that stands for no bound, or by
none. -/
def capped (bound : Value) : Store :=
  (newProblem.perform .empty).2.state
    |> called "set_var_upper_bound" [.text "x", bound]

set_option maxRecDepth 4000 in
theorem built_termless : Built 0 termless :=
  (built_first.called rfl (by decide)).called rfl (by decide)

theorem built_flagged : Built 0 flagged :=
  built_first.called rfl (by decide)

theorem built_capped (bound : Value) : Built 0 (capped bound) :=
  built_first.called rfl (by simp)

set_option maxRecDepth 4000 in
theorem finiteData_termless : (termless.viewProblem 0).FiniteData := by
  have items : (termless.viewProblem 0).constraints.items =
      [⟨.linear ⟨[⟨.text "x", .int 2⟩]⟩, .symbol (.relation .le), .int 5, .text "cap"⟩] := by
    with_unfolding_all rfl
  have objective : (termless.viewProblem 0).objective = some (.linear ⟨[]⟩) := by
    with_unfolding_all rfl
  have lowers : (termless.viewProblem 0).lowers = .empty := by with_unfolding_all rfl
  have uppers : (termless.viewProblem 0).uppers = .empty := by with_unfolding_all rfl
  have whole (n : Int) : (Value.int n).ReadsFinite := Value.readsFinite_of_eq rfl
  refine ⟨by simp [items, whole], by simp [items, whole], by simp [objective], fun v _ => ⟨?_, ?_⟩⟩
  · simp [lowers, Table.empty, Table.get?]
  · simp [uppers, Table.empty, Table.get?]

set_option maxRecDepth 4000 in
theorem finiteData_flagged : (flagged.viewProblem 0).FiniteData := by
  have items : (flagged.viewProblem 0).constraints.items = [] := by with_unfolding_all rfl
  have objective : (flagged.viewProblem 0).objective =
      some (.linear ⟨[⟨.text "x", .bool true⟩]⟩) := by
    with_unfolding_all rfl
  have lowers : (flagged.viewProblem 0).lowers = .empty := by with_unfolding_all rfl
  have uppers : (flagged.viewProblem 0).uppers = .empty := by with_unfolding_all rfl
  have flag : (Value.bool true).ReadsFinite := Value.readsFinite_of_eq rfl
  refine ⟨by simp [items], by simp [items], by simp [objective, flag], fun v _ => ⟨?_, ?_⟩⟩
  · simp [lowers, Table.empty, Table.get?]
  · simp [uppers, Table.empty, Table.get?]

set_option maxRecDepth 4000 in
theorem plain_capped (bound : Value) :
    ((capped bound).viewProblem 0).constraints = .ofList [] ∧
      ((capped bound).viewProblem 0).objective = none ∧
      ((capped bound).viewProblem 0).lowers = .empty := by
  cases bound <;> exact ⟨by with_unfolding_all rfl, by with_unfolding_all rfl,
    by with_unfolding_all rfl⟩

set_option maxRecDepth 4000 in
theorem uppers_capped :
    ((capped (.real 1e100)).viewProblem 0).uppers = ⟨[(.text "x", .real 1e100)]⟩ ∧
      ((capped .none).viewProblem 0).uppers = .empty :=
  ⟨by with_unfolding_all rfl, by with_unfolding_all rfl⟩

theorem finiteData_capped :
    ((capped (.real 1e100)).viewProblem 0).FiniteData ∧
      ((capped .none).viewProblem 0).FiniteData := by
  have finite : (Value.real 1e100).IsFinite := by decide +kernel
  constructor
  · obtain ⟨constraints, objective, lowers⟩ := plain_capped (.real 1e100)
    refine ⟨by simp [constraints], by simp [constraints], by simp [objective], fun v _ => ⟨?_, ?_⟩⟩
    · simp [lowers, Table.empty, Table.get?]
    · exact fun b hb => Table.eq_of_get?_singleton (uppers_capped.1 ▸ hb) ▸ finite
  · obtain ⟨constraints, objective, lowers⟩ := plain_capped .none
    refine ⟨by simp [constraints], by simp [constraints], by simp [objective], fun v _ => ⟨?_, ?_⟩⟩
    · simp [lowers, Table.empty, Table.get?]
    · simp [uppers_capped.2, Table.empty, Table.get?]

set_option maxRecDepth 4000 in
/-- Gurobi is told the same about an absent bound and about one that is as large. -/
theorem build_capped (engine : Gurobi.Engine Extended) :
    Gurobi.build engine ((capped (.real 1e100)).viewProblem 0)
        ((capped (.real 1e100)).viewProblem 0).index =
      Gurobi.build engine ((capped .none).viewProblem 0) ((capped .none).viewProblem 0).index := by
  have entries (bound : Value) :
      ((capped bound).viewProblem 0).index.entries = [(.text "x", 0)] := by
    cases bound <;> with_unfolding_all rfl
  have domain (bound : Value) : ((capped bound).viewProblem 0).domainOf (.text "x") = .real := by
    cases bound <;> with_unfolding_all rfl
  have large : Incremental.variableOf ((capped (.real 1e100)).viewProblem 0) (.text "x", 0) =
      .ok ⟨"x0", .real, -Incremental.large, (Incremental.large : Extended)⟩ := by
    simp only [Incremental.variableOf, Declarations.effectiveBounds, plain_capped, domain,
      uppers_capped]
    rfl
  have absent : Incremental.variableOf ((capped .none).viewProblem 0) (.text "x", 0) =
      .ok ⟨"x0", .real, -Incremental.large, (Incremental.large : Extended)⟩ := by
    simp only [Incremental.variableOf, Declarations.effectiveBounds, plain_capped, domain,
      uppers_capped]
    rfl
  unfold Gurobi.build
  simp only [entries, plain_capped, List.mapM_cons, large, absent]
  rfl

set_option maxRecDepth 4000 in
/-- The forms that take a problem row by row do not always agree with its matrix form. An objective
without terms is never made large symbolically, symbols cannot be multiplied by a truth value, and
Gurobi cannot tell an absent bound from one that is as large. -/
theorem rowByRow_disagrees :
    (Built 0 termless ∧ (termless.viewProblem 0).FiniteData ∧
      (termless.viewProblem 0).isMaximize = true ∧
      ∃ m : Symbolic Extended,
        (termless.viewProblem 0).symbolic (termless.viewProblem 0).index = .ok (some m) ∧
          m.maximize = false) ∧
    (Built 0 flagged ∧ (flagged.viewProblem 0).FiniteData ∧
      (flagged.viewProblem 0).cost (flagged.viewProblem 0).index = .ok [Extended.finite 1] ∧
      ∃ f, (flagged.viewProblem 0).symbolic (K := Extended) (flagged.viewProblem 0).index =
        .error f) ∧
    Built 0 (capped (.real 1e100)) ∧ Built 0 (capped .none) ∧
      ((capped (.real 1e100)).viewProblem 0).FiniteData ∧
      ((capped .none).viewProblem 0).FiniteData ∧
      (∀ engine : Gurobi.Engine Extended,
        Gurobi.build engine ((capped (.real 1e100)).viewProblem 0)
            ((capped (.real 1e100)).viewProblem 0).index =
          Gurobi.build engine ((capped .none).viewProblem 0)
            ((capped .none).viewProblem 0).index) ∧
      ∃ (tight loose : Columns Extended) (q : Nat → Rat),
        ((capped (.real 1e100)).viewProblem 0).columns
            ((capped (.real 1e100)).viewProblem 0).index = .ok tight ∧
          ((capped .none).viewProblem 0).columns ((capped .none).viewProblem 0).index = .ok loose ∧
          ¬ tight.Admits q ∧ loose.Admits q := by
  have beyond : ¬ Columns.Admits ⟨[.negInf], [.ofFloat 1e100], [false]⟩ fun _ => 10 ^ 101 := by
    intro within
    have upper := within.upper 0 _ rfl
    revert upper
    decide +kernel
  have everywhere : Columns.Admits ⟨[.negInf], [.posInf], [false]⟩ fun _ => 10 ^ 101 := by
    refine ⟨fun j lo h => ?_, fun j up h => ?_, fun j h => ?_⟩
    · obtain ⟨rfl, rfl⟩ : j = 0 ∧ lo = .negInf := by
        cases j <;> simp_all
      rfl
    · obtain ⟨rfl, rfl⟩ : j = 0 ∧ up = .posInf := by
        cases j <;> simp_all
      rfl
    · cases j <;> simp at h
  exact ⟨⟨built_termless, finiteData_termless, by with_unfolding_all rfl, _,
    by with_unfolding_all rfl, rfl⟩, ⟨built_flagged, finiteData_flagged, by with_unfolding_all rfl,
    _, by with_unfolding_all rfl⟩, built_capped _, built_capped _, finiteData_capped.1,
    finiteData_capped.2, build_capped, _, _, _, by with_unfolding_all rfl,
    by with_unfolding_all rfl, beyond, everywhere⟩

end Store

end Milp
