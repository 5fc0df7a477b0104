import Milp.Proofs.Engine.CpSat.Points
import Milp.Proofs.Engine.CpSat.Status

/-!
# The check before a solve by CP-SAT

CP-SAT takes 0-1 problems in whole numbers, and `checkBoolean` and `checkWhole` make
sure of that. The check is complete: it breaks off at the `First` variable that is not boolean or,
where there is none, at the `First` number with a fraction, and nothing that is done with a problem
that `Passes` is broken off for the like.
-/

namespace Milp

/-! ## The numbers of a problem -/

/-- The value is read as a finite double. -/
def Value.ReadsDouble (v : Value) : Prop :=
  ∃ (x : Float) (q : Rat), Numeric.ofValue v = .ok x ∧ Numeric.view x = .finite q

/-- The value is read as a double that is not whole. -/
def Value.ReadsFraction (v : Value) : Prop :=
  ∃ (x : Float) (q : Rat), Numeric.ofValue v = .ok x ∧ Numeric.view x = .finite q ∧ q.den ≠ 1

/-- The coefficients of an expression, with the place where they stand. -/
def Expression.numbers (e : Expression) (place : Place) : List (Value × Place) :=
  e.terms.items.map fun t => (t.coefficient, place)

/-- The coefficients of a constraint, and then its right-hand side. -/
def Constraint.numbers (c : Constraint) : List (Value × Place) :=
  c.lhs.numbers (.coefficient c.name) ++ [(c.rhs, .rhs c.name)]

/-- The coefficients and right-hand sides of a problem in the order in which it was stated, those of
the objective first. -/
def Problem.numbers (p : Problem) : List (Value × Place) :=
  (p.objective.elim [] fun e => e.numbers .objective) ++
    p.constraints.items.flatMap Constraint.numbers

/-- A fault with which a check of variables and numbers or a lookup breaks off. -/
def Fault.IsRejection (f : Fault) : Prop :=
  f.className ∈ ["DomainViolationError", "CoefficientDomainError", "KeyError", "IndexError",
    "MissingVariableEvaluationError"] ∨ ∃ kind, f = .unhashable kind

/-- The fault is not that something was refused or could not be looked up. -/
def Fault.Admissible (f : Fault) : Prop :=
  ¬ f.IsRejection

theorem Fault.OfOrder.admissible {f : Fault} (h : f.OfOrder) : f.Admissible := by
  unfold Fault.Admissible Fault.IsRejection
  cases f with
  | misfit why => cases why <;> simp_all [OfOrder, className]
  | _ => simp_all [OfOrder, className]

section

variable {v engine : Value} {place : Place} {p : Problem}

theorem Value.reads_of_toWhole {n : Int} (h : v.toWhole Float engine place = .ok n) :
    v.ReadsDouble ∧ ¬ v.ReadsFraction := by
  obtain ⟨x, hx, hv⟩ := Value.toWhole_eq_ok.mp h
  refine ⟨⟨x, n, hx, hv⟩, ?_⟩
  rintro ⟨y, r, hy, hr, fraction⟩
  obtain rfl : x = y := Except.ok.inj (hx.symm.trans hy)
  obtain rfl : (n : Rat) = r := Extended.finite.inj (hv.symm.trans hr)
  exact fraction rfl

theorem Value.ReadsDouble.cases (h : v.ReadsDouble) :
    ¬ v.ReadsFraction ∧ (∃ n, v.toWhole Float engine place = .ok n) ∨
      v.ReadsFraction ∧ v.toWhole Float engine place = .error (.notWhole v engine place) := by
  obtain ⟨x, q, hx, hq⟩ := h
  by_cases whole : q.den = 1
  · left
    have view : Numeric.view x = .finite (q.num : Rat) := by
      rw [hq, Rat.den_eq_one_iff q |>.mp whole]
    have reads : v.toWhole Float engine place = .ok q.num := Value.toWhole_eq_ok.mpr ⟨x, hx, view⟩
    exact ⟨(Value.reads_of_toWhole reads).2, q.num, reads⟩
  · right
    have none : Numeric.whole? x = Option.none := by
      cases found : Numeric.whole? x with
      | none => rfl
      | some n =>
          obtain rfl : q = n :=
            Extended.finite.inj (hq.symm.trans (Numeric.whole?_eq_some.mp found))
          exact absurd rfl whole
    refine ⟨⟨x, q, hx, hq, whole⟩, ?_⟩
    simp only [toWhole, hx, none, bind, Except.bind]
    rfl

/-- A number of a problem is checked. -/
def checkNumber (engine : Value) (e : Value × Place) : Except Fault Unit :=
  (e.1.toWhole Float engine e.2).map fun _ => ()

theorem checkWholeTerms_linear (l : Linear) (place : Place) :
    Problem.checkWholeTerms Float engine place (.linear l) =
      ((Expression.linear l).numbers place).forM (checkNumber engine) := by
  have walk (ts : List Term) : (do
      let _ ← ts.mapM fun t => t.coefficient.toWhole Float engine place : Except Fault Unit) =
        (ts.map fun t => (t.coefficient, place)).forM (checkNumber engine) := by
    induction ts with
    | nil => rfl
    | cons t ts ih =>
        change _ = checkNumber engine (t.coefficient, place) >>= fun _ =>
          (ts.map fun t => (t.coefficient, place)).forM (checkNumber engine)
        rw [← ih, List.mapM_cons, checkNumber]
        cases t.coefficient.toWhole Float engine place with
        | error f => rfl
        | ok n => cases ts.mapM fun t => t.coefficient.toWhole Float engine place <;> rfl
  rw [Problem.checkWholeTerms, Expression.terms_linear, Series.mapM_ofList]
  exact walk l.terms

theorem forM_append {xs ys : List (Value × Place)} : (xs ++ ys).forM (checkNumber engine) =
    (do xs.forM (checkNumber engine); ys.forM (checkNumber engine)) :=
  List.forM_append

theorem checkWholeConstraint_linear {c : Constraint} {l : Linear} (h : c.lhs = .linear l) :
    Problem.checkWholeConstraint Float engine c = c.numbers.forM (checkNumber engine) := by
  rw [Constraint.numbers, forM_append, h, ← checkWholeTerms_linear, ← h]
  unfold Problem.checkWholeConstraint
  congr 1
  funext _
  change _ = checkNumber engine (c.rhs, .rhs c.name) >>= fun _ => .ok ()
  unfold checkNumber
  cases c.rhs.toWhole Float engine (.rhs c.name) <;> rfl

theorem checkWholeConstraints_eq (h : p.WellFormed) :
    Problem.checkWholeConstraints Float engine p.constraints =
      (p.constraints.items.flatMap Constraint.numbers).forM (checkNumber engine) := by
  have rows (cs : List Constraint) (linear : ∀ c ∈ cs, ∃ l : Linear, c.lhs = .linear l) : (do
      let _ ← cs.mapM (Problem.checkWholeConstraint Float engine) : Except Fault Unit) =
        (cs.flatMap Constraint.numbers).forM (checkNumber engine) := by
    induction cs with
    | nil => rfl
    | cons c cs ih =>
        obtain ⟨⟨l, hl⟩, tail⟩ := List.forall_mem_cons.mp linear
        rw [List.flatMap_cons, forM_append, ← ih tail, ← checkWholeConstraint_linear hl,
          List.mapM_cons]
        cases Problem.checkWholeConstraint Float engine c with
        | error f => rfl
        | ok _ => cases cs.mapM (Problem.checkWholeConstraint Float engine) <;> rfl
  have finish : p.constraints.finish "lhs" = .ok () := by
    simp [Series.finish, h.complete]
  rw [← rows _ fun c hc => (h.constraints c hc).imp fun _ => And.left]
  simp only [Problem.checkWholeConstraints, Series.mapM, finish]
  cases p.constraints.items.mapM (Problem.checkWholeConstraint Float engine) <;> rfl

/-- `checkWhole` goes through `Problem.numbers` with `checkNumber`. -/
theorem checkWhole_eq (h : p.WellFormed) :
    p.checkWhole Float engine = p.numbers.forM (checkNumber engine) := by
  rw [Problem.numbers, forM_append, ← checkWholeConstraints_eq h]
  unfold Problem.checkWhole Problem.checkWholeObjective
  cases ho : p.objective with
  | none => rfl
  | some e =>
      obtain ⟨l, rfl, -⟩ := h.objective e ho
      simp only [Option.elim, ← checkWholeTerms_linear]
      rfl

end

namespace CpSat

open CutLoop Milp.Action Milp.Session

variable {engine : Engine} {hooks : Hooks PseudoBoolean} {clock : Nat → Float} {questions : Nat}
  {solver : Solver} {p : Problem} {name : Value}

/-! ## The check -/

theorem checkBoolean_of_first {v : Value}
    (first : First (fun v => p.domainOf v ≠ .bool) p.variableList v) :
    p.checkBoolean name = .error (.notBoolean v (p.domainOf v) name) := by
  refine forM_of_first first (fun w _ hw => ?_) ?_
  · rw [not_not.mp hw]
  · obtain ⟨_, _, _, other, _⟩ := first
    split
    · exact absurd ‹_› other
    · rfl

theorem checkBoolean_of_all (h : ∀ v ∈ p.variableList, p.domainOf v = .bool) :
    p.checkBoolean name = .ok () :=
  forM_eq_ok.mpr fun v hv => by rw [h v hv]

theorem checkWhole_of_first (h : p.WellFormed) (reads : ∀ e ∈ p.numbers, e.1.ReadsDouble)
    {e : Value × Place} (first : First (fun e => e.1.ReadsFraction) p.numbers e) :
    p.checkWhole Float name = .error (.notWhole e.1 name e.2) := by
  have mem : e ∈ p.numbers := by
    obtain ⟨before, after, he, -⟩ := first
    simp [he]
  rw [checkWhole_eq h]
  refine forM_of_first first (fun e' he' whole => ?_) ?_
  · obtain ⟨n, hn⟩ := ((reads e' he').cases.resolve_right fun c => whole c.1).2
    rw [checkNumber, hn]
    rfl
  · obtain ⟨_, _, _, fraction, _⟩ := first
    rw [checkNumber, ((reads e mem).cases.resolve_left fun c => c.1 fraction).2]
    rfl

theorem checkWhole_of_all (h : p.WellFormed) (reads : ∀ e ∈ p.numbers, e.1.ReadsDouble)
    (whole : ∀ e ∈ p.numbers, ¬ e.1.ReadsFraction) : p.checkWhole Float name = .ok () := by
  rw [checkWhole_eq h]
  refine forM_eq_ok.mpr fun e he => ?_
  obtain ⟨n, hn⟩ := ((reads e he).cases.resolve_right fun c => whole e he c.1).2
  rw [checkNumber, hn]
  rfl

/-! ## After the check -/

/-- A fault that the engine or a hook raises. -/
inductive Raised (engine : Engine) (hooks : Hooks PseudoBoolean) (f : Fault) : Prop where
  | setOption {name : String} {v : Value} (h : engine.setOption name v = .error f)
  | fits {r : WholeRow} (h : engine.fits r = .error f)
  | answer {asked : Nat} {q : Question} (h : engine.answer asked q = .error f)
  | hook {hook : Value} {index : Index} {m : PseudoBoolean} (h : (hooks hook index m).2 = some f)

/-- A fault that is `Admissible`, or that the engine or a hook raised. -/
def Permitted (engine : Engine) (hooks : Hooks PseudoBoolean) (f : Fault) : Prop :=
  f.Admissible ∨ Raised engine hooks f

theorem permitted_engine : engine.RaisesOnly (Permitted engine hooks) :=
  ⟨fun _ _ _ h => .inr (.setOption h), fun _ _ h => .inr (.fits h), fun _ _ _ h => .inr (.answer h)⟩

/-- A problem that `checkBoolean` and `checkWhole` let pass. -/
structure Passes (p : Problem) : Prop where
  wellFormed : p.WellFormed
  boolean : ∀ v ∈ p.variableList, p.domainOf v = .bool
  reads : ∀ e ∈ p.numbers, e.1.ReadsDouble
  whole : ∀ e ∈ p.numbers, ¬ e.1.ReadsFraction

theorem Passes.toWhole (h : Passes p) {e : Value × Place} (he : e ∈ p.numbers) (engine : Value)
    (place : Place) : ∃ n, e.1.toWhole Float engine place = .ok n :=
  ((h.reads e he).cases.resolve_right fun c => h.whole e he c.1).2

theorem Passes.accepted (h : Passes p) (name : Value) : Accepted p name :=
  .of_wellFormed h.wellFormed (checkBoolean_of_all h.boolean)
    (checkWhole_of_all h.wellFormed h.reads h.whole)

theorem Passes.exists_ofExpression (h : Passes p) {l : Linear}
    (registered : ∀ t ∈ l.terms, p.Registered t.var) {place : Place}
    (numbers : ∀ t ∈ l.terms, (t.coefficient, place) ∈ p.numbers) (engine : Value) :
    ∃ sum, WholeSum.ofExpression Float (.linear l) p.index engine = .ok sum := by
  have each : ∀ t ∈ l.terms, ∃ e, t.Encoded Float p.index engine e := by
    intro t ht
    obtain ⟨i, w, -, -, hrequire⟩ := h.wellFormed.distinct.require_index (registered t ht)
    obtain ⟨n, hn⟩ := h.toWhole (numbers t ht) engine (.named (.text "coefficient"))
    exact ⟨(_, n), ⟨_, hrequire, rfl⟩, hn⟩
  obtain ⟨es, hes⟩ := exists_forall₂ each
  exact ⟨⟨es⟩, WholeSum.ofExpression_linear.mpr hes⟩

theorem mem_numbers_of_constraint {c : Constraint} (hc : c ∈ p.constraints.items)
    {e : Value × Place} (he : e ∈ c.numbers) : e ∈ p.numbers :=
  List.mem_append_right _ (List.mem_flatMap.mpr ⟨c, hc, he⟩)

/-- `pseudoBoolean` of a problem that passes is broken off by the order of its bounds, by what the
engine has against a row, or by a name. -/
theorem Passes.breaksBy_pseudoBoolean (h : Passes p) (name : Value) :
    BreaksBy (Permitted engine hooks) (p.pseudoBoolean Float engine.fits p.index name) := by
  have fixing (e : Value × Int) : BreaksBy (Permitted engine hooks) (p.fixingRows e) :=
    ((breaksBy_effectiveBounds _ _).imp fun _ h => .inl (Fault.OfOrder.admissible h)).bind fun _ =>
      breaksBy_pure _
  have named (v : Value) : BreaksBy (Permitted engine hooks) (WholeRow.nameOf v) := by
    unfold WholeRow.nameOf
    split <;> simp [Permitted, Fault.Admissible, Fault.IsRejection, Fault.className]
  refine (breaksBy_mapM fixing).bind fun _ => ?_
  refine (breaksBy_series_mapM h.wellFormed.complete fun c hc => ?_).bind fun _ => breaksBy_pure _
  obtain ⟨l, hl, registered⟩ := h.wellFormed.constraints c hc
  have coefficients : ∀ t ∈ l.terms, (t.coefficient, .coefficient c.name) ∈ p.numbers := by
    intro t ht
    refine mem_numbers_of_constraint hc (List.mem_append_left _ ?_)
    rw [hl]
    exact List.mem_map_of_mem ht
  have side : (c.rhs, .rhs c.name) ∈ p.numbers :=
    mem_numbers_of_constraint hc (List.mem_append_right _ (List.mem_singleton_self _))
  obtain ⟨sum, hsum⟩ := h.exists_ofExpression registered coefficients name
  obtain ⟨n, hn⟩ := h.toWhole side name (.named (.text "right-hand side"))
  rw [WholeRow.ofConstraint, hl, hsum]
  refine BreaksBy.bind (breaksBy_ok _) fun _ => ?_
  rw [show c.rhs.toWhole Float name (.named (.text "right-hand side")) = .ok n from hn]
  exact BreaksBy.bind (breaksBy_ok _) fun _ => (permitted_engine.fits _).bind fun _ =>
    (named _).bind fun _ => breaksBy_pure _

theorem admissible_toIntBy (f : Rat → Int) (x : Float) :
    BreaksBy Fault.Admissible (Numeric.toIntBy f x) := by
  unfold Numeric.toIntBy
  split <;> simp [Fault.Admissible, Fault.IsRejection, Fault.className]

/-- `Linear.accumulate` adds up terms with numbers over variables with values. -/
theorem exists_accumulate {value? : Value → Except Fault (Option (Operand Float))} {ts : List Term}
    (reads : ∀ t ∈ ts, t.coefficient.ReadsDouble)
    (finds : ∀ t ∈ ts, ∃ n, value? t.var = .ok (some (Number.whole n).operand) ∧ (n = 0 ∨ n = 1))
    (s : Subtotal Float) : ∃ s', Linear.accumulate value? false s ts = .ok s' := by
  induction ts generalizing s with
  | nil => exact ⟨s, rfl⟩
  | cons t ts ih =>
      obtain ⟨⟨c, q, hc, -⟩, reads⟩ := List.forall_mem_cons.mp reads
      obtain ⟨⟨n, hn, bit⟩, finds⟩ := List.forall_mem_cons.mp finds
      obtain ⟨x, _, hx, -⟩ := ofInt_bit n bit .real
      have added : s.add t.coefficient.operand (Number.whole n).operand =
          .ok ⟨s.sum + c * x, s.integral && (t.coefficient.isIntegral && true)⟩ := by
        simp only [Subtotal.add, Value.operand, Number.operand, hc, hx]
        rfl
      obtain ⟨s', hs'⟩ := ih reads finds ⟨s.sum + c * x, _⟩
      refine ⟨s', ?_⟩
      rw [Linear.accumulate, hn]
      simp only [bind, Except.bind, added]
      exact hs'

/-- `wholeValue` at an answer can only be too large for a whole number. -/
theorem Passes.breaksBy_wholeValue (h : Passes p) {e : Expression} (he : p.objective = some e)
    (values : List Bool) :
    BreaksBy Fault.Admissible (wholeValue Float e (operand? (assignment p.index values))) := by
  obtain ⟨l, rfl, registered⟩ := h.wellFormed.objective e he
  have reads : ∀ t ∈ l.terms, t.coefficient.ReadsDouble := by
    intro t ht
    refine h.reads (t.coefficient, .objective) (List.mem_append_left _ ?_)
    rw [he]
    exact List.mem_map_of_mem ht
  have finds : ∀ t ∈ l.terms, ∃ n, operand? (assignment p.index values) t.var =
      .ok (some (Number.whole n).operand : Option (Operand Float)) ∧ (n = 0 ∨ n = 1) := by
    intro t ht
    obtain ⟨i, w, -, -, hrequire⟩ := h.wellFormed.distinct.require_index (registered t ht)
    exact ⟨_, readsPoint_assignment p.index values t.var _ hrequire, isBinary_point values _⟩
  obtain ⟨s, hs⟩ := exists_accumulate reads finds .start
  have total : BreaksBy Fault.Admissible s.total := by
    unfold Subtotal.total
    split
    · exact breaksBy_map.mpr (admissible_toIntBy _ _)
    · exact breaksBy_ok _
  have evaluated : BreaksBy Fault.Admissible
      (l.evaluate (K := Float) (operand? (assignment p.index values)) false) := by
    rw [Linear.evaluate, hs]
    exact total
  refine BreaksBy.bind (x := l.evaluate (operand? (assignment p.index values)) false) evaluated
    fun v => ?_
  cases v with
  | whole n => exact breaksBy_ok n
  | real x => exact admissible_toIntBy _ _

theorem Passes.breaksOn_task (h : Passes p) (s : Settings) (objective : WholeSum)
    (maximize : Bool) :
    BreaksOn (task p s clock) (oracle engine s p.index objective maximize) (Permitted engine hooks)
      (fun a => ∃ values, a = assignment p.index values) where
  unfinished := by simp [Permitted, Fault.Admissible, Fault.IsRejection, Fault.className]
  unanswered := by simp [Permitted, Fault.Admissible, Fault.IsRejection, Fault.className]
  decides := raises_decide permitted_engine
    (fun _ _ => by simp [Permitted, Fault.Admissible, Fault.IsRejection, Fault.className]) s p.index
  answers r st status a st' asked := by
    obtain ⟨_, _, reply, -, -, ha⟩ := decide_answer asked
    exact ⟨reply.values, ha⟩
  cuts := raises_addCut permitted_engine s p.index objective maximize
  keeps _ _ := breaksBy_ok _
  values := by
    rintro value _ hv ⟨values, rfl⟩
    obtain ⟨e, he, rfl⟩ := Option.map_eq_some_iff.mp hv
    exact (h.breaksBy_wholeValue he values).imp fun _ => .inl

theorem Passes.raises_optimize (h : Passes p) (s : Settings) (objective : WholeSum)
    (model : PseudoBoolean) :
    Raises (Permitted engine hooks)
      (optimize engine s p p.index objective model clock questions) := by
  intro t
  rw [runOn_optimize]
  have breaks : BreaksOn (task p s clock) (oracle engine s p.index objective (p.sense == .max))
      (Permitted engine hooks) _ := h.breaksOn_task s objective _
  have raises := breaks.raises_optimize questions ⟨⟨t.state, model, 0⟩, t.log⟩
  rcases ended : ((task p s clock).optimize (oracle engine s p.index objective (p.sense == .max))
    questions).runOn ⟨⟨t.state, model, 0⟩, t.log⟩ with ⟨f | o, st⟩ <;> rw [ended] at raises
  · have permitted : Permitted engine hooks f := raises f rfl
    dsimp only
    split
    · exact breaksBy_error.mpr permitted
    · exact breaksBy_error.mpr permitted
  · exact breaksBy_ok _

theorem admissible_checkHook (native : String) (hook : Value) :
    BreaksBy Fault.Admissible (checkHook native hook) := by
  unfold checkHook
  split
  · exact breaksBy_ok _
  · rename_i t
    cases t <;> simp [typeFault, Fault.Admissible, Fault.IsRejection, Fault.className]
  · simp [Fault.Admissible, Fault.IsRejection, Fault.className]

theorem raises_runHooks (native : String) (index : Index) (list : List Value)
    (m : PseudoBoolean) :
    Raises (Permitted engine hooks)
      (runHooks native hooks index list m : Action (Session Question) _) := by
  induction list generalizing m with
  | nil => exact raises_pure m
  | cons hook rest ih =>
      refine (raises_ofExcept ((admissible_checkHook native hook).imp fun _ => .inl)).bind fun _ =>
        (raises_update _).bind fun _ => ?_
      rcases hm : hooks hook index m with ⟨m', _ | f⟩
      · exact ih m'
      · exact raises_throw (.inr (.hook (by rw [hm])))

theorem Passes.raises_search (h : Passes p) {settings : Settings}
    (frozen : (Settings.ofParameters solver.name solver.parameters).1 = .ok settings) :
    Raises (Permitted engine hooks) (search engine hooks clock questions solver p) := by
  have accepted := h.accepted solver.name
  obtain ⟨objective, hsum⟩ := accepted.exists_sum
  have freeze : Raises (Permitted engine hooks) (Settings.freeze solver.name solver.parameters :
      Action (Session Question) Settings) := by
    intro s
    rw [runOn_freeze, frozen]
    exact breaksBy_ok _
  unfold search
  refine Raises.bind ?_ fun _ => h.raises_optimize _ _ _
  unfold present
  rw [accepted.boolean, accepted.whole, hsum]
  refine (raises_ofExcept (breaksBy_ok _)).bind fun _ =>
    (raises_ofExcept (breaksBy_ok _)).bind fun _ => freeze.bind fun _ => ?_
  refine (raises_update _).bind fun _ => (raises_update _).bind fun _ =>
    (raises_ofExcept (h.breaksBy_pseudoBoolean _)).bind fun _ => ?_
  exact (raises_runHooks _ _ _ _).bind fun _ =>
    (raises_ofExcept (breaksBy_ok _)).bind fun _ => raises_pure _

/-- `CpSat.solve` of a problem that passes is broken off by nothing but what is `Permitted`. -/
theorem Passes.breaksBy_solve (h : Passes p) {settings : Settings}
    (frozen : (Settings.ofParameters solver.name solver.parameters).1 = .ok settings) :
    BreaksBy (Permitted engine hooks)
      ((solve engine hooks clock questions solver p).perform (.start solver)).1 := by
  have every : Raises (Permitted engine hooks) (search engine hooks clock questions solver p) :=
    h.raises_search frozen
  have raises := every ⟨.start solver, []⟩
  rcases searched : (search engine hooks clock questions solver p).perform (.start solver) with
    ⟨r, t⟩
  rcases search_cases searched with ⟨f, rfl, -⟩ | ⟨settings, last, o, st, ended, same, rfl⟩
  · rw [perform] at searched
    rw [searched] at raises
    rw [solve_eq_search, perform, runOn_bind, searched]
    exact breaksBy_error.mpr (raises f rfl)
  · obtain ⟨-, -, absent, present⟩ := concluded_solve h.wellFormed.distinct ended same searched
    cases held : o.assignment with
    | none =>
        rw [absent held]
        exact breaksBy_ok _
    | some a =>
        obtain ⟨x, hx, -⟩ := present a held
        rw [hx]
        exact breaksBy_ok _

/-- The three ways for a problem to fare in the check. -/
theorem variable_or_number_or_passes (h : p.WellFormed)
    (reads : ∀ e ∈ p.numbers, e.1.ReadsDouble) :
    (∃ v, First (fun v => p.domainOf v ≠ .bool) p.variableList v) ∨
      (∀ v ∈ p.variableList, p.domainOf v = .bool) ∧
          (∃ e, First (fun e => e.1.ReadsFraction) p.numbers e) ∨
        Passes p := by
  by_cases boolean : ∀ v ∈ p.variableList, p.domainOf v = .bool
  · by_cases whole : ∀ e ∈ p.numbers, ¬ e.1.ReadsFraction
    · exact .inr (.inr ⟨h, boolean, reads, whole⟩)
    · push Not at whole
      exact .inr (.inl ⟨boolean, exists_first whole⟩)
  · push Not at boolean
    exact .inl (exists_first boolean)

theorem exists_of_first {α : Type} {P : α → Prop} {xs : List α} {x : α} (h : First P xs x) :
    ∃ x ∈ xs, P x := by
  obtain ⟨before, after, rfl, hx, -⟩ := h
  exact ⟨x, by simp, hx⟩

end CpSat

end Milp
