import Milp.Proofs.CutLoop.Frame
import Milp.Proofs.Engine.CpSat.Incumbents
import Milp.Proofs.Engine.Status
import Milp.Proofs.Fault.Forms

/-!
# The status that CP-SAT leaves

The answer of `CpSat.solve` and its status are `Coherent`, with any answers of CP-SAT and wherever
it breaks off. A last question that was left open counts as feasible if an earlier one brought an
assignment, and as a limit of time otherwise.
-/

namespace Milp.CpSat

open CutLoop Milp.Action Milp.Session

variable {engine : Engine} {hooks : Hooks PseudoBoolean} {clock : Nat → Float} {questions : Nat}
  {solver : Solver} {p : Problem}

/-- CP-SAT raises nothing that is taken for a failure. That it finds a model invalid is none yet. -/
structure Engine.Harmless (engine : Engine) : Prop where
  setOption : ∀ name v, BreaksBy (fun f => f.cls ≠ .engine) (engine.setOption name v)
  fits : ∀ r, BreaksBy (fun f => f.cls ≠ .engine) (engine.fits r)
  answer : ∀ asked q, BreaksBy (fun f => f.cls ≠ .engine) (engine.answer asked q)

/-- Whatever CP-SAT raises is of some sort. -/
structure Engine.RaisesOnly (engine : Engine) (P : Fault → Prop) : Prop where
  setOption : ∀ name v, BreaksBy P (engine.setOption name v)
  fits : ∀ r, BreaksBy P (engine.fits r)
  answer : ∀ asked q, BreaksBy P (engine.answer asked q)

theorem Engine.Harmless.genuine (h : engine.Harmless) : engine.RaisesOnly Fault.Genuine :=
  ⟨fun _ _ => (h.setOption _ _).imp fun _ => Fault.genuine_of_cls,
    fun _ => (h.fits _).imp fun _ => Fault.genuine_of_cls,
    fun _ _ => (h.answer _ _).imp fun _ => Fault.genuine_of_cls⟩

/-! ## Runs of cuts -/

section

variable {P : Fault → Prop}

theorem raises_setOption (only : engine.RaisesOnly P) (taken : List (String × Value))
    (o : Value × Value) : Raises P (setOption engine taken o : Action State _) := by
  unfold setOption
  dsimp only
  split
  · exact raises_pure _
  · rename_i f refused
    split
    · exact (raises_note _ _ _).bind fun _ => raises_pure _
    · exact raises_throw (only.setOption _ _ f refused)

/-- `decide` is broken off by what the engine raises, or since it finds the model invalid. -/
theorem raises_decide (only : engine.RaisesOnly P)
    (invalid : ∀ name reason, P (.engineFailed (some name) (.cpsatModel reason))) (s : Settings)
    (index : Index) (remaining : Option Float) : Raises P (decide engine s index remaining) := by
  have general : BreaksBy P ((generalOptions s remaining).foldlM (setGeneralOption engine) []) :=
    breaksBy_foldlM fun taken o => (only.setOption _ _).bind fun _ => breaksBy_pure _
  unfold decide
  refine (raises_ofExcept general).bind fun _ =>
    (raises_foldlM (raises_setOption only) _ _).bind fun _ => raises_read.bind fun st =>
    (raises_update _).bind fun _ => (raises_ofExcept (only.answer _ _)).bind fun reply => ?_
  split
  · exact raises_pure _
  · exact raises_pure _
  · exact raises_pure _
  · exact raises_pure _
  · exact raises_throw (invalid _ _)

theorem raises_addCut (only : engine.RaisesOnly P) (s : Settings) (index : Index)
    (objective : WholeSum) (maximize : Bool) (bound : Int) :
    Raises P ((oracle engine s index objective maximize).addCut bound) :=
  (raises_ofExcept (only.fits _)).bind fun _ => raises_update _

end

theorem contained_wholeValue (l : Linear) (a : Table Int) :
    Contained (wholeValue Float (.linear l) (operand? a)) := by
  have looks (v : Value) : Contained (operand? a v : Except Fault (Option (Operand Float))) := by
    simp [operand?]
  have finds (v : Value) (x : Operand Float) (h : operand? a v = .ok (some x)) :
      Contained x.number := by
    obtain ⟨n, -, h⟩ := bind_eq_ok.mp h
    cases n with
    | none => cases h
    | some n =>
        obtain rfl := Option.some.inj (Except.ok.inj h)
        exact contained_ofInt n
  refine BreaksBy.bind (breaksBy_ok _) fun l => (contained_evaluate looks finds l _).bind fun v => ?_
  cases v with
  | whole n => exact breaksBy_ok n
  | real x => exact contained_toIntBy _ _

theorem breaks_task (h : p.WellFormed) (harmless : engine.Harmless) (s : Settings) (index : Index)
    (objective : WholeSum) (maximize : Bool) :
    Breaks (task p s clock) (oracle engine s index objective maximize) Fault.Genuine where
  internal _ := Fault.Internal.genuine
  decides := raises_decide harmless.genuine (fun _ _ _ => rfl) s index
  cuts := raises_addCut harmless.genuine s index objective maximize
  keeps _ := breaksBy_ok _
  values := by
    intro value a hv
    obtain ⟨e, he, rfl⟩ := Option.map_eq_some_iff.mp hv
    obtain ⟨l, rfl, -⟩ := h.objective e he
    exact (contained_wholeValue l a).imp fun _ => Fault.Internal.genuine

/-- A question or a cut leaves the status to what comes after it. -/
def KeepsStatus (st st' : State) : Prop :=
  SameStatus st.session st'.session

instance : Std.Refl KeepsStatus := ⟨fun _ => rfl⟩

instance : IsTrans State KeepsStatus := ⟨fun _ _ _ h h' => h'.trans h⟩

theorem keepsStatus_optimize (engine : Engine) (s : Settings) (p : Problem) (index : Index)
    (objective : WholeSum) (clock : Nat → Float) (questions : Nat) :
    Keeps KeepsStatus ((task p s clock).optimize
      (oracle engine s index objective (p.sense == .max)) questions) := by
  refine keeps_optimize (keeps_decide (fun _ _ => rfl) engine s index) (fun _ => ?_) _
  exact (keeps_ofExcept _).bind fun _ => keeps_update fun _ => rfl

theorem reporting_optimize (h : p.WellFormed) (harmless : engine.Harmless) (s : Settings)
    (index : Index) (objective : WholeSum) (model : PseudoBoolean) :
    Reporting (optimize engine s p index objective model clock questions) := by
  have same := keepsStatus_optimize engine s p index objective clock questions
  have raises : Raises Fault.Genuine ((task p s clock).optimize
      (oracle engine s index objective (p.sense == .max)) questions) :=
    (breaks_task h harmless s index objective _).raises_optimize questions
  unfold optimize
  refine reporting_tryCatch (same.onPart fun _ _ kept => kept) (raises_onPart raises) ?_
  intro f t genuine before
  split
  · rename_i engine
    exact failureReported_error.mpr ⟨fun _ => genuine engine, fun _ => rfl⟩
  · rename_i other
    refine failureReported_error.mpr ⟨fun failed => absurd failed before, fun failure => ?_⟩
    exact absurd failure (Fault.not_isFailure_of_cls other)

/-! ## The parts of a solve -/

/-- What happens before the first question: the settings, the model, and the sum in the cuts. -/
def present (engine : Engine) (hooks : Hooks PseudoBoolean) (solver : Solver) (p : Problem) :
    Action (Session Question) (Settings × PseudoBoolean × WholeSum) := do
  .ofExcept (p.checkBoolean solver.name)
  .ofExcept (p.checkWhole Float solver.name)
  let settings ← Settings.freeze solver.name solver.parameters
  Session.setStatus none
  Session.setHistory []
  let model ← .ofExcept (p.pseudoBoolean Float engine.fits p.index solver.name)
  let model ← Session.runHooks "CpSatModel" hooks p.index solver.hooks model
  let objective ← .ofExcept (cutSum p solver.name)
  return (settings, model, objective)

theorem present_eq : present engine hooks solver p = (do
    let (settings, model) ← handed engine solver p
    let model ← Session.runHooks "CpSatModel" hooks p.index solver.hooks model
    let objective ← .ofExcept (cutSum p solver.name)
    return (settings, model, objective)) := by
  simp only [present, handed, bind_assoc, pure_bind]

/-- A solve up to what is read off its outcome by `readAssignment`. -/
def search (engine : Engine) (hooks : Hooks PseudoBoolean) (clock : Nat → Float) (questions : Nat)
    (solver : Solver) (p : Problem) : Action (Session Question) (Outcome (Table Int)) := do
  let (settings, model, objective) ← present engine hooks solver p
  optimize engine settings p p.index objective model clock questions

theorem solve_eq_search : solve engine hooks clock questions solver p =
    search engine hooks clock questions solver p >>= conclude p := by
  rw [solve_eq]
  simp only [search, present, bind_assoc, pure_bind]

/-- What is read off an assignment, with the objective value where there is one. -/
def readAssignment (p : Problem) (objectiveValue : Option Int) (a : Table Int) :
    Except Fault (Solution Float) :=
  Solution.extract p.toDeclarations (fun v => do Numeric.ofInt (← a.require v))
    (objectiveValue.map fun n => .number (.whole n))

theorem runOn_conclude (o : Outcome (Table Int)) (t : Logged (Session Question)) :
    ∃ log, (conclude p o).runOn t =
      (match o.assignment with
        | none => .ok none
        | some a => (readAssignment p o.objectiveValue a).map some,
        ⟨{ t.state with status := .symbol (.status o.status), history := some o.history }, log⟩) := by
  unfold conclude
  cases o.assignment with
  | none => exact ⟨_, rfl⟩
  | some a =>
      change ∃ log, (do
        Session.setStatus (some o.status)
        Session.setHistory o.history
        return some (← .ofExcept (readAssignment p o.objectiveValue a)) : Action _ _).runOn t = _
      dsimp only
      generalize readAssignment p o.objectiveValue a = read
      cases read <;> exact ⟨_, rfl⟩

theorem ofInt_bit (n : Int) (h : n = 0 ∨ n = 1) (d : Domain) :
    ∃ (x : Float) (m : Number Float), Numeric.ofInt n = .ok x ∧ Solution.roundValue d x = .ok m := by
  rcases h with rfl | rfl
  · refine ⟨0.0, ?_⟩
    cases d
    · exact ⟨_, rfl, rfl⟩
    · exact ⟨.whole 0, rfl, rfl⟩
    · exact ⟨.whole 0, rfl, rfl⟩
  · refine ⟨1.0, ?_⟩
    cases d
    · exact ⟨_, rfl, rfl⟩
    · exact ⟨.whole 1, rfl, rfl⟩
    · exact ⟨.whole 1, rfl, rfl⟩

/-- The assignment of an answer is read as a solution. -/
theorem exists_readAssignment (distinct : p.Distinct) (objectiveValue : Option Int)
    (values : List Bool) :
    ∃ x, readAssignment p objectiveValue (assignment p.index values) = .ok x := by
  refine Solution.exists_extract (fun v hv => ?_) _
  obtain ⟨i, hi⟩ := List.getElem?_of_mem hv
  have entry : (assignment p.index values).require v = .ok (point values i) := by
    refine Table.require_eq_ok.mpr ⟨distinct.hashable v hv, ?_⟩
    rw [assignment, Table.get?_map, distinct.get?_index hi rfl]
    rfl
  obtain ⟨x, m, hx, hm⟩ := ofInt_bit (point values i) (isBinary_point values i) (p.domainOf v)
  exact ⟨x, m, bind_eq_ok.mpr ⟨_, entry, hx⟩, hm⟩

/-! ## Solves -/

theorem keeps_present :
    Keeps (Session.Adds fun _ => False) (present engine hooks solver p) := by
  rw [present_eq]
  refine ((keeps_handed engine solver p).imp fun _ _ h => h.adds).bind fun ⟨settings, model⟩ => ?_
  exact (Session.keeps_runHooks _ _ _ _ _).bind fun _ => (keeps_ofExcept _).bind fun _ =>
    keeps_pure _

theorem reporting_present (h : p.WellFormed) (harmless : engine.Harmless)
    (quiet : Session.Harmless hooks) : Reporting (present engine hooks solver p) := by
  have sum : Contained (cutSum p solver.name) := by
    unfold cutSum
    split
    · rename_i e he
      obtain ⟨l, rfl, -⟩ := h.objective e he
      exact contained_ofExpression l _ _
    · exact breaksBy_ok _
  have form : BreaksBy (fun f => f.cls ≠ .engine)
      (p.pseudoBoolean Float engine.fits p.index solver.name) :=
    breaksBy_pseudoBoolean (fun _ => Fault.Internal.cls_ne_engine) h harmless.fits _
  unfold present
  refine (reporting_ofContained (contained_checkBoolean _ _)).bind fun _ =>
    (reporting_ofContained (contained_checkWhole h _)).bind fun _ => ?_
  refine (reporting_freeze _ _).bind fun _ => (reporting_setStatus (by simp)).bind fun _ => ?_
  refine (reporting_setHistory _).bind fun _ => (reporting_ofExcept form).bind fun _ => ?_
  exact (reporting_runHooks quiet _ _ _ _).bind fun _ => (reporting_ofContained sum).bind fun _ =>
    reporting_pure _

/-- `search` is broken off, and then not by a last question that was left open, or it ends with what
its run of cuts found (`Ended`). -/
theorem search_cases {r : Except Fault (Outcome (Table Int))} {t : Logged (Session Question)}
    (searched : (search engine hooks clock questions solver p).perform (.start solver) = (r, t)) :
    (∃ f, r = .error f ∧ ¬ engine.GaveUp t.state.tellings) ∨
      ∃ settings last o st, Ended engine p.index p last o st ∧ t.state = st.session ∧
        r = .ok { o with status := (task p settings clock).finalStatus last o } := by
  rcases presented : (present engine hooks solver p).runOn ⟨.start solver, []⟩ with
    ⟨f | ⟨settings, model, objective⟩, s₁⟩
  · simp only [search, perform, runOn_bind, presented] at searched
    obtain ⟨rfl, rfl⟩ := Prod.mk.inj searched
    refine .inl ⟨f, rfl, ?_⟩
    rw [(keeps_present.of_runOn presented).tellings_eq]
    exact Engine.not_gaveUp_nil
  have new : s₁.state.tellings = [] := (keeps_present.of_runOn presented).tellings_eq
  have running : Running engine p.index p (.initial : Outcome (Table Int)) ⟨s₁.state, model, 0⟩ := by
    refine ⟨⟨by rw [Counted, new]; rfl, ?_, by rintro a ⟨⟩⟩, ?_, by rintro ⟨⟩⟩
    · simp [Outcome.initial, new, Engine.not_found_nil]
    · simp [new, Engine.not_gaveUp_nil]
  let cuts := (task p settings clock).run (oracle engine settings p.index objective
    (p.sense == .max)) questions 1 .initial
  have ends : Ends engine p.index p (cuts.runOn ⟨⟨s₁.state, model, 0⟩, s₁.log⟩).1
      (cuts.runOn ⟨⟨s₁.state, model, 0⟩, s₁.log⟩).2.state :=
    endsAfter questions 1 .initial ⟨⟨s₁.state, model, 0⟩, s₁.log⟩ running
  rcases ran : cuts.runOn ⟨⟨s₁.state, model, 0⟩, s₁.log⟩ with ⟨f | ⟨last, o⟩, st⟩ <;>
    rw [ran] at ends
  · left
    by_cases reported : f.cls = .engine
    · simp only [search, perform, runOn_bind, presented, runOn_optimize, Task.optimize, ran, cuts,
        if_pos reported] at searched
      obtain ⟨rfl, rfl⟩ := Prod.mk.inj searched
      exact ⟨f, rfl, ends⟩
    · simp only [search, perform, runOn_bind, presented, runOn_optimize, Task.optimize, ran, cuts,
        if_neg reported] at searched
      obtain ⟨rfl, rfl⟩ := Prod.mk.inj searched
      exact ⟨f, rfl, ends⟩
  · right
    simp only [search, perform, runOn_bind, presented, runOn_optimize, Task.optimize, ran, cuts,
      runOn_note, runOn_pure] at searched
    obtain ⟨rfl, rfl⟩ := Prod.mk.inj searched
    exact ⟨settings, last, o, st.state, ends, rfl, rfl⟩

/-- The status of a run is one of a solution where it holds an assignment, and only there. -/
theorem Ended.final {index : Index} {last : Status} {o : Outcome (Table Int)} {st : State}
    (h : Ended engine index p last o st) (settings : Settings) (clock : Nat → Float) :
    let final := (task p settings clock).finalStatus last o
    (o.assignment = none ∧ (final = .timeLimit ∨ final = .infeasible)) ∨
      ∃ a, o.assignment = some a ∧ (final = .optimal ∨ final = .feasible) := by
  intro final
  cases held : o.assignment with
  | none =>
      have same : final = last := by simp [final, Task.finalStatus, held]
      refine .inl ⟨rfl, ?_⟩
      rw [same]
      rcases h.ending with spent | refused | ⟨-, found⟩
      · exact .inl spent
      · exact .inr refused
      · simp [held] at found
  | some a =>
      refine .inr ⟨a, rfl, ?_⟩
      simp only [final, Task.finalStatus, held, Option.isNone, Bool.false_eq_true, if_false]
      split <;> simp

theorem reporting_search (h : p.WellFormed) (harmless : engine.Harmless)
    (quiet : Session.Harmless hooks) :
    Reporting (search engine hooks clock questions solver p) :=
  (reporting_present h harmless quiet).bind fun _ => reporting_optimize h harmless _ _ _ _

/-- What a solve leaves that was not broken off: the status of its run, and the assignment that the
run holds as a solution. -/
structure Concluded (p : Problem) (o : Outcome (Table Int)) (final : Status) (told : List Question)
    (run : Except Fault (Option (Solution Float)) × Logged (Session Question)) : Prop where
  told : run.2.state.tellings = told
  status : run.2.state.status = .symbol (.status final)
  absent : o.assignment = none → run.1 = .ok none
  present : ∀ a, o.assignment = some a → ∃ x, run.1 = .ok (some x) ∧ x.Covers p.toDeclarations

theorem concluded_solve (distinct : p.Distinct) {settings : Settings} {last : Status}
    {o : Outcome (Table Int)} {st : State} (ended : Ended engine p.index p last o st)
    {t : Logged (Session Question)} (same : t.state = st.session)
    (searched : (search engine hooks clock questions solver p).perform (.start solver) =
      (.ok { o with status := (task p settings clock).finalStatus last o }, t)) :
    Concluded p o ((task p settings clock).finalStatus last o) st.session.tellings
      ((solve engine hooks clock questions solver p).perform (.start solver)) := by
  rw [perform] at searched
  obtain ⟨log, concluded⟩ := runOn_conclude
    { o with status := (task p settings clock).finalStatus last o } t
  rw [solve_eq_search, perform, runOn_bind, searched]
  dsimp only
  rw [concluded]
  refine ⟨?_, rfl, fun held => by simp [held], fun a held => ?_⟩
  · rw [← same]
    rfl
  · obtain ⟨values, rfl⟩ := ended.values a held
    obtain ⟨x, hx⟩ := exists_readAssignment distinct o.objectiveValue values
    refine ⟨x, ?_, (Solution.covers_of_extract hx).1⟩
    simp only [held, hx]
    rfl

/-- The answer of `CpSat.solve` and its status are `Coherent`. -/
theorem coherent_solve (h : p.WellFormed) (harmless : engine.Harmless)
    (quiet : Session.Harmless hooks) (fresh : solver.lastStatus = .none) :
    Coherent p.toDeclarations
      ((solve engine hooks clock questions solver p).perform (.start solver)) := by
  have reports : FailureReported
      ((search engine hooks clock questions solver p).perform (.start solver)) :=
    failed_perform (reporting_search h harmless quiet) fresh
  rcases searched : (search engine hooks clock questions solver p).perform (.start solver) with
    ⟨r, t⟩
  rcases search_cases searched with ⟨f, rfl, -⟩ | ⟨settings, last, o, st, ended, same, rfl⟩
  · rw [searched] at reports
    rw [perform] at searched
    rw [solve_eq_search, perform, runOn_bind, searched]
    exact ⟨by rintro answer ⟨⟩, failureReported_error.mpr (failureReported_error.mp reports)⟩
  · obtain ⟨-, status, absent, present⟩ := concluded_solve h.distinct ended same searched
    rcases ended.final settings clock with ⟨held, final⟩ | ⟨a, held, final⟩
    · refine ⟨fun answer hanswer => ?_, ?_⟩
      · obtain rfl : none = answer := Except.ok.inj ((absent held).symm.trans hanswer)
        rcases final with final | final <;> simp [Session.Agrees, status, final]
      · rw [absent held, status]
        rcases final with final | final <;> simp [final]
    · obtain ⟨x, hx, covers⟩ := present a held
      refine ⟨fun answer hanswer => ?_, ?_⟩
      · obtain rfl : some x = answer := Except.ok.inj (hx.symm.trans hanswer)
        rcases final with final | final <;> simp [Session.Agrees, status, final, covers]
      · rw [hx, status]
        rcases final with final | final <;> simp [final]

/-- A last question that was left open is `Limited`: it counts as feasible if and only if an earlier
one brought an assignment, and then there is a solution. -/
theorem limited_solve (distinct : p.Distinct)
    (gaveUp : engine.GaveUp
      ((solve engine hooks clock questions solver p).perform (.start solver)).2.state.tellings) :
    ∃ x, Limited ((solve engine hooks clock questions solver p).perform (.start solver))
      (engine.Found
        ((solve engine hooks clock questions solver p).perform (.start solver)).2.state.tellings)
      (.ok x) := by
  rcases searched : (search engine hooks clock questions solver p).perform (.start solver) with
    ⟨r, t⟩
  rcases search_cases searched with ⟨f, rfl, other⟩ | ⟨settings, last, o, st, ended, same, rfl⟩
  · rw [perform] at searched
    rw [solve_eq_search, perform, runOn_bind, searched] at gaveUp
    exact absurd gaveUp other
  · obtain ⟨told, status, absent, present⟩ := concluded_solve distinct ended same searched
    rw [told] at gaveUp ⊢
    obtain ⟨rfl, objective⟩ := ended.gaveUp gaveUp
    rw [← ended.found]
    cases held : o.assignment with
    | none =>
        refine ⟨⟨.empty, .empty, none⟩, fun found => by simp at found, fun _ => ?_⟩
        have final : (task p settings clock).finalStatus .timeLimit o = .timeLimit := by
          simp [Task.finalStatus, held]
        exact ⟨final ▸ status, absent held⟩
    | some a =>
        obtain ⟨x, hx, -⟩ := present a held
        refine ⟨x, fun _ => ?_, fun none => by simp at none⟩
        obtain ⟨e, he⟩ := Option.isSome_iff_exists.mp (objective (by simp [held]))
        have final : (task p settings clock).finalStatus .timeLimit o = .feasible := by
          simp [Task.finalStatus, held, task, he]
        exact ⟨final ▸ status, hx⟩

end Milp.CpSat
