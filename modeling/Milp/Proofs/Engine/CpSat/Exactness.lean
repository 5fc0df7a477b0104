import Milp.Proofs.Engine.CpSat.Course

/-!
# Exact cuts

The cuts of a problem are made from values that `CutLoop.wholeValue` adds up in doubles, and say
something about a sum in whole numbers (`WholeSum`). Where the two agree (`ExactCuts`), every cut
excludes what was found before it and nothing better, so the values found get strictly better and
the questions come to an end.
-/

namespace Milp.CpSat

open CutLoop

/-! ## What is asked of cuts -/

/-- What is asked of a problem before it is solved by cuts. The variables of the objective are
registered ones. -/
structure Accepted (p : Problem) (name : Value) : Prop where
  boolean : p.checkBoolean name = .ok ()
  whole : p.checkWhole Float name = .ok ()
  objective : ∀ e, p.objective = some e →
    ∃ l : Linear, e = .linear l ∧ ∀ t ∈ l.terms, ∃ j, p.index.require t.var = .ok j

/-- A sum stands for the objective in the cuts of a problem. -/
structure CutSum (p : Problem) (name : Value) (e : Expression) (native : WholeSum) : Prop where
  objective : p.objective = some e
  encoded : WholeSum.ofExpression Float e p.index name = .ok native

/-- A sum has the coefficients of the objective as they are. -/
structure OwnSum (p : Problem) (name : Value) (e : Expression) (own : WholeSum) : Prop where
  objective : p.objective = some e
  encoded : WholeSum.ofExpression Extended e p.index name = .ok own

theorem Accepted.exists_cutSum {p : Problem} {name : Value} (accepted : Accepted p name)
    {e : Expression} (he : p.objective = some e) : ∃ native, CutSum p name e native := by
  obtain ⟨l, rfl, registered⟩ := accepted.objective e he
  obtain ⟨_, hterms, -⟩ := bind_eq_ok.mp accepted.whole
  rw [Problem.checkWholeObjective, he] at hterms
  obtain ⟨coefficients, hterms, -⟩ := bind_eq_ok.mp hterms
  rw [Expression.terms_linear, Series.mapM_ofList, mapM_eq_ok] at hterms
  have each : ∀ t ∈ l.terms, ∃ e, t.Encoded Float p.index name e := by
    intro t ht
    obtain ⟨j, hj⟩ := registered t ht
    obtain ⟨i, hi⟩ := List.getElem?_of_mem ht
    obtain ⟨n, -, hn⟩ := exists_of_forall₂ hterms hi
    exact ⟨(j.toNat, n), ⟨j, hj, rfl⟩, Value.toWhole_eq_ok.mpr (Value.toWhole_eq_ok.mp hn)⟩
  obtain ⟨es, hes⟩ := exists_forall₂ each
  exact ⟨⟨es⟩, he, WholeSum.ofExpression_linear.mpr hes⟩

/-- The cuts of a problem say what they are meant to say: the sum in them has the coefficients of
the objective and the values that are recorded, a cut excludes what was found before it, the values
found get strictly better, and a solve is the same however many more questions than points it may
ask. -/
structure ExactCuts (engine : Engine) (hooks : Hooks PseudoBoolean) (clock : Nat → Float)
    (solver : Solver) (p : Problem) : Prop where
  coefficients : ∀ e native, CutSum p solver.name e native → OwnSum p solver.name e native
  values : ∀ e native, CutSum p solver.name e native → Agrees e p.index native
  excluded : ∀ e native, CutSum p solver.name e native → ∀ settings values v,
    wholeValue Float e (operand? (assignment p.index values)) = .ok v →
      (WholeRow.cut native (p.sense == .max) ((task p settings clock).improved v)).holds
        (point values) = false
  history : ∀ questions s r s',
    (solve engine hooks clock questions solver p).runOn s = (.ok r, s') →
      ∃ h, s'.state.history = some h ∧
        ∀ settings, h.Pairwise fun v w => (task p settings clock).Better w v
  finite : ∀ q q', 2 ^ p.index.size < q → 2 ^ p.index.size < q' → ∀ s,
    (solve engine hooks clock q solver p).runOn s =
      (solve engine hooks clock q' solver p).runOn s

section

variable {engine : Engine} {hooks : Hooks PseudoBoolean} {clock : Nat → Float} {solver : Solver}
  {p : Problem}

theorem cutSum_of_eq_ok {objective : WholeSum} (h : cutSum p solver.name = .ok objective)
    {e : Expression} (he : p.objective = some e) : CutSum p solver.name e objective := by
  rw [cutSum, he] at h
  exact ⟨he, h⟩

theorem objectiveAgrees_of_cutSum {objective : WholeSum}
    (agrees : ∀ e native, CutSum p solver.name e native → Agrees e p.index native)
    (h : cutSum p solver.name = .ok objective) : ObjectiveAgrees p p.index objective :=
  fun e he => agrees e objective (cutSum_of_eq_ok h he)

theorem excluded_of_agrees {e : Expression} {native : WholeSum} (agrees : Agrees e p.index native)
    (settings : Settings) {values : List Bool} {v : Int}
    (hv : wholeValue Float e (operand? (assignment p.index values)) = .ok v) :
    (WholeRow.cut native (p.sense == .max) ((task p settings clock).improved v)).holds
      (point values) = false := by
  obtain rfl : _ = v := Except.ok.inj ((agrees values).symm.trans hv)
  rw [Bool.eq_false_iff]
  intro holds
  have better := Task.within_improved.mp ((holds_cut p settings clock).mp holds)
  unfold Task.Better at better
  split at better <;> exact lt_irrefl _ better

theorem history_of_agrees (honest : engine.Honest)
    (agrees : ∀ e native, CutSum p solver.name e native → Agrees e p.index native)
    {questions : Nat} {s s' : Logged (Session Question)} {r : Option (Solution Float)}
    (h : (solve engine hooks clock questions solver p).runOn s = (.ok r, s')) :
    ∃ history, s'.state.history = some history ∧
      ∀ settings, history.Pairwise fun v w => (task p settings clock).Better w v := by
  rw [solve_eq] at h
  obtain ⟨_, _, -, h⟩ := Action.runOn_bind_eq_ok.mp h
  obtain ⟨_, _, -, h⟩ := Action.runOn_bind_eq_ok.mp h
  obtain ⟨settings, _, -, h⟩ := Action.runOn_bind_eq_ok.mp h
  obtain ⟨_, _, -, h⟩ := Action.runOn_bind_eq_ok.mp h
  obtain ⟨_, _, -, h⟩ := Action.runOn_bind_eq_ok.mp h
  obtain ⟨_, _, -, h⟩ := Action.runOn_bind_eq_ok.mp h
  obtain ⟨model, _, -, h⟩ := Action.runOn_bind_eq_ok.mp h
  obtain ⟨objective, s₁, hsum, h⟩ := Action.runOn_bind_eq_ok.mp h
  obtain ⟨outcome, s₂, houtcome, h⟩ := Action.runOn_bind_eq_ok.mp h
  refine ⟨_, history_conclude h, fun settings' => ?_⟩
  have agrees := objectiveAgrees_of_cutSum agrees (congrArg Prod.fst hsum)
  rw [runOn_optimize] at houtcome
  split at houtcome <;> rename_i o st hrun
  · cases houtcome
    have sorted := Task.history_optimize (obeys_task honest agrees _) hrun
    exact sorted
  · split at houtcome
    · obtain ⟨_, _, ⟨⟩, houtcome⟩ := Action.runOn_bind_eq_ok.mp houtcome
      cases houtcome
    · cases houtcome

/-- A solve whose cuts agree with the values asks as many questions as it needs. -/
theorem finite_of_agrees (honest : engine.Honest) (accepted : Accepted p solver.name)
    (agrees : ∀ e native, CutSum p solver.name e native → Agrees e p.index native) {q q' : Nat}
    (hq : 2 ^ p.index.size < q) (hq' : 2 ^ p.index.size < q') (s : Logged (Session Question)) :
    (solve engine hooks clock q solver p).runOn s =
      (solve engine hooks clock q' solver p).runOn s := by
  rw [solve_eq, solve_eq]
  refine Action.runOn_bind_congr fun _ _ _ => ?_
  refine Action.runOn_bind_congr fun _ _ _ => ?_
  refine Action.runOn_bind_congr fun settings _ _ => ?_
  refine Action.runOn_bind_congr fun _ _ _ => ?_
  refine Action.runOn_bind_congr fun _ _ _ => ?_
  refine Action.runOn_bind_congr fun _ _ _ => ?_
  refine Action.runOn_bind_congr fun model _ _ => ?_
  refine Action.runOn_bind_congr fun objective s₁ hsum => ?_
  have hsum : cutSum p solver.name = .ok objective := congrArg Prod.fst hsum
  have same := optimize_congr settings clock honest
    (objectiveAgrees_of_cutSum agrees hsum) (fun present => ?_) hq hq' model s₁
  · rw [Action.runOn_bind, Action.runOn_bind, same]
  · obtain ⟨e, he⟩ := Option.ne_none_iff_exists'.mp present
    obtain ⟨l, rfl, -⟩ := accepted.objective e he
    exact column_lt (cutSum_of_eq_ok hsum he).encoded

/-- Where no part of the objective is rounded (`WholeSum.Representable`), the cuts are exact. -/
theorem exactCuts_of_representable (honest : engine.Honest) (accepted : Accepted p solver.name)
    (held : ∀ e own, OwnSum p solver.name e own → own.Representable) :
    ExactCuts engine hooks clock solver p := by
  have both : ∀ e native, CutSum p solver.name e native →
      OwnSum p solver.name e native ∧ Agrees e p.index native := by
    rintro e native ⟨he, hnative⟩
    obtain ⟨l, rfl, -⟩ := accepted.objective e he
    obtain ⟨own, hown⟩ := WholeSum.exists_own hnative
    have representable := held _ own ⟨he, hown⟩
    obtain rfl : own = native := Except.ok.inj
      ((WholeSum.ofExpression_float hown representable.coefficients).symm.trans hnative)
    exact ⟨⟨he, hown⟩, agrees_of_representable hnative representable⟩
  have agrees := fun e native h => (both e native h).2
  exact ⟨fun e native h => (both e native h).1, agrees,
    fun e native h settings _ _ => excluded_of_agrees (agrees e native h) settings,
    fun _ _ _ _ => history_of_agrees honest agrees,
    fun _ _ hq hq' => finite_of_agrees honest accepted agrees hq hq'⟩

/-- Exact cuts show that no part of an objective is rounded that names each column once. -/
theorem ExactCuts.representable (cuts : ExactCuts engine hooks clock solver p)
    (accepted : Accepted p solver.name) {e : Expression} {own : WholeSum}
    (h : OwnSum p solver.name e own) (once : (own.terms.map (·.1)).Nodup) :
    own.Representable := by
  obtain ⟨native, hnative⟩ := accepted.exists_cutSum h.objective
  obtain rfl : own = native :=
    Except.ok.inj (h.encoded.symm.trans (cuts.coefficients e native hnative).encoded)
  obtain ⟨l, rfl, -⟩ := accepted.objective e h.objective
  exact representable_of_agrees hnative.encoded once (cuts.values _ _ hnative)

end

/-- `ExactCuts` of an `Accepted` problem hold if the sum of its objective is `Representable`, and
only then, unless a column occurs twice. -/
theorem exactCuts_iff (engine : Engine) (hooks : Hooks PseudoBoolean) (clock : Nat → Float)
    (solver : Solver) (p : Problem) (honest : engine.Honest) (accepted : Accepted p solver.name) :
    ((∀ e own, OwnSum p solver.name e own → own.Representable) →
      ExactCuts engine hooks clock solver p) ∧
    ((∀ e own, OwnSum p solver.name e own → (own.terms.map (·.1)).Nodup) →
      ExactCuts engine hooks clock solver p →
        ∀ e own, OwnSum p solver.name e own → own.Representable) :=
  ⟨exactCuts_of_representable honest accepted,
    fun once cuts e own h => cuts.representable accepted h (once e own h)⟩

def Engine.trying (answers : List (List Bool)) : Engine where
  setOption _ _ := .ok ()
  fits _ := .ok ()
  answer _ q := .ok (match answers.find? fun values => q.model.holds (point values) with
    | some values => ⟨.feasible, values, ""⟩
    | none => ⟨.infeasible, [], ""⟩)

theorem Engine.honest_trying (answers : List (List Bool)) : (trying answers).Honest := by
  intro asked q reply h found
  obtain rfl := Except.ok.inj h
  cases hv : answers.find? fun values => q.model.holds (point values) with
  | none => simp [hv] at found
  | some values =>
      have := List.find?_some hv
      simpa [hv] using this

/-- The cuts of `(2^53 - 1) x + y`, of which doubles hold every part. -/
theorem exactCuts_two_pow :
    let objective : Linear := ⟨[⟨.text "x", .int (2 ^ 53 - 1)⟩, ⟨.text "y", .int 1⟩]⟩
    let p : Problem :=
      { vars := ⟨[(.text "x", ()), (.text "y", ())]⟩
        domains := ⟨[(.text "x", .bool), (.text "y", .bool)]⟩
        lowers := .empty, uppers := .empty
        objective := some (.linear objective), sense := .min, constraints := .ofList [] }
    let engine := Engine.trying [[true, true], [true, false], [false, false], [false, true]]
    engine.Honest ∧ Accepted p (.text "cpsat") ∧
      ExactCuts engine (fun _ _ m => (m, none)) (fun _ => 0) (.fresh .cpsat "cpsat") p := by
  intro objective p engine
  have accepted : Accepted p (.text "cpsat") := by
    refine ⟨by rfl, by rfl, ?_⟩
    rintro _ ⟨⟩
    refine ⟨objective, rfl, ?_⟩
    intro t ht
    rcases List.mem_pair.mp ht with rfl | rfl
    · exact ⟨0, rfl⟩
    · exact ⟨1, rfl⟩
  refine ⟨Engine.honest_trying _, accepted, ?_⟩
  refine (exactCuts_iff engine _ _ (.fresh .cpsat "cpsat") p (Engine.honest_trying _) accepted).1 ?_
  rintro _ own ⟨⟨⟩, hown⟩
  obtain rfl : ⟨[(0, 2 ^ 53 - 1), (1, 1)]⟩ = own := Except.ok.inj hown
  exact WholeSum.representable_of_small (by decide)

end Milp.CpSat
