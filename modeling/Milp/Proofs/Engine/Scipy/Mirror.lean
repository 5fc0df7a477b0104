import Milp.Proofs.Action.Abreast
import Milp.Proofs.Engine.Scipy.Course
import Milp.Proofs.Engine.Session
import Milp.Proofs.Problem.Mirror
import Milp.Proofs.Table

/-!
# Solving in the other sense by SciPy

SciPy makes everything small, so a problem to be made large is turned round for it, and what it
replies is turned back. Whatever it replies, a problem and its mirror image are the same to it, and
end in opposite objective values and opposite duals.
-/

namespace Milp

/-! ## Opposite answers -/

/-- The number that a reported value stands for, if it is one. -/
def Reported.number? : Reported Float → Option Extended
  | .number (.whole n) => some (.finite n)
  | .number (.real x) => some (Numeric.view x)
  | .written v => v.number?

/-- The reported value is a number whose opposite is one of its kind. -/
def Reported.isOpposable : Reported Float → Bool
  | .number _ => true
  | .written v => v.isOpposable

/-- Reported values that are opposite numbers. -/
def Reported.Opposed (r r' : Reported Float) : Prop :=
  ∃ a, r.number? = some a ∧ r'.number? = some (-a)

/-- The objective value of a solution: the one that was reported, or else that of the expression at
the values of its variables. -/
def Solution.objectiveOf (s : Solution Float) (l : Linear) : Except Fault (Reported Float) :=
  match s.objectiveValue with
  | some r => .ok r
  | none => (s.evaluate l).map .number

/-- Solutions with the same values of variables and opposite objective values and duals. -/
structure Solution.Mirrors (l l' : Linear) (s s' : Solution Float) : Prop where
  primal : s'.primal = s.primal
  dual : List.Forall₂ (fun e e' => e.1 = e'.1 ∧ Milp.Opposed e.2 e'.2) s.dual.entries
    s'.dual.entries
  objective : Parallel Reported.Opposed (s.objectiveOf l) (s'.objectiveOf l')

theorem Reported.exists_neg {r : Reported Float} (h : r.isOpposable) :
    ∃ r', r.neg = .ok r' ∧ Reported.Opposed r' r := by
  cases r with
  | number x =>
      cases x with
      | whole n => exact ⟨_, rfl, .finite (-n : Int), rfl, by simp [number?]⟩
      | real x => exact ⟨_, rfl, _, rfl, congrArg some (opposed_neg x).symm⟩
  | written v =>
      obtain ⟨w, a, hw, -, hv, opposite⟩ := Value.negated_of_isOpposable h
      refine ⟨.written w, congrArg (Except.map written) hw, -a, opposite, ?_⟩
      rw [Extended.neg_neg]
      exact hv

theorem Number.Opposed.reported {x y : Number Float} (h : Number.Opposed x y) :
    Reported.Opposed (.number x) (.number y) := by
  cases h with
  | whole n => exact ⟨_, rfl, by simp [Reported.number?]⟩
  | real h => exact ⟨_, rfl, congrArg some h⟩

theorem Solution.mirrors_of {l l' : Linear} (h : l.Opposes l') {s s' : Solution Float}
    (primal : s'.primal = s.primal)
    (dual : List.Forall₂ (fun e e' => e.1 = e'.1 ∧ Milp.Opposed e.2 e'.2) s.dual.entries
      s'.dual.entries)
    (values : Option.Rel Reported.Opposed s.objectiveValue s'.objectiveValue) :
    Solution.Mirrors l l' s s' := by
  refine ⟨primal, dual, ?_⟩
  unfold Solution.objectiveOf
  cases hs : s.objectiveValue <;> cases hs' : s'.objectiveValue <;> rw [hs, hs'] at values <;>
    cases values
  · have same : Parallel Number.Opposed (s.evaluate l) (s'.evaluate l') := by
      unfold Solution.evaluate
      rw [primal]
      exact h.evaluate _ _
    exact same.bind fun _ _ opposed => .ok opposed.reported
  · exact .ok ‹_›

namespace Scipy

open Milp.Action

variable {p p' : Problem} {l l' : Linear} {m m' : Ranged Float}

/-- Calls about ranged or split forms that are the same up to signs of zeros among the costs. -/
inductive Call.Mirrors : Call Float → Call Float → Prop
  | mixed {m m' : Ranged Float} (h : m.Mirrors m') : Call.Mirrors (.mixed m) (.mixed m')
  | linear {m m' : Split Float} (h : m.Mirrors m') : Call.Mirrors (.linear m) (.linear m')

/-- Sessions with the same status, in which SciPy was told the same. -/
structure SessionsMirror (s s' : Session (Call Float)) : Prop where
  status : s'.status = s.status
  tellings : List.Forall₂ Call.Mirrors s.tellings s'.tellings

theorem abreast_setStatus (status : Option Status) :
    Abreast SessionsMirror (fun _ _ => True) (Session.setStatus status)
      (Session.setStatus status) :=
  abreast_update fun _ _ h => ⟨rfl, h.tellings⟩

theorem abreast_freeze (name : Value) (parameters : Table Value) :
    Abreast SessionsMirror Eq (Settings.freeze name parameters)
      (Settings.freeze name parameters) := by
  intro s t states logs
  rw [Session.runOn_freeze, Session.runOn_freeze, logs]
  exact ⟨parallel_refl _, states, rfl⟩

theorem abreast_options (s : Settings) (mixed : Bool) :
    Abreast SessionsMirror Eq (options s mixed) (options s mixed) := by
  unfold options
  exact (abreast_note _ _ _).when fun _ _ => (abreast_note _ _ _).when fun _ _ =>
    (abreast_note _ _ _).when fun _ _ => abreast_pure rfl

theorem abreast_tell {c c' : Call Float} (h : c.Mirrors c') :
    Abreast SessionsMirror (fun _ _ => True) (Session.tell c) (Session.tell c') := by
  refine abreast_update fun s s' states => ⟨states.status, ?_⟩
  rw [Session.tellings_told, Session.tellings_told]
  exact List.rel_append states.tellings (.cons h .nil)

/-! ## Duals -/

theorem parallel_collect {es es' : List (Value × Float)}
    (h : List.Forall₂ (fun e e' => e.1 = e'.1 ∧ Opposed e.2 e'.2) es es') :
    Parallel (fun t t' => List.Forall₂ (fun e e' => e.1 = e'.1 ∧ Opposed e.2 e'.2) t.entries
      t'.entries) (Table.collect es) (Table.collect es') := by
  have keys : (es.forM fun e => e.1.checkKey) = es'.forM fun e => e.1.checkKey := by
    induction h with
    | nil => rfl
    | @cons e e' _ _ head _ ih =>
        change (e.1.checkKey >>= fun _ => _) = e'.1.checkKey >>= fun _ => _
        rw [head.1]
        exact bind_congr fun _ => ih
  unfold Table.collect
  rw [keys]
  exact parallel_of_same fun _ => .ok (Table.forall₂_insertAll .nil h)

theorem opposed_signed (h : m.Mirrors m') (x : Float) : Opposed (signed m x) (signed m' x) := by
  have small : m'.maximize = false := by rw [h.rest]
  unfold signed
  rw [h.large, small]
  exact (opposed_neg _).symm.mul x

theorem parallel_duals (problems : p.Mirrors p' l l') (h : m.Mirrors m') (index : Index)
    (r : Reply Float) :
    Parallel (fun t t' => List.Forall₂ (fun e e' => e.1 = e'.1 ∧ Opposed e.2 e'.2) t.entries
      t'.entries) (duals p index m r) (duals p' index m' r) := by
  have rows (size : Nat) : rowDuals size m' r = rowDuals size m r := by
    rw [h.rest]
    rfl
  unfold duals
  rw [problems.constraints]
  refine parallel_of_same fun constraints => ?_
  rw [rows]
  refine parallel_of_same fun rows => parallel_of_same fun columns => ?_
  have reduced : Parallel (fun t t' => List.Forall₂ (fun e e' => e.1 = e'.1 ∧ Opposed e.2 e'.2)
      t.entries t'.entries)
      (index.values (columns.map (signed m)) fun j =>
        .placeOutOfRange j 0 (columns.map (signed m)).length)
      (index.values (columns.map (signed m')) fun j =>
        .placeOutOfRange j 0 (columns.map (signed m')).length) := by
    unfold Index.values
    refine (parallel_mapM (fun e => ?_) index.entries).bind fun _ _ entries => .ok entries
    rw [List.getElem?_map, List.getElem?_map, List.length_map, List.length_map]
    cases columns[e.2.toNat]? with
    | none => exact .error _
    | some x => exact .ok ⟨rfl, opposed_signed h x⟩
  refine reduced.bind fun t t' tables => parallel_collect (List.rel_append tables ?_)
  rw [List.zip_map_right, List.zip_map_right]
  refine List.forall₂_map_left_iff.mpr (List.forall₂_map_right_iff.mpr ?_)
  exact List.forall₂_same.mpr fun e _ => ⟨rfl, opposed_signed h e.2⟩

/-! ## Solving -/

/-- Answers classified alike, with opposite duals. -/
structure Answer.Mirrors (a a' : Answer Float) : Prop where
  status : a'.status = a.status
  reply : a'.reply = a.reply
  duals : List.Forall₂ (fun e e' => e.1 = e'.1 ∧ Opposed e.2 e'.2) a.duals.entries a'.duals.entries

theorem abreast_ask (problems : p.Mirrors p' l l') (h : m.Mirrors m') (aligned : m.Aligned)
    (index : Index) (reply : Except Fault (Reply Float)) :
    Abreast SessionsMirror (fun a a' => a.Mirrors a' ∧ reply = .ok a.reply)
      (ask (fun _ => reply) p index m) (ask (fun _ => reply) p' index m') := by
  have mixed : m'.isMixed = m.isMixed := by
    rw [h.rest]
    rfl
  have calls : (if m.isMixed then Call.mixed m else .linear m.split).Mirrors
      (if m'.isMixed then Call.mixed m' else .linear m'.split) := by
    rw [mixed]
    split
    · exact .mixed h
    · exact .linear h.split
  have aligned' : m'.Aligned := by
    rw [h.rest]
    exact ⟨aligned.lower, aligned.upper⟩
  unfold ask
  rw [matched_eq_ok aligned, matched_eq_ok aligned']
  refine (abreast_ofExcept (R := fun x y => x = m ∧ y = m') (.ok ⟨rfl, rfl⟩)).bind ?_
  rintro _ _ ⟨rfl, rfl⟩
  refine (abreast_tell calls).bind fun _ _ _ => ?_
  cases reply with
  | error f => exact abreast_throw f
  | ok r =>
      refine (abreast_ofExcept (R := fun x y => x = r ∧ y = r) (.ok ⟨rfl, rfl⟩)).bind ?_
      rintro _ _ ⟨rfl, rfl⟩
      refine (abreast_ofExcept (R := Eq) (parallel_refl _)).bind ?_
      rintro status _ rfl
      rw [mixed]
      split
      · exact abreast_pure ⟨⟨rfl, rfl, .nil⟩, rfl⟩
      · exact (abreast_ofExcept (parallel_duals problems h index _)).bind fun _ _ opposite =>
          abreast_pure ⟨⟨rfl, rfl, opposite⟩, rfl⟩

/-- Bad arrays and failures of an engine are reported alike. -/
theorem abreast_guarded {α β : Type} {R : α → β → Prop} (engine : Value)
    {a : Action (Session (Call Float)) α} {b : Action (Session (Call Float)) β}
    (h : Abreast SessionsMirror R a b) :
    Abreast SessionsMirror R (guarded engine a) (guarded engine b) := by
  refine h.tryCatch fun f => ?_
  cases f.cls with
  | value => exact (abreast_setStatus _).bind fun _ _ _ => abreast_throw _
  | engine => exact (abreast_setStatus _).bind fun _ _ _ => abreast_throw _
  | _ => exact abreast_throw _

/-- What is extracted depends on the objective value only in that. -/
structure SameExtract (x y : Option (Reported Float)) (s s' : Solution Float) : Prop where
  primal : s'.primal = s.primal
  dual : s.dual = .empty
  dual' : s'.dual = .empty
  objectiveValue : s.objectiveValue = x
  objectiveValue' : s'.objectiveValue = y

theorem parallel_extract (d : Declarations) (raw : Value → Except Fault Float)
    (x y : Option (Reported Float)) :
    Parallel (SameExtract x y) (Solution.extract d raw x) (Solution.extract d raw y) :=
  parallel_of_same fun _ => .ok ⟨rfl, rfl, rfl, rfl, rfl⟩

theorem parallel_readSolution (problems : p.Mirrors p' l l') (h : m.Mirrors m') (index : Index)
    {a a' : Answer Float} (answers : a.Mirrors a')
    (number : ∀ x, a.reply.objective = some x → x.isOpposable) :
    Parallel (Solution.Mirrors l l') (readSolution p index m a) (readSolution p' index m' a') := by
  have small : m'.maximize = false := by rw [h.rest]
  have objective : Parallel (Option.Rel Reported.Opposed)
      (a.reply.objective.mapM fun x => if m.maximize then x.neg else pure x)
      (a'.reply.objective.mapM fun x => if m'.maximize then x.neg else pure x) := by
    rw [answers.reply, h.large, small]
    cases given : a.reply.objective with
    | none => exact .ok .none
    | some x =>
        obtain ⟨y, hy, opposed⟩ := Reported.exists_neg (number x given)
        change Parallel _ (x.neg >>= fun z => .ok (some z)) (.ok (some x))
        rw [hy]
        exact .ok (.some opposed)
  have goal : p.objective.isSome = true ∧ p'.objective.isSome = true := by
    rw [problems.large, problems.small]
    exact ⟨rfl, rfl⟩
  unfold readSolution
  rw [goal.1, goal.2, problems.declarations]
  refine objective.bind fun x y opposed => ?_
  rw [answers.reply]
  cases a.reply.values with
  | none => exact .error _
  | some xs =>
      refine parallel_of_same fun values =>
        (parallel_extract _ _ x y).bind fun s s' solutions => .ok ?_
      obtain ⟨primal, dual, dual', rfl, rfl⟩ := solutions
      refine Solution.mirrors_of problems.opposes primal
        (Table.forall₂_insertAll ?_ answers.duals) opposed
      rw [dual, dual']
      exact .nil

theorem abreast_solveEmpty (problems : p.Mirrors p' l l') :
    Abreast SessionsMirror (Option.Rel (Solution.Mirrors l l')) (solveEmpty p) (solveEmpty p') := by
  unfold solveEmpty Problem.statusWithoutVariables
  rw [problems.constraints, problems.declarations]
  refine (abreast_ofExcept (R := Eq) (parallel_refl _)).bind ?_
  rintro status _ rfl
  refine (abreast_setStatus _).bind fun _ _ _ => (abreast_note _ _ _).bind fun _ _ _ => ?_
  split
  · exact abreast_pure .none
  · refine (abreast_ofExcept (parallel_extract _ _ none none)).bind fun s s' solutions => ?_
    obtain ⟨primal, dual, dual', reported, reported'⟩ := solutions
    refine abreast_pure (.some (Solution.mirrors_of problems.opposes primal ?_ ?_))
    · rw [dual, dual']
      exact .nil
    · rw [reported, reported']
      exact .none

/-- `Scipy.solve` of a problem to be made large and of its mirror image (`Problem.Mirrors`) run
abreast. -/
theorem abreast_solve (problems : p.Mirrors p' l l') {solver : Solver} (plain : solver.hooks = [])
    {reply : Except Fault (Reply Float)}
    (number : ∀ r x, reply = .ok r → r.objective = some x → x.isOpposable)
    (hooks : Hooks (Ranged Float)) :
    Abreast SessionsMirror (Option.Rel (Solution.Mirrors l l'))
      (solve (fun _ => reply) hooks solver p) (solve (fun _ => reply) hooks solver p') := by
  have index : p'.index = p.index := by
    rw [problems.declarations]
  unfold solve
  refine (abreast_freeze _ _).bind ?_
  rintro settings _ rfl
  refine (abreast_setStatus _).bind fun _ _ _ => ?_
  rw [index]
  refine (abreast_ofExcept (problems.ranged p.index).attach).bind fun m m' ⟨models, made⟩ => ?_
  have mixed : m'.isMixed = m.isMixed := by
    rw [models.rest]
    rfl
  rw [mixed, plain]
  refine (abreast_options settings m.isMixed).bind ?_
  rintro opts _ rfl
  have told : Ranged.Mirrors { m with options := opts } { m' with options := opts } :=
    ⟨models.cost, models.large, by rw [models.rest]⟩
  simp only [Session.runHooks, pure_bind]
  split
  · exact abreast_solveEmpty problems
  · refine (abreast_guarded solver.name (abreast_ask problems told
      ((aligned_of_ranged made).withOptions opts) p.index reply)).bind ?_
    rintro a a' ⟨answers, replied⟩
    rw [answers.status]
    refine (abreast_setStatus _).bind fun _ _ _ => (abreast_note _ _ _).bind fun _ _ _ => ?_
    split
    · exact abreast_pure .none
    · refine (abreast_ofExcept (parallel_readSolution problems told p.index answers ?_)).bind
        fun _ _ solutions => abreast_pure (.some solutions)
      exact fun x given => number a.reply x replied given

/-- `Scipy.solve` does the same for an expression to be made large and for its opposite to be made
small. For each reply whose number for the objective can be turned round or is absent, both solves
end alike: with the same status, and with solutions that are `Solution.Mirrors` of each other. -/
theorem solve_mirrors (problems : p.Mirrors p' l l') {solver : Solver} (plain : solver.hooks = [])
    {reply : Except Fault (Reply Float)}
    (number : ∀ r x, reply = .ok r → r.objective = some x → x.isOpposable)
    (hooks : Hooks (Ranged Float)) :
    let run := (solve (fun _ => reply) hooks solver p).perform (.start solver)
    let run' := (solve (fun _ => reply) hooks solver p').perform (.start solver)
    Parallel (Option.Rel (Solution.Mirrors l l')) run.1 run'.1 ∧
      run'.2.state.status = run.2.state.status ∧
        List.Forall₂ Call.Mirrors run.2.state.tellings run'.2.state.tellings := by
  intro run run'
  obtain ⟨results, states, -⟩ := abreast_solve problems plain number hooks
    ⟨.start solver, []⟩ ⟨.start solver, []⟩ ⟨rfl, .nil⟩ rfl
  exact ⟨results, states.status, states.tellings⟩

/-- A problem in one variable, with one row that bounds it. -/
def bounded (coefficient : Int) (sense : Sense) : Problem :=
  { vars := ⟨[(.text "x", ())]⟩, domains := .empty, lowers := .empty, uppers := .empty
    objective := some (.linear ⟨[⟨.text "x", .int coefficient⟩]⟩), sense := sense
    constraints := .ofList [⟨.linear ⟨[⟨.text "x", .int 1⟩]⟩, .symbol (.relation .le), .int 4,
      .text "cap"⟩] }

theorem mirrors_bounded (n : Int) : (bounded n .max).Mirrors (bounded (-n) .min)
    ⟨[⟨.text "x", .int n⟩]⟩ ⟨[⟨.text "x", .int (-n)⟩]⟩ :=
  ⟨rfl, rfl, rfl, rfl, rfl, rfl, .cons ⟨rfl, rfl, opposed_ofInt n⟩ .nil⟩

/-- What SciPy replies about the bounded problem, whose least value it gives in some form. -/
def boundedReply (least : Reported Float) : Reply Float :=
  { code := .int 0, values := some [4.0], objective := some least, upperMarginals := some [-3.0]
    equationMarginals := none, lowerBoundMarginals := none, upperBoundMarginals := none }

set_option maxRecDepth 8000 in
theorem solve_mirrors_bounded :
    let solver := Solver.fresh .scipy "scipy"
    let reply := boundedReply (.number (.real (-12.0)))
    let run := (solve (fun _ => .ok reply) (fun _ _ m => (m, none)) solver
      (bounded 3 .max)).perform (.start solver)
    let run' := (solve (fun _ => .ok reply) (fun _ _ m => (m, none)) solver
      (bounded (-3) .min)).perform (.start solver)
    ∃ s s', run.1 = .ok (some s) ∧ run'.1 = .ok (some s') ∧
      Solution.Mirrors ⟨[⟨.text "x", .int 3⟩]⟩ ⟨[⟨.text "x", .int (-3)⟩]⟩ s s' := by
  intro solver reply run run'
  have plain : solver.hooks = [] := rfl
  have number (r : Reply Float) (x : Reported Float)
      (replied : (.ok reply : Except Fault _) = .ok r) (given : r.objective = some x) :
      x.isOpposable := by
    obtain rfl := Except.ok.inj replied
    obtain rfl := Option.some.inj given
    rfl
  obtain ⟨results, -, -⟩ := solve_mirrors (mirrors_bounded 3) plain number fun _ _ m => (m, none)
  have solved : ∃ s, run.1 = .ok (some s) := ⟨_, by with_unfolding_all rfl⟩
  obtain ⟨s, hs⟩ := solved
  change Parallel _ run.1 run'.1 at results
  rw [hs] at results
  rcases hs' : run'.1 with f | _ | s' <;> rw [hs'] at results
  · cases results
  · cases results with
    | ok related => cases related
  · cases results with
    | ok related =>
        cases related with
        | some mirrors => exact ⟨s, s', hs, rfl, mirrors⟩

set_option maxRecDepth 8000 in
/-- A whole number of fixed size that cannot be negative is not turned round. -/
theorem not_opposed_of_unsigned :
    let solver := Solver.fresh .scipy "scipy"
    let reply := boundedReply (.written (.scalar (.integer .uint8 3)))
    let run := (solve (fun _ => .ok reply) (fun _ _ m => (m, none)) solver
      (bounded 3 .max)).perform (.start solver)
    let run' := (solve (fun _ => .ok reply) (fun _ _ m => (m, none)) solver
      (bounded (-3) .min)).perform (.start solver)
    (bounded 3 .max).Mirrors (bounded (-3) .min) ⟨[⟨.text "x", .int 3⟩]⟩
        ⟨[⟨.text "x", .int (-3)⟩]⟩ ∧
      ∃ s s', run.1 = .ok (some s) ∧ run'.1 = .ok (some s') ∧
        ¬ Parallel Reported.Opposed (s.objectiveOf ⟨[⟨.text "x", .int 3⟩]⟩)
          (s'.objectiveOf ⟨[⟨.text "x", .int (-3)⟩]⟩) := by
  intro solver reply run run'
  have solved : ∃ s, run.1 = .ok (some s) ∧
      s.objectiveValue = some (.written (.scalar (.integer .uint8 253))) :=
    ⟨_, by with_unfolding_all rfl, by with_unfolding_all rfl⟩
  have solved' : ∃ s, run'.1 = .ok (some s) ∧
      s.objectiveValue = some (.written (.scalar (.integer .uint8 3))) :=
    ⟨_, by with_unfolding_all rfl, by with_unfolding_all rfl⟩
  obtain ⟨s, hs, value⟩ := solved
  obtain ⟨s', hs', value'⟩ := solved'
  refine ⟨mirrors_bounded 3, s, s', hs, hs', ?_⟩
  unfold Solution.objectiveOf
  rw [value, value']
  rintro ⟨a, ha, opposite⟩
  obtain rfl := Option.some.inj ha
  have three : (3 : Rat) = -253 := Extended.finite.inj (Option.some.inj opposite)
  norm_num at three

end Scipy

end Milp
