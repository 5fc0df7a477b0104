import Milp.Proofs.Engine.CpSat.Validation
import Milp.Proofs.Store.Independence
import Milp.Proofs.Store.Retaining

/-!
# Refused problems

`CpSat.solve` checks its problem before anything else happens: `checkBoolean` goes through the
variables and `checkWhole` through the numbers. What the checks word on the way (`Place.message` for
each constraint, `Fault.composed` for what is refused) is written at once, and a name that cannot be
written breaks the check off; otherwise the checks end as those of `Problem` do.
-/

namespace Milp

namespace Store

open Milp.Action Milp.CpSat

section

variable {s : Store} {id : Nat} {engine : Value} {c : Constraint} {p : Phrase} {t t' : Logged Store}

/-! ## What is written at once -/

/-- The text that `writePart` gives, where that does not depend on what objects hold. -/
def fixedText? : Phrase.Part → Option String
  | .text text => some text
  | .literal v => v.literal?
  | .plain v => v.plain? <|> v.literal?
  | .within v => v.within? <|> v.literal?

theorem runOn_writePart_fixed {part : Phrase.Part} {text : String}
    (fixed : fixedText? part = some text) (t : Logged Store) :
    (writePart depthLimit [] part).runOn t = (.ok text, t) := by
  change (writePart (999 + 1) [] part).runOn t = _
  unfold writePart
  cases part with
  | text => cases fixed; rfl
  | literal v | plain v | within v =>
      dsimp only [fixedText?] at fixed
      simp only [fixed]
      rfl

/-- A phrase that is written without a look at the objects. -/
def Fixed (p : Phrase) : Prop :=
  ∀ part ∈ p.parts, ∃ text, fixedText? part = some text

theorem fixed_part {part : Phrase.Part} {text : String} (h : fixedText? part = some text) :
    Fixed ⟨[part]⟩ :=
  fun _ mem => ⟨text, List.mem_singleton.mp mem ▸ h⟩

theorem Fixed.append {p q : Phrase} (hp : Fixed p) (hq : Fixed q) : Fixed (p ++ q) :=
  List.forall_mem_append.mpr ⟨hp, hq⟩

theorem exists_runOn_write (fixed : Fixed p) (t : Logged Store) :
    ∃ text, (write p).runOn t = (.ok text, t) := by
  obtain ⟨parts⟩ := p
  have fold (before : String) : ∃ text, (parts.foldlM (fun text part => do
      return text ++ (← writePart depthLimit [] part)) before : Action Store String).runOn t =
        (.ok text, t) := by
    induction parts generalizing before with
    | nil => exact ⟨before, rfl⟩
    | cons part parts ih =>
        obtain ⟨⟨text, known⟩, rest⟩ := List.forall_mem_cons.mp fixed
        obtain ⟨all, course⟩ := ih rest (before ++ text)
        refine ⟨all, ?_⟩
        rw [List.foldlM_cons, runOn_bind, runOn_bind, runOn_writePart_fixed known]
        exact course
  exact fold ""

/-- What `checkWholeConstraint` writes, where it comes to its end: the place of the coefficients, if
there are some, and that of the right-hand side. -/
def writePlaces (c : Constraint) : Action Store Unit := do
  if !c.lhs.terms.items.isEmpty then
    let _ ← write (Place.coefficient c.name).message
  let _ ← write (Place.rhs c.name).message

/-! ## The check of variables -/

theorem checkCall_of_sound (sound : s.Sound id) (call : String) :
    s.checkCall (.object ⟨.problem, id⟩) call = .ok () := by
  simp [checkCall, refusal?, extra?, sound.extras]

theorem domainBy_of_sound (sound : s.Sound id) {v : Value} (key : v.checkKey = .ok ()) :
    s.domainBy (.object ⟨.problem, id⟩) v = .ok ((s.viewProblem id).domainOf v) := by
  rw [domainBy, checkCall_of_sound sound, key]
  rfl

theorem runOn_checkBoolean (sound : s.Sound id) (engine : Value) (log : List Message) :
    (checkBoolean (.object ⟨.problem, id⟩) engine).runOn ⟨s, log⟩ =
      ((s.viewProblem id).checkBoolean engine, ⟨s, log⟩) := by
  have course (check : Value → Except Fault Unit) :
      (Action.ofExcept ((s.problem id).variableList.forM check) >>= fun _ =>
        Action.ofExcept (.ok ()) : Action Store Unit).runOn ⟨s, log⟩ =
      ((s.problem id).variableList.forM check, ⟨s, log⟩) := by
    rw [runOn_bind, runOn_ofExcept]
    cases (s.problem id).variableList.forM check <;> rfl
  refine (course _).trans (congrArg (·, _) (forM_congr_of_mem fun v hv => ?_))
  rw [domainBy_of_sound sound (sound.distinct.hashable v hv)]
  cases (s.viewProblem id).domainOf v <;> rfl

/-! ## The check of numbers -/

/-- What `checkWholeConstraint` does after it has written the first place. -/
def checkNumbers (engine : Value) (c : Constraint) : Action Store Unit := do
  .ofExcept (Problem.checkWholeTerms Float engine (.coefficient c.name) c.lhs)
  let _ ← write (Place.rhs c.name).message
  let _ ← Action.ofExcept (c.rhs.toWhole Float engine (.rhs c.name))

theorem runOn_checkNumbers {text : String}
    (written : (write (Place.rhs c.name).message).runOn t = (.ok text, t')) :
    ((checkNumbers engine c).runOn t).1 = Problem.checkWholeConstraint Float engine c ∧
      (Problem.checkWholeConstraint Float engine c = .ok () →
        (checkNumbers engine c).runOn t = (.ok (), t')) := by
  unfold checkNumbers Problem.checkWholeConstraint
  rw [runOn_bind, runOn_ofExcept]
  cases Problem.checkWholeTerms Float engine (.coefficient c.name) c.lhs with
  | error f => exact ⟨rfl, nofun⟩
  | ok u =>
      dsimp only
      rw [runOn_bind, written]
      dsimp only
      rw [runOn_bind, runOn_ofExcept]
      cases c.rhs.toWhole Float engine (.rhs c.name) with
      | error f => exact ⟨rfl, nofun⟩
      | ok n => exact ⟨rfl, fun _ => rfl⟩

/-- `checkWholeConstraint` goes through `Constraint.numbers` where `writePlaces` gives a result. -/
theorem runOn_checkWholeConstraint (engine : Value) {l : Linear} (linear : c.lhs = .linear l)
    (written : (writePlaces c).runOn t = (.ok (), t')) :
    ((checkWholeConstraint engine c).runOn t).1 = c.numbers.forM (checkNumber engine) ∧
      (c.numbers.forM (checkNumber engine) = .ok () →
        (checkWholeConstraint engine c).runOn t = (.ok (), t')) := by
  have course : checkWholeConstraint engine c =
      if !c.lhs.terms.items.isEmpty then do
        let _ ← write (Place.coefficient c.name).message
        checkNumbers engine c
      else checkNumbers engine c := by
    unfold checkWholeConstraint checkWholeTerms checkNumbers
    split
    · simp only [bind_assoc]
    · rfl
  rw [← checkWholeConstraint_linear linear, course]
  unfold writePlaces at written
  split at written
  · rename_i terms
    obtain ⟨text, t₁, first, rest⟩ := runOn_bind_eq_ok.mp written
    obtain ⟨text', t₂, second, ended⟩ := runOn_bind_eq_ok.mp rest
    cases ended
    rw [if_pos terms, runOn_bind, first]
    exact runOn_checkNumbers second
  · rename_i none
    obtain ⟨text, t₂, second, ended⟩ := runOn_bind_eq_ok.mp written
    cases ended
    rw [if_neg none]
    exact runOn_checkNumbers second

theorem not_readsFraction_of_forM {xs : List (Value × Place)}
    (passed : xs.forM (checkNumber engine) = .ok ()) : ∀ e ∈ xs, ¬ e.1.ReadsFraction := by
  intro e he
  have whole := forM_eq_ok.mp passed e he
  unfold checkNumber at whole
  cases read : e.1.toWhole Float engine e.2 with
  | error f => rw [read] at whole; cases whole
  | ok n => exact (Value.reads_of_toWhole read).2

/-- `checkWholeConstraint` one after the other goes through all numbers, where `writePlaces` gives a
result for each constraint that it comes to. -/
theorem fst_runOn_checkWholeConstraints (engine : Value) {cs : List Constraint}
    (linear : ∀ c ∈ cs, ∃ l : Linear, c.lhs = .linear l)
    (written : ∀ before c after, cs = before ++ c :: after →
      (∀ e ∈ before.flatMap Constraint.numbers, ¬ e.1.ReadsFraction) →
        (((before ++ [c]).forM writePlaces).runOn t).1 = .ok ()) :
    ((cs.forM (checkWholeConstraint engine)).runOn t).1 =
      (cs.flatMap Constraint.numbers).forM (checkNumber engine) := by
  induction cs generalizing t with
  | nil => rfl
  | cons c cs ih =>
      obtain ⟨⟨l, hl⟩, tail⟩ := List.forall_mem_cons.mp linear
      obtain ⟨_, t₁, first, -⟩ :=
        runOn_bind_eq_ok.mp (Prod.ext (written [] c cs rfl (by simp)) rfl)
      obtain ⟨same, whole⟩ := runOn_checkWholeConstraint engine hl first
      rw [List.flatMap_cons, forM_append]
      change ((checkWholeConstraint engine c >>= fun _ =>
        cs.forM (checkWholeConstraint engine)).runOn t).1 = _
      cases checked : c.numbers.forM (checkNumber engine) with
      | error f =>
          rw [checked] at same
          rw [runOn_bind]
          rcases ran : (checkWholeConstraint engine c).runOn t with ⟨g | u, t₂⟩ <;> rw [ran] at same
          · exact same
          · cases same
      | ok u =>
          rw [runOn_bind, whole checked]
          refine ih tail fun before d after split earlier => ?_
          have later := written (c :: before) d after (by rw [split]; rfl) (by
            rw [List.flatMap_cons]
            exact List.forall_mem_append.mpr ⟨not_readsFraction_of_forM checked, earlier⟩)
          change ((writePlaces c >>= fun _ =>
            (before ++ [d]).forM writePlaces).runOn t).1 = _ at later
          rwa [runOn_bind, first] at later

theorem runOn_checkObjective (objective : Option Value) (t : Logged Store) :
    (objective.forM fun o => checkWholeTerms engine .objective (s.viewExpression o) :
      Action Store Unit).runOn t =
      (Problem.checkWholeObjective Float engine (objective.map s.viewExpression), t) := by
  cases objective with
  | none => rfl
  | some o =>
      change (checkWholeTerms engine .objective (s.viewExpression o)).runOn t = _
      unfold checkWholeTerms
      split
      · rw [runOn_bind, show (write Place.objective.message).runOn t = (.ok _, t) from rfl]
        rfl
      · rfl

theorem runOn_member_objective (t : Logged Store) :
    (member (.object ⟨.problem, id⟩) "objective").runOn t =
      (.ok (t.state.problem id).objective, t) := rfl

theorem runOn_member_constraints (t : Logged Store) :
    (member (.object ⟨.problem, id⟩) "constraints").runOn t =
      (.ok (t.state.problem id).constraints, t) := rfl

/-- `checkWhole` takes two turns over a sound problem: the numbers of its objective, and then its
constraints one after the other. -/
theorem runOn_checkWhole (sound : s.Sound id) (engine : Value) (log : List Message) :
    (checkWhole (.object ⟨.problem, id⟩) engine).runOn ⟨s, log⟩ = (do
      Action.ofExcept (Problem.checkWholeObjective Float engine (s.viewProblem id).objective)
      (s.viewProblem id).constraints.items.forM (checkWholeConstraint engine) :
        Action Store Unit).runOn ⟨s, log⟩ := by
  have finish : (s.viewProblem id).constraints.finish "lhs" = .ok () := by
    simp [Series.finish, sound.wellFormed.complete]
  have objective : (s.problem id).objective.toOption.map s.viewExpression =
      (s.viewProblem id).objective := rfl
  have rows : s.viewConstraints (s.problem id).constraints = (s.viewProblem id).constraints := rfl
  unfold checkWhole
  rw [runOn_bind, runOn_member_objective]
  dsimp only
  rw [runOn_bind, runOn_read]
  dsimp only
  rw [runOn_bind, runOn_checkObjective, objective, runOn_bind, runOn_ofExcept]
  cases Problem.checkWholeObjective Float engine (s.viewProblem id).objective with
  | error f => rfl
  | ok u =>
      dsimp only
      rw [runOn_bind, runOn_member_constraints]
      dsimp only
      rw [runOn_bind, runOn_read]
      dsimp only
      rw [rows, finish, runOn_bind]
      rcases ((s.viewProblem id).constraints.items.forM
        (checkWholeConstraint engine)).runOn ⟨s, log⟩ with ⟨f | u, t⟩ <;> rfl

/-- `checkWhole` writes names, and changes nothing that a problem is made of. -/
theorem sameParts_checkWhole (sound : s.Sound id) (engine : Value) (log : List Message) :
    SameParts s ((checkWhole (.object ⟨.problem, id⟩) engine).runOn ⟨s, log⟩).2.state := by
  have terms (place : Place) (e : Expression) :
      Keeps SameParts (checkWholeTerms engine place e) := by
    unfold checkWholeTerms
    split
    · exact (keeps_writing _).bind fun _ => keeps_ofExcept _
    · exact keeps_ofExcept _
  have row (c : Constraint) : Keeps SameParts (checkWholeConstraint engine c) :=
    (terms _ _).bind fun _ => (keeps_writing _).bind fun _ => (keeps_ofExcept _).bind fun _ =>
      keeps_pure _
  rw [runOn_checkWhole sound]
  have both : Keeps SameParts (do
      Action.ofExcept (Problem.checkWholeObjective Float engine (s.viewProblem id).objective)
      (s.viewProblem id).constraints.items.forM (checkWholeConstraint engine)) :=
    (keeps_ofExcept _).bind fun _ => keeps_forM row _
  exact both ⟨s, log⟩

/-- The entries of `Problem.numbers` that come before those of a constraint. -/
def numbersBefore (p : Problem) (before : List Constraint) : List (Value × Place) :=
  (p.objective.elim [] fun e => e.numbers .objective) ++ before.flatMap Constraint.numbers

/-- `writePlaces` gives a result for each constraint that the check comes to. -/
def PlacesWritable (s : Store) (id : Nat) : Prop :=
  ∀ before c after, (s.viewProblem id).constraints.items = before ++ c :: after →
    (∀ e ∈ numbersBefore (s.viewProblem id) before, ¬ e.1.ReadsFraction) →
      (((before ++ [c]).forM writePlaces).perform s).1 = .ok ()

theorem checkWholeObjective_eq {p : Problem} (h : p.WellFormed) :
    Problem.checkWholeObjective Float engine p.objective =
      (p.objective.elim [] fun e => e.numbers .objective).forM (checkNumber engine) := by
  unfold Problem.checkWholeObjective
  cases ho : p.objective with
  | none => rfl
  | some e =>
      obtain ⟨l, rfl, -⟩ := h.objective e ho
      exact checkWholeTerms_linear l .objective

/-- `checkWhole` on a problem in the store ends as `Problem.checkWhole` does, where
`PlacesWritable`. -/
theorem fst_perform_checkWhole (sound : s.Sound id) (written : PlacesWritable s id)
    (engine : Value) :
    ((checkWhole (.object ⟨.problem, id⟩) engine).perform s).1 =
      (s.viewProblem id).checkWhole Float engine := by
  have formed := sound.wellFormed
  rw [perform, runOn_checkWhole sound, runOn_bind, runOn_ofExcept, Problem.checkWhole]
  cases checked : Problem.checkWholeObjective Float engine (s.viewProblem id).objective with
  | error f => rfl
  | ok u =>
      have objective := not_readsFraction_of_forM (checkWholeObjective_eq formed ▸ checked)
      have rows := fst_runOn_checkWholeConstraints engine
        (fun c hc => (formed.constraints c hc).imp fun _ => And.left)
        fun before c after split earlier => written before c after split
          (List.forall_mem_append.mpr ⟨objective, earlier⟩)
      rw [← checkWholeConstraints_eq formed] at rows
      exact rows

/-! ## Faults that are worded -/

/-- `raising` passes on a fault whose `Fault.composed` can be written. -/
theorem exists_raising {f : Fault} {a : Action Store Unit} {text : String}
    (broken : a.runOn t = (.error f, t')) (written : ((write f.composed).runOn t').1 = .ok text) :
    ∃ t'', (raising a).runOn t = (.error f, t'') := by
  rw [runOn_raising, broken]
  dsimp only
  unfold raise
  rw [runOn_bind]
  rcases ran : (write f.composed).runOn t' with ⟨g | x, t''⟩ <;> rw [ran] at written
  · cases written
  · exact ⟨t'', rfl⟩

theorem exists_literal? {v : Value} (h : v.ReadsDouble) : ∃ text, v.literal? = some text := by
  obtain ⟨x, -, hx, -⟩ := h
  cases v with
  | undefined form id => cases form <;> exact ⟨_, rfl⟩
  | tuple | term | object | config => cases hx
  | _ => exact ⟨_, rfl⟩

/-- A number that is refused can be written in every place of a problem. -/
theorem exists_write_notWhole {v : Value} {place : Place} (reads : v.ReadsDouble)
    (quiet : place.composed = "") (name : String) (t : Logged Store) :
    ∃ text, (write (Fault.notWhole v (.text name) place).composed).runOn t = (.ok text, t) := by
  obtain ⟨text, literal⟩ := exists_literal? reads
  refine exists_runOn_write ?_ t
  rw [Fault.composed, quiet]
  exact ((fixed_part rfl).append (fixed_part rfl)).append (fixed_part literal)

/-! ## Before a solve -/

/-- `checkProblem` lets a sound problem pass. -/
theorem runOn_checkProblem (sound : t.state.Sound id) (b : Backend) :
    (checkProblem b (.object ⟨.problem, id⟩)).runOn t = (.ok (), t) := by
  have vars : (variablesOf (.object ⟨.problem, id⟩)).runOn t =
      (.ok (.ofList (t.state.problem id).variableList), t) := rfl
  have keys : Table.collect ((t.state.problem id).variableList.map fun v => (v, ())) = .ok _ :=
    Table.collect_eq_ok (by simpa using sound.distinct.hashable)
  have calls : (variableCalls b).forM (t.state.checkCall (.object ⟨.problem, id⟩)) = .ok () :=
    forM_eq_ok.mpr fun call _ => checkCall_of_sound sound call
  unfold checkProblem
  rw [runOn_bind, vars]
  dsimp only [Series.ofList]
  rw [runOn_bind, runOn_ofExcept, keys]
  dsimp only
  rw [runOn_bind]
  change (Action.read >>= fun _ => _ : Action Store Unit).runOn t = _
  rw [runOn_bind, runOn_read]
  dsimp only
  rw [calls]
  split <;> rfl

/-- What CP-SAT words before it refuses a problem can be written: the refusal of the first variable
that is not boolean and, where there is none, the places of the constraints. -/
structure WordingWritable (s : Store) (id : Nat) (engine : Value) : Prop where
  named : ∃ name, engine = .text name
  refusal : ∀ v, First (fun v => (s.viewProblem id).domainOf v ≠ .bool)
    (s.viewProblem id).variableList v →
      ∃ text, ((write (Fault.notBoolean v ((s.viewProblem id).domainOf v) engine).composed).perform
        s).1 = .ok text
  places : (∀ v ∈ (s.viewProblem id).variableList, (s.viewProblem id).domainOf v = .bool) →
    PlacesWritable s id

theorem runOn_writePlaces {text : String} (named : c.name = .text text) (t : Logged Store) :
    (writePlaces c).runOn t = (.ok (), t) := by
  have quoted : Fixed (Phrase.literal c.name) := by
    rw [named]
    exact fixed_part rfl
  have places : Fixed (Place.coefficient c.name).message ∧ Fixed (Place.rhs c.name).message :=
    ⟨(fixed_part rfl).append quoted, (fixed_part rfl).append quoted⟩
  obtain ⟨_, coefficient⟩ := exists_runOn_write places.1 t
  obtain ⟨_, side⟩ := exists_runOn_write places.2 t
  unfold writePlaces
  split <;> simp only [runOn_bind, coefficient, side] <;> rfl

theorem runOn_forM_writePlaces {cs : List Constraint}
    (named : ∀ c ∈ cs, ∃ text, c.name = .text text) (t : Logged Store) :
    (cs.forM writePlaces).runOn t = (.ok (), t) := by
  induction cs with
  | nil => rfl
  | cons c cs ih =>
      obtain ⟨⟨text, first⟩, rest⟩ := List.forall_mem_cons.mp named
      change (writePlaces c >>= fun _ => cs.forM writePlaces).runOn t = _
      rw [runOn_bind, runOn_writePlaces first]
      exact ih rest

/-- Names that are texts can be written. -/
theorem wordingWritable_of_texts {name : String}
    (vars : ∀ v ∈ (s.viewProblem id).variableList, ∃ text, v = .text text)
    (rows : ∀ c ∈ (s.viewProblem id).constraints.items, ∃ text, c.name = .text text) :
    s.WordingWritable id (.text name) := by
  refine ⟨⟨name, rfl⟩, ?_, fun _ before c after split _ => ?_⟩
  · rintro v ⟨before, after, split, -⟩
    obtain ⟨text, rfl⟩ := vars v (by simp [split])
    have fixed : Fixed (Fault.notBoolean (.text text) ((s.viewProblem id).domainOf (.text text))
        (.text name)).composed :=
      (((((fixed_part rfl).append (fixed_part rfl)).append (fixed_part rfl)).append
        (fixed_part rfl)).append (fixed_part rfl)).append ((fixed_part rfl).append (fixed_part rfl))
    obtain ⟨shown, written⟩ := exists_runOn_write fixed ⟨s, []⟩
    exact ⟨shown, congrArg Prod.fst written⟩
  · have reached : ∀ d ∈ before ++ [c], ∃ text, d.name = .text text := by
      intro d hd
      refine rows d ?_
      rw [split, List.append_cons]
      exact List.mem_append_left after hd
    exact congrArg Prod.fst (runOn_forM_writePlaces reached ⟨s, []⟩)

variable {i : Nat}

theorem prepare_cpsat (plain : Unextended .cpsat i s) (problem : Value) :
    prepare ⟨.solver .cpsat, i⟩ (s.viewSolver i) problem = (do
      raising (checkBoolean problem (s.viewSolver i).name)
      raising (checkWhole problem (s.viewSolver i).name)
      checkSettings ⟨.solver .cpsat, i⟩) := by
  have own : (s.viewSolver i).backend = .cpsat := plain.backend
  rw [prepare_eq, if_pos own]

theorem prepare_of_variable (sound : s.Sound id) (plain : Unextended .cpsat i s)
    (worded : s.WordingWritable id (s.viewSolver i).name) {v : Value}
    (first : First (fun v => (s.viewProblem id).domainOf v ≠ .bool)
      (s.viewProblem id).variableList v) :
    ∃ t, (prepare ⟨.solver .cpsat, i⟩ (s.viewSolver i) (.object ⟨.problem, id⟩)).perform s =
      (.error (.notBoolean v ((s.viewProblem id).domainOf v) (s.viewSolver i).name), t) := by
  obtain ⟨text, written⟩ := worded.refusal v first
  have broken := runOn_checkBoolean sound (s.viewSolver i).name []
  rw [checkBoolean_of_first first] at broken
  obtain ⟨t, raised⟩ := exists_raising broken written
  rw [prepare_cpsat plain, perform, runOn_bind, raised]
  exact ⟨t, rfl⟩

theorem perform_prepare (sound : s.Sound id) (plain : Unextended .cpsat i s)
    (boolean : ∀ v ∈ (s.viewProblem id).variableList, (s.viewProblem id).domainOf v = .bool) :
    (prepare ⟨.solver .cpsat, i⟩ (s.viewSolver i) (.object ⟨.problem, id⟩)).perform s = (do
      raising (checkWhole (.object ⟨.problem, id⟩) (s.viewSolver i).name)
      checkSettings ⟨.solver .cpsat, i⟩).perform s := by
  have passed := runOn_checkBoolean sound (s.viewSolver i).name []
  rw [checkBoolean_of_all boolean] at passed
  rw [prepare_cpsat plain, perform, runOn_bind, runOn_raising, passed]
  rfl

theorem composed_of_mem_numbers {p : Problem} {e : Value × Place} (he : e ∈ p.numbers) :
    e.2.composed = "" := by
  have inTerms {place : Place} {x : Expression} (h : e ∈ x.numbers place) : e.2 = place := by
    obtain ⟨-, -, rfl⟩ := List.mem_map.mp h
    rfl
  rcases List.mem_append.mp he with objective | constraint
  · cases ho : p.objective with
    | none =>
        rw [ho] at objective
        cases objective
    | some x =>
        rw [ho] at objective
        rw [inTerms objective]
        rfl
  · obtain ⟨c, -, hc⟩ := List.mem_flatMap.mp constraint
    rcases List.mem_append.mp hc with terms | side
    · rw [inTerms terms]
      rfl
    · rw [List.mem_singleton.mp side]
      rfl

theorem prepare_of_number (sound : s.Sound id) (plain : Unextended .cpsat i s)
    (worded : s.WordingWritable id (s.viewSolver i).name)
    (reads : ∀ e ∈ (s.viewProblem id).numbers, e.1.ReadsDouble)
    (boolean : ∀ v ∈ (s.viewProblem id).variableList, (s.viewProblem id).domainOf v = .bool)
    {e : Value × Place}
    (first : First (fun e => e.1.ReadsFraction) (s.viewProblem id).numbers e) :
    ∃ t, (prepare ⟨.solver .cpsat, i⟩ (s.viewSolver i) (.object ⟨.problem, id⟩)).perform s =
      (.error (.notWhole e.1 (s.viewSolver i).name e.2), t) := by
  have mem : e ∈ (s.viewProblem id).numbers := by
    obtain ⟨before, after, he, -⟩ := first
    simp [he]
  obtain ⟨name, named⟩ := worded.named
  have checked := fst_perform_checkWhole sound (worded.places boolean) (s.viewSolver i).name
  rw [checkWhole_of_first sound.wellFormed reads first] at checked
  obtain ⟨text, written⟩ := exists_write_notWhole (reads e mem) (composed_of_mem_numbers mem) name
    ((checkWhole (.object ⟨.problem, id⟩) (s.viewSolver i).name).perform s).2
  rw [← named] at written
  obtain ⟨t, raised⟩ := exists_raising (Prod.ext checked rfl) (congrArg Prod.fst written)
  rw [perform_prepare sound plain boolean, perform, runOn_bind, raised]
  exact ⟨t, rfl⟩

theorem prepare_of_passes (sound : s.Sound id) (plain : Unextended .cpsat i s)
    (worded : s.WordingWritable id (s.viewSolver i).name) (passes : Passes (s.viewProblem id)) :
    ∃ t, (prepare ⟨.solver .cpsat, i⟩ (s.viewSolver i) (.object ⟨.problem, id⟩)).perform s =
      (.ok (), t) ∧ SameParts s t.state := by
  have checked := fst_perform_checkWhole sound (worded.places passes.boolean)
    (s.viewSolver i).name
  rw [checkWhole_of_all passes.wellFormed passes.reads passes.whole] at checked
  have same := sameParts_checkWhole sound (s.viewSolver i).name []
  rcases ran : (checkWhole (.object ⟨.problem, id⟩) (s.viewSolver i).name).runOn ⟨s, []⟩ with
    ⟨g | u, t⟩ <;> rw [perform, ran] at checked <;> rw [ran] at same
  · cases checked
  · refine ⟨t, ?_, same⟩
    have settings : (checkSettings ⟨.solver .cpsat, i⟩).runOn t = (.ok (), t) := by
      have extras : t.state.extras = [] := same.extras.trans sound.extras
      unfold checkSettings
      rw [runOn_bind, runOn_read]
      simp only [refusal?, extra?, extras, List.lookup_nil]
      rfl
    rw [perform_prepare sound plain passes.boolean, perform, runOn_bind, runOn_raising, ran]
    exact settings

/-! ## Solves -/

/-- `f` ends a solve before a session has begun: the engine was told nothing, no hook was called,
and solvers are as they were. -/
structure Refused {ν : Type} (f : Fault) (s : Store)
    (run : Except Fault (Solved ν) × Logged Store) : Prop where
  answer : run.1 = .ok ⟨.error f, []⟩
  calls : run.2.state.hookCalls = s.hookCalls
  solvers : run.2.state.solvers = s.solvers

theorem refused_of_prepare {K ν : Type} {b : Backend} (plain : Unextended b i s) (way : Way K ν)
    {problem : Value} {f : Fault}
    (broken : (prepare ⟨.solver b, i⟩ (s.viewSolver i) problem).perform s = (.error f, t)) :
    Refused f s ((solve way ⟨.solver b, i⟩ problem).perform s) := by
  have course : (solve way ⟨.solver b, i⟩ problem).runOn ⟨s, []⟩ = _ :=
    runOn_solve (plain.extras "solve") problem
  dsimp only at course
  rw [perform] at broken ⊢
  rw [course, broken]
  exact ⟨rfl, ((growing_uncalled.keeps_prepare _ _ _).of_runOn broken).calls,
    ((growing_keepsSolvers.keeps_prepare _ _ _).of_runOn broken).solvers⟩

/-- Telling values apart is not broken off. -/
theorem numbering_unbroken : Numbering fun _ => Raises fun _ => False where
  pure := raises_pure
  bind := Raises.bind
  identity := raises_read.bind fun _ => (raises_update _).bind fun _ => raises_pure _

theorem raises_newDict (u : Table Value) : Raises (fun _ => False) (newDict u) :=
  ((numbering_unbroken.distinguishAll _).bind fun _ =>
    (numbering_unbroken.distinguishAll _).bind fun _ => raises_read.bind fun _ =>
    (raises_update _).bind fun _ => raises_pure _).bind fun _ => raises_pure _

/-- `makeResult` breaks off only with the fault of an answer that was broken off. -/
theorem raises_makeResult {K : Type} {P : Fault → Prop} (value : K → Value) (problem : Value)
    {answer : Except Fault (Option (Solution K))} (h : BreaksBy P answer) :
    Raises P (makeResult value problem answer) := by
  refine (raises_ofExcept h).bind fun x => ?_
  cases x with
  | none => exact raises_pure _
  | some x =>
      have made (objective : Value) : Raises (fun _ => False) (resultOf value objective x) :=
        (raises_newDict _).bind fun _ => (raises_newDict _).bind fun _ =>
          (numbering_unbroken.distinguish _).bind fun _ => raises_read.bind fun _ =>
          (raises_update _).bind fun _ => raises_pure _
      exact raises_read.bind fun _ => fun t f broken => (made _ t f broken).elim

end

end Store

namespace CpSat

open Milp.Action Milp.Session Store

variable {engine : Engine} {hooks : Hooks PseudoBoolean} {clock : Nat → Float} {questions : Nat}
  {s : Store} {id i : Nat}

theorem permits_solve (sound : s.Sound id) (plain : Unextended .cpsat i s)
    (worded : s.WordingWritable id (s.viewSolver i).name) (passes : Passes (s.viewProblem id))
    {settings : Settings} (frozen : (Settings.ofParameters (s.viewSolver i).name
      (s.viewSolver i).parameters).1 = .ok settings) :
    ∃ solved, ((Store.solve (.atOnce .real (solve engine hooks clock questions))
      ⟨.solver .cpsat, i⟩ (.object ⟨.problem, id⟩)).perform s).1 = .ok solved ∧
        BreaksBy (Permitted engine hooks) solved.answer := by
  obtain ⟨t, prepared, same⟩ := prepare_of_passes sound plain worded passes
  have untouched : s.Untouched id t.state := same.adds.untouched sound
  have checked := runOn_checkProblem (sound_untouched sound untouched) (s.viewSolver i).backend
  have seen : t.state.problemOf (.object ⟨.problem, id⟩) = s.viewProblem id :=
    untouched.viewProblem sound
  have course : (Store.solve (.atOnce .real (solve engine hooks clock questions))
      ⟨.solver .cpsat, i⟩ (.object ⟨.problem, id⟩)).runOn ⟨s, []⟩ = _ :=
    runOn_solve (plain.extras "solve") (.object ⟨.problem, id⟩)
  dsimp only at course
  rw [perform] at prepared
  rw [prepared] at course
  dsimp only at course
  rw [checked] at course
  dsimp only at course
  have answers : BreaksBy (Permitted engine hooks) ((solve engine hooks clock questions
      (s.viewSolver i) (s.viewProblem id)).perform (.start (s.viewSolver i))).1 :=
    passes.breaksBy_solve frozen
  rcases session : (solve engine hooks clock questions (s.viewSolver i)
    (s.viewProblem id)).perform (.start (s.viewSolver i)) with ⟨answer, left, notes⟩
  rw [session] at answers
  have ended := runOn_runSession ⟨.solver .cpsat, i⟩ (s.viewSolver i) (.object ⟨.problem, id⟩)
    Value.real session t
  rw [perform, course, seen]
  exact ⟨_, congrArg Prod.fst ended, raises_makeResult _ _ answers _⟩

/-- How a solve by CP-SAT ends with regard to `checkBoolean` and `checkWhole`. -/
structure Refuses (engine : Engine) (hooks : Hooks PseudoBoolean) (s : Store) (id i : Nat)
    (run : Except Fault (Solved Question) × Logged Store) : Prop where
  /-- The first variable that is not boolean is refused. -/
  domain : ∀ v, First (fun v => (s.viewProblem id).domainOf v ≠ .bool)
    (s.viewProblem id).variableList v →
      Refused (.notBoolean v ((s.viewProblem id).domainOf v) (s.viewSolver i).name) s run
  /-- Where all variables are boolean, the first number with a fraction is refused. -/
  number : (∀ v ∈ (s.viewProblem id).variableList, (s.viewProblem id).domainOf v = .bool) →
    ∀ e, First (fun e => e.1.ReadsFraction) (s.viewProblem id).numbers e →
      Refused (.notWhole e.1 (s.viewSolver i).name e.2) s run
  /-- Otherwise nothing else is refused, and no lookup fails. -/
  permits : (∀ v ∈ (s.viewProblem id).variableList, (s.viewProblem id).domainOf v = .bool) →
    (∀ e ∈ (s.viewProblem id).numbers, ¬ e.1.ReadsFraction) →
      ∃ solved, run.1 = .ok solved ∧ BreaksBy (Permitted engine hooks) solved.answer
  domain_iff : ∀ f told, run.1 = .ok ⟨.error f, told⟩ → ¬ Raised engine hooks f →
    (f.className = "DomainViolationError" ↔
      ∃ v ∈ (s.viewProblem id).variableList, (s.viewProblem id).domainOf v ≠ .bool)
  number_iff : ∀ f told, run.1 = .ok ⟨.error f, told⟩ → ¬ Raised engine hooks f →
    (f.className = "CoefficientDomainError" ↔
      (∀ v ∈ (s.viewProblem id).variableList, (s.viewProblem id).domainOf v = .bool) ∧
        ∃ e ∈ (s.viewProblem id).numbers, e.1.ReadsFraction)

/-- Which of the three ways a solve takes is told by the class of what it ends with. -/
theorem refuses_of_cases (h : (s.viewProblem id).WellFormed)
    (reads : ∀ e ∈ (s.viewProblem id).numbers, e.1.ReadsDouble)
    {run : Except Fault (Solved Question) × Logged Store}
    (domain : ∀ v, First (fun v => (s.viewProblem id).domainOf v ≠ .bool)
      (s.viewProblem id).variableList v →
        Refused (.notBoolean v ((s.viewProblem id).domainOf v) (s.viewSolver i).name) s run)
    (number : (∀ v ∈ (s.viewProblem id).variableList, (s.viewProblem id).domainOf v = .bool) →
      ∀ e, First (fun e => e.1.ReadsFraction) (s.viewProblem id).numbers e →
        Refused (.notWhole e.1 (s.viewSolver i).name e.2) s run)
    (permits : Passes (s.viewProblem id) →
      ∃ solved, run.1 = .ok solved ∧ BreaksBy (Permitted engine hooks) solved.answer) :
    Refuses engine hooks s id i run := by
  have passed {f : Fault} {told : List Question} (passes : Passes (s.viewProblem id))
      (ended : run.1 = .ok ⟨.error f, told⟩) (own : ¬ Raised engine hooks f) : f.Admissible := by
    obtain ⟨solved, answered, breaks⟩ := permits passes
    obtain rfl : solved = ⟨.error f, told⟩ := Except.ok.inj (answered.symm.trans ended)
    exact (breaks f rfl).resolve_right own
  have same {f g : Fault} {told : List Question} (refused : Refused g s run)
      (ended : run.1 = .ok ⟨.error f, told⟩) : g = f :=
    Except.error.inj (congrArg Solved.answer (Except.ok.inj (refused.answer.symm.trans ended)))
  refine ⟨domain, number, fun boolean whole => permits ⟨h, boolean, reads, whole⟩, ?_, ?_⟩
  all_goals
    intro f told ended own
    rcases variable_or_number_or_passes h reads with
      ⟨v, first⟩ | ⟨boolean, e, first⟩ | passes
  · obtain rfl := same (domain v first) ended
    exact iff_of_true rfl (exists_of_first first)
  · obtain rfl := same (number boolean e first) ended
    refine iff_of_false (by simp [Fault.className]) ?_
    rintro ⟨v, hv, other⟩
    exact other (boolean v hv)
  · refine iff_of_false (fun named => passed passes ended own (.inl (by simp [named]))) ?_
    rintro ⟨v, hv, other⟩
    exact other (passes.boolean v hv)
  · obtain rfl := same (domain v first) ended
    obtain ⟨w, hw, other⟩ := exists_of_first first
    exact iff_of_false (by simp [Fault.className]) fun both => other (both.1 w hw)
  · obtain rfl := same (number boolean e first) ended
    exact iff_of_true rfl ⟨boolean, exists_of_first first⟩
  · refine iff_of_false (fun named => passed passes ended own (.inl (by simp [named]))) ?_
    rintro ⟨-, e, he, fraction⟩
    exact passes.whole e he fraction

/-- A solve by CP-SAT refuses a problem with finite data for its first variable that is not boolean,
else for its first number with a fraction, and else not at all (`Refuses`), where what it words
before that can be written. -/
theorem solve_refuses (built : s.Built id) (plain : Unextended .cpsat i s)
    (reads : ∀ e ∈ (s.viewProblem id).numbers, e.1.ReadsDouble) {settings : Settings}
    (frozen : (Settings.ofParameters (s.viewSolver i).name
      (s.viewSolver i).parameters).1 = .ok settings)
    (worded : s.WordingWritable id (s.viewSolver i).name)
    (engine : Engine) (hooks : Hooks PseudoBoolean) (clock : Nat → Float) (questions : Nat) :
    Refuses engine hooks s id i ((Store.solve (.atOnce .real (solve engine hooks clock questions))
      ⟨.solver .cpsat, i⟩ (.object ⟨.problem, id⟩)).perform s) := by
  have sound : s.Sound id := built.sound
  refine refuses_of_cases sound.wellFormed reads (fun v first => ?_) (fun boolean e first => ?_)
    fun passes => permits_solve sound plain worded passes frozen
  · obtain ⟨t, broken⟩ := prepare_of_variable sound plain worded first
    exact refused_of_prepare plain _ broken
  · obtain ⟨t, broken⟩ := prepare_of_number sound plain worded reads boolean first
    exact refused_of_prepare plain _ broken

/-- A solver, before there is any problem. -/
def solverOnly : Store :=
  ((newSolver .cpsat (.text "cpsat")).perform .empty).2.state

/-- Two decisions, with a constraint in halves. -/
def unevenChoice : Store :=
  let x : Value := .text "x"
  let y : Value := .text "y"
  (newProblem.perform solverOnly).2.state
    |> Store.called "set_objective" [.tuple [.term x (.int 3), .term y (.int 2)], .text "max"]
    |> Store.called "add" [.text "even", .tuple [.term x (.real 2.0), .term y (.real 0.5)],
      .text "<=", .real 1.5]
    |> Store.called "set_var_type" [x, .type .bool]
    |> Store.called "set_var_bounds_and_type" [.int 0, y, .int 1, .type .bool]

theorem built_unevenChoice : Store.Built 0 unevenChoice := by
  have made : Store.Built 0 (newProblem.perform solverOnly).2.state := .new rfl rfl
  exact (((made.called rfl (by decide)).called rfl (by decide)).called rfl (by decide)).called rfl
    (by decide)

set_option maxRecDepth 8000 in
/-- The half of the second decision is refused before anything else happens. -/
theorem solve_refuses_unevenChoice :
    let p := unevenChoice.viewProblem 0
    let way : Way Float Question := .atOnce .real
      (solve (.replaying [] fun _ _ => .ok ()) (fun _ _ m => (m, none)) (fun _ => 0.0) 5)
    unevenChoice.Built 0 ∧ (∀ v ∈ p.variableList, p.domainOf v = .bool) ∧
      Refused (.notWhole (.real 0.5) (.text "cpsat") (.coefficient (.text "even"))) unevenChoice
        ((Store.solve way ⟨.solver .cpsat, 0⟩ (.object ⟨.problem, 0⟩)).perform unevenChoice) := by
  intro p way
  have plain : Unextended .cpsat 0 unevenChoice := by
    refine .of_bare (by decide +kernel) (by decide +kernel) (by decide +kernel) ?_
    exact List.length_eq_zero_iff.mp (by decide +kernel)
  have numbers : p.numbers = [(.int 3, .objective), (.int 2, .objective),
      (.real 2.0, .coefficient (.text "even"))] ++ (.real 0.5, .coefficient (.text "even")) ::
        [(.real 1.5, .rhs (.text "even"))] := by
    with_unfolding_all rfl
  have small {n : Int} (h : n = 2 ∨ n = 3) :
      (Value.int n).ReadsDouble ∧ ¬ (Value.int n).ReadsFraction := by
    have whole : (Value.int n).toWhole Float .none .objective = .ok n := by
      rcases h with rfl | rfl <;> with_unfolding_all rfl
    exact Value.reads_of_toWhole whole
  have two : (Value.real 2.0).ReadsDouble ∧ ¬ (Value.real 2.0).ReadsFraction := by
    have whole : (Value.real 2.0).toWhole Float .none .objective = .ok 2 := by
      with_unfolding_all rfl
    exact Value.reads_of_toWhole whole
  have half : Numeric.view (0.5 : Float) = .finite (1 / 2) := by with_unfolding_all rfl
  have most : (Value.real 1.5).ReadsDouble := ⟨1.5, 3 / 2, rfl, by with_unfolding_all rfl⟩
  have reads : ∀ e ∈ p.numbers, e.1.ReadsDouble := by
    simp [numbers, small, two, most, show (Value.real 0.5).ReadsDouble from ⟨0.5, _, rfl, half⟩]
  have boolean : ∀ v ∈ p.variableList, p.domainOf v = .bool := by
    have all : p.checkBoolean (.text "cpsat") = .ok () := by with_unfolding_all rfl
    exact Problem.boolean_of_checkBoolean all
  have first : First (fun e => e.1.ReadsFraction) p.numbers
      (.real 0.5, .coefficient (.text "even")) :=
    ⟨_, _, numbers, ⟨0.5, _, rfl, half, by norm_num⟩, by simp [small, two]⟩
  have vars : p.variableList = [.text "x", .text "y"] := by with_unfolding_all rfl
  have rows : p.constraints.items.map Constraint.name = [.text "even"] := by
    with_unfolding_all rfl
  have worded : unevenChoice.WordingWritable 0 (.text "cpsat") := by
    refine wordingWritable_of_texts (by simp [vars, p]) fun c hc => ?_
    have name : c.name ∈ p.constraints.items.map Constraint.name := List.mem_map_of_mem hc
    exact ⟨"even", by simpa [rows] using name⟩
  exact ⟨built_unevenChoice, boolean,
    (solve_refuses built_unevenChoice plain reads rfl worded _ _ _ _).number boolean _ first⟩

/-! ## A name that cannot be written -/

/-- A problem over a whole number that is named by a constraint without an expression. -/
def misnamed : Store :=
  let named := ((makeConstraint (.int 5) (.text "<=") (.int 3) .none).perform solverOnly).2.state
  (newProblem.perform named).2.state
    |> Store.called "set_var_type" [.object ⟨.constraint, 0⟩, .type .int]

set_option maxRecDepth 8000 in
/-- The number is not boolean, but it is not refused: no text can be made of its name. -/
theorem typeError_of_misnamed :
    let p := misnamed.viewProblem 0
    let name : Value := .object ⟨.constraint, 0⟩
    let way : Way Float Question := .atOnce .real
      (solve (.replaying [] fun _ _ => .ok ()) (fun _ _ m => (m, none)) (fun _ => 0.0) 5)
    let solver := misnamed.viewSolver 0
    misnamed.Built 0 ∧ Unextended .cpsat 0 misnamed ∧
      (∃ settings, (Settings.ofParameters solver.name solver.parameters).1 = .ok settings) ∧
      p.numbers = [] ∧ First (fun v => p.domainOf v ≠ .bool) p.variableList name ∧
      ∃ f, ((Store.solve way ⟨.solver .cpsat, 0⟩ (.object ⟨.problem, 0⟩)).perform misnamed).1 =
        .ok ⟨.error f, []⟩ ∧ f.className = "TypeError" := by
  intro p name way solver
  have made : Store.Built 0 (newProblem.perform
      ((makeConstraint (.int 5) (.text "<=") (.int 3) .none).perform solverOnly).2.state).2.state :=
    .new rfl rfl
  have plain : Unextended .cpsat 0 misnamed := by
    refine .of_bare (by decide +kernel) (by decide +kernel) (by decide +kernel) ?_
    exact List.length_eq_zero_iff.mp (by decide +kernel)
  have vars : p.variableList = [name] := by with_unfolding_all rfl
  have domain : p.domainOf name = .int := by with_unfolding_all rfl
  have first : First (fun v => p.domainOf v ≠ .bool) p.variableList name :=
    ⟨[], [], vars, by simp [domain], by simp⟩
  refine ⟨made.called rfl (by decide), plain, ⟨_, rfl⟩, by with_unfolding_all rfl, first, ?_⟩
  have ended : (((Store.solve way ⟨.solver .cpsat, 0⟩ (.object ⟨.problem, 0⟩)).perform
      misnamed).1.toOption.any fun x => x.tellings.isEmpty &&
        match x.answer with
        | .error f => f.className == "TypeError"
        | .ok _ => false) = true := by
    decide +kernel
  rcases answered : ((Store.solve way ⟨.solver .cpsat, 0⟩ (.object ⟨.problem, 0⟩)).perform
    misnamed).1 with f | ⟨f | x, told⟩ <;> rw [answered] at ended
  · cases ended
  · obtain ⟨silent, kind⟩ := Bool.and_eq_true_iff.mp ended
    obtain rfl := List.isEmpty_iff.mp silent
    exact ⟨f, rfl, eq_of_beq kind⟩
  · exact absurd (Bool.and_eq_true_iff.mp ended).2 Bool.false_ne_true

end CpSat

end Milp
