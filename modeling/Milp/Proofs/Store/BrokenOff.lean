import Milp.Proofs.Store.Built
import Milp.Proofs.Store.Listing

/-!
# Calls that are broken off

`addToProblem` and `setObjective` register the variables of the terms that they were given one after
the other (`runOn_forM_registerTerm`), before they add or set anything. A call that is broken off
leaves the variables that it has registered, and nothing else of the problem is changed, unless the
call was broken off over the sense, which is set when the objective has been.
-/

namespace Milp.Store

open Milp.Action
open Milp.Declarations (enlist)

/-! ## Registering one variable after the other -/

/-- The variable that a value names as a term, if variables can be told apart by it. -/
def registrable (t : Value) : Except Fault Value := do
  let v ← variableOf t
  v.checkKey
  return v

/-- The variables that values name as terms, up to the first value that names none. -/
def firstVariables : List Value → List Value
  | [] => []
  | t :: ts =>
    match registrable t with
    | .ok v => v :: firstVariables ts
    | .error _ => []

/-- The store with variables registered in a problem. -/
def registering (s : Store) (id : Nat) (vs : List Value) : Store :=
  { s with problems := s.problems.modify id fun p =>
      { p with vars := vs.foldl (fun t v => t.insertNew v ()) p.vars } }

section

variable {id : Nat} {s : Store} {v : Value}

/-- What is written over a problem may be computed from the problem that is there. -/
theorem modify_declarations (s : Store) (id : Nat) (f : Declarations → Declarations) :
    (s.problems.modify id fun p => { p with toDeclarations := f (s.problem id).toDeclarations }) =
      s.problems.modify id fun p => { p with toDeclarations := f p.toDeclarations } := by
  refine List.ext_getElem? fun i => ?_
  rw [List.getElem?_modify, List.getElem?_modify]
  by_cases h : id = i
  · subst h
    cases hp : s.problems[id]? <;> simp [hp, problem]
  · simp [h]

theorem registering_nil (s : Store) (id : Nat) : s.registering id [] = s := by
  have same : s.problems.modify id (fun p => p) = s.problems := List.modify_id ..
  exact congrArg (fun ps => { s with problems := ps }) same

theorem registering_cons (s : Store) (id : Nat) (v : Value) (vs : List Value) :
    (s.registering id [v]).registering id vs = s.registering id (v :: vs) := by
  simp only [registering, List.modify_modify_eq]
  rfl

theorem problem_registering (present : id < s.problems.length) (vs : List Value) :
    (s.registering id vs).problem id =
      { s.problem id with vars := vs.foldl (fun t v => t.insertNew v ()) (s.problem id).vars } :=
  problem_modify present _

theorem keys_foldl_insertNew (d : Declarations) (vs : List Value) :
    (vs.foldl (fun t v => t.insertNew v ()) d.vars).keys = vs.foldl enlist d.variableList := by
  induction vs generalizing d with
  | nil => rfl
  | cons v vs ih =>
      rw [List.foldl_cons, List.foldl_cons, ← Declarations.variableList_insertNew]
      exact ih { d with vars := d.vars.insertNew v () }

theorem runOn_registerTerm_of_ok {t : Value} (h : registrable t = .ok v) (s : Logged Store) :
    (registerTerm id t).runOn s =
      (.ok (), { s with state := s.state.registering id [v] }) := by
  obtain ⟨w, hw, h⟩ := bind_eq_ok.mp h
  obtain ⟨u, hu, h⟩ := bind_eq_ok.mp h
  obtain rfl : w = v := Except.ok.inj h
  have put := modify_declarations s.state id fun d => { d with vars := d.vars.insertNew w () }
  unfold registerTerm onDeclarations Declarations.register
  simp only [hw, hu, runOn_bind, runOn_ofExcept, runOn_onPart, runOn_update, put]
  rfl

theorem runOn_registerTerm_of_error {t : Value} {f : Fault} (h : registrable t = .error f)
    (s : Logged Store) : (registerTerm id t).runOn s = (.error f, s) := by
  unfold registerTerm
  cases hv : variableOf t with
  | error g =>
      rw [registrable, hv] at h
      cases h
      rfl
  | ok v =>
      have refused : v.checkKey = .error f := by
        rw [registrable, hv] at h
        cases hk : v.checkKey with
        | error g => simpa [hk, bind, Except.bind] using h
        | ok u => simp [hk, bind, Except.bind, pure, Except.pure] at h
      have put := (modify_declarations s.state id fun d => d).trans (List.modify_id ..)
      unfold onDeclarations Declarations.register
      simp only [refused, runOn_bind, runOn_ofExcept, runOn_onPart, put]

/-- `registerTerm` takes the `firstVariables` of the terms, and then, if there are more values, the
next of them is refused. -/
theorem runOn_forM_registerTerm (ts : List Value) (s : Logged Store) :
    (ts.forM (registerTerm id)).runOn s = ((ts.mapM registrable).map fun _ => (),
      { s with state := s.state.registering id (firstVariables ts) }) := by
  induction ts generalizing s with
  | nil => exact congrArg (fun t => (_, { s with state := t })) (registering_nil ..).symm
  | cons t ts ih =>
      change (registerTerm id t >>= fun _ => ts.forM (registerTerm id)).runOn s = _
      rw [runOn_bind, firstVariables, List.mapM_cons]
      cases ht : registrable t with
      | error f =>
          rw [runOn_registerTerm_of_error ht, registering_nil]
          rfl
      | ok v =>
          rw [runOn_registerTerm_of_ok ht]
          dsimp only
          rw [ih, registering_cons]
          cases ts.mapM registrable <;> rfl

theorem runOn_registerTerms (v : Value) (s : Logged Store) :
    (registerTerms id v).runOn s = (((s.state.walk v).mapM "" registrable).map fun _ => (),
      { s with state := s.state.registering id (firstVariables (s.state.walk v).items) }) := by
  rw [registerTerms_eq, runOn_bind, runOn_read]
  dsimp only
  rw [runOn_bind, runOn_forM_registerTerm, Series.mapM]
  cases (s.state.walk v).items.mapM registrable with
  | error f => rfl
  | ok vs =>
      cases (s.state.walk v).finish "" <;> simp [bind, Except.bind, Except.map, pure, Except.pure]

theorem firstVariables_of_ok {ts vs : List Value} (h : ts.mapM registrable = .ok vs) :
    firstVariables ts = vs := by
  induction ts generalizing vs with
  | nil => exact Except.ok.inj h
  | cons t ts ih =>
      rw [List.mapM_cons] at h
      obtain ⟨v, hv, h⟩ := bind_eq_ok.mp h
      obtain ⟨rest, hrest, h⟩ := bind_eq_ok.mp h
      obtain rfl : v :: rest = vs := Except.ok.inj h
      simp only [firstVariables, hv, ih hrest]

theorem termOf_of_registrable {t : Value} (h : registrable t = .ok v) :
    ∃ e, s.termOf t = .ok e ∧ e.var = v := by
  obtain ⟨w, hw, h⟩ := bind_eq_ok.mp h
  obtain ⟨_, -, h⟩ := bind_eq_ok.mp h
  obtain rfl : w = v := Except.ok.inj h
  cases t with
  | term var c => exact ⟨⟨var, c⟩, rfl, Except.ok.inj hw⟩
  | _ => cases hw

theorem mapM_termOf_of_registrable {ts vs : List Value} (h : ts.mapM registrable = .ok vs) :
    ∃ es, ts.mapM s.termOf = .ok es ∧ es.map Term.var = vs := by
  induction ts generalizing vs with
  | nil => exact ⟨[], rfl, Except.ok.inj h⟩
  | cons t ts ih =>
      rw [List.mapM_cons] at h ⊢
      obtain ⟨v, hv, h⟩ := bind_eq_ok.mp h
      obtain ⟨rest, hrest, h⟩ := bind_eq_ok.mp h
      obtain rfl : v :: rest = vs := Except.ok.inj h
      obtain ⟨e, he, rfl⟩ := termOf_of_registrable hv
      obtain ⟨es, hes, rfl⟩ := ih hrest
      exact ⟨e :: es, by rw [he, hes]; rfl, rfl⟩

/-- `linearOf` copies terms whose variables can be registered. -/
theorem linearOf_of_registrable {vs : List Value}
    (h : (s.walk v).mapM "" registrable = .ok vs) :
    ∃ l, s.linearOf v = .ok l ∧ l.vars = vs := by
  obtain ⟨ws, hws, h⟩ := bind_eq_ok.mp h
  obtain ⟨u, finish, h⟩ := bind_eq_ok.mp h
  obtain rfl : ws = vs := Except.ok.inj h
  obtain ⟨ts, hts, rfl⟩ := mapM_termOf_of_registrable (s := s) hws
  have all : (s.walk v).mapM "" s.termOf = .ok ts := by
    rw [Series.mapM, hts, finish]
    rfl
  refine ⟨⟨ts⟩, ?_, rfl⟩
  unfold linearOf
  split
  · cases finish
  · rw [all]
    rfl

/-- `registerTerms` that comes to its end has registered the variables of the copy. -/
theorem runOn_registerTerms_of_ok {vs : List Value} {s : Logged Store}
    (h : (s.state.walk v).mapM "" registrable = .ok vs) :
    ∃ l, s.state.linearOf v = .ok l ∧ l.vars = vs ∧ (registerTerms id v).runOn s =
      (.ok (), { s with state := s.state.registering id l.vars }) := by
  obtain ⟨l, hl, rfl⟩ := linearOf_of_registrable h
  refine ⟨l, hl, rfl, ?_⟩
  obtain ⟨ws, hws, same⟩ := bind_eq_ok.mp h
  obtain ⟨_, -, same⟩ := bind_eq_ok.mp same
  rw [runOn_registerTerms, h, firstVariables_of_ok hws, Except.ok.inj same]
  rfl

theorem linearOf_problems (s : Store) (ps : List ProblemObject) (v : Value) :
    ({ s with problems := ps } : Store).linearOf v = s.linearOf v := by
  have items := funext (items_others s ps s.solvers)
  have terms : ({ s with problems := ps } : Store).termOf = s.termOf := by
    funext t
    unfold termOf
    simp only [items]
    rfl
  have walk := funext (walk_others s ps s.solvers)
  unfold linearOf
  simp only [terms, walk]

/-! ## What is left -/

/-- Variables of a problem were registered, and its objective is a given one. Everything else of it
is as it was, and so are the lists, expressions and constraints that were there. What holds of all
other objects is `OthersKept`. -/
structure OnlyRegisters (id : Nat) (vs : List Value) (objective : Value) (s s' : Store) : Prop where
  listed : (s'.problem id).variableList = vs.foldl enlist (s.problem id).variableList
  objective : (s'.problem id).objective = objective
  sense : (s'.problem id).sense = (s.problem id).sense
  constraints : (s'.problem id).constraints = (s.problem id).constraints
  domains : (s'.problem id).domains = (s.problem id).domains
  lowers : (s'.problem id).lowers = (s.problem id).lowers
  uppers : (s'.problem id).uppers = (s.problem id).uppers
  lists : s'.lists = s.lists
  linears : s.linears <+: s'.linears
  rows : s.constraints <+: s'.constraints

theorem Adds.problem_eq {s s' : Store} (h : Adds s s') (id : Nat) :
    s'.problem id = s.problem id := by
  rw [Store.problem, Store.problem, h.problems]

theorem OnlyRegisters.adds {vs : List Value} {o : Value} {s s' s'' : Store}
    (h : OnlyRegisters id vs o s s')
    (adds : Adds s' s'') : OnlyRegisters id vs o s s'' := by
  have same := adds.problem_eq id
  exact ⟨same ▸ h.listed, same ▸ h.objective, same ▸ h.sense, same ▸ h.constraints,
    same ▸ h.domains, same ▸ h.lowers, same ▸ h.uppers, adds.lists.trans h.lists,
    h.linears.trans adds.linears, h.rows.trans adds.constraints⟩

theorem Adds.onlyRegisters {vs : List Value} {o : Value} {s s' s'' : Store} (adds : Adds s s')
    (h : OnlyRegisters id vs o s' s'') : OnlyRegisters id vs o s s'' := by
  have same := adds.problem_eq id
  exact ⟨same ▸ h.listed, h.objective, same ▸ h.sense, same ▸ h.constraints,
    same ▸ h.domains, same ▸ h.lowers, same ▸ h.uppers, h.lists.trans adds.lists,
    adds.linears.trans h.linears, adds.constraints.trans h.rows⟩

theorem onlyRegisters_refl (id : Nat) (s : Store) : OnlyRegisters id [] (s.problem id).objective s s :=
  ⟨rfl, rfl, rfl, rfl, rfl, rfl, rfl, rfl, List.prefix_refl _, List.prefix_refl _⟩

theorem onlyRegisters_registering (present : id < s.problems.length) (vs : List Value) :
    OnlyRegisters id vs (s.problem id).objective s (s.registering id vs) := by
  have after := problem_registering present vs
  refine ⟨?_, ?_, ?_, ?_, ?_, ?_, ?_, rfl, List.prefix_refl _, List.prefix_refl _⟩
  all_goals rw [after]
  exact keys_foldl_insertNew _ vs

/-! ## What is gone through -/

/-- The terms of a copy, if one can be made. -/
def copied (s : Store) (v : Value) : Series Value :=
  .ofList ((s.linearOf v).toOption.elim [] fun l => l.terms.map Term.toValue)

/-- The terms that are gone through when a constraint is taken in, if it comes to that: those of its
left-hand side, or of a copy of it. -/
def taken (s : Store) (parts : List Value) (name : Value) : Series Value :=
  (s.sideGiven? parts).elim (.ofList []) fun side =>
    if parts.length = 1 ∧ name.isNone then s.walk side else s.copied side

theorem takeConstraint_eq_error {l : Nat} {g : Fault} {s s' : Logged Store}
    (present : id < s.state.problems.length)
    (list : (s.state.problem id).constraints = .object ⟨.list, l⟩)
    (h : (takeConstraint id v).runOn s = (.error g, s')) :
    (s.state.walk (s.state.lhsOf v)).mapM "" registrable = .error g ∧
      s' = { s with
        state := s.state.registering id
          (firstVariables (s.state.walk (s.state.lhsOf v)).items) } := by
  unfold takeConstraint at h
  rw [runOn_bind, runOn_read] at h
  dsimp only at h
  rw [runOn_bind, runOn_registerTerms] at h
  cases hr : (s.state.walk (s.state.lhsOf v)).mapM "" registrable with
  | error f =>
      rw [hr] at h
      obtain ⟨hf, rfl⟩ := Prod.mk.inj h
      obtain rfl : f = g := by simpa [Except.map] using hf
      exact ⟨rfl, rfl⟩
  | ok vs =>
      rw [hr] at h
      have after := onlyRegisters_registering present
        (firstVariables (s.state.walk (s.state.lhsOf v)).items)
      simp only [Except.map, runOn_bind, runOn_read, append, after.constraints, list] at h
      cases h

/-- A constraint that was made of a copy is gone through by the terms of the copy. -/
theorem takeCopy_eq_error {l : Nat} {g : Fault} {lhs operator rhs name : Value}
    {s s' : Logged Store} (present : id < s.state.problems.length)
    (list : (s.state.problem id).constraints = .object ⟨.list, l⟩)
    (h : (constraintOfCopy lhs operator rhs name >>= takeConstraint id).runOn s = (.error g, s')) :
    Adds s.state s'.state ∨ (s.state.copied lhs).mapM "" registrable = .error g ∧
      ∃ s₁, Adds s.state s₁ ∧
        s'.state = s₁.registering id (firstVariables (s.state.copied lhs).items) := by
  rcases runOn_bind_eq_error.mp h with h | ⟨c, s₁, hc, h⟩
  · exact .inl ((adds_constraintOfCopy lhs operator rhs name).of_runOn h)
  · have adds := (adds_constraintOfCopy lhs operator rhs name).of_runOn hc
    obtain ⟨e, he, copy, -⟩ := constraintOfCopy_eq_ok hc
    have walk : s₁.state.walk (s₁.state.lhsOf c) = s.state.copied lhs := by
      rw [copy.lhsOf, copied, he]
      have terms := copy.linear
      change Series.ofList ((s₁.state.linear _).terms.map Term.toValue) = _
      rw [terms]
      rfl
    obtain ⟨refused, rfl⟩ := takeConstraint_eq_error (adds.problems ▸ present)
      ((adds.problem_eq id) ▸ list) h
    rw [walk] at refused ⊢
    exact .inr ⟨refused, s₁.state, adds, rfl⟩

theorem addToProblem_eq_error {l : Nat} {g : Fault} {parts : List Value} {name : Value}
    {s s' : Logged Store} (present : id < s.state.problems.length)
    (list : (s.state.problem id).constraints = .object ⟨.list, l⟩)
    (h : (addToProblem id parts name).runOn s = (.error g, s')) :
    Adds s.state s'.state ∨ (s.state.taken parts name).mapM "" registrable = .error g ∧
      ∃ s₁, Adds s.state s₁ ∧
        s'.state = s₁.registering id (firstVariables (s.state.taken parts name).items) := by
  have refused {f : Fault} (h : (throw f : Action Store Value).runOn s = (.error g, s')) :
      Adds s.state s'.state := by
    obtain rfl := congrArg Prod.snd h
    exact Std.Refl.refl s.state
  unfold addToProblem at h
  split at h
  · rename_i c
    by_cases none : name.isNone
    · have walk : s.state.taken [.object ⟨.constraint, c⟩] name =
          s.state.walk (s.state.lhsOf (.object ⟨.constraint, c⟩)) := by
        simp [taken, sideGiven?, none, lhsOf]
      rw [if_pos none] at h
      obtain ⟨stopped, rfl⟩ := takeConstraint_eq_error present list h
      rw [walk]
      exact .inr ⟨stopped, s.state, Std.Refl.refl s.state, rfl⟩
    · have walk : s.state.taken [.object ⟨.constraint, c⟩] name =
          s.state.copied (s.state.constraint c).lhs := by
        simp [taken, sideGiven?, none]
      rw [if_neg none, runOn_bind, runOn_read] at h
      rw [walk]
      exact takeCopy_eq_error present list h
  · have walk (lhs operator rhs : Value) :
        s.state.taken [lhs, operator, rhs] name = s.state.copied lhs := by
      simp [taken, sideGiven?]
    rw [walk]
    exact takeCopy_eq_error present list h
  · have walk (own lhs operator rhs : Value) :
        s.state.taken [own, lhs, operator, rhs] name = s.state.copied lhs := by
      simp [taken, sideGiven?]
    split at h
    · rw [walk]
      exact takeCopy_eq_error present list h
    · exact .inl (refused h)
  · exact .inl (refused h)

theorem takeConstraint_eq_ok {v w : Value} {s s' : Logged Store}
    (h : (takeConstraint id w).runOn s = (.ok v, s')) : v = w := by
  unfold takeConstraint at h
  obtain ⟨_, _, -, h⟩ := runOn_bind_eq_ok.mp h
  obtain ⟨_, _, -, h⟩ := runOn_bind_eq_ok.mp h
  obtain ⟨_, _, -, h⟩ := runOn_bind_eq_ok.mp h
  obtain ⟨_, _, -, h⟩ := runOn_bind_eq_ok.mp h
  rw [runOn_pure] at h
  exact (Except.ok.inj (congrArg Prod.fst h)).symm

theorem takeCopy_eq_ok {lhs operator rhs name v : Value} {s s' : Logged Store}
    (h : (constraintOfCopy lhs operator rhs name >>= takeConstraint id).runOn s = (.ok v, s')) :
    ∃ c, v = .object ⟨.constraint, c⟩ := by
  obtain ⟨w, s₁, hw, h⟩ := runOn_bind_eq_ok.mp h
  obtain ⟨_, -, copied, -⟩ := constraintOfCopy_eq_ok hw
  exact ⟨_, (takeConstraint_eq_ok h).trans copied.value⟩

theorem addToProblem_eq_ok {parts : List Value} {name v : Value} {s s' : Logged Store}
    (h : (addToProblem id parts name).runOn s = (.ok v, s')) :
    ∃ c, v = .object ⟨.constraint, c⟩ := by
  unfold addToProblem at h
  split at h
  · split at h
    · exact ⟨_, takeConstraint_eq_ok h⟩
    · obtain ⟨_, _, -, h⟩ := runOn_bind_eq_ok.mp h
      exact takeCopy_eq_ok h
  · exact takeCopy_eq_ok h
  · split at h
    · exact takeCopy_eq_ok h
    · simp at h
  · simp at h

/-! ## The objective -/

/-- The store after an objective was set. -/
def withObjective (s : Store) (id : Nat) (l : Linear) : Store :=
  let t := s.registering id l.vars
  { t with
    linears := s.linears ++ [l]
    problems := t.problems.modify id fun p =>
      { p with objective := .object ⟨.linear, s.linears.length⟩ } }

theorem onlyRegisters_withObjective (present : id < s.problems.length) (l : Linear) :
    OnlyRegisters id l.vars (.object ⟨.linear, s.linears.length⟩) s (s.withObjective id l) := by
  have before := onlyRegisters_registering present l.vars
  have present' : id < (s.registering id l.vars).problems.length := by
    simpa [registering] using present
  have after : (s.withObjective id l).problem id =
      { (s.registering id l.vars).problem id with
        objective := .object ⟨.linear, s.linears.length⟩ } := problem_modify present' _
  refine ⟨?_, ?_, ?_, ?_, ?_, ?_, ?_, rfl, List.prefix_append _ _, List.prefix_refl _⟩
  all_goals rw [after]
  · exact before.listed
  · exact before.sense
  · exact before.constraints
  · exact before.domains
  · exact before.lowers
  · exact before.uppers

theorem runOn_setObjective_of_error {objective : Value} {g : Fault} {s : Logged Store}
    (h : (s.state.walk objective).mapM "" registrable = .error g) (sense : Value) :
    (setObjective id objective sense).runOn s = (.error g,
      { s with
        state := s.state.registering id (firstVariables (s.state.walk objective).items) }) := by
  unfold setObjective
  rw [runOn_bind, runOn_registerTerms, h]
  rfl

/-- `setObjective` sets an objective whose variables can all be registered, and then the sense. -/
theorem runOn_setObjective_of_ok (id : Nat) {objective : Value} {vs : List Value} {s : Logged Store}
    (h : (s.state.walk objective).mapM "" registrable = .ok vs) (sense : Value) :
    ∃ l, s.state.linearOf objective = .ok l ∧ l.vars = vs ∧
      (setObjective id objective sense).runOn s =
        (if !sense.isNone then madeOnProblem id "set_optimization_type" [sense] (setSense id sense)
          else pure ()).runOn { s with state := s.state.withObjective id l } := by
  obtain ⟨l, hl, vars, registered⟩ := runOn_registerTerms_of_ok h
  refine ⟨l, hl, vars, ?_⟩
  have copy : (s.state.registering id l.vars).linearOf objective = .ok l :=
    (linearOf_problems s.state _ objective).trans hl
  unfold setObjective
  rw [runOn_bind, registered]
  simp only [runOn_bind, runOn_read, runOn_ofExcept, copy, runOn_newLinear]
  cases !sense.isNone <;> rfl

/-! ## Calls -/

/-- A call ends with the fault that it broke off with, or with one of writing that out
(`Store.raise`). -/
def RaisedAs (g f : Fault) : Prop :=
  f = g ∨ ∃ s, ((write g.composed).runOn s).1 = .error f

def objectiveArguments (a : Arguments) : Except Fault (Nat → Value) :=
  Signature.bind ⟨"Problem.set_objective", ["objective"], [("opt_type", .none)], some "self"⟩ a

/-- The terms that a call goes through to register their variables, if it comes to that. -/
def goneThrough (s : Store) (method : String) (a : Arguments) : Series Value :=
  if method = "add" then s.taken a.inOrder ((a.byName.lookup "name").getD .none)
  else (objectiveArguments a).toOption.elim (.ofList []) fun x => s.walk (x 0)

variable {env : Environment} {target : Value} {method : String} {a : Arguments} {f : Fault}
  {s' : Logged Store}

/-- Calls that do the same are the same calls. -/
theorem callMethod_congr {method' : String} {a' : Arguments} {t : Store}
    (h : (callMember env target method a).runOn ⟨s, []⟩ =
      (callMember env target method' a').runOn ⟨t, []⟩) :
    (callMethod env target method a).perform s = (callMethod env target method' a').perform t := by
  unfold callMethod perform
  rw [runOn_raising, runOn_raising, runOn_bind, runOn_bind, h]

/-- `callMethod` is broken off only if what it does is. -/
theorem callMethod_eq_error {r : Except Fault Value} {t : Logged Store}
    (run : (callMember env target method a).runOn ⟨s, []⟩ = (r, t))
    (plain : ∀ v, r = .ok v → distinguish v = pure v)
    (h : (callMethod env target method a).perform s = (.error f, s')) :
    ∃ g, r = .error g ∧ RaisedAs g f ∧ SameParts t.state s'.state := by
  unfold callMethod perform at h
  rw [runOn_raising, runOn_bind, run] at h
  cases r with
  | ok v =>
      dsimp only at h
      rw [plain v rfl, runOn_pure] at h
      cases h
  | error g =>
      have same := (incidental_sameParts.raise (α := Value) g).of_runOn h
      refine ⟨g, rfl, ?_, same⟩
      unfold raise at h
      rcases runOn_bind_eq_error.mp h with h | ⟨_, s₁, -, h⟩
      · exact .inr ⟨t, congrArg Prod.fst h⟩
      · exact .inl (Except.error.inj (congrArg Prod.fst h)).symm

/-- `setSense` does not go wrong once it has set the sense. -/
theorem setSense_cases {given : Value} {r : Except Fault Unit} {s t : Logged Store}
    (run : (setSense id given).runOn s = (r, t)) : SameParts s.state t.state ∨ r = .ok () := by
  unfold setSense at run
  rw [runOn_bind] at run
  have same := keeps_senseOf given s
  rcases h : (senseOf given).runOn s with ⟨g | sense, s₁⟩ <;> rw [h] at same run
  · obtain rfl := congrArg Prod.snd run
    exact .inl same
  · exact .inr ((congrArg Prod.fst run).symm.trans (by cases sense <;> rfl))

/-- A call that sets the sense and is broken off changes nothing. -/
theorem sameParts_of_setSense
    (plain : s.extra? (.object ⟨.problem, id⟩) "set_optimization_type" = none)
    (h : (callMethod env (.object ⟨.problem, id⟩) "set_optimization_type" a).perform s =
      (.error f, s')) : SameParts s s'.state := by
  have after := sameParts_callMethod env (.object ⟨.problem, id⟩) "set_optimization_type" a s
  rw [h] at after
  refine IsTrans.trans _ _ _ ?_ after
  have run : (callMember env (.object ⟨.problem, id⟩) "set_optimization_type" a).runOn ⟨s, []⟩ =
      (calling "Problem.set_optimization_type" ["opt_type"] [] a
        fun x => silently (setSense id (x 0))).runOn ⟨s, []⟩ :=
    runOn_callMember_of_plain plain rfl
  unfold calling callingOn at run
  rw [runOn_bind, runOn_ofExcept] at run
  cases hx : Signature.bind ⟨"Problem.set_optimization_type", ["opt_type"], [], some "self"⟩ a with
  | error g =>
      rw [hx] at run
      exact run ▸ Std.Refl.refl s
  | ok x =>
      rw [hx] at run
      dsimp only at run
      unfold silently at run
      rw [runOn_bind] at run
      rcases hs : (setSense id (x 0)).runOn ⟨s, []⟩ with ⟨r, t⟩
      rw [hs] at run
      rcases setSense_cases hs with same | rfl
      · rw [run]
        cases r <;> exact same
      · obtain ⟨g, hg, -⟩ := callMethod_eq_error run (by rintro v ⟨⟩; rfl) h
        cases hg

theorem runOn_callProblem_of_plain {act : Action Store Value} {s : Logged Store}
    (plain : s.state.extra? (.object ⟨.problem, id⟩) method = none)
    (known : callProblem? id method a = some act) :
    (callMember env (.object ⟨.problem, id⟩) method a).runOn s = act.runOn s :=
  runOn_callMember_of_plain plain known

theorem runOn_callObjective (env : Environment) {x : Nat → Value} {s : Logged Store}
    (plain : s.state.extra? (.object ⟨.problem, id⟩) "set_objective" = none)
    (bound : objectiveArguments a = .ok x) :
    (callMember env (.object ⟨.problem, id⟩) "set_objective" a).runOn s =
      (silently (setObjective id (x 0) (x 1))).runOn s := by
  refine (runOn_callProblem_of_plain plain rfl).trans ?_
  change (Action.ofExcept (objectiveArguments a) >>= _).runOn s = _
  rw [bound]
  rfl

/-- An objective that can be set is set before the sense is. -/
theorem callMethod_setObjective_of_ok (env : Environment) {x : Nat → Value} {vs : List Value}
    (plain : ∀ name, s.extra? (.object ⟨.problem, id⟩) name = none)
    (bound : objectiveArguments a = .ok x) (given : (x 1).isNone = false)
    (ok : (s.walk (x 0)).mapM "" registrable = .ok vs) :
    ∃ l, s.linearOf (x 0) = .ok l ∧ l.vars = vs ∧
      (callMethod env (.object ⟨.problem, id⟩) "set_objective" a).perform s =
        (callMethod env (.object ⟨.problem, id⟩) "set_optimization_type" ⟨[x 1], []⟩).perform
          (s.withObjective id l) := by
  obtain ⟨l, hl, vars, run⟩ := runOn_setObjective_of_ok id (s := ⟨s, []⟩) ok (x 1)
  refine ⟨l, hl, vars, ?_⟩
  have plain' : (s.withObjective id l).extra? (.object ⟨.problem, id⟩) "set_optimization_type" =
      none := plain _
  have alone : (callMember env (.object ⟨.problem, id⟩) "set_optimization_type"
      ⟨[x 1], []⟩).runOn ⟨s.withObjective id l, []⟩ =
      (silently (setSense id (x 1))).runOn ⟨s.withObjective id l, []⟩ :=
    runOn_callProblem_of_plain plain' rfl
  have own : (madeOnProblem id "set_optimization_type" [x 1] (setSense id (x 1))).runOn
      ⟨s.withObjective id l, []⟩ = (setSense id (x 1)).runOn ⟨s.withObjective id l, []⟩ := by
    simp only [madeOnProblem, unlessReplaced, runOn_bind, runOn_read, plain']
    rcases (setSense id (x 1)).runOn ⟨s.withObjective id l, []⟩ with ⟨g | u, t⟩ <;> rfl
  have same : (callMember env (.object ⟨.problem, id⟩) "set_objective" a).runOn ⟨s, []⟩ =
      (callMember env (.object ⟨.problem, id⟩) "set_optimization_type" ⟨[x 1], []⟩).runOn
        ⟨s.withObjective id l, []⟩ := by
    rw [runOn_callObjective env (plain _) bound, alone, silently, silently, runOn_bind, runOn_bind,
      run, if_pos (by simp [given]), own]
  exact callMethod_congr same

end

/-! ## What else there is -/

theorem filled_self (r : ResultObject) : r.filled r.objectiveValue = r := by
  obtain ⟨primal, dual, value, objective⟩ := r
  cases value <;> rfl

theorem exists_filled (r : ResultObject) (v w : Value) :
    ∃ u, (r.filled v).filled w = r.filled u := by
  obtain ⟨primal, dual, value, objective⟩ := r
  cases value with
  | none => cases v <;> exact ⟨_, rfl⟩
  | _ => exact ⟨.none, rfl⟩

/-- All that is no list, expression or constraint is as it was, but for one problem, for objective
values that were computed (`ResultObject.filled`), and for the count of values told apart. -/
structure OthersKept (id : Nat) (s s' : Store) : Prop where
  problems : ∀ j, j ≠ id → s'.problems[j]? = s.problems[j]?
  results : ∀ i : Nat, ∃ v, s'.results[i]? = s.results[i]?.map (·.filled v)
  rest : s' = { s with
    lists := s'.lists, linears := s'.linears, constraints := s'.constraints
    problems := s'.problems, results := s'.results, toldApart := s'.toldApart }

section

variable {id : Nat}

theorem results_kept (rs : List ResultObject) (i : Nat) :
    ∃ v, rs[i]? = rs[i]?.map (·.filled v) := by
  cases rs[i]? with
  | none => exact ⟨.none, rfl⟩
  | some r => exact ⟨r.objectiveValue, congrArg some (filled_self r).symm⟩

instance : Std.Refl (OthersKept id) := ⟨fun s => ⟨fun _ _ => rfl, results_kept s.results, rfl⟩⟩

instance : IsTrans Store (OthersKept id) := ⟨fun s s₁ s₂ h h' => by
  refine ⟨fun j hj => (h'.problems j hj).trans (h.problems j hj), fun i => ?_, ?_⟩
  · obtain ⟨v, hv⟩ := h.results i
    obtain ⟨w, hw⟩ := h'.results i
    rw [hw, hv]
    cases s.results[i]? with
    | none => exact ⟨.none, rfl⟩
    | some r =>
        obtain ⟨u, hu⟩ := exists_filled r v w
        exact ⟨u, congrArg some hu⟩
  · rw [h'.rest, h.rest]⟩

theorem othersKept_of_results_eq {s s' : Store}
    (problems : ∀ j, j ≠ id → s'.problems[j]? = s.problems[j]?)
    (results : s'.results = s.results)
    (rest : s' = { s with
      lists := s'.lists, linears := s'.linears, constraints := s'.constraints
      problems := s'.problems, results := s'.results, toldApart := s'.toldApart }) :
    OthersKept id s s' :=
  ⟨problems, results ▸ results_kept s.results, rest⟩

theorem othersKept_modify (s : Store) (f : ProblemObject → ProblemObject) :
    OthersKept id s { s with problems := s.problems.modify id f } :=
  othersKept_of_results_eq (fun j hj => by simp [hj.symm]) rfl rfl

theorem incidental_othersKept : Incidental fun _ => Keeps (OthersKept id) where
  pure := keeps_pure
  throw := keeps_throw
  bind := Keeps.bind
  look _ each := keeps_read.bind each
  identity := by
    have apart (s : Store) (n : Nat) : OthersKept id s { s with toldApart := n } :=
      othersKept_of_results_eq (fun _ _ => rfl) rfl rfl
    exact keeps_read.bind fun _ => (keeps_update fun s => apart s _).bind fun _ => keeps_pure _
  results i v := keeps_update fun s => by
    refine ⟨fun _ _ => rfl, fun j => ?_, rfl⟩
    by_cases h : i = j
    · subst h
      exact ⟨v, by simp⟩
    · obtain ⟨w, hw⟩ := results_kept s.results j
      exact ⟨w, by simpa [List.getElem?_modify, h] using hw⟩

theorem othersKept_registerTerms (v : Value) : Keeps (OthersKept id) (registerTerms id v) := by
  intro s
  rw [runOn_registerTerms]
  exact othersKept_modify _ _

theorem othersKept_newLinear (l : Linear) : Keeps (OthersKept id) (newLinear l) :=
  fun _ => othersKept_of_results_eq (fun _ _ => rfl) rfl rfl

theorem othersKept_takeConstraint (v : Value) : Keeps (OthersKept id) (takeConstraint id v) := by
  refine keeps_read.bind fun s => (othersKept_registerTerms _).bind fun _ => keeps_read.bind fun s =>
    Keeps.bind ?_ fun _ => keeps_pure _
  unfold append
  split
  · exact keeps_update fun _ => othersKept_of_results_eq (fun _ _ => rfl) rfl rfl
  · exact keeps_throw _

theorem othersKept_constraintOfCopy (lhs operator rhs name : Value) :
    Keeps (OthersKept id) (constraintOfCopy lhs operator rhs name) := by
  have new (c : ConstraintObject) : Keeps (OthersKept id) (newConstraint c) :=
    fun _ => othersKept_of_results_eq (fun _ _ => rfl) rfl rfl
  refine keeps_read.bind fun s => (keeps_ofExcept _).bind fun _ =>
    (othersKept_newLinear _).bind fun _ => (keeps_ofExcept _).bind fun _ => ?_
  dsimp only
  split
  · exact (incidental_othersKept.write _).bind fun _ => new _
  · exact new _

theorem othersKept_addToProblem (parts : List Value) (name : Value) :
    Keeps (OthersKept id) (addToProblem id parts name) := by
  have copy (lhs operator rhs own : Value) :
      Keeps (OthersKept id) (constraintOfCopy lhs operator rhs own >>= takeConstraint id) :=
    (othersKept_constraintOfCopy _ _ _ _).bind othersKept_takeConstraint
  unfold addToProblem
  split
  · split
    · exact othersKept_takeConstraint _
    · exact keeps_read.bind fun _ => copy _ _ _ _
  · exact copy _ _ _ _
  · split
    · exact copy _ _ _ _
    · exact keeps_throw _
  · exact keeps_throw _

theorem othersKept_setSense (given : Value) : Keeps (OthersKept id) (setSense id given) := by
  have named : Keeps (OthersKept id) (senseOf given) := by
    refine (keeps_attempt (incidental_othersKept.write _)).bind fun r => ?_
    cases r with
    | ok text => exact keeps_pure _
    | error f =>
        dsimp only
        split
        · exact keeps_pure _
        · exact keeps_throw _
  refine named.bind fun sense => ?_
  cases sense with
  | some s => exact keeps_update fun s => othersKept_modify s _
  | none => exact keeps_read.bind fun _ => keeps_note _ _ _

theorem othersKept_withObjective (s : Store) (l : Linear) :
    OthersKept id s (s.withObjective id l) := by
  refine othersKept_of_results_eq (fun j hj => ?_) rfl rfl
  simp [withObjective, registering, hj.symm]

variable {env : Environment} {target : Value} {method : String} {a : Arguments} {s : Store}

/-- `callMethod` changes of what else there is what its own part does. -/
theorem othersKept_callMethod
    (kept : OthersKept id s ((callMember env target method a).runOn ⟨s, []⟩).2.state) :
    OthersKept id s ((callMethod env target method a).perform s).2.state := by
  have told : OthersKept id s
      ((callMember env target method a >>= distinguish).runOn ⟨s, []⟩).2.state := by
    rw [runOn_bind]
    rcases h : (callMember env target method a).runOn ⟨s, []⟩ with ⟨f | v, t⟩ <;> rw [h] at kept
    · exact kept
    · exact IsTrans.trans _ _ _ kept (incidental_othersKept.distinguish v t)
  exact IsTrans.trans _ _ _ told (rel_raising incidental_othersKept.raise _ _)

theorem othersKept_setOptimizationType
    (plain : s.extra? (.object ⟨.problem, id⟩) "set_optimization_type" = none) :
    OthersKept id s ((callMethod env (.object ⟨.problem, id⟩) "set_optimization_type" a).perform
      s).2.state := by
  have set : Keeps (OthersKept id) (calling "Problem.set_optimization_type" ["opt_type"] [] a
      fun x => silently (setSense id (x 0))) :=
    (keeps_ofExcept _).bind fun _ => (othersKept_setSense _).bind fun _ => keeps_pure _
  refine othersKept_callMethod ?_
  rw [runOn_callProblem_of_plain plain rfl]
  exact set ⟨s, []⟩

theorem othersKept_add (plain : s.extra? (.object ⟨.problem, id⟩) "add" = none) :
    OthersKept id s
      ((callMethod env (.object ⟨.problem, id⟩) "add" a).perform s).2.state := by
  have added : Keeps (OthersKept id) (refuseNames "Problem.add" ["name"] a >>= fun _ =>
      addToProblem id a.inOrder ((a.byName.lookup "name").getD .none)) := by
    refine Keeps.bind ?_ fun _ => othersKept_addToProblem _ _
    unfold refuseNames
    split
    · exact keeps_throw _
    · exact keeps_pure _
  refine othersKept_callMethod ?_
  rw [runOn_callProblem_of_plain plain rfl]
  exact added ⟨s, []⟩

theorem othersKept_setObjective (plain : ∀ name, s.extra? (.object ⟨.problem, id⟩) name = none) :
    OthersKept id s
      ((callMethod env (.object ⟨.problem, id⟩) "set_objective" a).perform s).2.state := by
  cases bound : objectiveArguments a with
  | error g =>
      have run : (callMember env (.object ⟨.problem, id⟩) "set_objective" a).runOn ⟨s, []⟩ =
          (.error g, ⟨s, []⟩) := by
        refine (runOn_callProblem_of_plain (plain _) rfl).trans ?_
        change (Action.ofExcept (objectiveArguments a) >>= _).runOn _ = _
        rw [bound]
        rfl
      refine othersKept_callMethod ?_
      rw [run]
      exact Std.Refl.refl s
  | ok x =>
      have run := runOn_callObjective env (s := ⟨s, []⟩) (plain "set_objective") bound
      cases hr : (s.walk (x 0)).mapM "" registrable with
      | error g =>
          refine othersKept_callMethod ?_
          rw [run, silently, runOn_bind, runOn_setObjective_of_error hr]
          exact othersKept_modify s _
      | ok vs =>
          cases given : (x 1).isNone with
          | true =>
              obtain ⟨l, -, -, set⟩ := runOn_setObjective_of_ok id (s := ⟨s, []⟩) hr (x 1)
              refine othersKept_callMethod ?_
              rw [run, silently, runOn_bind, set, given]
              exact othersKept_withObjective s l
          | false =>
              obtain ⟨l, -, -, same⟩ := callMethod_setObjective_of_ok env plain bound given hr
              rw [same]
              exact IsTrans.trans _ _ _ (othersKept_withObjective s l)
                (othersKept_setOptimizationType (plain "set_optimization_type"))

end

section

variable {env : Environment} {id : Nat} {s : Store} {method : String} {a : Arguments} {f : Fault}
  {s' : Logged Store}

/-- How far a call had come when it was broken off, and what is left of it. -/
inductive BrokenOff (env : Environment) (id : Nat) (method : String) (a : Arguments) (f : Fault)
    (s s' : Store) : Prop
  /-- It had registered nothing yet. -/
  | before : OnlyRegisters id [] (s.problem id).objective s s' → BrokenOff env id method a f s s'
  /-- It had registered the first variables and came to a value that names none. -/
  | registering {g : Fault} : (s.goneThrough method a).mapM "" registrable = .error g → RaisedAs g f →
      OnlyRegisters id (firstVariables (s.goneThrough method a).items) (s.problem id).objective s s' →
      BrokenOff env id method a f s s'
  /-- It had set the objective to a copy, and then the sense could not be set. -/
  | sense {x : Nat → Value} {l : Linear} {t : Store} : method = "set_objective" →
      objectiveArguments a = .ok x → s.linearOf (x 0) = .ok l →
      (s.goneThrough method a).mapM "" registrable = .ok l.vars →
      OnlyRegisters id l.vars (.object ⟨.linear, s.linears.length⟩) s t →
      t.linear s.linears.length = l →
      ((callMethod env (.object ⟨.problem, id⟩) "set_optimization_type" ⟨[x 1], []⟩).perform t).1 =
        .error f → SameParts t s' → BrokenOff env id method a f s s'

theorem brokenOff_add {l : Nat} (present : id < s.problems.length)
    (list : (s.problem id).constraints = .object ⟨.list, l⟩)
    (plain : s.extra? (.object ⟨.problem, id⟩) "add" = none)
    (broken : (callMethod env (.object ⟨.problem, id⟩) "add" a).perform s = (.error f, s')) :
    BrokenOff env id "add" a f s s'.state := by
  have run : (callMember env (.object ⟨.problem, id⟩) "add" a).runOn ⟨s, []⟩ =
      (refuseNames "Problem.add" ["name"] a >>= fun _ =>
        addToProblem id a.inOrder ((a.byName.lookup "name").getD .none)).runOn ⟨s, []⟩ :=
    runOn_callProblem_of_plain plain rfl
  rcases h : (refuseNames "Problem.add" ["name"] a >>= fun _ => addToProblem id a.inOrder
    ((a.byName.lookup "name").getD .none)).runOn ⟨s, []⟩ with ⟨r, t⟩
  rw [h] at run
  have object (v : Value) (hv : r = .ok v) : distinguish v = pure v := by
    rw [hv] at h
    obtain ⟨_, s₁, -, h⟩ := runOn_bind_eq_ok.mp h
    obtain ⟨c, rfl⟩ := addToProblem_eq_ok h
    rfl
  obtain ⟨g, rfl, told, same⟩ := callMethod_eq_error run object broken
  rcases runOn_bind_eq_error.mp h with hr | ⟨_, s₁, hr, hadd⟩
  · have refused : s = t.state := (keeps_refuseNames "Problem.add" ["name"] a).of_runOn hr
    subst refused
    exact .before ((onlyRegisters_refl id t.state).adds same.adds)
  · have refused : s = s₁.state := (keeps_refuseNames "Problem.add" ["name"] a).of_runOn hr
    subst refused
    rcases addToProblem_eq_error present list hadd with adds | ⟨stopped, s₂, adds, after⟩
    · exact .before ((adds.onlyRegisters (adds.problem_eq id ▸ onlyRegisters_refl id t.state)).adds
        same.adds)
    · have present' : id < s₂.problems.length := adds.problems ▸ present
      have left := onlyRegisters_registering present'
        (firstVariables (s₁.state.taken a.inOrder ((a.byName.lookup "name").getD .none)).items)
      rw [← after, adds.problem_eq id] at left
      exact .registering stopped told ((adds.onlyRegisters left).adds same.adds)

theorem brokenOff_setObjective (present : id < s.problems.length)
    (plain : ∀ name, s.extra? (.object ⟨.problem, id⟩) name = none)
    (broken : (callMethod env (.object ⟨.problem, id⟩) "set_objective" a).perform s =
      (.error f, s')) : BrokenOff env id "set_objective" a f s s'.state := by
  cases bound : objectiveArguments a with
  | error g =>
      have run : (callMember env (.object ⟨.problem, id⟩) "set_objective" a).runOn ⟨s, []⟩ =
          (.error g, ⟨s, []⟩) := by
        refine (runOn_callProblem_of_plain (plain _) rfl).trans ?_
        change (Action.ofExcept (objectiveArguments a) >>= _).runOn _ = _
        rw [bound]
        rfl
      obtain ⟨_, -, -, same⟩ := callMethod_eq_error run nofun broken
      exact .before ((onlyRegisters_refl id s).adds same.adds)
  | ok x =>
      have through : s.goneThrough "set_objective" a = s.walk (x 0) := by
        rw [goneThrough, if_neg (by decide), bound]
        rfl
      have run := runOn_callObjective env (s := ⟨s, []⟩) (plain "set_objective") bound
      cases hr : (s.walk (x 0)).mapM "" registrable with
      | error g =>
          rw [silently, runOn_bind, runOn_setObjective_of_error hr] at run
          obtain ⟨_, ⟨⟩, told, same⟩ := callMethod_eq_error run nofun broken
          refine .registering (through ▸ hr) told ?_
          rw [through]
          exact (onlyRegisters_registering present _).adds same.adds
      | ok vs =>
          cases given : (x 1).isNone with
          | true =>
              obtain ⟨l, -, -, set⟩ := runOn_setObjective_of_ok id (s := ⟨s, []⟩) hr (x 1)
              rw [silently, runOn_bind, set, given] at run
              obtain ⟨_, ⟨⟩, -⟩ := callMethod_eq_error run (by rintro v ⟨⟩; rfl) broken
          | false =>
              obtain ⟨l, hl, rfl, set⟩ := callMethod_setObjective_of_ok env plain bound given hr
              rw [set] at broken
              have copy : (s.withObjective id l).linear s.linears.length = l := by
                simp [linear, withObjective]
              exact .sense rfl bound hl (through ▸ hr) (onlyRegisters_withObjective present l) copy
                (congrArg Prod.fst broken)
                (sameParts_of_setSense (plain "set_optimization_type") broken)

theorem BrokenOff.onlyRegisters {s' : Store} (h : BrokenOff env id method a f s s') :
    ∃ vs objective, OnlyRegisters id vs objective s s' := by
  cases h with
  | before left => exact ⟨_, _, left⟩
  | registering _ _ left => exact ⟨_, _, left⟩
  | sense _ _ _ _ left _ _ same => exact ⟨_, _, left.adds same.adds⟩

end

/-- How far a call of `add` or `set_objective` had come when it was broken off is told by `BrokenOff`.
Of the problem it changes variables and objective only (`OnlyRegisters`), and of what else there is
what `OthersKept` allows. -/
theorem brokenOff_of_error {id : Nat} {s : Store} {env : Environment} {method : String}
    {a : Arguments} {f : Fault} {s' : Logged Store} (present : id < s.problems.length)
    (list : ∃ l, (s.problem id).constraints = .object ⟨.list, l⟩)
    (plain : ∀ name, s.extra? (.object ⟨.problem, id⟩) name = none)
    (building : method = "add" ∨ method = "set_objective")
    (broken : (callMethod env (.object ⟨.problem, id⟩) method a).perform s = (.error f, s')) :
    BrokenOff env id method a f s s'.state ∧
      (∃ vs objective, OnlyRegisters id vs objective s s'.state) ∧ OthersKept id s s'.state := by
  have how : BrokenOff env id method a f s s'.state := by
    rcases building with rfl | rfl
    · obtain ⟨l, list⟩ := list
      exact brokenOff_add present list (plain "add") broken
    · exact brokenOff_setObjective present plain broken
  have kept : OthersKept id s ((callMethod env (.object ⟨.problem, id⟩) method a).perform
      s).2.state := by
    rcases building with rfl | rfl
    · exact othersKept_add (plain "add")
    · exact othersKept_setObjective plain
  rw [broken] at kept
  exact ⟨how, how.onlyRegisters, kept⟩

/-- A problem without any data, and a result whose objective value cannot be computed. -/
def blank : Store :=
  ((newResult .empty .empty .none (.int 5)).perform (newProblem.perform .empty).2.state).2.state

/-- What becomes of a call on the first problem of a store, wherever no engine is installed. -/
def answered (method : String) (xs : List Value) (s : Store) : Except Fault Value × Logged Store :=
  (callMethod ⟨fun _ => false, fun _ => false, fun _ => .ok false, fun _ => none⟩
    (.object ⟨.problem, 0⟩) method ⟨xs, []⟩).perform s

/-- Two terms, the second of which is one of a list. -/
def unhashable : Value :=
  .tuple [.term (.text "x") (.int 1), .term (.object ⟨.list, 0⟩) (.int 1)]

set_option maxRecDepth 8000 in
theorem brokenOff_unhashable : ((answered "set_objective" [unhashable] blank).1 =
      .error (.unhashable "list")) ∧
    BrokenOff ⟨fun _ => false, fun _ => false, fun _ => .ok false, fun _ => none⟩ 0 "set_objective"
      ⟨[unhashable], []⟩ (.unhashable "list") blank
      (answered "set_objective" [unhashable] blank).2.state := by
  have broken : (answered "set_objective" [unhashable] blank).1 =
      .error (.unhashable "list") := by
    with_unfolding_all rfl
  exact ⟨broken, (brokenOff_of_error (by decide) ⟨0, rfl⟩ (fun _ => rfl) (.inr rfl)
    (Prod.ext broken rfl)).1⟩

set_option maxRecDepth 8000 in
/-- What came before a variable that is refused stays registered, and an objective before a sense
that cannot be written out stays set. -/
theorem left_by_broken_calls :
    ((blank.problem 0).variableList = [] ∧ (blank.problem 0).objective = .none) ∧
    ((answered "set_objective" [unhashable] blank).1 = .error (.unhashable "list") ∧
      ((answered "set_objective" [unhashable] blank).2.state.problem 0).variableList =
        [.text "x"]) ∧
    ((answered "add" [unhashable, .text "<=", .int 5] blank).1 = .error (.unhashable "list") ∧
      ((answered "add" [unhashable, .text "<=", .int 5] blank).2.state.problem 0).variableList =
        [.text "x"]) ∧
    ((answered "set_objective" [.tuple [], .object ⟨.result, 0⟩] blank).1 =
        .error (.noAttribute "int" "evaluate") ∧
      ((answered "set_objective" [.tuple [], .object ⟨.result, 0⟩] blank).2.state.problem
        0).objective = .object ⟨.linear, 0⟩) := by
  refine ⟨⟨rfl, rfl⟩, ⟨?_, ?_⟩, ⟨?_, ?_⟩, ?_, ?_⟩
  all_goals with_unfolding_all rfl

end Milp.Store
