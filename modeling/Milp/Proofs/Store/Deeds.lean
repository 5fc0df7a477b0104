import Milp.Proofs.Problem.Deeds
import Milp.Proofs.Store.BrokenOff
import Milp.Proofs.Store.History
import Milp.Proofs.Store.Retaining

/-!
# What a call on a problem does

A call on a problem that ends well does certain deeds (`deeds`), which can be told from what it is
given. What is seen of the problem afterwards comes of what was seen of it before by these deeds.
-/

namespace Milp.Store

open Milp.Action
open Milp.Declarations (domainNamed?)

/-! ## The deeds of a call -/

/-- A constraint over a copy of a left-hand side, if it can be made. -/
def additionOfCopy? (s : Store) (lhs operator rhs name : Value) : Option Addition := do
  let l ← (s.linearOf lhs).toOption
  let r ← (Relation.ofValue operator).toOption
  return ⟨l, .symbol (.relation r), rhs, name.toOption⟩

/-- The constraint that parts stand for, with a name in front of them or apart. One that is handed
over as it is keeps its name. -/
def additionGiven? (s : Store) (parts : List Value) (name : Value) : Option Addition :=
  match parts with
  | [.object ⟨.constraint, c⟩] =>
    let o := s.constraint c
    if name.isNone then
      (s.linearOf o.lhs).toOption.map fun l => ⟨l, o.operator, o.rhs, some o.name⟩
    else s.additionOfCopy? o.lhs o.operator o.rhs name
  | [lhs, operator, rhs] => s.additionOfCopy? lhs operator rhs name
  | [own, lhs, operator, rhs] => s.additionOfCopy? lhs operator rhs own
  | _ => none

/-- The sense that a value stands for. -/
def senseGiven? (s : Store) (given : Value) : Option Sense :=
  ((textOf given).perform s).1.toOption.bind (Sense.named? given)

/-- What a call on a problem does if it ends well. -/
def deeds (s : Store) (id : Nat) (method : String) (a : Arguments) : List Deed :=
  let given (required : List String) (optional : List (String × Value))
      (ds : (Nat → Value) → List Deed) : List Deed :=
    (Signature.bind ⟨"Problem." ++ method, required, optional, some "self"⟩ a).toOption.elim [] ds
  let ofSense (s : Store) (v : Value) : List Deed := (s.senseGiven? v).toList.map .sense
  let ofDomain (v given : Value) : List Deed := (domainNamed? given).toList.map (.domain v)
  match method with
  | "set_objective" => given ["objective"] [("opt_type", .none)] fun x =>
      (s.linearOf (x 0)).toOption.elim [] fun l =>
        .objective l :: if (x 1).isNone then [] else ofSense (s.withObjective id l) (x 1)
  | "set_optimization_type" => given ["opt_type"] [] fun x => ofSense s (x 0)
  | "add" => (s.additionGiven? a.inOrder ((a.byName.lookup "name").getD .none)).toList.map .add
  | "set_var_type" => given ["variable", "var_type"] [] fun x => ofDomain (x 0) (x 1)
  | "set_var_lower_bound" => given ["variable", "value"] [] fun x => [.lower (x 0) (x 1)]
  | "set_var_upper_bound" => given ["variable", "value"] [] fun x => [.upper (x 0) (x 1)]
  | "set_var_bounds" => given ["lower", "variable", "upper"] [] fun x =>
      [.lower (x 1) (x 0), .upper (x 1) (x 2)]
  | "set_var_bounds_and_type" => given ["lower", "variable", "upper", "var_type"] [] fun x =>
      [.lower (x 1) (x 0), .upper (x 1) (x 2)] ++ ofDomain (x 1) (x 3)
  | _ => []

/-- The problem with the number `id` was made, and calls on it that ended well did `deeds`, one
after the other. In between it was left alone. -/
inductive Performed (id : Nat) : List Deed → Store → Prop
  | new {s : Store} : s.extras = [] →
      (newProblem.perform s).1 = .ok (.object ⟨.problem, id⟩) →
      Performed id [] (newProblem.perform s).2.state
  | call {ds : List Deed} {s : Store} {env : Environment} {method : String} {a : Arguments}
      {v : Value} : Performed id ds s → (callProblem? id method a).isSome → s.Typed method a →
      ((callMethod env (.object ⟨.problem, id⟩) method a).perform s).1 = .ok v →
      Performed id (ds ++ s.deeds id method a)
        ((callMethod env (.object ⟨.problem, id⟩) method a).perform s).2.state
  | meanwhile {ds : List Deed} {s s' : Store} : Performed id ds s → s.Untouched id s' →
      Performed id ds s'

section

variable {id : Nat} {s s' : Store} {ds : List Deed}

/-! ## What changes no constraint and no objective -/

/-- Deeds that only declare something, or set the sense. -/
def OnlyDeclares (ds : List Deed) : Prop :=
  ∀ e ∈ ds, e.addition? = none ∧ e.objective? = none

theorem OnlyDeclares.filterMap_eq (h : OnlyDeclares ds) :
    ds.filterMap Deed.addition? = [] ∧ ds.filterMap Deed.objective? = [] :=
  ⟨List.filterMap_eq_nil_iff.mpr fun e he => (h e he).1,
    List.filterMap_eq_nil_iff.mpr fun e he => (h e he).2⟩

/-- Where the same objects are held, only what is declared and the sense can be others. -/
theorem becomes_of_sameObjects (sound : s.Sound id) (sound' : s'.Sound id) (within : s.Within id s')
    (still : SameObjects id s s') (declares : OnlyDeclares ds)
    (declarations : declarations id s' = ds.foldl Declarations.after (declarations id s))
    (sense : viewSense (s'.problem id).sense =
      (ds.filterMap Deed.sense?).getLast?.getD (viewSense (s.problem id).sense)) :
    (s.viewProblem id).Becomes ds (s'.viewProblem id) := by
  have objective := (retainsObjective_of_within sound within still.objective).view sound sound'
  have retains := retains_of_within sound within (still.stored ▸ List.prefix_refl _)
  refine ⟨declarations, ?_, sense, [], ?_, ?_⟩
  · rw [declares.filterMap_eq.2]
    exact objective
  · rw [retains.constraints_eq sound sound' still.stored, List.append_nil]
  · rw [declares.filterMap_eq.1]
    exact .nil

/-- A store that only has more in it is seen as it was. -/
theorem becomes_of_adds (sound : s.Sound id) (adds : Adds s s') :
    (s.viewProblem id).Becomes [] (s'.viewProblem id) := by
  rw [(adds.untouched sound).viewProblem sound]
  exact Problem.becomes_refl _

theorem becomes_onDeclarations {a : Action Declarations Unit} {s s' : Logged Store}
    (sound : s.state.Sound id) (keeps : Keeps Declarations.Extends a)
    (declares : OnlyDeclares ds) (senseless : ds.filterMap Deed.sense? = [])
    (after : ∀ {t t' : Logged Declarations}, a.runOn t = (.ok (), t') →
      t'.state = ds.foldl Declarations.after t.state)
    (h : (onDeclarations id a).runOn s = (.ok (), s')) :
    (s.state.viewProblem id).Becomes ds (s'.state.viewProblem id) := by
  obtain ⟨sound', still⟩ := (keepsObjects_onDeclarations keeps).of_runOn h sound
  obtain ⟨-, within⟩ := (keeps_onDeclarations keeps).of_runOn h sound
  have problem : s'.state.problem id = { s.state.problem id with
      toDeclarations := (a.runOn ⟨declarations id s.state, s.log⟩).2.state } := by
    rw [← congrArg (fun r => r.2.state) h]
    exact problem_modify sound.present _
  have ok : (a.runOn ⟨declarations id s.state, s.log⟩).1 = .ok () := congrArg Prod.fst h
  refine becomes_of_sameObjects sound sound' within still declares ?_ ?_
  · rw [declarations, problem]
    exact after (Prod.ext ok rfl)
  · rw [problem, senseless]
    rfl

theorem becomes_setLower {v b : Value} {s s' : Logged Store} (sound : s.state.Sound id)
    (h : (onDeclarations id (Declarations.setLower v b)).runOn s = (.ok (), s')) :
    (s.state.viewProblem id).Becomes [.lower v b] (s'.state.viewProblem id) :=
  becomes_onDeclarations sound (Declarations.keeps_setLower v b)
    (by simp [OnlyDeclares, Deed.addition?, Deed.objective?]) rfl Declarations.state_of_setLower h

theorem becomes_setUpper {v b : Value} {s s' : Logged Store} (sound : s.state.Sound id)
    (h : (onDeclarations id (Declarations.setUpper v b)).runOn s = (.ok (), s')) :
    (s.state.viewProblem id).Becomes [.upper v b] (s'.state.viewProblem id) :=
  becomes_onDeclarations sound (Declarations.keeps_setUpper v b)
    (by simp [OnlyDeclares, Deed.addition?, Deed.objective?]) rfl Declarations.state_of_setUpper h

theorem becomes_setDomain {v given : Value} {s s' : Logged Store} (sound : s.state.Sound id)
    (h : (onDeclarations id (Declarations.setDomain v given)).runOn s = (.ok (), s')) :
    (s.state.viewProblem id).Becomes
      ((Declarations.domainNamed? given).toList.map (.domain v)) (s'.state.viewProblem id) := by
  refine becomes_onDeclarations sound (Declarations.keeps_setDomain v given) ?_ ?_
    Declarations.state_of_setDomain h
  · simp [OnlyDeclares, Deed.addition?, Deed.objective?]
  · cases Declarations.domainNamed? given <;> rfl

/-- A call within a call does what the call of its own does. -/
theorem runOn_of_madeOnProblem {call : String} {args : List Value} {own : Action Store Unit}
    {s s' : Logged Store} (sound : s.state.Sound id)
    (h : (madeOnProblem id call args own).runOn s = (.ok (), s')) :
    own.runOn s = (.ok (), s') :=
  (runOn_madeOnProblem sound).symm.trans h

theorem becomes_setBounds {lower v upper : Value} {s s' : Logged Store} (sound : s.state.Sound id)
    (h : (setBounds id lower v upper).runOn s = (.ok (), s')) :
    (s.state.viewProblem id).Becomes [.lower v lower, .upper v upper]
      (s'.state.viewProblem id) := by
  obtain ⟨_, s₁, first, second⟩ := runOn_bind_eq_ok.mp h
  have first := runOn_of_madeOnProblem sound first
  have sound₁ := ((keeps_onDeclarations (Declarations.keeps_setLower v lower)).of_runOn first
    sound).1
  exact (becomes_setLower sound first).trans
    (becomes_setUpper sound₁ (runOn_of_madeOnProblem sound₁ second))

theorem becomes_setBoundsAndDomain {lower v upper given : Value} {s s' : Logged Store}
    (sound : s.state.Sound id)
    (h : (setBoundsAndDomain id lower v upper given).runOn s = (.ok (), s')) :
    (s.state.viewProblem id).Becomes ([.lower v lower, .upper v upper] ++
      (Declarations.domainNamed? given).toList.map (.domain v)) (s'.state.viewProblem id) := by
  obtain ⟨_, s₁, first, second⟩ := runOn_bind_eq_ok.mp h
  have first := runOn_of_madeOnProblem sound first
  have sound₁ := ((keeps_setBounds lower v upper).of_runOn first sound).1
  exact (becomes_setBounds sound first).trans
    (becomes_setDomain sound₁ (runOn_of_madeOnProblem sound₁ second))

theorem senseGiven?_of_senseOf {given : Value} {named : Option Sense} {s' : Logged Store}
    (h : (senseOf given).runOn ⟨s, []⟩ = (.ok named, s')) : s.senseGiven? given = named := by
  unfold senseOf at h
  rw [runOn_bind, runOn_attempt] at h
  rw [senseGiven?, perform]
  cases written : ((textOf given).runOn ⟨s, []⟩).1 with
  | ok text =>
      rw [written] at h
      exact Except.ok.inj (congrArg Prod.fst h)
  | error f =>
      rw [written] at h
      dsimp only at h
      split at h
      · exact Except.ok.inj (congrArg Prod.fst h)
      · cases h

theorem becomes_setSense {given : Value} {s' : Logged Store} (sound : s.Sound id)
    (h : (setSense id given).runOn ⟨s, []⟩ = (.ok (), s')) :
    (s.viewProblem id).Becomes ((s.senseGiven? given).toList.map .sense)
      (s'.state.viewProblem id) := by
  obtain ⟨sound', still⟩ := (keepsObjects_setSense given).of_runOn h sound
  obtain ⟨-, within⟩ := (keeps_setSense given).of_runOn h sound
  have listed : declarations id s'.state = declarations id s :=
    (sameDeclarations_setSense given).of_runOn h
  refine becomes_of_sameObjects sound sound' within still ?_ ?_ ?_
  · simp [OnlyDeclares, Deed.addition?, Deed.objective?]
  · rw [listed]
    cases s.senseGiven? given <;> rfl
  · obtain ⟨named, s₁, stands, h⟩ := runOn_bind_eq_ok.mp h
    have same := (keeps_senseOf given).of_runOn stands
    rw [senseGiven?_of_senseOf stands]
    cases named with
    | some sense =>
        have present : id < s₁.state.problems.length := same.problems ▸ sound.present
        have set : s'.state.problem id =
            { s₁.state.problem id with sense := .symbol (.sense sense) } :=
          (congrArg (fun r => r.2.state.problem id) h).symm.trans (problem_modify present _)
        rw [set]
        simp [Deed.sense?, viewSense]
    | none =>
        obtain ⟨_, s₂, ⟨⟩, h⟩ := runOn_bind_eq_ok.mp h
        have left : s'.state.problem id = s.problem id :=
          (congrArg (fun r => r.2.state.problem id) h).symm.trans (same.adds.problem_eq id)
        rw [left]
        simp

/-! ## The objective -/

theorem problem_withObjective (sound : s.Sound id) (l : Linear) :
    (s.withObjective id l).problem id =
      { (s.problem id) with
        toDeclarations := (declarations id s).after (.objective l)
        objective := .object ⟨.linear, s.linears.length⟩ } := by
  have present : id < (s.registering id l.vars).problems.length := by
    simpa [registering] using sound.present
  have changed : (s.withObjective id l).problem id =
      { (s.registering id l.vars).problem id with
        objective := .object ⟨.linear, s.linears.length⟩ } := problem_modify present _
  rw [changed, problem_registering sound.present]
  rfl

theorem becomes_withObjective {l : Linear} (sound : s.Sound id)
    (sound' : (s.withObjective id l).Sound id) (within : s.Within id (s.withObjective id l)) :
    (s.viewProblem id).Becomes [.objective l] ((s.withObjective id l).viewProblem id) := by
  have problem := problem_withObjective sound l
  have stored : (s.withObjective id l).stored id = s.stored id := by
    rw [Store.stored, Store.stored, problem]
    rfl
  have retains := retains_of_within sound within (stored ▸ List.prefix_refl _)
  have copy : (s.withObjective id l).linear s.linears.length = l := by simp [linear, withObjective]
  refine ⟨congrArg ProblemObject.toDeclarations problem, ?_, ?_, [], ?_, .nil⟩
  · change ((s.withObjective id l).problem id).objective.toOption.map _ = _
    rw [problem]
    change some ((s.withObjective id l).viewExpression _) = _
    rw [viewExpression_linear sound'.extras, copy]
    rfl
  · change viewSense ((s.withObjective id l).problem id).sense = _
    rw [problem]
    rfl
  · rw [retains.constraints_eq sound sound' stored, List.append_nil]

theorem becomes_setObjective {objective sense : Value} {s' : Logged Store} (sound : s.Sound id)
    (h : (setObjective id objective sense).runOn ⟨s, []⟩ = (.ok (), s')) :
    ∃ l, s.linearOf objective = .ok l ∧ (s.viewProblem id).Becomes (.objective l ::
      if sense.isNone then [] else ((s.withObjective id l).senseGiven? sense).toList.map .sense)
        (s'.state.viewProblem id) := by
  cases hr : (s.walk objective).mapM "" registrable with
  | error f =>
      rw [runOn_setObjective_of_error hr] at h
      cases h
  | ok vs =>
      obtain ⟨l, hl, -, run⟩ := runOn_setObjective_of_ok id (s := ⟨s, []⟩) hr sense
      -- Without a sense, the call ends in between.
      obtain ⟨l', hl', -, alone⟩ := runOn_setObjective_of_ok id (s := ⟨s, []⟩) hr .none
      obtain rfl : l = l' := Except.ok.inj (hl.symm.trans hl')
      obtain ⟨sound₁, within⟩ := (keeps_setObjective objective .none).of_runOn alone sound
      have first := becomes_withObjective sound sound₁ within
      rw [run] at h
      refine ⟨l, hl, ?_⟩
      cases none : sense.isNone with
      | true =>
          rw [none] at h
          cases h
          exact first
      | false =>
          rw [none] at h
          exact first.trans (becomes_setSense sound₁ (runOn_of_madeOnProblem sound₁ h))

/-! ## Constraints -/

theorem state_of_registerTerms {s s' : Logged Store} {v : Value}
    (h : (registerTerms id v).runOn s = (.ok (), s')) :
    ∃ l, s.state.linearOf v = .ok l ∧ s' = { s with state := s.state.registering id l.vars } := by
  cases hr : (s.state.walk v).mapM "" registrable with
  | error f =>
      rw [runOn_registerTerms, hr] at h
      cases h
  | ok vs =>
      obtain ⟨l, hl, -, run⟩ := runOn_registerTerms_of_ok hr
      exact ⟨l, hl, congrArg Prod.snd (h.symm.trans run)⟩

/-- A constraint that is taken in is held behind those that were there, and its variables have been
registered. -/
theorem state_of_takeConstraint {s s' : Logged Store} {v : Value} {c i : Nat}
    {o : ConstraintObject} (sound : s.state.Sound id) (ho : s.state.constraints[c]? = some o)
    (hi : o.lhs = .object ⟨.linear, i⟩)
    (h : (takeConstraint id (.object ⟨.constraint, c⟩)).runOn s = (.ok v, s')) :
    s'.state.stored id = s.state.stored id ++ [.object ⟨.constraint, c⟩] ∧
      s'.state.problem id = (s.state.registering id (s.state.linear i).vars).problem id := by
  have lhs : s.state.lhsOf (.object ⟨.constraint, c⟩) = .object ⟨.linear, i⟩ :=
    (lhsOf_constraint ho).trans hi
  unfold takeConstraint at h
  obtain ⟨_, _, ⟨⟩, h⟩ := runOn_bind_eq_ok.mp h
  rw [lhs] at h
  obtain ⟨_, s₁, registered, h⟩ := runOn_bind_eq_ok.mp h
  obtain ⟨sound₁, still⟩ := (keepsObjects_registerTerms _).of_runOn registered sound
  obtain ⟨l, hl, rfl⟩ := state_of_registerTerms registered
  obtain rfl : s.state.linear i = l := Except.ok.inj ((linearOf_linear s.state i).symm.trans hl)
  obtain ⟨_, _, ⟨⟩, h⟩ := runOn_bind_eq_ok.mp h
  obtain ⟨_, s₂, appended, h⟩ := runOn_bind_eq_ok.mp h
  cases h
  have added := stored_append sound₁ (.object ⟨.constraint, c⟩) s.log
  obtain ⟨list, hlist, -⟩ := sound₁.exists_stored
  rw [hlist, runOn_append] at appended added
  cases appended
  exact ⟨added.trans (congrArg (· ++ _) still.stored), rfl⟩

/-- A constraint that is taken in is seen behind those that were there. -/
theorem becomes_takeConstraint {added : Addition} {s s' : Logged Store} {v : Value} {c i : Nat}
    {o : ConstraintObject} (sound : s.state.Sound id) (ho : s.state.constraints[c]? = some o)
    (hi : o.lhs = .object ⟨.linear, i⟩) (there : i < s.state.linears.length)
    (shown : added.Shown ⟨.linear (s.state.linear i), o.operator, o.rhs, o.name⟩)
    (h : (takeConstraint id (.object ⟨.constraint, c⟩)).runOn s = (.ok v, s')) :
    (s.state.viewProblem id).Becomes [.add added] (s'.state.viewProblem id) := by
  have row : s.state.IsRow (.object ⟨.constraint, c⟩) := ⟨c, o, i, rfl, ho, hi, there⟩
  have grows : Grows id s.state _ := grows_takeConstraint row
  rw [h] at grows
  obtain ⟨sound', within⟩ := grows sound
  obtain ⟨stored, problem⟩ := state_of_takeConstraint sound ho hi h
  rw [problem_registering sound.present] at problem
  have retains := retains_of_within sound within (stored ▸ List.prefix_append _ _)
  have same := retains.viewAll sound sound' fun v hv => hv
  obtain ⟨cs, hcs, -⟩ := viewAll_of_statedRow sound.extras sound.rows
  have seen : s'.state.viewConstraint c =
      ⟨.linear (s.state.linear i), o.operator, o.rhs, o.name⟩ := by
    rw [viewConstraint_eq sound'.extras (getElem?_mono within.constraints ho) hi, linear, linear,
      getElem?_eq_mono within.linears (List.getElem?_eq_getElem there)]
  have names : (Deed.add added).vars = (s.state.linear i).vars :=
    congrArg Linear.vars (Expression.linear.inj shown.lhs).symm
  refine ⟨?_, ?_, ?_, [s'.state.viewConstraint c], ?_, .cons (seen ▸ shown) .nil⟩
  · change (s'.state.problem id).toDeclarations = _
    rw [problem, ← names]
    rfl
  · exact (retainsObjective_of_within sound within (by rw [problem])).view sound sound'
  · change viewSense (s'.state.problem id).sense = _
    rw [problem]
    rfl
  · rw [sound'.viewProblem_constraints, sound.viewProblem_constraints, stored]
    change (s'.state.viewAll _).1 = (s.state.viewAll _).1 ++ _
    rw [viewAll_append (by rw [same, hcs]), same]
    rfl

/-- A constraint over a copy has the terms of what was copied, and is named as was said. -/
theorem becomes_takeCopy {lhs operator rhs name v : Value} {s s' : Logged Store}
    (sound : s.state.Sound id)
    (h : (constraintOfCopy lhs operator rhs name >>= takeConstraint id).runOn s = (.ok v, s')) :
    ∃ added, s.state.additionOfCopy? lhs operator rhs name = some added ∧
      (s.state.viewProblem id).Becomes [.add added] (s'.state.viewProblem id) := by
  obtain ⟨w, s₁, hw, h⟩ := runOn_bind_eq_ok.mp h
  obtain ⟨l, hl, copied, o, ho, made⟩ := constraintOfCopy_eq_ok hw
  obtain ⟨r, hr, relation⟩ := made.relation
  have adds := (adds_constraintOfCopy lhs operator rhs name).of_runOn hw
  have there : s₁.state.constraints[s.state.constraints.length]? = some o := by simp [ho]
  refine ⟨⟨l, .symbol (.relation r), rhs, name.toOption⟩, ?_, ?_⟩
  · rw [additionOfCopy?, hl, hr]
    rfl
  · refine (becomes_of_adds sound adds).trans ?_
    rw [copied.value] at h
    refine becomes_takeConstraint (adds.grows sound).1 there made.left (by simp [copied.linears])
      ⟨?_, relation, made.right, made.named, fun unnamed closed => ?_⟩ h
    · rw [copied.linear]
    · obtain ⟨t, text, named⟩ := made.unnamed unnamed
      rw [named]
      rw [relation] at text
      exact closed.namedByText (by simp [linear]) text

theorem becomes_addToProblem {parts : List Value} {name v : Value} {s s' : Logged Store}
    (sound : s.state.Sound id)
    (typed : ∀ c, parts = [.object ⟨.constraint, c⟩] → s.state.IsRow (.object ⟨.constraint, c⟩))
    (h : (addToProblem id parts name).runOn s = (.ok v, s')) :
    ∃ added, s.state.additionGiven? parts name = some added ∧
      (s.state.viewProblem id).Becomes [.add added] (s'.state.viewProblem id) := by
  unfold addToProblem at h
  split at h
  · rename_i c
    split at h
    · rename_i unnamed
      obtain ⟨_, o, i, ⟨⟩, ho, hi, there⟩ := typed c rfl
      have found : s.state.constraint c = o := by simp [constraint, ho]
      refine ⟨⟨s.state.linear i, o.operator, o.rhs, some o.name⟩, ?_, ?_⟩
      · simp [additionGiven?, unnamed, found, hi, linearOf_linear, Except.toOption]
      · refine becomes_takeConstraint sound ho hi there ⟨rfl, rfl, rfl, ?_, ?_⟩ h
        · exact fun n hn => Option.some.inj hn
        · rintro ⟨⟩
    · rename_i named
      obtain ⟨_, _, ⟨⟩, h⟩ := runOn_bind_eq_ok.mp h
      simpa [additionGiven?, named] using becomes_takeCopy sound h
  · simpa [additionGiven?] using becomes_takeCopy sound h
  · split at h
    · simpa [additionGiven?] using becomes_takeCopy sound h
    · simp at h
  · simp at h

/-! ## Calls -/

theorem silently_eq_ok {body : Action Store Unit} {v : Value} {s s' : Logged Store}
    (h : (silently body).runOn s = (.ok v, s')) : body.runOn s = (.ok (), s') := by
  obtain ⟨_, s₁, hb, h⟩ := runOn_bind_eq_ok.mp h
  cases h
  exact hb

/-- A call that ends well was given the arguments of its signature. -/
theorem becomes_calling {name : String} {required : List String}
    {optional : List (String × Value)} {a : Arguments} {body : (Nat → Value) → Action Store Value}
    {ds : (Nat → Value) → List Deed} {v : Value} {s' : Logged Store}
    (h : (calling name required optional a body).runOn ⟨s, []⟩ = (.ok v, s'))
    (each : ∀ x, (body x).runOn ⟨s, []⟩ = (.ok v, s') →
      (s.viewProblem id).Becomes (ds x) (s'.state.viewProblem id)) :
    (s.viewProblem id).Becomes
      ((Signature.bind ⟨name, required, optional, some "self"⟩ a).toOption.elim [] ds)
      (s'.state.viewProblem id) := by
  unfold calling callingOn at h
  obtain ⟨x, s₁, hx, h⟩ := runOn_bind_eq_ok.mp h
  obtain rfl : ⟨s, []⟩ = s₁ := congrArg Prod.snd hx
  have bound : Signature.bind ⟨name, required, optional, some "self"⟩ a = .ok x :=
    congrArg Prod.fst hx
  rw [bound]
  exact each x h

/-- A call that reads does nothing. -/
theorem becomes_reads {name : String} {a : Arguments} {f : Store → Value → Except Fault Value}
    {v : Value} {s' : Logged Store} (h : (calling name ["variable"] [] a fun x =>
      Action.read >>= fun s => Action.ofExcept (f s (x 0))).runOn ⟨s, []⟩ = (.ok v, s')) :
    (s.viewProblem id).Becomes [] (s'.state.viewProblem id) := by
  have unchanged : Keeps Eq (calling name ["variable"] [] a fun x =>
      Action.read >>= fun s => Action.ofExcept (f s (x 0))) :=
    keeps_calling fun _ => keeps_read.bind fun _ => keeps_ofExcept _
  have same : s = s'.state := unchanged.of_runOn h
  exact same ▸ Problem.becomes_refl _

/-- What is seen of a problem after a call on it comes of `deeds`. -/
theorem becomes_call {method : String} {a : Arguments} {act : Action Store Value} {v : Value}
    {s' : Logged Store} (known : callProblem? id method a = some act) (typed : s.Typed method a)
    (sound : s.Sound id) (h : act.runOn ⟨s, []⟩ = (.ok v, s')) :
    (s.viewProblem id).Becomes (s.deeds id method a) (s'.state.viewProblem id) := by
  unfold callProblem? at known
  split at known
  · cases known
    refine becomes_calling h fun x h => ?_
    obtain ⟨l, hl, becomes⟩ := becomes_setObjective sound (silently_eq_ok h)
    rw [hl]
    exact becomes
  · cases known
    exact becomes_calling h fun x h => becomes_setSense sound (silently_eq_ok h)
  · cases known
    obtain ⟨_, s₁, refused, h⟩ := runOn_bind_eq_ok.mp h
    have same : s = s₁.state := (keeps_refuseNames _ _ _).of_runOn refused
    rw [same] at sound typed ⊢
    obtain ⟨added, given, becomes⟩ := becomes_addToProblem sound (typed rfl) h
    simpa [deeds, given] using becomes
  · cases known
    exact becomes_reads (f := fun s v => (s.domainOf id v).map fun d => .symbol (.domain d)) h
  · cases known
    exact becomes_reads (f := fun s v => s.lowerOf id v) h
  · cases known
    exact becomes_reads (f := fun s v => s.upperOf id v) h
  · cases known
    exact becomes_calling h fun x h => becomes_setDomain (s := ⟨s, []⟩) sound (silently_eq_ok h)
  · cases known
    exact becomes_calling h fun x h => becomes_setLower (s := ⟨s, []⟩) sound (silently_eq_ok h)
  · cases known
    exact becomes_calling h fun x h => becomes_setUpper (s := ⟨s, []⟩) sound (silently_eq_ok h)
  · cases known
    exact becomes_calling h fun x h => becomes_setBounds (s := ⟨s, []⟩) sound (silently_eq_ok h)
  · cases known
    exact becomes_calling h fun x h =>
      becomes_setBoundsAndDomain (s := ⟨s, []⟩) sound (silently_eq_ok h)
  · cases known

/-- What is done when a call has ended is not seen of the problem. -/
theorem becomes_callMethod (sound : s.Sound id) (env : Environment) {method : String}
    {a : Arguments} {v : Value} (known : (callProblem? id method a).isSome)
    (typed : s.Typed method a)
    (ok : ((callMethod env (.object ⟨.problem, id⟩) method a).perform s).1 = .ok v) :
    (s.viewProblem id).Becomes (s.deeds id method a)
      (((callMethod env (.object ⟨.problem, id⟩) method a).perform s).2.state.viewProblem id) := by
  obtain ⟨act, hact⟩ := Option.isSome_iff_exists.mp known
  have after := sameParts_callMethod env (.object ⟨.problem, id⟩) method a s
  obtain ⟨w, answer⟩ := ok_of_callMethod ok
  rw [runOn_callProblem (s := ⟨s, []⟩) hact sound] at after answer
  have ended := becomes_call hact typed sound (Prod.ext answer rfl)
  have sound' := (grows_call hact (s := ⟨s, []⟩) typed sound).1
  have told := becomes_of_adds sound' after.adds
  simpa using ended.trans told

/-! ## Runs -/

theorem Performed.built (h : Performed id ds s) : Built id s := by
  induction h with
  | new extras h => exact .new extras h
  | call _ known typed _ ih => exact ih.call known typed
  | meanwhile _ untouched ih => exact ih.meanwhile untouched

/-- What `viewProblem` shows of a problem comes of all deeds that were `Performed`. -/
theorem Performed.becomes (h : Performed id ds s) :
    Problem.empty.Becomes ds (s.viewProblem id) := by
  induction h with
  | @new s extras h =>
      have new := problem_newProblem h
      have sound := sound_new extras h
      have stored : (newProblem.perform s).2.state.stored id = [] := by
        rw [Store.stored, new]
        simp [perform_newProblem, list]
      refine ⟨congrArg ProblemObject.toDeclarations new, ?_, ?_, [], ?_, .nil⟩
      · change ((newProblem.perform s).2.state.problem id).objective.toOption.map _ = _
        rw [new]
        rfl
      · exact congrArg (fun p : ProblemObject => viewSense p.sense) new
      · rw [sound.viewProblem_constraints, stored]
        rfl
  | call before known typed ok ih =>
      exact ih.trans (becomes_callMethod before.built.sound _ known typed ok)
  | meanwhile before untouched ih =>
      rw [untouched.viewProblem before.built.sound]
      exact ih

end

end Milp.Store
