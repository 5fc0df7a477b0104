import Milp.Proofs.Store.Sound
import Milp.Call.Method

/-!
# Calls on a problem

Every call on a problem that is sound leaves it sound, whether it ends or is broken off, and takes
nothing away of what is stated in terms of its variables.
-/

namespace Milp.Store

open Milp.Action

section

variable {id : Nat} {s s' : Store} {d : Declarations} {v : Value}

/-! ## Making constraints -/

theorem adds_makeConstraint (lhs operator rhs name : Value) :
    Keeps Adds (makeConstraint lhs operator rhs name) := by
  unfold makeConstraint
  refine (keeps_ofExcept _).bind fun _ => ?_
  split
  · exact ((Store.keeps_writing _).imp fun _ _ h => h.adds).bind fun _ => adds_newConstraint _
  · exact adds_newConstraint _

theorem adds_constraintOfCopy (lhs operator rhs name : Value) :
    Keeps Adds (constraintOfCopy lhs operator rhs name) :=
  keeps_read.bind fun _ => (keeps_ofExcept _).bind fun _ => (adds_newLinear _).bind fun _ =>
    adds_makeConstraint _ _ _ _

theorem keeps_constraintOfCopy (lhs operator rhs name : Value) :
    Keeps (Grows id) (constraintOfCopy lhs operator rhs name) :=
  (adds_constraintOfCopy lhs operator rhs name).imp fun _ _ h => h.grows

def IsRow (s : Store) (v : Value) : Prop :=
  ∃ c o i, v = .object ⟨.constraint, c⟩ ∧ s.constraints[c]? = some o ∧
    o.lhs = .object ⟨.linear, i⟩ ∧ i < s.linears.length

theorem lhsOf_constraint {c : Nat} {o : ConstraintObject} (ho : s.constraints[c]? = some o) :
    s.lhsOf (.object ⟨.constraint, c⟩) = o.lhs := by
  rw [lhsOf, constraint, ho]
  rfl

theorem isRow_of_newConstraint {c : ConstraintObject} {i : Nat} {v : Value} {s s' : Logged Store}
    (hi : i < s.state.linears.length) (hc : c.lhs = .object ⟨.linear, i⟩)
    (h : (newConstraint c).runOn s = (.ok v, s')) : s'.state.IsRow v := by
  unfold newConstraint at h
  obtain ⟨_, _, ⟨⟩, h⟩ := runOn_bind_eq_ok.mp h
  obtain ⟨_, _, ⟨⟩, h⟩ := runOn_bind_eq_ok.mp h
  cases h
  exact ⟨_, c, i, rfl, by simp, hc, hi⟩

theorem isRow_of_makeConstraint {i : Nat} {operator rhs name v : Value} {s s' : Logged Store}
    (hi : i < s.state.linears.length)
    (h : (makeConstraint (.object ⟨.linear, i⟩) operator rhs name).runOn s = (.ok v, s')) :
    s'.state.IsRow v := by
  unfold makeConstraint at h
  obtain ⟨_, s₁, hr, h⟩ := runOn_bind_eq_ok.mp h
  obtain rfl : s = s₁ := congrArg Prod.snd hr
  dsimp only at h
  split at h
  · obtain ⟨own, s₂, hw, h⟩ := runOn_bind_eq_ok.mp h
    have same := (keeps_writing _).of_runOn hw
    exact isRow_of_newConstraint (same.linears ▸ hi) rfl h
  · exact isRow_of_newConstraint hi rfl h

/-- A constraint that was made of a copy is one over an expression. -/
theorem isRow_of_constraintOfCopy {lhs operator rhs name v : Value} {s s' : Logged Store}
    (h : (constraintOfCopy lhs operator rhs name).runOn s = (.ok v, s')) : s'.state.IsRow v := by
  unfold constraintOfCopy at h
  obtain ⟨_, _, ⟨⟩, h⟩ := runOn_bind_eq_ok.mp h
  obtain ⟨l, s₁, hl, h⟩ := runOn_bind_eq_ok.mp h
  obtain ⟨copy, s₂, hcopy, h⟩ := runOn_bind_eq_ok.mp h
  unfold newLinear at hcopy
  obtain ⟨_, _, ⟨⟩, hcopy⟩ := runOn_bind_eq_ok.mp hcopy
  obtain ⟨_, _, ⟨⟩, hcopy⟩ := runOn_bind_eq_ok.mp hcopy
  cases hcopy
  exact isRow_of_makeConstraint (by simp) h

/-! ## Taking constraints in -/

/-- A constraint that is stated in terms of registered variables may be added. -/
theorem keeps_append {s : Store} (sound : s.Sound id)
    {v : Value} (stated : s.StatedRow (s.problem id).toDeclarations v) (log : List Message) :
    let s' := ((append (s.problem id).constraints v).runOn ⟨s, log⟩).2.state
    s'.Sound id ∧ s.Within id s' := by
  obtain ⟨l, vs, hl, hvs, rows⟩ := sound.constraints
  rw [hl]
  refine ⟨⟨sound.present, sound.distinct, ⟨l, vs ++ [v], hl, ?_, ?_⟩, sound.objective,
    sound.extras⟩, List.prefix_refl _, List.prefix_refl _, fun _ h => h⟩
  · change (s.lists.modify l fun xs => xs ++ [v])[l]? = some (vs ++ [v])
    simp [hvs]
  · intro w hw
    rcases List.mem_append.mp hw with hw | hw
    · exact rows w hw
    · obtain rfl := List.mem_singleton.mp hw
      exact stated

theorem linearOf_linear (s : Store) (i : Nat) :
    s.linearOf (.object ⟨.linear, i⟩) = .ok (s.linear i) := by
  have terms : ((s.linear i).terms.map Term.toValue).mapM s.termOf = .ok (s.linear i).terms := by
    rw [mapM_eq_ok, List.forall₂_map_left_iff, List.forall₂_same]
    exact fun t _ => rfl
  have walk : s.walk (.object ⟨.linear, i⟩) =
      .ofList ((s.linear i).terms.map Term.toValue) := rfl
  simp only [linearOf, walk, Series.mapM_ofList, terms]
  rfl

/-- A constraint over an expression is taken in after its variables have been registered. -/
theorem grows_takeConstraint {v : Value} {s : Logged Store} (row : s.state.IsRow v) :
    Grows id s.state ((takeConstraint id v).runOn s).2.state := by
  intro sound
  obtain ⟨c, o, i, rfl, ho, hlhs, hi⟩ := row
  have lhs := (lhsOf_constraint ho).trans hlhs
  unfold takeConstraint
  simp only [runOn_bind, runOn_read, lhs]
  have keeps : Keeps (Grows id) (registerTerms id (.object ⟨.linear, i⟩)) := keeps_registerTerms _
  rcases hr : (registerTerms id (.object ⟨.linear, i⟩)).runOn s with ⟨f | u, s₁⟩
  · exact keeps.of_runOn hr sound
  · obtain ⟨sound₁, within⟩ := keeps.of_runOn hr sound
    have registered := registered_of_registerTerms sound hr (linearOf_linear s₁.state i)
    have there : s₁.state.linears[i]? = some (s₁.state.linear i) := by
      have hi : i < s₁.state.linears.length := hi.trans_le within.linears.length_le
      simp [linear, hi]
    have stated : s₁.state.StatedRow (s₁.state.problem id).toDeclarations
        (.object ⟨.constraint, c⟩) :=
      ⟨c, o, rfl, getElem?_mono within.constraints ho, i, _, hlhs, there, registered⟩
    obtain ⟨sound₂, within₂⟩ := keeps_append sound₁ stated s₁.log
    dsimp only
    rcases ha : (append (s₁.state.problem id).constraints (.object ⟨.constraint, c⟩)).runOn s₁
      with ⟨f | u, s₂⟩ <;> rw [ha] at sound₂ within₂
    · exact ⟨sound₂, within.trans within₂⟩
    · exact ⟨sound₂, within.trans within₂⟩

/-! ## Calls -/

/-- A constraint that is handed over as it is is one over an expression. -/
def Typed (s : Store) (method : String) (a : Arguments) : Prop :=
  method = "add" → ∀ c, a.inOrder = [.object ⟨.constraint, c⟩] → s.IsRow (.object ⟨.constraint, c⟩)

theorem grows_addToProblem {parts : List Value} {name : Value} {s : Logged Store}
    (typed : ∀ c, parts = [.object ⟨.constraint, c⟩] → s.state.IsRow (.object ⟨.constraint, c⟩)) :
    Grows id s.state ((addToProblem id parts name).runOn s).2.state := by
  have copied (lhs operator rhs name : Value) (s : Logged Store) : Grows id s.state
      ((constraintOfCopy lhs operator rhs name >>= takeConstraint id).runOn s).2.state :=
    rel_bind (keeps_constraintOfCopy _ _ _ _ s) fun v s₁ h =>
      grows_takeConstraint (isRow_of_constraintOfCopy h)
  unfold addToProblem
  split
  · rename_i c
    split
    · exact grows_takeConstraint (typed c rfl)
    · exact rel_bind (keeps_read s) fun _ s₁ h => copied _ _ _ _ s₁
  · exact copied _ _ _ _ s
  · split
    · exact copied _ _ _ _ s
    · exact Std.Refl.refl s.state
  · exact Std.Refl.refl s.state

theorem keeps_senseOf (given : Value) : Keeps SameParts (senseOf given) := by
  refine (keeps_attempt (keeps_textOf given)).bind fun r => ?_
  cases r with
  | ok text => exact keeps_pure _
  | error f =>
      dsimp only
      split
      · exact keeps_pure _
      · exact keeps_throw _

theorem keeps_setSense (given : Value) : Keeps (Grows id) (setSense id given) := by
  unfold setSense
  refine Keeps.bind ((keeps_senseOf given).imp fun _ _ h => h.grows) fun sense => ?_
  split
  · rename_i sense
    exact keeps_update fun s => grows_modify s (fun p => { p with sense := .symbol (.sense sense) })
      (Std.Refl.refl _) rfl (.inl rfl)
  · exact keeps_read.bind fun _ => keeps_note _ _ _

/-- A call within a call is its own, since no member was replaced. -/
theorem runOn_madeOnProblem {call : String} {args : List Value} {own : Action Store Unit}
    {s : Logged Store} (sound : s.state.Sound id) :
    (madeOnProblem id call args own).runOn s = own.runOn s := by
  have plain : s.state.extra? (.object ⟨.problem, id⟩) call = none := by
    rw [extra?, sound.extras]
    rfl
  simp only [madeOnProblem, unlessReplaced, runOn_bind, runOn_read, plain]
  rcases own.runOn s with ⟨f | u, s₁⟩
  · rfl
  · rfl

theorem keeps_madeOnProblem {call : String} {args : List Value} {own : Action Store Unit}
    (h : Keeps (Grows id) own) : Keeps (Grows id) (madeOnProblem id call args own) := by
  intro s sound
  rw [runOn_madeOnProblem sound]
  exact h s sound

theorem keeps_setBounds (lower var upper : Value) :
    Keeps (Grows id) (setBounds id lower var upper) :=
  (keeps_madeOnProblem (keeps_onDeclarations (Declarations.keeps_setLower _ _))).bind fun _ =>
    keeps_madeOnProblem (keeps_onDeclarations (Declarations.keeps_setUpper _ _))

theorem keeps_setBoundsAndDomain (lower var upper given : Value) :
    Keeps (Grows id) (setBoundsAndDomain id lower var upper given) :=
  (keeps_madeOnProblem (keeps_setBounds _ _ _)).bind fun _ =>
    keeps_madeOnProblem (keeps_onDeclarations (Declarations.keeps_setDomain _ _))

/-- A copy of an expression over registered variables may become the objective. -/
theorem grows_takeObjective {l : Linear} {copy : Value} {s s' : Logged Store}
    (registered : ∀ t ∈ l.terms, (s.state.problem id).Registered t.var)
    (h : (newLinear l).runOn s = (.ok copy, s')) :
    Grows id s'.state
      ((changeProblem id fun p => { p with objective := copy }).runOn s').2.state := by
  unfold newLinear at h
  obtain ⟨_, _, ⟨⟩, h⟩ := runOn_bind_eq_ok.mp h
  obtain ⟨_, _, ⟨⟩, h⟩ := runOn_bind_eq_ok.mp h
  cases h
  refine grows_modify _ (fun p => { p with objective := _ }) (Std.Refl.refl _) rfl (.inr ?_)
  exact ⟨_, l, rfl, by simp, registered⟩

/-- The objective becomes a copy of an expression whose variables have been registered. -/
theorem keeps_setObjective (objective sense : Value) :
    Keeps (Grows id) (setObjective id objective sense) := by
  intro s sound
  unfold setObjective
  refine rel_bind (keeps_registerTerms objective s) (fun u s₁ hr => ?_) sound
  obtain ⟨sound₁, -⟩ := (keeps_registerTerms objective).of_runOn hr sound
  refine rel_bind (keeps_read s₁) fun s₂ _ h => ?_
  cases h
  refine rel_bind (keeps_ofExcept _ s₁) fun l _ h => ?_
  have hl : s₁.state.linearOf objective = .ok l := congrArg Prod.fst h
  cases congrArg Prod.snd h
  refine rel_bind (keeps_newLinear l s₁) fun copy s₂ hcopy => ?_
  refine rel_bind (grows_takeObjective (registered_of_registerTerms sound hr hl) hcopy)
    fun _ s₃ _ => ?_
  split
  · exact keeps_madeOnProblem (keeps_setSense sense) s₃
  · exact keeps_pure () s₃

theorem keeps_silently {R : Store → Store → Prop} [Std.Refl R] [IsTrans Store R]
    {a : Action Store Unit} (h : Keeps R a) : Keeps R (silently a) :=
  h.bind fun _ => keeps_pure _

theorem keeps_calling {R : Store → Store → Prop} [Std.Refl R] [IsTrans Store R] {α : Type}
    {name : String} {required : List String} {optional : List (String × Value)} {a : Arguments}
    {body : (Nat → Value) → Action Store α} (h : ∀ x, Keeps R (body x)) :
    Keeps R (calling name required optional a body) :=
  (keeps_ofExcept _).bind h

theorem keeps_refuseNames (name : String) (known : List String) (a : Arguments) :
    Keeps Eq (refuseNames name known a) := by
  unfold refuseNames
  split
  · exact keeps_throw _
  · exact keeps_pure _

/-- `callProblem?` gives calls that leave a problem sound, however they end (`Grows`). -/
theorem grows_call {method : String} {a : Arguments} {act : Action Store Value} {s : Logged Store}
    (known : callProblem? id method a = some act) (typed : s.state.Typed method a) :
    Grows id s.state (act.runOn s).2.state := by
  have reads {α : Type} (e : Store → Except Fault α) :
      Keeps (Grows id) (Action.read >>= fun s => Action.ofExcept (e s)) :=
    keeps_read.bind fun _ => keeps_ofExcept _
  unfold callProblem? at known
  split at known
  · cases known
    exact keeps_calling (fun _ => keeps_silently (keeps_setObjective _ _)) s
  · cases known
    exact keeps_calling (fun _ => keeps_silently (keeps_setSense _)) s
  · cases known
    have refuse := keeps_refuseNames "Problem.add" ["name"] a
    refine rel_bind ((refuse.imp fun _ _ h => h ▸ Std.Refl.refl _) s) fun _ s₁ h => ?_
    have same : s.state = s₁.state := refuse.of_runOn h
    exact grows_addToProblem fun c hc => same ▸ typed rfl c hc
  · cases known
    exact keeps_calling (fun _ => reads _) s
  · cases known
    exact keeps_calling (fun _ => reads _) s
  · cases known
    exact keeps_calling (fun _ => reads _) s
  · cases known
    exact keeps_calling (fun _ => keeps_silently <|
      keeps_onDeclarations (Declarations.keeps_setDomain _ _)) s
  · cases known
    exact keeps_calling (fun _ => keeps_silently <|
      keeps_onDeclarations (Declarations.keeps_setLower _ _)) s
  · cases known
    exact keeps_calling (fun _ => keeps_silently <|
      keeps_onDeclarations (Declarations.keeps_setUpper _ _)) s
  · cases known
    exact keeps_calling (fun _ => keeps_silently (keeps_setBounds _ _ _)) s
  · cases known
    exact keeps_calling (fun _ => keeps_silently (keeps_setBoundsAndDomain _ _ _ _)) s
  · cases known

end

end Milp.Store
