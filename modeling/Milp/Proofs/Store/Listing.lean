import Milp.Proofs.Problem.Listing
import Milp.Proofs.Store.Copies

/-!
# Which variables a call registers

A call on a problem registers the variables that it names (`named`), in the order in which it names
them. A call that is broken off has registered the first of them, and nothing else has happened to
the list (`Enlists`).
-/

namespace Milp.Store

open Milp.Action
open Milp.Declarations (Enlists enlists_nil enlists_throw domainNamed?)

/-- What is known of the variables of a problem. -/
def declarations (id : Nat) (s : Store) : Declarations :=
  (s.problem id).toDeclarations

def SameDeclarations (id : Nat) (s s' : Store) : Prop :=
  declarations id s' = declarations id s

/-- The variables of the terms that a value gives when it is gone through. -/
def variablesIn (s : Store) (v : Value) : List Value :=
  (s.walk v).items.flatMap fun t => (variableOf t).toOption.toList

/-- The left-hand side that a constraint to be added is given with. -/
def sideGiven? (s : Store) : List Value → Option Value
  | [.object ⟨.constraint, c⟩] => some (s.constraint c).lhs
  | [lhs, _, _] => some lhs
  | [_, lhs, _, _] => some lhs
  | _ => none

/-- The variables of the expression that can be made of a value. -/
def variablesOfCopy (s : Store) (v : Value) : List Value :=
  (s.linearOf v).toOption.elim [] Linear.vars

/-- The variables that a call on a problem names, in the order in which it registers them. -/
def named (s : Store) (method : String) (a : Arguments) : List Value :=
  let given (required : List String) (optional : List (String × Value))
      (vs : (Nat → Value) → List Value) : List Value :=
    (Signature.bind ⟨"Problem." ++ method, required, optional, some "self"⟩ a).toOption.elim [] vs
  let ofDomain (v given : Value) : List Value := if (domainNamed? given).isSome then [v] else []
  match method with
  | "set_objective" => given ["objective"] [("opt_type", .none)] fun x => s.variablesIn (x 0)
  | "add" => (s.sideGiven? a.inOrder).elim [] s.variablesOfCopy
  | "set_var_type" => given ["variable", "var_type"] [] fun x => ofDomain (x 0) (x 1)
  | "set_var_lower_bound" => given ["variable", "value"] [] fun x => [x 0]
  | "set_var_upper_bound" => given ["variable", "value"] [] fun x => [x 0]
  | "set_var_bounds" => given ["lower", "variable", "upper"] [] fun x => [x 1, x 1]
  | "set_var_bounds_and_type" => given ["lower", "variable", "upper", "var_type"] [] fun x =>
      [x 1, x 1] ++ ofDomain (x 1) (x 3)
  | _ => []

section

variable {id : Nat} {s : Logged Store} {vs : List Value}

/-! ## Parts that register nothing -/

instance : Std.Refl (SameDeclarations id) := ⟨fun _ => rfl⟩

instance : IsTrans Store (SameDeclarations id) := ⟨fun _ _ _ h h' => Eq.trans h' h⟩

theorem sameDeclarations_of_problems_eq {s s' : Store} (h : s'.problems = s.problems) :
    SameDeclarations id s s' := by
  rw [SameDeclarations, declarations, declarations, problem, problem, h]

theorem Adds.sameDeclarations {s s' : Store} (h : Adds s s') : SameDeclarations id s s' :=
  sameDeclarations_of_problems_eq h.problems

theorem SameParts.sameDeclarations {s s' : Store} (h : SameParts s s') : SameDeclarations id s s' :=
  h.adds.sameDeclarations

theorem sameDeclarations_changeProblem {f : ProblemObject → ProblemObject}
    (h : ∀ p, (f p).toDeclarations = p.toDeclarations) :
    Keeps (SameDeclarations id) (changeProblem id f) := by
  refine keeps_update fun s => ?_
  change (problem _ id).toDeclarations = (s.problem id).toDeclarations
  simp only [problem, List.getElem?_modify]
  cases s.problems[id]? with
  | none => rfl
  | some p => simpa using h p

theorem sameDeclarations_append (list v : Value) : Keeps (SameDeclarations id) (append list v) := by
  unfold append
  split
  · exact keeps_update fun _ => sameDeclarations_of_problems_eq rfl
  · exact keeps_throw _

theorem sameDeclarations_setSense (given : Value) :
    Keeps (SameDeclarations id) (setSense id given) := by
  unfold setSense
  refine Keeps.bind ((keeps_senseOf given).imp fun _ _ h => h.sameDeclarations) fun _ => ?_
  split
  · exact sameDeclarations_changeProblem fun _ => rfl
  · exact keeps_read.bind fun _ => keeps_note _ _ _

theorem enlists_sameDeclarations {α : Type} {a : Action Store α} (h : Keeps (SameDeclarations id) a) :
    Enlists (declarations id) [] a s :=
  enlists_nil (h s)

/-! ## Parts that register variables -/

theorem enlists_onDeclarations {α : Type} {a : Action Declarations α}
    (present : id < s.state.problems.length)
    (h : Enlists (fun d => d) vs a ⟨declarations id s.state, s.log⟩) :
    Enlists (declarations id) vs (onDeclarations id a) s := by
  have after : declarations id ((onDeclarations id a).runOn s).2.state =
      (a.runOn ⟨declarations id s.state, s.log⟩).2.state :=
    congrArg ProblemObject.toDeclarations
      (problem_modify (s := s.state) present fun p => { p with toDeclarations := _ })
  exact ⟨after ▸ h.covered, after ▸ h.listed⟩

theorem enlists_registerTerm (sound : s.state.Sound id) (t : Value) :
    Enlists (declarations id) (variableOf t).toOption.toList (registerTerm id t) s := by
  unfold registerTerm
  cases variableOf t with
  | error f => exact enlists_throw _ f
  | ok v =>
      exact enlists_onDeclarations sound.present (Declarations.enlists_register v)

theorem enlists_registerTerms (sound : s.state.Sound id) (v : Value) :
    Enlists (declarations id) (s.state.variablesIn v) (registerTerms id v) s := by
  have each (ts : List Value) : ∀ {s : Logged Store}, s.state.Sound id →
      Enlists (declarations id) (ts.flatMap fun t => (variableOf t).toOption.toList)
        (ts.forM (registerTerm id)) s := by
    induction ts with
    | nil => exact fun _ => enlists_nil rfl
    | cons t ts ih =>
        intro s sound
        refine (enlists_registerTerm sound t).bind fun _ s₁ h => ih ?_
        exact ((keeps_registerTerm t).of_runOn h sound).1
  rw [registerTerms_eq]
  refine Enlists.nil_bind (enlists_nil rfl) fun _ s₁ h => ?_
  cases h
  exact (each _ sound).bind_nil fun _ _ _ => enlists_nil rfl

theorem variablesIn_linear (s : Store) (i : Nat) :
    s.variablesIn (.object ⟨.linear, i⟩) = (s.linear i).vars := by
  have walk : s.walk (.object ⟨.linear, i⟩) =
      .ofList ((s.linear i).terms.map Term.toValue) := rfl
  simp only [variablesIn, walk, Series.ofList, List.flatMap_map]
  exact List.map_eq_flatMap.symm

theorem enlists_takeConstraint (sound : s.state.Sound id) (v : Value) :
    Enlists (declarations id) (s.state.variablesIn (s.state.lhsOf v)) (takeConstraint id v) s := by
  unfold takeConstraint
  refine Enlists.nil_bind (enlists_nil rfl) fun _ s₁ h => ?_
  cases h
  refine (enlists_registerTerms sound _).bind_nil fun _ s₂ _ => ?_
  exact enlists_sameDeclarations (keeps_read.bind fun _ =>
    (sameDeclarations_append _ _).bind fun _ => keeps_pure _)

/-- A constraint that is made of a copy registers the variables of the copy. -/
theorem enlists_takeCopy (sound : s.state.Sound id) (lhs operator rhs name : Value) :
    Enlists (declarations id) (s.state.variablesOfCopy lhs)
      (constraintOfCopy lhs operator rhs name >>= takeConstraint id) s := by
  refine Enlists.nil_bind
    (enlists_sameDeclarations ((adds_constraintOfCopy _ _ _ _).imp
      fun _ _ h => h.sameDeclarations)) fun v s₁ h => ?_
  obtain ⟨l, hl, copied, -⟩ := constraintOfCopy_eq_ok h
  have sound₁ := ((keeps_constraintOfCopy lhs operator rhs name).of_runOn h sound).1
  have vars : s.state.variablesOfCopy lhs = s₁.state.variablesIn (s₁.state.lhsOf v) := by
    rw [copied.lhsOf, variablesIn_linear, copied.linear, variablesOfCopy, hl]
    rfl
  rw [vars]
  exact enlists_takeConstraint sound₁ v

theorem enlists_addToProblem {parts : List Value} {name : Value} (sound : s.state.Sound id)
    (typed : ∀ c, parts = [.object ⟨.constraint, c⟩] → s.state.IsRow (.object ⟨.constraint, c⟩)) :
    Enlists (declarations id) ((s.state.sideGiven? parts).elim [] s.state.variablesOfCopy)
      (addToProblem id parts name) s := by
  unfold addToProblem
  split
  · rename_i c
    split
    · obtain ⟨_, o, i, ⟨⟩, ho, hlhs, hi⟩ := typed c rfl
      have lhs : (s.state.constraint c).lhs = .object ⟨.linear, i⟩ :=
        (lhsOf_constraint ho).trans hlhs
      have vars : s.state.variablesOfCopy (s.state.constraint c).lhs =
          s.state.variablesIn (s.state.lhsOf (.object ⟨.constraint, c⟩)) := by
        rw [lhsOf, lhs, variablesIn_linear, variablesOfCopy, linearOf_linear]
        rfl
      change Enlists _ (s.state.variablesOfCopy (s.state.constraint c).lhs) _ s
      rw [vars]
      exact enlists_takeConstraint sound _
    · refine Enlists.nil_bind (enlists_nil rfl) fun _ s₁ h => ?_
      cases h
      exact enlists_takeCopy sound _ _ _ _
  · simp only [sideGiven?]
    exact enlists_takeCopy sound _ _ _ _
  · split
    · simp only [sideGiven?]
      exact enlists_takeCopy sound _ _ _ _
    · exact enlists_throw _ _
  · exact enlists_throw _ _

/-! ## Calls -/

theorem Enlists.onProblem {call : String} {args : List Value} {own : Action Store Unit}
    (sound : s.state.Sound id) (h : Enlists (declarations id) vs own s) :
    Enlists (declarations id) vs (madeOnProblem id call args own) s :=
  h.of_runOn_eq (runOn_madeOnProblem sound)

theorem enlists_setObjective (sound : s.state.Sound id) (objective sense : Value) :
    Enlists (declarations id) (s.state.variablesIn objective) (setObjective id objective sense)
      s := by
  unfold setObjective
  refine (enlists_registerTerms sound objective).bind_nil fun u s₁ hr => ?_
  have sound₁ := ((keeps_registerTerms objective).of_runOn hr sound).1
  refine (enlists_nil rfl).bind_nil fun s₂ _ h => ?_
  cases h
  refine (enlists_nil rfl).bind_nil fun l _ h => ?_
  have hl : s₁.state.linearOf objective = .ok l := congrArg Prod.fst h
  cases congrArg Prod.snd h
  have idle : Keeps (SameDeclarations id) (newLinear l) :=
    (adds_newLinear l).imp fun _ _ h => h.sameDeclarations
  refine (enlists_sameDeclarations idle).bind_nil fun copy s₂ hcopy => ?_
  have sound₂ := ((keeps_newLinear l).of_runOn hcopy sound₁).1
  refine (enlists_sameDeclarations (sameDeclarations_changeProblem
    (f := fun p => { p with objective := copy })
    fun _ => rfl)).bind_nil fun _ s₃ h => ?_
  have take := grows_takeObjective (registered_of_registerTerms sound hr hl) hcopy
  rw [h] at take
  split
  · exact Enlists.onProblem (take sound₂).1
      (enlists_sameDeclarations (sameDeclarations_setSense sense))
  · exact enlists_nil rfl

theorem enlists_setLower (sound : s.state.Sound id) (v bound : Value) :
    Enlists (declarations id) [v] (onDeclarations id (Declarations.setLower v bound)) s :=
  enlists_onDeclarations sound.present (Declarations.enlists_setLower v bound)

theorem enlists_setUpper (sound : s.state.Sound id) (v bound : Value) :
    Enlists (declarations id) [v] (onDeclarations id (Declarations.setUpper v bound)) s :=
  enlists_onDeclarations sound.present (Declarations.enlists_setUpper v bound)

theorem enlists_setDomain (sound : s.state.Sound id) (v given : Value) :
    Enlists (declarations id) (if (domainNamed? given).isSome then [v] else [])
      (onDeclarations id (Declarations.setDomain v given)) s :=
  enlists_onDeclarations sound.present (Declarations.enlists_setDomain v given)

theorem enlists_setBounds (sound : s.state.Sound id) (lower v upper : Value) :
    Enlists (declarations id) [v, v] (setBounds id lower v upper) s := by
  refine (Enlists.onProblem sound (enlists_setLower sound v lower)).bind fun _ s₁ h => ?_
  have keeps : Keeps (Grows id) (onDeclarations id (Declarations.setLower v lower)) :=
    keeps_onDeclarations (Declarations.keeps_setLower v lower)
  have sound₁ := ((keeps_madeOnProblem keeps).of_runOn h sound).1
  exact Enlists.onProblem sound₁ (enlists_setUpper sound₁ v upper)

theorem enlists_setBoundsAndDomain (sound : s.state.Sound id) (lower v upper given : Value) :
    Enlists (declarations id) ([v, v] ++ if (domainNamed? given).isSome then [v] else [])
      (setBoundsAndDomain id lower v upper given) s := by
  refine (Enlists.onProblem sound (enlists_setBounds sound lower v upper)).bind fun _ s₁ h => ?_
  have sound₁ := ((keeps_madeOnProblem (keeps_setBounds lower v upper)).of_runOn h sound).1
  exact Enlists.onProblem sound₁ (enlists_setDomain sound₁ v given)

theorem Enlists.calling {name : String} {required : List String}
    {optional : List (String × Value)} {a : Arguments} {body : (Nat → Value) → Action Store Unit}
    {vs : (Nat → Value) → List Value} (h : ∀ x, Enlists (declarations id) (vs x) (body x) s) :
    Enlists (declarations id)
      ((Signature.bind ⟨name, required, optional, some "self"⟩ a).toOption.elim [] vs)
      (calling name required optional a fun x => silently (body x)) s := by
  unfold Store.calling callingOn
  cases Signature.bind ⟨name, required, optional, some "self"⟩ a with
  | error f => exact enlists_throw _ f
  | ok x => exact (h x).bind_nil fun _ _ _ => enlists_nil rfl

/-- A call on a problem registers the variables that it names (`named`), in order. -/
theorem enlists_call {method : String} {a : Arguments} {act : Action Store Value}
    (known : callProblem? id method a = some act) (typed : s.state.Typed method a)
    (sound : s.state.Sound id) : Enlists (declarations id) (s.state.named method a) act s := by
  have reads (name : String) (e : Store → Value → Except Fault Value) :
      Enlists (declarations id) [] (calling ("Problem." ++ name) ["variable"] [] a fun x =>
        Action.read >>= fun s => Action.ofExcept (e s (x 0))) s :=
    enlists_sameDeclarations (keeps_calling fun _ => keeps_read.bind fun _ => keeps_ofExcept _)
  unfold callProblem? at known
  split at known
  · cases known
    exact Enlists.calling fun x => enlists_setObjective sound _ _
  · cases known
    exact enlists_sameDeclarations (keeps_calling fun _ =>
      keeps_silently (sameDeclarations_setSense _))
  · cases known
    have refuse := keeps_refuseNames "Problem.add" ["name"] a
    refine Enlists.nil_bind
      (enlists_sameDeclarations (refuse.imp fun _ _ h => h ▸ rfl)) fun _ s₁ h => ?_
    have same : s.state = s₁.state := refuse.of_runOn h
    rw [same] at sound typed ⊢
    exact enlists_addToProblem sound (typed rfl)
  · cases known
    exact reads _ fun s v => (s.domainOf id v).map fun d => .symbol (.domain d)
  · cases known
    exact reads _ fun s v => s.lowerOf id v
  · cases known
    exact reads _ fun s v => s.upperOf id v
  · cases known
    exact Enlists.calling fun x => enlists_setDomain sound _ _
  · cases known
    exact Enlists.calling fun x => enlists_setLower sound _ _
  · cases known
    exact Enlists.calling fun x => enlists_setUpper sound _ _
  · cases known
    exact Enlists.calling fun x => enlists_setBounds sound _ _ _
  · cases known
    exact Enlists.calling fun x => enlists_setBoundsAndDomain sound _ _ _ _
  · cases known

end

end Milp.Store
