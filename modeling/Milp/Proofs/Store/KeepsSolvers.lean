import Milp.Proofs.Store.Writing
import Milp.Store.Solve

/-!
# What is kept through a solve

Before and after an engine is asked, a solve adds lists, dictionaries and results. Those that were
there stay as they are, and so do the solvers, and the members that values were given.
-/

namespace Milp.Store

open Milp.Action

/-- What a solver looks at last before it touches anything: its `freeze` must not have been
replaced. -/
def checkSettings (solver : Ref) : Action Store Unit := do
  match (← Action.read).refusal? (.object solver) "freeze" with
  | some f => throw f
  | none => pure ()

theorem prepare_eq (solver : Ref) (x : Solver) (problem : Value) :
    prepare solver x problem =
      if x.backend = .cpsat then do
        raising (checkBoolean problem x.name)
        raising (checkWhole problem x.name)
        checkSettings solver
      else checkSettings solver := by
  unfold prepare
  split
  · rfl
  · rfl

/-! ## Growing stores -/

/-- A relation between stores that is kept when lists and dictionaries are added, and when nothing
changes but results and how many values have been told apart. -/
structure Growing (R : Store → Store → Prop) : Prop where
  apart : ∀ s n, R s { s with toldApart := n }
  results : ∀ s rs, R s { s with results := rs }
  lists : ∀ s xs, R s { s with lists := s.lists ++ [xs] }
  dicts : ∀ s t, R s { s with dicts := s.dicts ++ [t] }

namespace Growing

variable {R : Store → Store → Prop} [Std.Refl R] [IsTrans Store R] {α : Type} (h : Growing R)

include h

theorem incidental : Incidental fun _ => Keeps R :=
  .of_keeps h.apart h.results

theorem keeps_write (p : Phrase) : Keeps R (write p) :=
  h.incidental.write p

/-! ## Adding -/

theorem keeps_newList (xs : List Value) : Keeps R (newList xs) :=
  (h.incidental.distinguishAll xs).bind fun _ => keeps_read.bind fun _ =>
    (keeps_update fun s => h.lists s _).bind fun _ => keeps_pure _

theorem keeps_addDict (t : Table Value) : Keeps R (addDict t) :=
  (h.incidental.distinguishAll _).bind fun _ =>
    (h.incidental.distinguishAll _).bind fun _ => keeps_read.bind fun _ =>
    (keeps_update fun s => h.dicts s _).bind fun _ => keeps_pure _

theorem keeps_newDict (t : Table Value) : Keeps R (newDict t) :=
  (h.keeps_addDict t).bind fun _ => keeps_pure _

theorem keeps_newResult (primal dual : Table Value) (objectiveValue objective : Value) :
    Keeps R (newResult primal dual objectiveValue objective) :=
  (h.keeps_newDict primal).bind fun _ => (h.keeps_newDict dual).bind fun _ =>
    (h.incidental.distinguish _).bind fun _ => keeps_read.bind fun _ =>
    (keeps_update fun s => h.results s _).bind fun _ => keeps_pure _

theorem keeps_resultOf {K : Type} (value : K → Value) (objective : Value) (x : Solution K) :
    Keeps R (resultOf value objective x) :=
  h.keeps_newResult _ _ _ _

/-! ## Members -/

theorem keeps_objectMember (r : Ref) (name : String) : Keeps R (objectMember r name) := by
  refine keeps_read.bind fun s => ?_
  split
  · exact h.incidental.objectiveOf _
  · exact (keeps_ofExcept _).bind fun _ => keeps_pure _
  · split
    · exact keeps_pure _
    · exact h.keeps_newList _
    · refine keeps_read.bind fun _ => ?_
      split
      · exact keeps_pure _
      · exact keeps_throw _

theorem keeps_member (v : Value) (name : String) : Keeps R (member v name) := by
  unfold member
  split
  · exact h.keeps_objectMember _ _
  · split
    · exact keeps_pure _
    · exact keeps_pure _
    · exact keeps_throw _
  · refine keeps_read.bind fun _ => ?_
    split
    · exact keeps_pure _
    · exact keeps_pure _
    · exact keeps_throw _
  · split
    · exact keeps_pure _
    · exact keeps_throw _
  · exact keeps_throw _

theorem keeps_variablesOf (v : Value) : Keeps R (variablesOf v) := by
  refine keeps_read.bind fun s => ?_
  split
  · exact keeps_pure _
  · exact keeps_pure _
  · exact (h.keeps_member _ _).bind fun _ => keeps_read.bind fun _ => keeps_pure _

/-! ## In the place of other calls -/

theorem keeps_callText (a : Arguments) : Keeps R (callText a) := by
  refine (keeps_ofExcept _).bind fun x => (keeps_ofExcept _).bind fun _ =>
    (keeps_ofExcept _).bind fun _ => ?_
  split
  · exact keeps_pure _
  · exact (h.keeps_write _).bind fun _ => keeps_pure _
  · exact keeps_throw _
  · exact keeps_throw _

theorem keeps_callType (t : TypeName) (a : Arguments) : Keeps R (callType t a) := by
  cases t with
  | text => exact h.keeps_callText a
  | int => exact keeps_ofExcept _
  | float => exact keeps_ofExcept _
  | complex => exact (keeps_ofExcept _).bind fun _ => (keeps_ofExcept _).bind fun _ => keeps_pure _
  | bool =>
      refine (keeps_ofExcept _).bind fun v => ?_
      cases v with
      | none => exact keeps_pure _
      | some v =>
          exact keeps_read.bind fun _ => (keeps_ofExcept _).bind fun _ => keeps_pure _
  | list =>
      refine (keeps_ofExcept _).bind fun v => ?_
      cases v with
      | none => exact h.keeps_newList _
      | some v =>
          exact keeps_read.bind fun _ => (keeps_ofExcept _).bind fun _ => h.keeps_newList _

theorem keeps_callValue (v : Value) (args : List Value) : Keeps R (callValue v args) := by
  unfold callValue
  split
  · exact h.keeps_callType _ _
  · exact keeps_throw _

/-! ## Before a solve -/

theorem keeps_checkBoolean (problem engine : Value) : Keeps R (checkBoolean problem engine) :=
  (h.keeps_variablesOf _).bind fun _ => keeps_read.bind fun _ => (keeps_ofExcept _).bind fun _ =>
    keeps_ofExcept _

theorem keeps_checkWholeTerms (engine : Value) (place : Place) (e : Expression) :
    Keeps R (checkWholeTerms engine place e) := by
  unfold checkWholeTerms
  split
  · exact (h.keeps_write _).bind fun _ => keeps_ofExcept _
  · exact keeps_ofExcept _

theorem keeps_checkWholeConstraint (engine : Value) (c : Constraint) :
    Keeps R (checkWholeConstraint engine c) :=
  (h.keeps_checkWholeTerms _ _ _).bind fun _ => (h.keeps_write _).bind fun _ =>
    (keeps_ofExcept _).bind fun _ => keeps_pure _

theorem keeps_checkWhole (problem engine : Value) : Keeps R (checkWhole problem engine) := by
  refine (h.keeps_member _ _).bind fun objective => keeps_read.bind fun s =>
    Keeps.bind ?_ fun _ => ?_
  · cases objective.toOption with
    | none => exact keeps_pure _
    | some o => exact h.keeps_checkWholeTerms _ _ _
  · exact (h.keeps_member _ _).bind fun _ => keeps_read.bind fun _ =>
      (keeps_forM (h.keeps_checkWholeConstraint engine) _).bind fun _ => keeps_ofExcept _

theorem keeps_raising {a : Action Store α} (ha : Keeps R a) : Keeps R (raising a) :=
  ha.tryCatch h.incidental.raise

theorem keeps_prepare (solver : Ref) (x : Solver) (problem : Value) :
    Keeps R (prepare solver x problem) := by
  have frozen : Keeps R (checkSettings solver) := by
    refine keeps_read.bind fun s => ?_
    split
    · exact keeps_throw _
    · exact keeps_pure _
  rw [prepare_eq]
  by_cases cuts : x.backend = .cpsat
  · rw [if_pos cuts]
    exact (h.keeps_raising (h.keeps_checkBoolean _ _)).bind fun _ =>
      (h.keeps_raising (h.keeps_checkWhole _ _)).bind fun _ => frozen
  · rw [if_neg cuts]
    exact frozen

theorem keeps_checkProblem (backend : Backend) (problem : Value) :
    Keeps R (checkProblem backend problem) := by
  refine (h.keeps_variablesOf _).bind fun _ => (keeps_ofExcept _).bind fun _ =>
    (keeps_ofExcept _).bind fun _ => keeps_read.bind fun _ => ?_
  refine Keeps.when (keeps_ofExcept _) fun _ => ?_
  split
  · exact keeps_pure _
  · exact keeps_throw _

/-- `prepare` and `checkProblem` keep a `Growing` relation. -/
theorem rel_of_checks {solver : Ref} {x : Solver} {problem : Value} {s t t' : Logged Store}
    {r r' : Except Fault Unit} (prepared : (prepare solver x problem).runOn s = (r, t))
    (checked : (checkProblem x.backend problem).runOn t = (r', t')) : R s.state t'.state :=
  IsTrans.trans _ _ _ ((h.keeps_prepare _ _ _).of_runOn prepared)
    ((h.keeps_checkProblem _ _).of_runOn checked)

end Growing

/-! ## What is kept -/

/-- All solvers are as they were, and lists and dictionaries were only added. -/
structure KeepsSolvers (s s' : Store) : Prop where
  lists : s.lists <+: s'.lists
  dicts : s.dicts <+: s'.dicts
  solvers : s'.solvers = s.solvers
  extras : s'.extras = s.extras

instance : Std.Refl KeepsSolvers :=
  ⟨fun _ => ⟨List.prefix_refl _, List.prefix_refl _, rfl, rfl⟩⟩

instance : IsTrans Store KeepsSolvers := ⟨fun _ _ _ h h' =>
  ⟨h.lists.trans h'.lists, h.dicts.trans h'.dicts, h'.solvers.trans h.solvers,
    h'.extras.trans h.extras⟩⟩

theorem growing_keepsSolvers : Growing KeepsSolvers where
  apart _ _ := ⟨List.prefix_refl _, List.prefix_refl _, rfl, rfl⟩
  results _ _ := ⟨List.prefix_refl _, List.prefix_refl _, rfl, rfl⟩
  lists _ _ := ⟨List.prefix_append _ _, List.prefix_refl _, rfl, rfl⟩
  dicts _ _ := ⟨List.prefix_refl _, List.prefix_append _ _, rfl, rfl⟩

/-- No hook has been called, and hooks are as they were. -/
structure Uncalled (s s' : Store) : Prop where
  calls : s'.hookCalls = s.hookCalls
  hooks : s'.hooks = s.hooks

instance : Std.Refl Uncalled := ⟨fun _ => ⟨rfl, rfl⟩⟩

instance : IsTrans Store Uncalled := ⟨fun _ _ _ h h' =>
  ⟨h'.calls.trans h.calls, h'.hooks.trans h.hooks⟩⟩

theorem growing_uncalled : Growing Uncalled where
  apart _ _ := ⟨rfl, rfl⟩
  results _ _ := ⟨rfl, rfl⟩
  lists _ _ := ⟨rfl, rfl⟩
  dicts _ _ := ⟨rfl, rfl⟩

end Milp.Store
