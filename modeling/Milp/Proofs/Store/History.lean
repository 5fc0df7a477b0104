import Milp.Proofs.Store.Built
import Milp.Proofs.Store.Listing

/-!
# What becomes of the variables of a problem

Through all calls, those that are broken off among them, the variables of a problem are listed in
the order in which calls first named them (`Recorded`). None is ever taken away, so the column that
a variable was given once is its column from then on.
-/

namespace Milp

/-- Every variable that is mentioned in a problem is listed, once, and has a column of its own. -/
structure Problem.Indexed (p : Problem) : Prop where
  apart : p.variableList.Pairwise fun v w => ¬v.same w
  objective : ∀ e, p.objective = some e → ∀ t ∈ e.terms.items, p.Listed t.var
  complete : p.constraints.ending = .complete
  constraints : ∀ c ∈ p.constraints.items, ∀ t ∈ c.lhs.terms.items, p.Listed t.var
  declared : ∀ v, p.domains.contains v ∨ p.lowers.contains v ∨ p.uppers.contains v → p.Listed v
  column : ∀ v, p.Listed v ↔ ∃ j < p.variableList.length, p.index.get? v = some (j : Int)
  onto : ∀ j < p.variableList.length, ∃ v ∈ p.variableList, p.index.get? v = some (j : Int)
  single : ∀ v w j, p.index.get? v = some j → p.index.get? w = some j → v.same w

/-- The variables of a problem have the same columns in another, and more may have come after them.
Those of its objective are among them, whatever the objective of the other one is. -/
structure Problem.Continues (p p' : Problem) : Prop where
  listed : p.variableList <+: p'.variableList
  columns : ∀ v j, p.index.get? v = some j → p'.index.get? v = some j
  objective : ∀ e, p.objective = some e → ∀ t ∈ e.terms.items, p'.Listed t.var

namespace Store

open Milp.Action
open Milp.Declarations (Enlists enlists_nil enlist)

/-- What comes of a store by calls on a problem that is left alone in between. -/
inductive Later (id : Nat) (s : Store) : Store → Prop
  | refl : Later id s s
  | call {s' : Store} {env : Environment} {method : String} {a : Arguments} : Later id s s' →
      (callProblem? id method a).isSome → s'.Typed method a →
      Later id s ((callMethod env (.object ⟨.problem, id⟩) method a).perform s').2.state
  | meanwhile {s' s'' : Store} : Later id s s' → s'.Untouched id s'' → Later id s s''

/-- The calls on a problem, from the first on, have registered so many variables in order: each of
them all that it names (`named`), unless it was broken off, and then the first of them. -/
inductive Recorded (id : Nat) : List Value → Store → Prop
  | new {s : Store} : s.extras = [] →
      (newProblem.perform s).1 = .ok (.object ⟨.problem, id⟩) →
      Recorded id [] (newProblem.perform s).2.state
  | call {vs ws : List Value} {s : Store} {env : Environment} {method : String} {a : Arguments} :
      Recorded id vs s → (callProblem? id method a).isSome → s.Typed method a →
      ws <+: s.named method a →
      (∀ v, ((callMethod env (.object ⟨.problem, id⟩) method a).perform s).1 = .ok v →
        ws = s.named method a) →
      Recorded id (vs ++ ws) ((callMethod env (.object ⟨.problem, id⟩) method a).perform s).2.state
  | meanwhile {vs : List Value} {s s' : Store} : Recorded id vs s → s.Untouched id s' →
      Recorded id vs s'

section

variable {id : Nat} {s s' : Store}

/-! ## Steps -/

/-- A call that ended well did what it is to do. -/
theorem ok_of_callMethod {env : Environment} {target : Value} {method : String} {a : Arguments}
    {v : Value} (h : ((callMethod env target method a).perform s).1 = .ok v) :
    ∃ w, ((callMember env target method a).runOn ⟨s, []⟩).1 = .ok w := by
  have told := ok_of_raising h
  obtain ⟨w, s₁, member, -⟩ := runOn_bind_eq_ok.mp (Prod.ext told rfl)
  exact ⟨w, congrArg Prod.fst member⟩

theorem Enlists.raising {α : Type} {vs : List Value} {a : Action Store α} {s : Logged Store}
    (h : Enlists (declarations id) vs a s) :
    Enlists (declarations id) vs (raising a) s := by
  have after : declarations id ((Store.raising a).runOn s).2.state =
      declarations id (a.runOn s).2.state :=
    SameParts.sameDeclarations (sameParts_raising a s)
  obtain ⟨covered, ws, first, all, list⟩ := h
  exact ⟨after ▸ covered, ws, first, fun x hx => all x (ok_of_raising hx), after ▸ list⟩

/-- `callMethod` registers the variables that the call names (`Enlists`). -/
theorem enlists_callMethod (sound : s.Sound id) (env : Environment) {method : String}
    {a : Arguments} (known : (callProblem? id method a).isSome) (typed : s.Typed method a) :
    Enlists (declarations id) (s.named method a)
      (callMethod env (.object ⟨.problem, id⟩) method a) ⟨s, []⟩ := by
  obtain ⟨act, hact⟩ := Option.isSome_iff_exists.mp known
  refine Enlists.raising (Enlists.bind_nil ?_ fun v s₁ _ => ?_)
  · exact (enlists_call hact typed sound).of_runOn_eq
      (runOn_callProblem (s := ⟨s, []⟩) hact sound)
  · exact enlists_sameDeclarations ((keeps_distinguish v).imp fun _ _ h => h.sameDeclarations)

theorem Untouched.sameDeclarations (untouched : s.Untouched id s') : SameDeclarations id s s' :=
  congrArg ProblemObject.toDeclarations untouched.problem_eq

theorem declarations_newProblem (h : (newProblem.perform s).1 = .ok (.object ⟨.problem, id⟩)) :
    declarations id (newProblem.perform s).2.state = .empty :=
  congrArg ProblemObject.toDeclarations (problem_newProblem h)

/-! ## Runs -/

theorem Built.covered (built : Built id s) : (declarations id s).Covered := by
  induction built with
  | new extras h =>
      rw [declarations_newProblem h]
      exact ⟨fun _ h => h, fun _ h => h, fun _ h => h⟩
  | call before known typed ih => exact (enlists_callMethod before.sound _ known typed).covered ih
  | meanwhile _ untouched ih =>
      rw [untouched.sameDeclarations]
      exact ih

/-- The variables of a problem are listed as calls named them. -/
theorem Built.exists_recorded (built : Built id s) :
    ∃ vs, Recorded id vs s ∧ (declarations id s).variableList = vs.foldl enlist [] := by
  induction built with
  | new extras h =>
      refine ⟨[], .new extras h, ?_⟩
      rw [declarations_newProblem h]
      rfl
  | call before known typed ih =>
      obtain ⟨vs, recorded, list⟩ := ih
      obtain ⟨ws, first, all, after⟩ := (enlists_callMethod before.sound _ known typed).listed
      refine ⟨vs ++ ws, .call recorded known typed first all, ?_⟩
      rw [List.foldl_append, ← list]
      exact after
  | meanwhile _ untouched ih =>
      obtain ⟨vs, recorded, list⟩ := ih
      exact ⟨vs, .meanwhile recorded untouched, untouched.sameDeclarations.symm ▸ list⟩

theorem Built.later (built : Built id s) (later : Later id s s') : Built id s' := by
  induction later with
  | refl => exact built
  | call _ known typed ih => exact ih.call known typed
  | meanwhile _ untouched ih => exact ih.meanwhile untouched

/-- The list of variables only ever goes on. -/
theorem Later.more (built : Built id s) (later : Later id s s') :
    (declarations id s).variableList <+: (declarations id s').variableList := by
  induction later with
  | refl => exact List.prefix_refl _
  | @call _ env _ _ before known typed ih =>
      have call := enlists_callMethod (built.later before).sound env known typed
      obtain ⟨ws, -, -, after⟩ := call.listed
      exact ih.trans (after ▸ Declarations.prefix_foldl_enlist _ ws)
  | meanwhile _ untouched ih =>
      rw [untouched.sameDeclarations]
      exact ih

theorem Sound.indexed (sound : s.Sound id) (covered : (declarations id s).Covered) :
    (s.viewProblem id).Indexed := by
  have wellFormed := sound.wellFormed
  have listed {v : Value} :
      (s.viewProblem id).vars.contains v = true ↔ (s.viewProblem id).Listed v :=
    Declarations.contains_iff_listed
  refine ⟨?_, fun e he t ht => ?_, wellFormed.complete, fun c hc t ht => ?_, fun v hv => ?_,
    fun v => wellFormed.distinct.listed_iff, fun j hj => wellFormed.distinct.exists_of_column hj,
    fun v w j => Declarations.same_of_column⟩
  · exact wellFormed.distinct.keys.imp fun apart same => apart ((Value.same_iff _ _).mp same)
  · obtain ⟨l, rfl, registered⟩ := wellFormed.objective e he
    exact listed.mp (registered t ht).contains
  · obtain ⟨l, hl, registered⟩ := wellFormed.constraints c hc
    rw [hl] at ht
    exact listed.mp (registered t ht).contains
  · rcases hv with hv | hv | hv
    · exact listed.mp (covered.domains v hv)
    · exact listed.mp (covered.lowers v hv)
    · exact listed.mp (covered.uppers v hv)

end

/-- The variables of a problem that is `Built` are those that calls named, in order (`Recorded`);
everything in it is stated of them, and each has one column (`Problem.Indexed`), which it keeps
through all later calls (`Problem.Continues`). -/
theorem Built.registration {id : Nat} {s : Store} (built : Built id s) :
    (s.viewProblem id).Indexed ∧
      (∃ vs, Recorded id vs s ∧ (s.viewProblem id).variableList = vs.foldl enlist []) ∧
      ∀ s', Later id s s' → (s'.viewProblem id).Indexed ∧
        (s.viewProblem id).Continues (s'.viewProblem id) := by
  have indexed := built.sound.indexed built.covered
  refine ⟨indexed, built.exists_recorded, fun s' later => ?_⟩
  have built' := built.later later
  have more := later.more built
  refine ⟨built'.sound.indexed built'.covered, more, fun v j => ?_, fun e he t ht => ?_⟩
  · exact Declarations.get?_index_mono built'.sound.distinct more
  · exact Declarations.listed_mono more (indexed.objective e he t ht)

theorem Later.called {s s' : Store} {method : String} {xs : List Value} (h : Later 0 s s')
    (known : (callProblem? 0 method ⟨xs, []⟩).isSome) (several : xs.length ≠ 1) :
    Later 0 s (called method xs s') :=
  h.call known fun _ _ hc => absurd (congrArg List.length hc) several

/-- The decision after a call that was broken off at what cannot be a variable, and one that set
another objective. -/
def revised : Store :=
  let z : Value := .text "z"
  decision
    |> called "set_objective" [.tuple [.term z (.int 1), .term (.object ⟨.list, 0⟩) (.int 1)],
      .text "max"]
    |> called "set_objective" [.tuple [.term (.text "y") (.int 1)], .text "max"]

theorem later_revised : Later 0 decision revised := by
  have start : Later 0 decision decision := .refl
  exact (start.called rfl (by decide)).called rfl (by decide)

set_option maxRecDepth 8000 in
theorem variableList_revised :
    (revised.viewProblem 0).variableList = [.text "x", .text "y", .text "z"] := by
  with_unfolding_all rfl

set_option maxRecDepth 8000 in
theorem objective_revised :
    (revised.viewProblem 0).objective = some (.linear ⟨[⟨.text "y", .int 1⟩]⟩) := by
  with_unfolding_all rfl

theorem registration_revised : Built 0 decision ∧ Later 0 decision revised ∧
    (decision.viewProblem 0).Indexed ∧ (revised.viewProblem 0).Indexed ∧
    (decision.viewProblem 0).Continues (revised.viewProblem 0) ∧
    (revised.viewProblem 0).variableList = [.text "x", .text "y", .text "z"] ∧
    (revised.viewProblem 0).objective = some (.linear ⟨[⟨.text "y", .int 1⟩]⟩) := by
  obtain ⟨indexed, -, after⟩ := built_decision.registration
  obtain ⟨indexed', continues⟩ := after revised later_revised
  exact ⟨built_decision, later_revised, indexed, indexed', continues, variableList_revised,
    objective_revised⟩

end Store

end Milp
