import Milp.Proofs.Store.Deeds

/-!
# Problems that are built in another order

Calls on a problem may come in another order, as long as constraints are added in the same order,
the objective and the sense are set in the same order, and so is what is declared of one variable.
The problem that comes of them is then the same but for the order of its columns.

Names are another matter. A constraint that is given none is named once and for all by its text at
the time, and the text of an object that occurs in it may tell what was done before.
-/

namespace Milp

/-- Two problems that were built by the same deeds in another order are the same up to the numbers
of columns, constraint by constraint. Their constraints have the same names if these were given, and
also if no object occurs in them. -/
structure Problem.BuiltAlike (ds : List Deed) (p p' : Problem) : Prop where
  alike : p.Alike p'
  renumbers : p.Renumbers (p.columnIn p'.toDeclarations) p'
  count : p.constraints.items.length = (ds.filterMap Deed.addition?).length
  names : ∀ (i : Nat) (a : Addition) (c c' : Constraint),
    (ds.filterMap Deed.addition?)[i]? = some a → p.constraints.items[i]? = some c →
      p'.constraints.items[i]? = some c' → a.name.isSome ∨ a.Closed → c'.name = c.name

namespace Store

/-- Problems that were built by the same deeds in another order (`Reordered`) are
`Problem.BuiltAlike`. -/
theorem Performed.builtAlike {id id' : Nat} {ds ds' : List Deed} {s s' : Store}
    (performed : Performed id ds s) (performed' : Performed id' ds' s')
    (reordered : Reordered ds ds') :
    (s.viewProblem id).BuiltAlike ds (s'.viewProblem id') := by
  have becomes := performed.becomes
  have becomes' := performed'.becomes
  have alike := becomes.alike becomes' reordered
  refine ⟨alike, ?_, becomes.shown.length_eq.symm, fun i a c c' ha hc hc' => ?_⟩
  · exact alike.renumbers performed.built.sound.wellFormed performed'.built.sound.wellFormed
  · exact becomes.name_eq becomes' reordered ha hc hc'

theorem Performed.called {ds es : List Deed} {s : Store} {method : String} {xs : List Value}
    {v : Value} (h : Performed 0 ds s) (known : (callProblem? 0 method ⟨xs, []⟩).isSome)
    (several : xs.length ≠ 1) (ok : (answered method xs s).1 = .ok v)
    (deeds : s.deeds 0 method ⟨xs, []⟩ = es) : Performed 0 (ds ++ es) (called method xs s) :=
  deeds ▸ h.call known (fun _ _ hc => absurd (congrArg List.length hc) several) ok

theorem performed_first : Performed 0 [] (newProblem.perform .empty).2.state :=
  .new rfl rfl

/-- A whole number and a free one, with a constraint over both. -/
def forwards : Store :=
  (newProblem.perform .empty).2.state
    |> called "set_objective" [.tuple [.term (.text "x") (.int 3)], .text "max"]
    |> called "add" [.tuple [.term (.text "x") (.int 1), .term (.text "y") (.int 2)], .text "<=",
      .int 3]
    |> called "set_var_bounds_and_type" [.int 0, .text "y", .int 2, .type .int]

/-- The same calls the other way round. -/
def backwards : Store :=
  (newProblem.perform .empty).2.state
    |> called "set_var_bounds_and_type" [.int 0, .text "y", .int 2, .type .int]
    |> called "add" [.tuple [.term (.text "x") (.int 1), .term (.text "y") (.int 2)], .text "<=",
      .int 3]
    |> called "set_objective" [.tuple [.term (.text "x") (.int 3)], .text "max"]

def objectiveDeeds : List Deed :=
  [.objective ⟨[⟨.text "x", .int 3⟩]⟩, .sense .max]

def rowDeeds : List Deed :=
  [.add ⟨⟨[⟨.text "x", .int 1⟩, ⟨.text "y", .int 2⟩]⟩, .symbol (.relation .le), .int 3, none⟩]

def declaringDeeds : List Deed :=
  [.lower (.text "y") (.int 0), .upper (.text "y") (.int 2), .domain (.text "y") .int]

set_option maxRecDepth 8000 in
theorem performed_forwards :
    Performed 0 (objectiveDeeds ++ rowDeeds ++ declaringDeeds) forwards := by
  refine Performed.called (v := .none) (Performed.called (v := .object ⟨.constraint, 0⟩)
    (performed_first.called (v := .none) rfl (by decide) ?_ ?_) rfl (by decide) ?_ ?_) rfl (by decide) ?_ ?_
  all_goals with_unfolding_all rfl

set_option maxRecDepth 8000 in
theorem performed_backwards :
    Performed 0 (declaringDeeds ++ rowDeeds ++ objectiveDeeds) backwards := by
  refine Performed.called (v := .none) (Performed.called (v := .object ⟨.constraint, 0⟩)
    (performed_first.called (v := .none) rfl (by decide) ?_ ?_) rfl (by decide) ?_ ?_) rfl (by decide) ?_ ?_
  all_goals with_unfolding_all rfl

theorem reordered_backwards : Reordered (objectiveDeeds ++ rowDeeds ++ declaringDeeds)
    (declaringDeeds ++ rowDeeds ++ objectiveDeeds) := by
  have last : Reordered (objectiveDeeds ++ rowDeeds ++ declaringDeeds)
      (declaringDeeds ++ (objectiveDeeds ++ rowDeeds)) :=
    .append_comm (by simp [objectiveDeeds, rowDeeds, declaringDeeds, Deed.slot])
  have first : Reordered (objectiveDeeds ++ rowDeeds) (rowDeeds ++ objectiveDeeds) :=
    .append_comm (by simp [objectiveDeeds, rowDeeds, Deed.slot])
  rw [List.append_assoc declaringDeeds]
  exact last.trans ((Reordered.refl _).append first)

set_option maxRecDepth 8000 in
theorem builtAlike_backwards :
    Performed 0 (objectiveDeeds ++ rowDeeds ++ declaringDeeds) forwards ∧
    Performed 0 (declaringDeeds ++ rowDeeds ++ objectiveDeeds) backwards ∧
    Reordered (objectiveDeeds ++ rowDeeds ++ declaringDeeds)
      (declaringDeeds ++ rowDeeds ++ objectiveDeeds) ∧
    (forwards.viewProblem 0).variableList = [.text "x", .text "y"] ∧
    (backwards.viewProblem 0).variableList = [.text "y", .text "x"] ∧
    (forwards.viewProblem 0).BuiltAlike (objectiveDeeds ++ rowDeeds ++ declaringDeeds)
      (backwards.viewProblem 0) := by
  refine ⟨performed_forwards, performed_backwards, reordered_backwards, ?_, ?_,
    performed_forwards.builtAlike performed_backwards reordered_backwards⟩
  all_goals with_unfolding_all rfl

/-! ## Names that tell when they were given -/

/-- A problem that occurs as a variable in a constraint of its own, of which something is declared
before. -/
def declaredBefore : Store :=
  (newProblem.perform .empty).2.state
    |> called "set_var_type" [.text "x", .type .int]
    |> called "add" [.tuple [.term (.object ⟨.problem, 0⟩) (.int 1)], .text "<=", .int 5]

/-- The same calls the other way round. -/
def declaredAfter : Store :=
  (newProblem.perform .empty).2.state
    |> called "add" [.tuple [.term (.object ⟨.problem, 0⟩) (.int 1)], .text "<=", .int 5]
    |> called "set_var_type" [.text "x", .type .int]

def wholeDeeds : List Deed :=
  [.domain (.text "x") .int]

def selfDeeds : List Deed :=
  [.add ⟨⟨[⟨.object ⟨.problem, 0⟩, .int 1⟩]⟩, .symbol (.relation .le), .int 5, none⟩]

set_option maxRecDepth 8000 in
theorem performed_declaredBefore : Performed 0 (wholeDeeds ++ selfDeeds) declaredBefore := by
  refine Performed.called (v := .object ⟨.constraint, 0⟩)
    (performed_first.called (v := .none) rfl (by decide) ?_ ?_) rfl (by decide) ?_ ?_
  all_goals with_unfolding_all rfl

set_option maxRecDepth 8000 in
theorem performed_declaredAfter : Performed 0 (selfDeeds ++ wholeDeeds) declaredAfter := by
  refine Performed.called (v := .none)
    (performed_first.called (v := .object ⟨.constraint, 0⟩) rfl (by decide) ?_ ?_) rfl (by decide) ?_ ?_
  all_goals with_unfolding_all rfl

set_option maxRecDepth 8000 in
theorem names_declaredBefore : (declaredBefore.viewProblem 0).constraints.items.map (·.name) =
    [.text "1*Find one solution\nSubject To\nBounds\nVariables\n x INT\n <= 5"] := by
  with_unfolding_all rfl

set_option maxRecDepth 8000 in
theorem names_declaredAfter : (declaredAfter.viewProblem 0).constraints.items.map (·.name) =
    [.text "1*Find one solution\nSubject To\nBounds\nVariables\n <= 5"] := by
  with_unfolding_all rfl

/-- The order in which a problem was built shows in the text of the problem, and so in the name of a
constraint in which it occurs. -/
theorem names_differ_of_reordered :
    Performed 0 (wholeDeeds ++ selfDeeds) declaredBefore ∧
    Performed 0 (selfDeeds ++ wholeDeeds) declaredAfter ∧
    Reordered (wholeDeeds ++ selfDeeds) (selfDeeds ++ wholeDeeds) ∧
    (declaredAfter.viewProblem 0).constraints.items.map (·.name) ≠
      (declaredBefore.viewProblem 0).constraints.items.map (·.name) := by
  refine ⟨performed_declaredBefore, performed_declaredAfter, .append_comm ?_, ?_⟩
  · simp [wholeDeeds, selfDeeds, Deed.slot]
  · rw [names_declaredBefore, names_declaredAfter]
    simp

end Store

end Milp
