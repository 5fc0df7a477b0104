import Milp.Proofs.Store.History
import Milp.Proofs.Store.Retaining

/-!
# Who may change an expression

Whoever holds an expression may change it at any time. A problem that was handed copies of it does
not notice. An expression within a constraint that was handed over as it is is shared: what is done
to it is done to the problem.
-/

namespace Milp.Store

open Milp.Action

/-- The calls by which an expression is changed. -/
def mutators : List String := ["add", "add_terms", "clear"]

/-- What a problem held is seen and written as it was, before what came later; so is its objective,
unless another was set. -/
structure Unaltered (id : Nat) (renewed : Prop) (s s' : Store) : Prop where
  constraints : (s.viewProblem id).constraints.items <+: (s'.viewProblem id).constraints.items
  texts : ∀ c, .object ⟨.constraint, c⟩ ∈ s.stored id → (s.viewConstraint c).Closed →
    ((textOf (.object ⟨.constraint, c⟩)).perform s').1 =
      ((textOf (.object ⟨.constraint, c⟩)).perform s).1
  objective : ¬renewed → (s'.viewProblem id).objective = (s.viewProblem id).objective
  objectiveText : ¬renewed → ∀ e, (s.viewProblem id).objective = some e → e.Closed →
    ((textOf (s'.problem id).objective).perform s').1 =
      ((textOf (s.problem id).objective).perform s).1

/-- A problem is built on by calls while expressions are changed. Expressions of some numbers are
its own: those that it held at the start, those that were made in calls on it, and those that it
took in as they are. Only others are changed. -/
inductive Interleaved (id : Nat) (s : Store) : (own : Nat → Prop) → List String → Store → Prop
  | start {own : Nat → Prop} : (∀ i, s.PartOf id (.object ⟨.linear, i⟩) → own i) →
      Interleaved id s own [] s
  | call {own : Nat → Prop} {methods : List String} {s' s'' : Store} {env : Environment}
      {method : String} {a : Arguments} : Interleaved id s own methods s' →
      (callProblem? id method a).isSome → s'.Typed method a →
      ((callMethod env (.object ⟨.problem, id⟩) method a).perform s').2.state = s'' →
      Interleaved id s (fun i => own i ∨ (s'.linears.length ≤ i ∧ i < s''.linears.length) ∨
        s'.TakenAsIs method a i) (methods ++ [method]) s''
  | change {own : Nat → Prop} {methods : List String} {s' : Store} {env : Environment} {i : Nat}
      {method : String} {a : Arguments} : Interleaved id s own methods s' → method ∈ mutators →
      ¬own i → Interleaved id s own methods
        ((callMethod env (.object ⟨.linear, i⟩) method a).perform s').2.state
  | meanwhile {own : Nat → Prop} {methods : List String} {s' s'' : Store} :
      Interleaved id s own methods s' → s'.Untouched id s'' → Interleaved id s own methods s''

section

variable {id i : Nat} {s s' s'' : Store}

/-! ## Changes to expressions -/

/-- Of all that problems are made of, only the expression with a number is another. -/
structure Alters (i : Nat) (s s' : Store) : Prop where
  lists : s'.lists = s.lists
  constraints : s'.constraints = s.constraints
  problems : s'.problems = s.problems
  extras : s'.extras = s.extras
  length : s'.linears.length = s.linears.length
  linears : ∀ j, j ≠ i → s'.linears[j]? = s.linears[j]?

instance : Std.Refl (Alters i) := ⟨fun _ => ⟨rfl, rfl, rfl, rfl, rfl, fun _ _ => rfl⟩⟩

instance : IsTrans Store (Alters i) := ⟨fun _ _ _ h h' =>
  ⟨h'.lists.trans h.lists, h'.constraints.trans h.constraints, h'.problems.trans h.problems,
    h'.extras.trans h.extras, h'.length.trans h.length,
    fun j hj => (h'.linears j hj).trans (h.linears j hj)⟩⟩

theorem SameParts.alters (h : SameParts s s') : Alters i s s' :=
  ⟨h.lists, h.constraints, h.problems, h.extras, by rw [h.linears], fun _ _ => by rw [h.linears]⟩

theorem alters_changeLinear (f : Linear → Linear) : Keeps (Alters i) (changeLinear i f) :=
  keeps_update fun _ => ⟨rfl, rfl, rfl, rfl, List.length_modify ..,
    fun _ hj => List.getElem?_modify_ne f _ hj.symm⟩

/-- A call of one of the `mutators` is known, and changes nothing but its expression. -/
theorem exists_mutator {method : String} (h : method ∈ mutators) (i : Nat) (a : Arguments) :
    ∃ act, callLinear? i method a = some act ∧ Keeps (Alters i) act := by
  obtain rfl | rfl | rfl : method = "add" ∨ method = "add_terms" ∨ method = "clear" := by
    simpa [mutators] using h
  · exact ⟨_, rfl, keeps_calling fun _ => (alters_changeLinear _).bind fun _ => keeps_pure _⟩
  · have refuse := (keeps_refuseNames "Linear.add_terms" [] a).imp (S := Alters i)
      fun _ _ h => h ▸ Std.Refl.refl _
    refine ⟨_, rfl, refuse.bind fun _ => (keeps_forM (fun _ => ?_) _).bind fun _ => keeps_pure _⟩
    exact keeps_read.bind fun _ => (keeps_ofExcept _).bind fun _ => alters_changeLinear _
  · exact ⟨_, rfl, keeps_calling fun _ => keeps_silently (alters_changeLinear _)⟩

theorem alters_callMethod (extras : s.extras = []) (env : Environment) {method : String}
    (h : method ∈ mutators) (i : Nat) (a : Arguments) :
    Alters i s ((callMethod env (.object ⟨.linear, i⟩) method a).perform s).2.state := by
  obtain ⟨act, known, alters⟩ := exists_mutator h i a
  have after := sameParts_callMethod env (.object ⟨.linear, i⟩) method a s
  have found : callKnown? env s (.object ⟨.linear, i⟩) method a = some act := known
  rw [runOn_callMember (s := ⟨s, []⟩) extras found] at after
  exact IsTrans.trans _ _ _ (alters ⟨s, []⟩) after.alters

theorem Alters.untouched (h : Alters i s s')
    (kept : s.PartOf id (.object ⟨.linear, i⟩) → s'.linears[i]? = s.linears[i]?) :
    s.Untouched id s' := by
  refine ⟨by rw [h.problems], fun _ _ => by rw [h.lists], fun _ _ => by rw [h.constraints],
    fun j part => ?_, h.extras⟩
  by_cases same : j = i
  · rw [same] at part ⊢
    exact kept part
  · exact h.linears j same

theorem untouched_change (sound : s.Sound id) (free : ¬s.PartOf id (.object ⟨.linear, i⟩))
    (env : Environment) {method : String} (h : method ∈ mutators) (a : Arguments) :
    s.Untouched id ((callMethod env (.object ⟨.linear, i⟩) method a).perform s).2.state :=
  (alters_callMethod sound.extras env h i a).untouched fun part => absurd part free

/-! ## Runs -/

section

variable {own : Nat → Prop} {methods : List String}

/-- A problem comes to hold expressions that are its own, and the others are changed without it. -/
theorem Interleaved.later (built : Built id s) (course : Interleaved id s own methods s') :
    Later id s s' ∧ ∀ i, s'.PartOf id (.object ⟨.linear, i⟩) → own i := by
  induction course with
  | start held => exact ⟨.refl, held⟩
  | @call _ _ _ _ env _ _ before known typed after ih =>
      obtain ⟨later, held⟩ := ih
      subst after
      refine ⟨later.call known typed, fun i part => ?_⟩
      have sound := (built.later later).sound
      obtain ⟨sound', within⟩ := sound_call sound env known typed
      have stores := stores_callMethod sound env known typed
      have bound := sound'.lt_of_partOf part
      rcases stores.partOf sound sound' within.constraints part with old | (new | taken) | ⟨-, new⟩
      · exact .inl (held i old)
      · exact .inr (.inl ⟨new, bound⟩)
      · exact .inr (.inr taken)
      · exact .inr (.inl ⟨new, bound⟩)
  | @change _ _ _ env _ _ a before mutates free ih =>
      obtain ⟨later, held⟩ := ih
      have sound := (built.later later).sound
      have untouched := untouched_change sound (fun part => free (held _ part)) env mutates a
      exact ⟨later.meanwhile untouched, fun i part => held i (untouched.partOf_linear sound part)⟩
  | meanwhile before untouched ih =>
      obtain ⟨later, held⟩ := ih
      have sound := (built.later later).sound
      exact ⟨later.meanwhile untouched, fun i part => held i (untouched.partOf_linear sound part)⟩

/-- What a problem held it holds as it was, and its objective unless a call set another. -/
theorem Interleaved.retains (built : Built id s) (course : Interleaved id s own methods s') :
    Retains id s s' ∧ ("set_objective" ∉ methods → RetainsObjective id s s') := by
  induction course with
  | start held => exact ⟨.refl id s, fun _ => .refl id s⟩
  | @call _ _ _ _ env method _ before known typed after ih =>
      obtain ⟨retains, objective⟩ := ih
      subst after
      have sound := (built.later (before.later built).1).sound
      obtain ⟨-, within⟩ := sound_call sound env known typed
      have stores := stores_callMethod sound env known typed
      obtain ⟨new, hnew, -⟩ := stores.stored
      refine ⟨retains.trans (retains_of_within sound within (hnew ▸ List.prefix_append _ _)), ?_⟩
      intro none
      obtain ⟨earlier, last⟩ : _ ∧ "set_objective" ≠ method := by simpa using none
      refine (objective earlier).trans (retainsObjective_of_within sound within ?_)
      exact stores.objective.resolve_right fun ⟨_, _, set, _⟩ => last set.symm
  | @change _ _ _ env _ _ a before mutates free ih =>
      obtain ⟨retains, objective⟩ := ih
      obtain ⟨later, held⟩ := before.later built
      have sound := (built.later later).sound
      have untouched := untouched_change sound (fun part => free (held _ part)) env mutates a
      exact ⟨retains.trans (untouched.retains sound), fun none =>
        (objective none).trans untouched.retainsObjective⟩
  | meanwhile before untouched ih =>
      obtain ⟨retains, objective⟩ := ih
      have sound := (built.later (before.later built).1).sound
      exact ⟨retains.trans (untouched.retains sound), fun none =>
        (objective none).trans untouched.retainsObjective⟩

theorem Interleaved.unaltered (built : Built id s) (course : Interleaved id s own methods s') :
    Unaltered id ("set_objective" ∈ methods) s s' := by
  have sound := built.sound
  have sound' := (built.later (course.later built).1).sound
  obtain ⟨retains, objective⟩ := course.retains built
  exact ⟨retains.items sound sound', fun c hc closed => retains.text sound hc closed,
    fun none => (objective none).view sound sound',
    fun none e he closed => (objective none).text sound he closed⟩

end

/-! ## Expressions that a problem holds -/

theorem viewProblem_items {l : Nat} (hl : (s.problem id).constraints = .object ⟨.list, l⟩) :
    (s.viewProblem id).constraints.items = (s.viewAll (s.stored id)).1 := by
  have walk : s.walk (.object ⟨.list, l⟩) = .ofList (s.list l) := rfl
  change (s.viewConstraints (s.problem id).constraints).items = _
  rw [hl, viewConstraints, walk, stored, hl]
  rcases h : s.viewAll (s.list l) with ⟨cs, _ | v⟩ <;> simp [Series.ofList, h]

theorem viewConstraint_of_viewAll_eq {vs : List Value} (h : (s'.viewAll vs).1 = (s.viewAll vs).1)
    (shape : ∀ v ∈ vs, ∃ c, v = .object ⟨.constraint, c⟩) {c : Nat}
    (hc : .object ⟨.constraint, c⟩ ∈ vs) : s'.viewConstraint c = s.viewConstraint c := by
  induction vs with
  | nil => cases hc
  | cons v vs ih =>
      obtain ⟨⟨c', rfl⟩, tail⟩ := List.forall_mem_cons.mp shape
      obtain ⟨first, rest⟩ := List.cons.inj h
      rcases List.mem_cons.mp hc with same | hc
      · cases same
        exact first
      · exact ih rest tail hc

theorem Alters.viewConstraint_ne (alters : Alters i s s') (sound : s.Sound id)
    (more : s'.linear i ≠ s.linear i) {c : Nat} (hc : .object ⟨.constraint, c⟩ ∈ s.stored id)
    (lhs : (s.constraint c).lhs = .object ⟨.linear, i⟩) :
    s'.viewConstraint c ≠ s.viewConstraint c := by
  intro same
  obtain ⟨_, o, j, l, ⟨⟩, ho, -⟩ := sound.row_eq hc
  rw [constraint, ho] at lhs
  rw [viewConstraint_eq sound.extras ho lhs, viewConstraint_eq (alters.extras.trans sound.extras)
    (alters.constraints ▸ ho) lhs] at same
  exact more (by simpa using congrArg Constraint.lhs same)

/-- A problem that holds an expression is seen to be another when the expression is. -/
theorem Alters.viewProblem_ne (alters : Alters i s s') (sound : s.Sound id)
    (more : s'.linear i ≠ s.linear i) (part : s.PartOf id (.object ⟨.linear, i⟩)) :
    s'.viewProblem id ≠ s.viewProblem id := by
  intro seen
  have problem : s'.problem id = s.problem id := by
    rw [Store.problem, Store.problem, alters.problems]
  rcases sound.partOf_linear_iff.mp part with ⟨w, hw, side⟩ | objective
  · obtain ⟨c, o, j, l, rfl, -⟩ := sound.row_eq hw
    obtain ⟨list, hlist, -⟩ := sound.exists_stored
    have stored : s'.stored id = s.stored id := by
      simp only [Store.stored, problem, Store.list, alters.lists]
    have items := congrArg (fun p => p.constraints.items) seen
    rw [viewProblem_items hlist, viewProblem_items (problem ▸ hlist), stored] at items
    have shape (v : Value) (hv : v ∈ s.stored id) : ∃ c, v = .object ⟨.constraint, c⟩ := by
      obtain ⟨c, _, _, _, hc, -⟩ := sound.row_eq hv
      exact ⟨c, hc⟩
    exact alters.viewConstraint_ne sound more hw side (viewConstraint_of_viewAll_eq items shape hw)
  · have same := congrArg Problem.objective seen
    change (s'.problem id).objective.toOption.map s'.viewExpression =
      (s.problem id).objective.toOption.map s.viewExpression at same
    rw [problem, objective] at same
    have same : s'.viewExpression (.object ⟨.linear, i⟩) =
        s.viewExpression (.object ⟨.linear, i⟩) := Option.some.inj same
    rw [viewExpression_linear (alters.extras.trans sound.extras),
      viewExpression_linear sound.extras] at same
    exact more (by simpa using same)

/-- A change to an expression is seen in a problem exactly if the problem holds the expression
(`PartOf`). -/
theorem Alters.viewProblem_eq_iff (alters : Alters i s s') (sound : s.Sound id) :
    s'.viewProblem id = s.viewProblem id ↔
      (s.PartOf id (.object ⟨.linear, i⟩) → s'.linear i = s.linear i) := by
  constructor
  · exact fun seen part => by_contra fun more => alters.viewProblem_ne sound more part seen
  · intro same
    refine (alters.untouched fun part => ?_).viewProblem sound
    have hi := sound.lt_of_partOf part
    have hi' : i < s'.linears.length := alters.length ▸ hi
    simpa [linear, hi, hi'] using same part

/-- A constraint that is handed over as it is is held with its expression. -/
theorem partOf_of_takenAsIs (sound : s.Sound id) (env : Environment) {a : Arguments}
    (typed : s.Typed "add" a) (taken : s.TakenAsIs "add" a i) {v : Value}
    (done : ((callMethod env (.object ⟨.problem, id⟩) "add" a).perform s).1 = .ok v) :
    ((callMethod env (.object ⟨.problem, id⟩) "add" a).perform s).2.state.PartOf id
      (.object ⟨.linear, i⟩) := by
  obtain ⟨-, unnamed, c, parts, lhs⟩ := taken
  have row := typed rfl c parts
  have known : (callProblem? id "add" a).isSome := rfl
  obtain ⟨sound', within⟩ := sound_call sound env known typed
  have after := sameParts_callMethod env (.object ⟨.problem, id⟩) "add" a s
  obtain ⟨w, hw⟩ := ok_of_callMethod done
  obtain ⟨act, hact⟩ := Option.isSome_iff_exists.mp known
  rw [runOn_callProblem (s := ⟨s, []⟩) hact sound] at after hw
  cases hact
  rw [parts] at after hw
  obtain ⟨_, s₁, hrefuse, hadd⟩ := runOn_bind_eq_ok.mp (Prod.ext hw rfl)
  have same : s = s₁.state := (keeps_refuseNames "Problem.add" ["name"] a).of_runOn hrefuse
  have held := mem_stored_of_addToProblem (same ▸ sound) (same ▸ row) unnamed hadd
  have still : SameObjects id _ _ := after.adds.sameObjects
  obtain ⟨_, o, _, ⟨⟩, ho, -⟩ := row
  have side : s.lhsOf (.object ⟨.constraint, c⟩) = .object ⟨.linear, i⟩ := lhs
  rw [← lhsOf_mono ho within.constraints side]
  exact partOf_lhsOf sound' (still.stored ▸ held)

end

/-- Through calls on a problem that is `Built`, and changes to expressions that it neither made nor
took in as they are (`Interleaved`), it keeps what it held, and has a column for every variable in
it. A change to any expression (`Alters`) is seen in it exactly if it holds the expression, and it
does hold the one of a constraint that was handed over as it is (`TakenAsIs`). -/
theorem Built.sharing {id : Nat} {s s' : Store} {own : Nat → Prop} {methods : List String}
    (built : Built id s) (course : Interleaved id s own methods s') :
    (s'.viewProblem id).Indexed ∧ Unaltered id ("set_objective" ∈ methods) s s' ∧
      (∀ env i method a, method ∈ mutators →
        let after := ((callMethod env (.object ⟨.linear, i⟩) method a).perform s').2.state
        after.viewProblem id = s'.viewProblem id ↔
          (s'.PartOf id (.object ⟨.linear, i⟩) → after.linear i = s'.linear i)) ∧
      ∀ env i a v, s'.Typed "add" a → s'.TakenAsIs "add" a i →
        ((callMethod env (.object ⟨.problem, id⟩) "add" a).perform s').1 = .ok v →
        ((callMethod env (.object ⟨.problem, id⟩) "add" a).perform s').2.state.PartOf id
          (.object ⟨.linear, i⟩) := by
  have built' := built.later (course.later built).1
  refine ⟨built'.sound.indexed built'.covered, course.unaltered built,
    fun env i method a mutates => ?_,
    fun env i a v typed taken done => partOf_of_takenAsIs built'.sound env typed taken done⟩
  exact (alters_callMethod built'.sound.extras env mutates i a).viewProblem_eq_iff built'.sound

/-- A call on an expression, wherever no engine is installed. -/
def changed (i : Nat) (method : String) (xs : List Value) (s : Store) : Store :=
  let nothing : Environment := ⟨fun _ => false, fun _ => false, fun _ => .ok false, fun _ => none⟩
  ((callMethod nothing (.object ⟨.linear, i⟩) method ⟨xs, []⟩).perform s).2.state

/-- The decision and an expression that nothing holds. -/
def lent : Store :=
  ((newLinear ⟨[⟨.text "z", .int 1⟩]⟩).perform decision).2.state

/-- The decision with a constraint over the expression, which is changed afterwards. -/
def reclaimed : Store :=
  lent
    |> called "add" [.text "extra", .object ⟨.linear, 2⟩, .text "<=", .int 5]
    |> changed 2 "add" [.int 1, .text "w"]

theorem linears_decision : decision.linears.length = 2 := by
  with_unfolding_all rfl

theorem Interleaved.called {s s' : Store} {own : Nat → Prop} {methods : List String}
    {method : String} {xs : List Value} (h : Interleaved 0 s own methods s')
    (known : (callProblem? 0 method ⟨xs, []⟩).isSome) (several : xs.length ≠ 1) :
    Interleaved 0 s (fun i => own i ∨
      (s'.linears.length ≤ i ∧ i < (called method xs s').linears.length) ∨
      s'.TakenAsIs method ⟨xs, []⟩ i) (methods ++ [method]) (called method xs s') :=
  h.call known (fun _ _ hc => absurd (congrArg List.length hc) several) rfl

theorem interleaved_reclaimed : ∃ own, Interleaved 0 decision own ["add"] reclaimed := by
  have start : Interleaved 0 decision (fun i => i < 2) [] decision :=
    .start fun i part => linears_decision ▸ built_decision.sound.lt_of_partOf part
  have entered (s : Store) (l : Linear) : Adds s ((newLinear l).perform s).2.state :=
    adds_newLinear l ⟨s, []⟩
  have adds : Adds decision lent := entered decision _
  have made := start.meanwhile (adds.untouched built_decision.sound)
  have added : Interleaved 0 decision _ ["add"]
      (called "add" [.text "extra", .object ⟨.linear, 2⟩, .text "<=", .int 5] lent) :=
    made.called rfl (by decide)
  have length : lent.linears.length = 3 := by
    change (decision.linears ++ [_]).length = 3
    rw [List.length_append, linears_decision]
    rfl
  exact ⟨_, added.change (by simp [mutators]) (by simp [length, TakenAsIs])⟩

set_option maxRecDepth 8000 in
theorem items_reclaimed : (reclaimed.viewProblem 0).constraints.items =
    (decision.viewProblem 0).constraints.items ++
      [⟨.linear ⟨[⟨.text "z", .int 1⟩]⟩, .symbol (.relation .le), .int 5, .text "extra"⟩] := by
  with_unfolding_all rfl

set_option maxRecDepth 8000 in
theorem linear_reclaimed :
    reclaimed.linear 2 = ⟨[⟨.text "z", .int 1⟩, ⟨.text "w", .int 1⟩]⟩ := by
  with_unfolding_all rfl

theorem sharing_reclaimed : Built 0 decision ∧
    (∃ own, Interleaved 0 decision own ["add"] reclaimed) ∧ (reclaimed.viewProblem 0).Indexed ∧
    Unaltered 0 ("set_objective" ∈ ["add"]) decision reclaimed ∧
    (reclaimed.viewProblem 0).constraints.items = (decision.viewProblem 0).constraints.items ++
      [⟨.linear ⟨[⟨.text "z", .int 1⟩]⟩, .symbol (.relation .le), .int 5, .text "extra"⟩] ∧
    reclaimed.linear 2 = ⟨[⟨.text "z", .int 1⟩, ⟨.text "w", .int 1⟩]⟩ := by
  obtain ⟨own, course⟩ := interleaved_reclaimed
  obtain ⟨indexed, unaltered, -⟩ := built_decision.sharing course
  exact ⟨built_decision, ⟨own, course⟩, indexed, unaltered, items_reclaimed, linear_reclaimed⟩

/-- A problem that took in a constraint as it is, whose expression is changed afterwards. -/
def surprised : Store :=
  let x : Value := .text "x"
  let made := do
    let problem ← newProblem
    let _ ← makeConstraint (← newLinear ⟨[⟨x, .int 1⟩]⟩) (.text "<=") (.int 5) .none
    return problem
  (made.perform .empty).2.state
    |> called "add" [.object ⟨.constraint, 0⟩]
    |> changed 0 "add" [.int 1, .text "z"]

set_option maxRecDepth 8000 in
/-- What was added to the expression has no column, so there is no matrix form. -/
example : (surprised.viewProblem 0).variableList = [.text "x"] ∧
    (surprised.viewProblem 0).matrix (surprised.viewProblem 0).index =
      (.error (.missingKey (.text "z")) : Except Fault (RangedRows Extended)) := by
  constructor <;> with_unfolding_all rfl

end Milp.Store
