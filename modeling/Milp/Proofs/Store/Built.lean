import Milp.Proofs.Problem.Denotation
import Milp.Proofs.Store.Calls
import Milp.Store.View

/-!
# Problems that were built by calls

A problem is made by `newProblem` and built by `callMethod`, some of whose calls may be broken off;
between them anything may be done that leaves alone what it is made of (`Built`). Such a problem has
a matrix form.
-/

namespace Milp.Store

open Milp.Action

/-- What a problem is made of: its constraints, what is among them, and the expressions. -/
inductive PartOf (s : Store) (id : Nat) : Value → Prop
  | list : PartOf s id (s.problem id).constraints
  | constraint {l : Nat} {v : Value} : (s.problem id).constraints = .object ⟨.list, l⟩ →
      v ∈ s.list l → PartOf s id v
  | lhs {c : Nat} : PartOf s id (.object ⟨.constraint, c⟩) → PartOf s id (s.constraint c).lhs
  | objective : PartOf s id (s.problem id).objective

/-- Nothing that is `PartOf` a problem is changed. -/
structure Untouched (id : Nat) (s s' : Store) : Prop where
  problem : s'.problems[id]? = s.problems[id]?
  lists : ∀ i, s.PartOf id (.object ⟨.list, i⟩) → s'.lists[i]? = s.lists[i]?
  constraints : ∀ i, s.PartOf id (.object ⟨.constraint, i⟩) →
    s'.constraints[i]? = s.constraints[i]?
  linears : ∀ i, s.PartOf id (.object ⟨.linear, i⟩) → s'.linears[i]? = s.linears[i]?
  extras : s'.extras = s.extras

/-- The constraints that a problem holds, as objects. -/
def stored (s : Store) (id : Nat) : List Value :=
  match (s.problem id).constraints with
  | .object ⟨.list, l⟩ => s.list l
  | _ => []

/-- The problem with the number `id` was made by `newProblem` and built by calls on it, and nothing
that it is made of was changed in between (`Untouched`). -/
inductive Built (id : Nat) : Store → Prop
  | new {s : Store} : s.extras = [] →
      (newProblem.perform s).1 = .ok (.object ⟨.problem, id⟩) →
      Built id (newProblem.perform s).2.state
  | call {s : Store} {env : Environment} {method : String} {a : Arguments} : Built id s →
      (callProblem? id method a).isSome → s.Typed method a →
      Built id ((callMethod env (.object ⟨.problem, id⟩) method a).perform s).2.state
  | meanwhile {s s' : Store} : Built id s → s.Untouched id s' → Built id s'

section

variable {id : Nat} {s s' : Store} {d : Declarations} {v : Value}

/-! ## Steps -/

theorem perform_newProblem (s : Store) : newProblem.perform s =
    (.ok (.object ⟨.problem, s.problems.length⟩),
      ⟨{ s with
        lists := s.lists ++ [[]]
        problems := s.problems ++ [⟨.empty, .none, .symbol (.sense .min),
          .object ⟨.list, s.lists.length⟩⟩] }, []⟩) := rfl

/-- A new problem has no data. -/
theorem problem_newProblem (h : (newProblem.perform s).1 = .ok (.object ⟨.problem, id⟩)) :
    (newProblem.perform s).2.state.problem id =
      ⟨.empty, .none, .symbol (.sense .min), .object ⟨.list, s.lists.length⟩⟩ := by
  rw [perform_newProblem] at h ⊢
  obtain rfl : s.problems.length = id := by simpa using h
  simp [problem]

theorem sound_new (extras : s.extras = [])
    (h : (newProblem.perform s).1 = .ok (.object ⟨.problem, id⟩)) :
    (newProblem.perform s).2.state.Sound id := by
  have new := problem_newProblem h
  obtain rfl : s.problems.length = id := by simpa [perform_newProblem] using h
  refine ⟨by simp [perform_newProblem], ?_,
    ⟨s.lists.length, [], by rw [new], by simp [perform_newProblem], by simp⟩,
    .inl (by rw [new]), extras⟩
  rw [new]
  exact ⟨List.Pairwise.nil,
    by simp [Declarations.empty, Declarations.variableList, Table.keys, Table.empty]⟩

/-- What `callMethod` does after `callMember` changes nothing of what problems are made of. -/
theorem sameParts_callMethod (env : Environment) (target : Value) (method : String) (a : Arguments)
    (s : Store) : SameParts ((callMember env target method a).runOn ⟨s, []⟩).2.state
      ((callMethod env target method a).perform s).2.state := by
  have told : SameParts ((callMember env target method a).runOn ⟨s, []⟩).2.state
      ((callMember env target method a >>= distinguish).runOn ⟨s, []⟩).2.state := by
    rw [runOn_bind]
    rcases (callMember env target method a).runOn ⟨s, []⟩ with ⟨f | v, s₁⟩
    · exact Std.Refl.refl s₁.state
    · exact keeps_distinguish v s₁
  exact IsTrans.trans _ _ _ told (sameParts_raising _ _)

/-- A call that is known is its own where it was not replaced. -/
theorem runOn_callMember_of_plain {env : Environment} {target : Value} {method : String}
    {a : Arguments} {act : Action Store Value} {s : Logged Store}
    (plain : s.state.written? target method = none)
    (known : callKnown? env s.state target method a = some act) :
    (callMember env target method a).runOn s = act.runOn s := by
  unfold callMember
  rw [runOn_bind, runOn_read]
  simp only [plain, known]

theorem runOn_callMember {env : Environment} {target : Value} {method : String} {a : Arguments}
    {act : Action Store Value} {s : Logged Store} (extras : s.state.extras = [])
    (known : callKnown? env s.state target method a = some act) :
    (callMember env target method a).runOn s = act.runOn s := by
  refine runOn_callMember_of_plain ?_ known
  unfold written?
  split <;> simp [extra?, extras]

theorem runOn_callProblem {env : Environment} {method : String} {a : Arguments}
    {act : Action Store Value} (known : callProblem? id method a = some act) {s : Logged Store}
    (sound : s.state.Sound id) :
    (callMember env (.object ⟨.problem, id⟩) method a).runOn s = act.runOn s := by
  have found : callKnown? env s.state (.object ⟨.problem, id⟩) method a = some act := known
  exact runOn_callMember sound.extras found

/-- `callMethod` on a sound problem leaves it sound, and all that is there as it was (`Within`). -/
theorem sound_call (sound : s.Sound id) (env : Environment) {method : String} {a : Arguments}
    (known : (callProblem? id method a).isSome) (typed : s.Typed method a) :
    ((callMethod env (.object ⟨.problem, id⟩) method a).perform s).2.state.Sound id ∧
      s.Within id ((callMethod env (.object ⟨.problem, id⟩) method a).perform s).2.state := by
  obtain ⟨act, hact⟩ := Option.isSome_iff_exists.mp known
  have after := sameParts_callMethod env (.object ⟨.problem, id⟩) method a s
  rw [runOn_callProblem (s := ⟨s, []⟩) hact sound] at after
  obtain ⟨sound₁, within⟩ := grows_call hact (s := ⟨s, []⟩) typed sound
  obtain ⟨sound₂, within'⟩ := after.grows sound₁
  exact ⟨sound₂, within.trans within'⟩

theorem StatedRow.untouched (h : s.StatedRow d v) (part : s.PartOf id v)
    (untouched : s.Untouched id s') : s'.StatedRow d v := by
  obtain ⟨c, o, rfl, ho, i, l, hi, hl, terms⟩ := h
  have lhs : (s.constraint c).lhs = .object ⟨.linear, i⟩ := by
    rw [constraint, ho]
    exact hi
  refine ⟨c, o, rfl, (untouched.constraints c part).trans ho, i, l, hi, ?_, terms⟩
  exact (untouched.linears i (lhs ▸ part.lhs)).trans hl

theorem Untouched.problem_eq (h : s.Untouched id s') : s'.problem id = s.problem id := by
  rw [Store.problem, Store.problem, h.problem]

theorem sound_untouched (sound : s.Sound id) (untouched : s.Untouched id s') : s'.Sound id := by
  have same := untouched.problem_eq
  obtain ⟨l, vs, hl, hvs, rows⟩ := sound.constraints
  refine ⟨?_, same ▸ sound.distinct, ⟨l, vs, same ▸ hl, ?_, fun v hv => ?_⟩, ?_,
    untouched.extras.trans sound.extras⟩
  · have there := List.getElem?_eq_getElem sound.present
    rw [← untouched.problem] at there
    exact (List.getElem?_eq_some_iff.mp there).choose
  · exact (untouched.lists l (hl ▸ .list)).trans hvs
  · rw [same]
    have hv : v ∈ s.list l := by
      rw [list, hvs]
      exact hv
    exact (rows v ‹_›).untouched (.constraint hl hv) untouched
  · rw [same]
    rcases sound.objective with none | ⟨i, o, hi, ho, terms⟩
    · exact .inl none
    · exact .inr ⟨i, o, hi, (untouched.linears i (hi ▸ .objective)).trans ho, terms⟩

/-- Every problem that is `Built` is `Sound`. -/
theorem Built.sound (h : Built id s) : s.Sound id := by
  induction h with
  | new extras h => exact sound_new extras h
  | call _ known typed ih => exact (sound_call ih _ known typed).1
  | meanwhile _ untouched ih => exact sound_untouched ih untouched

/-! ## What is seen of a problem -/

theorem viewExpression_linear (extras : s.extras = []) (i : Nat) :
    s.viewExpression (.object ⟨.linear, i⟩) = .linear (s.linear i) := by
  have plain : s.refusal? (.object ⟨.linear, i⟩) "evaluate" = none := by
    rw [refusal?, extra?, extras]
    rfl
  simp only [viewExpression, plain]

theorem Stated.view (h : s.Stated d v) (extras : s.extras = []) :
    ∃ l : Linear, s.viewExpression v = .linear l ∧ ∀ t ∈ l.terms, d.Registered t.var := by
  obtain ⟨i, l, rfl, hl, terms⟩ := h
  refine ⟨l, ?_, terms⟩
  rw [viewExpression_linear extras, linear, hl]
  rfl

theorem viewAll_of_statedRow (extras : s.extras = []) {vs : List Value}
    (rows : ∀ v ∈ vs, s.StatedRow d v) :
    ∃ cs, s.viewAll vs = (cs, none) ∧ cs.length = vs.length ∧ ∀ c ∈ cs,
      ∃ l : Linear, c.lhs = .linear l ∧ ∀ t ∈ l.terms, d.Registered t.var := by
  induction vs with
  | nil => exact ⟨[], rfl, rfl, by simp⟩
  | cons v vs ih =>
      obtain ⟨row, rest⟩ := List.forall_mem_cons.mp rows
      obtain ⟨c, o, rfl, ho, stated⟩ := row
      obtain ⟨cs, hcs, length, stateds⟩ := ih rest
      refine ⟨s.viewConstraint c :: cs, by rw [viewAll, hcs], congrArg (· + 1) length, ?_⟩
      refine List.forall_mem_cons.mpr ⟨?_, stateds⟩
      rw [viewConstraint, constraint, ho]
      exact stated.view extras

theorem Sound.exists_stored (h : s.Sound id) :
    ∃ l, (s.problem id).constraints = .object ⟨.list, l⟩ ∧ s.lists[l]? = some (s.stored id) ∧
      s.stored id = s.list l := by
  obtain ⟨l, vs, hl, hvs, -⟩ := h.constraints
  have stored : s.stored id = s.list l := by
    rw [Store.stored, hl]
  refine ⟨l, hl, ?_, stored⟩
  rw [stored, list, hvs]
  rfl

theorem Sound.rows (h : s.Sound id) :
    ∀ v ∈ s.stored id, s.StatedRow (s.problem id).toDeclarations v := by
  obtain ⟨l, vs, hl, hvs, rows⟩ := h.constraints
  have stored : s.stored id = vs := by
    rw [Store.stored, hl]
    simp [list, hvs]
  rw [stored]
  exact rows

/-- The constraints of a sound problem are gone through to the end. -/
theorem Sound.viewProblem_constraints (h : s.Sound id) :
    (s.viewProblem id).constraints = .ofList (s.viewAll (s.stored id)).1 := by
  obtain ⟨l, hl, -, stored⟩ := h.exists_stored
  obtain ⟨cs, hcs, count, -⟩ := viewAll_of_statedRow h.extras h.rows
  have walk : s.walk (.object ⟨.list, l⟩) = .ofList (s.list l) := rfl
  have length : s.length (.object ⟨.list, l⟩) = .ok (s.list l).length := rfl
  change s.viewConstraints (s.problem id).constraints = _
  rw [hl, viewConstraints, walk, length, ← stored]
  simp only [Series.ofList, hcs, count]

theorem Sound.constraints_eq_ofList (h : s.Sound id) :
    ∃ cs, (s.viewProblem id).constraints = .ofList cs ∧ ∀ c ∈ cs,
      ∃ l : Linear, c.lhs = .linear l ∧ ∀ t ∈ l.terms, (s.viewProblem id).Registered t.var := by
  obtain ⟨cs, hcs, -, stated⟩ := viewAll_of_statedRow h.extras h.rows
  refine ⟨cs, ?_, stated⟩
  rw [h.viewProblem_constraints, hcs]

/-- `viewProblem` of a sound problem is `WellFormed`. -/
theorem Sound.wellFormed (h : s.Sound id) : (s.viewProblem id).WellFormed := by
  obtain ⟨cs, seen, stated⟩ := h.constraints_eq_ofList
  refine ⟨h.distinct, by rw [seen]; rfl, ⟨_, by rw [seen]; rfl⟩, ?_, fun e he => ?_⟩
  · rw [seen]
    exact stated
  · have he : (s.problem id).objective.toOption.map s.viewExpression = some e := he
    rcases h.objective with none | stated
    · rw [none] at he
      cases he
    · obtain ⟨l, seen, terms⟩ := stated.view h.extras
      have present : (s.problem id).objective.toOption = some (s.problem id).objective := by
        obtain ⟨i, o, hi, -, -⟩ := stated
        rw [hi]
        rfl
      rw [present] at he
      exact ⟨l, (Option.some.inj he).symm.trans seen, terms⟩

end

/-- For a problem that is `Built` with `FiniteData`, `Problem.matrix`, `Declarations.columns` and
`Problem.cost` give a matrix form, which `Denotes` it. -/
theorem Built.denotes {id : Nat} {s : Store} (built : Built id s)
    (finite : (s.viewProblem id).FiniteData) :
    ∃ rows columns cost, (s.viewProblem id).matrix (s.viewProblem id).index = .ok rows ∧
      (s.viewProblem id).columns (s.viewProblem id).index = .ok columns ∧
      (s.viewProblem id).cost (s.viewProblem id).index = .ok cost ∧
      (s.viewProblem id).Denotes rows columns cost :=
  built.sound.wellFormed.exists_matrixForm finite

/-- A call on the first problem of a store, wherever no engine is installed. -/
def called (method : String) (xs : List Value) (s : Store) : Store :=
  let nothing : Environment := ⟨fun _ => false, fun _ => false, fun _ => .ok false, fun _ => none⟩
  ((callMethod nothing (.object ⟨.problem, 0⟩) method ⟨xs, []⟩).perform s).2.state

/-- The first problem of a store, before any call on it. -/
theorem built_first : Built 0 (newProblem.perform .empty).2.state :=
  .new rfl rfl

theorem Built.called {s : Store} {method : String} {xs : List Value} (h : Built 0 s)
    (known : (callProblem? 0 method ⟨xs, []⟩).isSome) (several : xs.length ≠ 1) :
    Built 0 (called method xs s) :=
  h.call known fun _ _ hc => absurd (congrArg List.length hc) several

/-- A whole number and a decision, with a constraint that names the number twice. -/
def decision : Store :=
  let x : Value := .text "x"
  let y : Value := .text "y"
  (newProblem.perform .empty).2.state
    |> called "set_objective" [.tuple [.term x (.int 3)], .text "max"]
    |> called "add" [.text "cap", .tuple [.term x (.int 1), .term y (.int 2), .term x (.int 1)],
      .text "<=", .int 3]
    |> called "set_var_type" [y, .type .bool]
    |> called "set_var_bounds_and_type" [.int 0, x, .int 2, .type .int]

theorem built_decision : Built 0 decision :=
  (((built_first.called rfl (by decide)).called rfl (by decide)).called rfl (by decide)).called
    rfl (by decide)

set_option maxRecDepth 4000 in
theorem items_decision : (decision.viewProblem 0).constraints.items =
    [⟨.linear ⟨[⟨.text "x", .int 1⟩, ⟨.text "y", .int 2⟩, ⟨.text "x", .int 1⟩]⟩,
      .symbol (.relation .le), .int 3, .text "cap"⟩] := by
  with_unfolding_all rfl

set_option maxRecDepth 4000 in
theorem objective_decision :
    (decision.viewProblem 0).objective = some (.linear ⟨[⟨.text "x", .int 3⟩]⟩) := by
  with_unfolding_all rfl

set_option maxRecDepth 4000 in
theorem lowers_decision : (decision.viewProblem 0).lowers = ⟨[(.text "x", .int 0)]⟩ := by
  with_unfolding_all rfl

set_option maxRecDepth 4000 in
theorem uppers_decision : (decision.viewProblem 0).uppers = ⟨[(.text "x", .int 2)]⟩ := by
  with_unfolding_all rfl

theorem finiteData_decision : (decision.viewProblem 0).FiniteData := by
  have whole (n : Int) : (Value.int n).ReadsFinite := Value.readsFinite_of_eq rfl
  have number (n : Int) : (Value.int n).IsFinite := rfl
  refine ⟨?_, ?_, ?_, ?_⟩
  · simp [items_decision, whole]
  · simp [items_decision, whole]
  · simp [objective_decision, whole]
  · intro v _
    exact ⟨fun b hb => Table.eq_of_get?_singleton (lowers_decision ▸ hb) ▸ number 0,
      fun b hb => Table.eq_of_get?_singleton (uppers_decision ▸ hb) ▸ number 2⟩

theorem denotes_decision : Built 0 decision ∧ (decision.viewProblem 0).FiniteData ∧
    ∃ rows columns cost, (decision.viewProblem 0).matrix (decision.viewProblem 0).index = .ok rows ∧
      (decision.viewProblem 0).columns (decision.viewProblem 0).index = .ok columns ∧
      (decision.viewProblem 0).cost (decision.viewProblem 0).index = .ok cost ∧
      (decision.viewProblem 0).Denotes rows columns cost :=
  ⟨built_decision, finiteData_decision, built_decision.denotes finiteData_decision⟩

end Milp.Store
