import Milp.Proofs.Store.Built
import Milp.Proofs.Store.Copies

/-!
# What a problem holds

A problem holds the copies that calls on it made, and those constraints that were handed over as
they are. A call adds to what it holds; what it held before it holds unchanged.
-/

namespace Milp.Store

open Milp.Action

/-- The objective and the constraints are the same objects. -/
structure SameObjects (id : Nat) (s s' : Store) : Prop where
  lists : s'.lists = s.lists
  constraints : (s'.problem id).constraints = (s.problem id).constraints
  objective : (s'.problem id).objective = (s.problem id).objective

def KeepsObjects (id : Nat) (s s' : Store) : Prop :=
  s.Sound id → s'.Sound id ∧ SameObjects id s s'

/-- Constraints were added over expressions of some numbers, and the objective is the same object,
or an expression of one of some other numbers. -/
structure Stores (id : Nat) (rows objectives : Nat → Prop) (s s' : Store) : Prop where
  constraints : (s'.problem id).constraints = (s.problem id).constraints
  stored : ∃ new, s'.stored id = s.stored id ++ new ∧
    ∀ v ∈ new, ∃ i, s'.lhsOf v = .object ⟨.linear, i⟩ ∧ rows i
  objective : (s'.problem id).objective = (s.problem id).objective ∨
    ∃ i, (s'.problem id).objective = .object ⟨.linear, i⟩ ∧ objectives i

/-- A call takes in an expression as it is: the left-hand side of a constraint that is handed over
without another name. -/
def TakenAsIs (s : Store) (method : String) (a : Arguments) (i : Nat) : Prop :=
  method = "add" ∧ ((a.byName.lookup "name").getD .none).isNone ∧
    ∃ c, a.inOrder = [.object ⟨.constraint, c⟩] ∧ (s.constraint c).lhs = .object ⟨.linear, i⟩

section

variable {id i : Nat} {s s' s'' : Store} {v : Value} {rows objectives : Nat → Prop}

/-! ## The expressions of a problem -/

theorem Sound.objective_eq (sound : s.Sound id) : (s.problem id).objective = .none ∨
    ∃ i l, (s.problem id).objective = .object ⟨.linear, i⟩ ∧ s.linears[i]? = some l := by
  refine sound.objective.imp_right ?_
  rintro ⟨i, l, hi, hl, -⟩
  exact ⟨i, l, hi, hl⟩

theorem Sound.row_eq (sound : s.Sound id) (hv : v ∈ s.stored id) : ∃ c o i l,
    v = .object ⟨.constraint, c⟩ ∧ s.constraints[c]? = some o ∧
      o.lhs = .object ⟨.linear, i⟩ ∧ s.linears[i]? = some l := by
  obtain ⟨c, o, rfl, ho, i, l, hi, hl, -⟩ := sound.rows v hv
  exact ⟨c, o, i, l, rfl, ho, hi, hl⟩

theorem Sound.lhsOf_eq (sound : s.Sound id) (hv : v ∈ s.stored id) :
    ∃ i l, s.lhsOf v = .object ⟨.linear, i⟩ ∧ s.linears[i]? = some l := by
  obtain ⟨c, o, i, l, rfl, ho, hi, hl⟩ := sound.row_eq hv
  exact ⟨i, l, (lhsOf_constraint ho).trans hi, hl⟩

theorem Sound.mem_stored (sound : s.Sound id) {c : Nat}
    (h : .object ⟨.constraint, c⟩ = (s.problem id).constraints ∨
      .object ⟨.constraint, c⟩ ∈ s.stored id ∨
      (∃ w ∈ s.stored id, s.lhsOf w = .object ⟨.constraint, c⟩) ∨
      .object ⟨.constraint, c⟩ = (s.problem id).objective) :
    .object ⟨.constraint, c⟩ ∈ s.stored id := by
  rcases h with h | h | ⟨w, hw, h⟩ | h
  · obtain ⟨l, hl, -⟩ := sound.exists_stored
    rw [hl] at h
    cases h
  · exact h
  · obtain ⟨i, _, hi, -⟩ := sound.lhsOf_eq hw
    rw [hi] at h
    cases h
  · rcases sound.objective_eq with none | ⟨i, _, hi, -⟩
    · rw [none] at h
      cases h
    · rw [hi] at h
      cases h

/-- A sound problem is made of the list of its constraints, these, their sides, and its objective,
and of nothing else. -/
theorem Sound.eq_of_partOf (sound : s.Sound id) (part : s.PartOf id v) :
    v = (s.problem id).constraints ∨ v ∈ s.stored id ∨ (∃ w ∈ s.stored id, s.lhsOf w = v) ∨
      v = (s.problem id).objective := by
  obtain ⟨l, hl, -, stored⟩ := sound.exists_stored
  induction part with
  | list => exact .inl rfl
  | constraint hl' hv =>
      obtain rfl : l = _ := by simpa using hl.symm.trans hl'
      exact .inr (.inl (stored ▸ hv))
  | lhs _ ih => exact .inr (.inr (.inl ⟨_, sound.mem_stored ih, rfl⟩))
  | objective => exact .inr (.inr (.inr rfl))

theorem partOf_of_stored (sound : s.Sound id) (hv : v ∈ s.stored id) : s.PartOf id v := by
  obtain ⟨l, hl, -, stored⟩ := sound.exists_stored
  exact .constraint hl (stored ▸ hv)

theorem partOf_lhsOf (sound : s.Sound id) (hv : v ∈ s.stored id) : s.PartOf id (s.lhsOf v) := by
  obtain ⟨c, o, i, l, rfl, -⟩ := sound.row_eq hv
  exact (partOf_of_stored sound hv).lhs

/-- The expressions that a problem is made of are the sides of its constraints and its objective. -/
theorem Sound.partOf_linear_iff (sound : s.Sound id) : s.PartOf id (.object ⟨.linear, i⟩) ↔
    (∃ v ∈ s.stored id, s.lhsOf v = .object ⟨.linear, i⟩) ∨
      (s.problem id).objective = .object ⟨.linear, i⟩ := by
  constructor
  · intro part
    rcases sound.eq_of_partOf part with h | h | h | h
    · obtain ⟨l, hl, -⟩ := sound.exists_stored
      rw [hl] at h
      cases h
    · obtain ⟨c, o, i, l, h, -⟩ := sound.row_eq h
      cases h
    · exact .inl h
    · exact .inr h.symm
  · rintro (⟨v, hv, side⟩ | objective)
    · exact side ▸ partOf_lhsOf sound hv
    · exact objective ▸ .objective

theorem Sound.lt_of_partOf (sound : s.Sound id) (part : s.PartOf id (.object ⟨.linear, i⟩)) :
    i < s.linears.length := by
  have there : ∃ l, s.linears[i]? = some l := by
    rcases sound.partOf_linear_iff.mp part with ⟨v, hv, side⟩ | objective
    · obtain ⟨j, l, hj, hl⟩ := sound.lhsOf_eq hv
      obtain rfl : i = j := by simpa using side.symm.trans hj
      exact ⟨l, hl⟩
    · rcases sound.objective_eq with none | ⟨j, l, hj, hl⟩
      · rw [none] at objective
        cases objective
      · obtain rfl : i = j := by simpa using objective.symm.trans hj
        exact ⟨l, hl⟩
  exact (List.getElem?_eq_some_iff.mp there.choose_spec).choose

/-! ## Parts that add nothing -/

instance : Std.Refl (SameObjects id) := ⟨fun _ => ⟨rfl, rfl, rfl⟩⟩

instance : IsTrans Store (SameObjects id) := ⟨fun _ _ _ h h' =>
  ⟨h'.lists.trans h.lists, h'.constraints.trans h.constraints, h'.objective.trans h.objective⟩⟩

instance : Std.Refl (KeepsObjects id) := ⟨fun s sound => ⟨sound, Std.Refl.refl s⟩⟩

instance : IsTrans Store (KeepsObjects id) := ⟨fun _ _ _ h h' sound =>
  have ⟨first, still⟩ := h sound
  have ⟨second, still'⟩ := h' first
  ⟨second, IsTrans.trans _ _ _ still still'⟩⟩

theorem Adds.sameObjects (h : Adds s s') : SameObjects id s s' := by
  refine ⟨h.lists, ?_, ?_⟩ <;> rw [problem, problem, h.problems]

theorem sameObjects_modify (s : Store) {f : ProblemObject → ProblemObject}
    (h : ∀ p, (f p).constraints = p.constraints ∧ (f p).objective = p.objective) :
    SameObjects id s { s with problems := s.problems.modify id f } := by
  have same (p : ProblemObject → Value) (hp : ∀ q, p (f q) = p q) :
      p (problem { s with problems := s.problems.modify id f } id) = p (s.problem id) := by
    simp only [problem, List.getElem?_modify]
    cases s.problems[id]? with
    | none => rfl
    | some q => simpa using hp q
  exact ⟨rfl, same _ fun q => (h q).1, same _ fun q => (h q).2⟩

theorem keepsObjects_of {α : Type} {a : Action Store α} (grows : Keeps (Grows id) a)
    (still : Keeps (SameObjects id) a) : Keeps (KeepsObjects id) a :=
  fun s sound => ⟨(grows s sound).1, still s⟩

theorem keepsObjects_onDeclarations {α : Type} {a : Action Declarations α}
    (h : Keeps Declarations.Extends a) : Keeps (KeepsObjects id) (onDeclarations id a) :=
  keepsObjects_of (keeps_onDeclarations h) fun s => sameObjects_modify s.state fun _ => ⟨rfl, rfl⟩

theorem keepsObjects_madeOnProblem {call : String} {args : List Value} {own : Action Store Unit}
    (h : Keeps (KeepsObjects id) own) : Keeps (KeepsObjects id) (madeOnProblem id call args own) := by
  intro s sound
  rw [runOn_madeOnProblem sound]
  exact h s sound

theorem keepsObjects_setSense (given : Value) : Keeps (KeepsObjects id) (setSense id given) := by
  refine keepsObjects_of (keeps_setSense given) ?_
  unfold setSense
  refine Keeps.bind ((keeps_senseOf given).imp fun _ _ h => h.adds.sameObjects) fun _ => ?_
  split
  · exact keeps_update fun s => sameObjects_modify s fun _ => ⟨rfl, rfl⟩
  · exact keeps_read.bind fun _ => keeps_note _ _ _

theorem keepsObjects_setBounds (lower v upper : Value) :
    Keeps (KeepsObjects id) (setBounds id lower v upper) :=
  (keepsObjects_madeOnProblem
    (keepsObjects_onDeclarations (Declarations.keeps_setLower _ _))).bind fun _ =>
    keepsObjects_madeOnProblem (keepsObjects_onDeclarations (Declarations.keeps_setUpper _ _))

theorem keepsObjects_setBoundsAndDomain (lower v upper given : Value) :
    Keeps (KeepsObjects id) (setBoundsAndDomain id lower v upper given) :=
  (keepsObjects_madeOnProblem (keepsObjects_setBounds _ _ _)).bind fun _ =>
    keepsObjects_madeOnProblem (keepsObjects_onDeclarations (Declarations.keeps_setDomain _ _))

theorem keepsObjects_registerTerms (v : Value) : Keeps (KeepsObjects id) (registerTerms id v) :=
  keeps_read.bind fun _ => (keeps_forM (fun _ => (keeps_ofExcept _).bind fun _ =>
    keepsObjects_onDeclarations (Declarations.keeps_register _)) _).bind fun _ => keeps_ofExcept _

/-! ## Parts that add something -/

theorem SameObjects.stored (h : SameObjects id s s') : s'.stored id = s.stored id := by
  simp only [Store.stored, h.constraints, list, h.lists]

theorem SameObjects.stores (h : SameObjects id s s') : Stores id rows objectives s s' :=
  ⟨h.constraints, ⟨[], by simp [h.stored], by simp⟩, .inl h.objective⟩

theorem SameObjects.trans_stores (h : SameObjects id s s') (h' : Stores id rows objectives s' s'') :
    Stores id rows objectives s s'' :=
  ⟨h'.constraints.trans h.constraints, h.stored ▸ h'.stored, h.objective ▸ h'.objective⟩

/-- What is written when a call has ended adds nothing. -/
theorem Stores.trans_sameParts (h : Stores id rows objectives s s') (same : SameParts s' s'') :
    Stores id rows objectives s s'' := by
  have still : SameObjects id s' s'' := same.adds.sameObjects
  have sides (v : Value) : s''.lhsOf v = s'.lhsOf v := by
    simp only [lhsOf, constraint, same.constraints]
  exact ⟨still.constraints.trans h.constraints, by simpa only [still.stored, sides] using h.stored,
    by simpa only [still.objective] using h.objective⟩

theorem runOn_append (l : Nat) (v : Value) (s : Logged Store) :
    (append (.object ⟨.list, l⟩) v).runOn s =
      (.ok (), { s with
        state := { s.state with lists := s.state.lists.modify l (· ++ [v]) } }) := rfl

/-- What is added is held in the last place. -/
theorem stored_append (sound : s.Sound id) (v : Value) (log : List Message) :
    ((append (s.problem id).constraints v).runOn ⟨s, log⟩).2.state.stored id =
      s.stored id ++ [v] := by
  obtain ⟨l, hl, there, -⟩ := sound.exists_stored
  rw [hl, runOn_append]
  have same : ({ s with lists := s.lists.modify l (· ++ [v]) } : Store).problem id =
      s.problem id := rfl
  simp only [stored, same, hl]
  simp [list, there]

theorem lhsOf_mono {c i : Nat} {o : ConstraintObject} (there : s.constraints[c]? = some o)
    (constraints : s.constraints <+: s'.constraints)
    (lhs : s.lhsOf (.object ⟨.constraint, c⟩) = .object ⟨.linear, i⟩) :
    s'.lhsOf (.object ⟨.constraint, c⟩) = .object ⟨.linear, i⟩ := by
  rw [lhsOf_constraint (getElem?_mono constraints there), ← lhsOf_constraint there, lhs]

/-- A constraint that is taken in is held, if the call gets as far as that. -/
theorem stores_takeConstraint {s : Logged Store} {v : Value} {i : Nat} (sound : s.state.Sound id)
    (row : s.state.IsRow v) (lhs : s.state.lhsOf v = .object ⟨.linear, i⟩) (hi : rows i) :
    Stores id rows objectives s.state ((takeConstraint id v).runOn s).2.state ∧
      (((takeConstraint id v).runOn s).1.isOk →
        v ∈ ((takeConstraint id v).runOn s).2.state.stored id) := by
  obtain ⟨c, o, _, rfl, ho, -, -⟩ := row
  unfold takeConstraint
  simp only [runOn_bind, runOn_read]
  rcases hr : (registerTerms id (s.state.lhsOf (.object ⟨.constraint, c⟩))).runOn s with
    ⟨f | u, s₁⟩
  · exact ⟨((keepsObjects_registerTerms _).of_runOn hr sound).2.stores, nofun⟩
  · obtain ⟨sound₁, still⟩ := (keepsObjects_registerTerms _).of_runOn hr sound
    obtain ⟨-, within⟩ := (keeps_registerTerms _).of_runOn hr sound
    obtain ⟨l, hl, -⟩ := sound₁.exists_stored
    have added := stored_append sound₁ (.object ⟨.constraint, c⟩) s₁.log
    have side := lhsOf_mono ho within.constraints lhs
    dsimp only
    rw [hl, runOn_append] at added ⊢
    refine ⟨still.trans_stores ⟨rfl, ⟨_, added, ?_⟩, .inl rfl⟩, fun _ => ?_⟩
    · exact List.forall_mem_singleton.mpr ⟨i, side, hi⟩
    · exact added ▸ List.mem_append_right _ (List.mem_singleton_self _)

theorem stores_takeCopy {s : Logged Store} (sound : s.state.Sound id)
    (fresh : ∀ i, s.state.linears.length ≤ i → rows i) (lhs operator rhs name : Value) :
    Stores id rows objectives s.state
      ((constraintOfCopy lhs operator rhs name >>= takeConstraint id).runOn s).2.state := by
  rw [runOn_bind]
  rcases h : (constraintOfCopy lhs operator rhs name).runOn s with ⟨f | v, s₁⟩
  · exact ((adds_constraintOfCopy lhs operator rhs name).of_runOn h).sameObjects.stores
  · have adds := (adds_constraintOfCopy lhs operator rhs name).of_runOn h
    obtain ⟨l, -, copied, -⟩ := constraintOfCopy_eq_ok h
    have sound₁ := (adds.grows sound).1
    have row := isRow_of_constraintOfCopy h
    exact adds.sameObjects.trans_stores
      (stores_takeConstraint sound₁ row copied.lhsOf (fresh _ le_rfl)).1

theorem stores_addToProblem {s : Logged Store} {parts : List Value} {name : Value}
    (typed : ∀ c, parts = [.object ⟨.constraint, c⟩] → s.state.IsRow (.object ⟨.constraint, c⟩))
    (sound : s.state.Sound id) (fresh : ∀ i, s.state.linears.length ≤ i → rows i)
    (taken : ∀ c i, name.isNone → parts = [.object ⟨.constraint, c⟩] →
      (s.state.constraint c).lhs = .object ⟨.linear, i⟩ → rows i) :
    Stores id rows objectives s.state ((addToProblem id parts name).runOn s).2.state := by
  have nothing : Stores id rows objectives s.state s.state :=
    SameObjects.stores (Std.Refl.refl s.state)
  unfold addToProblem
  split
  · rename_i c
    split
    · rename_i unnamed
      obtain ⟨_, o, i, ⟨⟩, ho, hlhs, -⟩ := typed c rfl
      have lhs := (lhsOf_constraint ho).trans hlhs
      exact (stores_takeConstraint sound (typed c rfl) lhs (taken c i unnamed rfl lhs)).1
    · rw [runOn_bind, runOn_read]
      exact stores_takeCopy sound fresh _ _ _ _
  · exact stores_takeCopy sound fresh _ _ _ _
  · split
    · exact stores_takeCopy sound fresh _ _ _ _
    · exact nothing
  · exact nothing

theorem mem_stored_of_addToProblem {s s' : Logged Store} {c : Nat} {name v : Value}
    (sound : s.state.Sound id) (row : s.state.IsRow (.object ⟨.constraint, c⟩))
    (unnamed : name.isNone)
    (h : (addToProblem id [.object ⟨.constraint, c⟩] name).runOn s = (.ok v, s')) :
    .object ⟨.constraint, c⟩ ∈ s'.state.stored id := by
  have ⟨_, o, i, same, ho, hlhs, _⟩ := row
  cases same
  have stores : Stores id (fun _ => True) (fun _ => True) _ _ ∧ _ :=
    stores_takeConstraint sound row ((lhsOf_constraint ho).trans hlhs) trivial
  have held := stores.2
  simp only [addToProblem, unnamed, if_true] at h
  rw [h] at held
  exact held rfl

/-- A new objective is held in the place of the old one. -/
theorem stores_changeObjective {n : Nat} (sound : s.Sound id) (hn : objectives n)
    (still : SameObjects id { s with problems := s.problems.modify id fun p =>
      { p with objective := .object ⟨.linear, n⟩ } } s') : Stores id rows objectives s s' := by
  have changed := problem_modify sound.present fun p =>
    { p with objective := .object ⟨.linear, n⟩ }
  have constraints : (s'.problem id).constraints = (s.problem id).constraints := by
    rw [still.constraints, changed]
  refine ⟨constraints, ⟨[], ?_, by simp⟩, .inr ⟨n, ?_, hn⟩⟩
  · simp only [Store.stored, constraints, list, still.lists, List.append_nil]
  · rw [still.objective, changed]

theorem stores_setObjective {s : Logged Store} (sound : s.state.Sound id) (objective sense : Value)
    (fresh : ∀ i, s.state.linears.length ≤ i → objectives i) :
    Stores id rows objectives s.state ((setObjective id objective sense).runOn s).2.state := by
  unfold setObjective
  rw [runOn_bind]
  rcases hr : (registerTerms id objective).runOn s with ⟨f | u, s₁⟩
  · exact ((keepsObjects_registerTerms objective).of_runOn hr sound).2.stores
  · obtain ⟨sound₁, still⟩ := (keepsObjects_registerTerms objective).of_runOn hr sound
    obtain ⟨-, within⟩ := (keeps_registerTerms objective).of_runOn hr sound
    refine still.trans_stores ?_
    dsimp only
    rw [runOn_bind, runOn_read]
    dsimp only
    rw [runOn_bind, runOn_ofExcept]
    cases hl : s₁.state.linearOf objective with
    | error f => exact SameObjects.stores (Std.Refl.refl s₁.state)
    | ok l =>
        have registered := registered_of_registerTerms sound hr hl
        -- The stores on the way are named, so that none of them is unfolded.
        obtain ⟨s₂, h₂⟩ : ∃ s₂, (newLinear l).runOn s₁ =
            (.ok (.object ⟨.linear, s₁.state.linears.length⟩), s₂) := ⟨_, rfl⟩
        have adds := (adds_newLinear l).of_runOn h₂
        have sound₂ := (adds.grows sound₁).1
        have sound₃ := (grows_takeObjective registered h₂ sound₂).1
        have number := fresh s₁.state.linears.length within.linears.length_le
        refine adds.sameObjects.trans_stores (stores_changeObjective sound₂ number ?_)
        dsimp only
        rw [runOn_bind, h₂]
        dsimp only
        rw [runOn_bind]
        change SameObjects id _ (Prod.snd (runOn _ _)).state
        split
        · exact (keepsObjects_madeOnProblem (keepsObjects_setSense sense) _ sound₃).2
        · exact Std.Refl.refl _

/-! ## Calls -/

theorem state_silently (a : Action Store Unit) (s : Logged Store) :
    ((silently a).runOn s).2.state = (a.runOn s).2.state := by
  unfold silently
  rw [runOn_bind]
  rcases a.runOn s with ⟨f | u, s₁⟩
  · rfl
  · rfl

/-- Only the calls that set the objective or add a constraint store anything. -/
theorem keepsObjects_call {method : String} {a : Arguments} {act : Action Store Value}
    (known : callProblem? id method a = some act) (set : method ≠ "set_objective")
    (add : method ≠ "add") : Keeps (KeepsObjects id) act := by
  have reads {α : Type} (e : Store → Except Fault α) :
      Keeps (KeepsObjects id) (Action.read >>= fun s => Action.ofExcept (e s)) :=
    keeps_read.bind fun _ => keeps_ofExcept _
  unfold callProblem? at known
  split at known
  · exact absurd rfl set
  · cases known
    exact keeps_calling fun _ => keeps_silently (keepsObjects_setSense _)
  · exact absurd rfl add
  · cases known
    exact keeps_calling fun _ => reads _
  · cases known
    exact keeps_calling fun _ => reads _
  · cases known
    exact keeps_calling fun _ => reads _
  · cases known
    exact keeps_calling fun _ => keeps_silently <|
      keepsObjects_onDeclarations (Declarations.keeps_setDomain _ _)
  · cases known
    exact keeps_calling fun _ => keeps_silently <|
      keepsObjects_onDeclarations (Declarations.keeps_setLower _ _)
  · cases known
    exact keeps_calling fun _ => keeps_silently <|
      keepsObjects_onDeclarations (Declarations.keeps_setUpper _ _)
  · cases known
    exact keeps_calling fun _ => keeps_silently (keepsObjects_setBounds _ _ _)
  · cases known
    exact keeps_calling fun _ => keeps_silently (keepsObjects_setBoundsAndDomain _ _ _ _)
  · cases known

/-- A call on a problem `Stores` constraints over expressions that it made, or that were handed over
as they are; and only a call that sets the objective gives it one, which it made. -/
theorem stores_call {method : String} {a : Arguments} {act : Action Store Value} {s : Logged Store}
    (known : callProblem? id method a = some act) (typed : s.state.Typed method a)
    (sound : s.state.Sound id) :
    Stores id (fun i => s.state.linears.length ≤ i ∨ s.state.TakenAsIs method a i)
      (fun i => method = "set_objective" ∧ s.state.linears.length ≤ i) s.state
      (act.runOn s).2.state := by
  by_cases set : method = "set_objective"
  · subst set
    cases known
    unfold calling callingOn
    rw [runOn_bind, runOn_ofExcept]
    cases Signature.bind ⟨"Problem.set_objective", ["objective"], [("opt_type", .none)],
        some "self"⟩ a with
    | error f => exact SameObjects.stores (Std.Refl.refl s.state)
    | ok x =>
        dsimp only
        rw [state_silently]
        exact stores_setObjective sound _ _ fun i hi => ⟨rfl, hi⟩
  by_cases add : method = "add"
  · subst add
    cases known
    rw [runOn_bind]
    have refuse := keeps_refuseNames "Problem.add" ["name"] a
    rcases h : (refuseNames "Problem.add" ["name"] a).runOn s with ⟨f | u, s₁⟩
    · have same : s.state = s₁.state := refuse.of_runOn h
      exact same ▸ SameObjects.stores (Std.Refl.refl s.state)
    · have same : s.state = s₁.state := refuse.of_runOn h
      rw [same] at sound typed ⊢
      refine stores_addToProblem (typed rfl) sound (fun i hi => .inl hi) ?_
      exact fun c i unnamed parts lhs => .inr ⟨rfl, unnamed, c, parts, lhs⟩
  exact (keepsObjects_call known set add s sound).2.stores

/-- What a call on a problem stores, with all that comes with it. -/
theorem stores_callMethod (sound : s.Sound id) (env : Environment) {method : String} {a : Arguments}
    (known : (callProblem? id method a).isSome) (typed : s.Typed method a) :
    Stores id (fun i => s.linears.length ≤ i ∨ s.TakenAsIs method a i)
      (fun i => method = "set_objective" ∧ s.linears.length ≤ i) s
      ((callMethod env (.object ⟨.problem, id⟩) method a).perform s).2.state := by
  obtain ⟨act, hact⟩ := Option.isSome_iff_exists.mp known
  have after := sameParts_callMethod env (.object ⟨.problem, id⟩) method a s
  rw [runOn_callProblem (s := ⟨s, []⟩) hact sound] at after
  exact (stores_call (s := ⟨s, []⟩) hact typed sound).trans_sameParts after

/-- Of expressions, a problem comes to hold those that a call stores. -/
theorem Stores.partOf (h : Stores id rows objectives s s')
    (sound : s.Sound id) (sound' : s'.Sound id) (constraints : s.constraints <+: s'.constraints)
    (part : s'.PartOf id (.object ⟨.linear, i⟩)) :
    s.PartOf id (.object ⟨.linear, i⟩) ∨ rows i ∨ objectives i := by
  rcases sound'.partOf_linear_iff.mp part with ⟨v, hv, side⟩ | objective
  · obtain ⟨new, hnew, sides⟩ := h.stored
    rw [hnew] at hv
    rcases List.mem_append.mp hv with old | hv
    · obtain ⟨c, o, j, l, rfl, ho, hj, -⟩ := sound.row_eq old
      have before := (lhsOf_constraint ho).trans hj
      have after := lhsOf_mono ho constraints before
      exact .inl (after.symm.trans side ▸ before ▸ partOf_lhsOf sound old)
    · obtain ⟨j, hj, row⟩ := sides v hv
      obtain rfl : i = j := by simpa using side.symm.trans hj
      exact .inr (.inl row)
  · rcases h.objective with same | ⟨j, hj, new⟩
    · exact .inl (sound.partOf_linear_iff.mpr (.inr (same.symm.trans objective)))
    · obtain rfl : i = j := by simpa using objective.symm.trans hj
      exact .inr (.inr new)

end

end Milp.Store
