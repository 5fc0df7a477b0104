import Milp.Proofs.Problem.Registration
import Milp.Proofs.Store.Walk
import Milp.Proofs.Store.Writing
import Milp.Store.Problem

/-!
# Problems in a store

A problem in a store is `Sound` if everything in it is stated in terms of its registered variables.
A call on it may be broken off half-way; what it has done by then leaves the problem sound.
-/

namespace Milp.Store

open Milp.Action

def Stated (s : Store) (d : Declarations) (v : Value) : Prop :=
  ∃ i l, v = .object ⟨.linear, i⟩ ∧ s.linears[i]? = some l ∧ ∀ t ∈ l.terms, d.Registered t.var

/-- A value is a constraint over an expression whose variables are all registered. -/
def StatedRow (s : Store) (d : Declarations) (v : Value) : Prop :=
  ∃ c o, v = .object ⟨.constraint, c⟩ ∧ s.constraints[c]? = some o ∧ s.Stated d o.lhs

/-- The problem with a number is there, its variables are told apart, and its objective and its
constraints are stated in terms of them. No member of anything was replaced. -/
structure Sound (id : Nat) (s : Store) : Prop where
  present : id < s.problems.length
  distinct : (s.problem id).Distinct
  constraints : ∃ l vs, (s.problem id).constraints = .object ⟨.list, l⟩ ∧ s.lists[l]? = some vs ∧
    ∀ v ∈ vs, s.StatedRow (s.problem id).toDeclarations v
  objective : (s.problem id).objective = .none ∨
    s.Stated (s.problem id).toDeclarations (s.problem id).objective
  extras : s.extras = []

/-- A later store has all expressions and constraints of an earlier one as they were, and all
variables of the problem. -/
structure Within (id : Nat) (s s' : Store) : Prop where
  linears : s.linears <+: s'.linears
  constraints : s.constraints <+: s'.constraints
  registered : ∀ v, (s.problem id).Registered v → (s'.problem id).Registered v

/-- A later store differs from an earlier one in new expressions and constraints only. -/
structure Adds (s s' : Store) : Prop where
  linears : s.linears <+: s'.linears
  constraints : s.constraints <+: s'.constraints
  lists : s'.lists = s.lists
  problems : s'.problems = s.problems
  extras : s'.extras = s.extras

/-- A problem that is `Sound` stays so, and what is there stays as it was (`Within`). -/
def Grows (id : Nat) (s s' : Store) : Prop :=
  s.Sound id → s'.Sound id ∧ s.Within id s'

section

variable {id : Nat} {s s' s'' : Store} {d d' : Declarations} {v : Value}

theorem Within.trans (h : s.Within id s') (h' : s'.Within id s'') : s.Within id s'' :=
  ⟨h.linears.trans h'.linears, h.constraints.trans h'.constraints,
    fun v => h'.registered v ∘ h.registered v⟩

instance : Std.Refl (Grows id) :=
  ⟨fun _ h => ⟨h, List.prefix_refl _, List.prefix_refl _, fun _ h => h⟩⟩

instance : IsTrans Store (Grows id) := ⟨fun _ _ _ h h' sound =>
  have ⟨first, within⟩ := h sound
  have ⟨second, within'⟩ := h' first
  ⟨second, within.trans within'⟩⟩

instance : Std.Refl Adds := ⟨fun _ => ⟨List.prefix_refl _, List.prefix_refl _, rfl, rfl, rfl⟩⟩

instance : IsTrans Store Adds := ⟨fun _ _ _ h h' =>
  ⟨h.linears.trans h'.linears, h.constraints.trans h'.constraints, h'.lists.trans h.lists,
    h'.problems.trans h.problems, h'.extras.trans h.extras⟩⟩

theorem getElem?_mono {α : Type} {xs ys : List α} (h : xs <+: ys) {i : Nat} {x : α}
    (hx : xs[i]? = some x) : ys[i]? = some x := by
  obtain ⟨hi, rfl⟩ := List.getElem?_eq_some_iff.mp hx
  exact List.prefix_iff_getElem?.mp h i hi

theorem Stated.mono (h : s.Stated d v) (linears : s.linears <+: s'.linears)
    (registered : ∀ v, d.Registered v → d'.Registered v) : s'.Stated d' v := by
  obtain ⟨i, l, rfl, hl, terms⟩ := h
  exact ⟨i, l, rfl, getElem?_mono linears hl, fun t ht => registered _ (terms t ht)⟩

theorem StatedRow.mono (h : s.StatedRow d v) (linears : s.linears <+: s'.linears)
    (constraints : s.constraints <+: s'.constraints)
    (registered : ∀ v, d.Registered v → d'.Registered v) : s'.StatedRow d' v := by
  obtain ⟨c, o, rfl, ho, stated⟩ := h
  exact ⟨c, o, rfl, getElem?_mono constraints ho, stated.mono linears registered⟩

/-! ## Parts of calls -/

theorem problem_modify (h : id < s.problems.length) (f : ProblemObject → ProblemObject) :
    ({ s with problems := s.problems.modify id f } : Store).problem id = f (s.problem id) := by
  simp [problem, h]

/-- A change to a problem that takes no variable away, leaves its constraints as they are, and gives
it no objective that is not stated in terms of its variables. -/
theorem grows_modify (s : Store) (f : ProblemObject → ProblemObject)
    (declarations : (s.problem id).Extends (f (s.problem id)).toDeclarations)
    (constraints : (f (s.problem id)).constraints = (s.problem id).constraints)
    (objective : (f (s.problem id)).objective = (s.problem id).objective ∨
      s.Stated (f (s.problem id)).toDeclarations (f (s.problem id)).objective) :
    Grows id s { s with problems := s.problems.modify id f } := by
  intro sound
  have same := problem_modify sound.present f
  have registered : ∀ v, (s.problem id).Registered v →
      (({ s with problems := s.problems.modify id f } : Store).problem id).Registered v := by
    rw [same]
    exact declarations.registered
  refine ⟨⟨by simpa using sound.present, ?_, ?_, ?_, sound.extras⟩,
    List.prefix_refl _, List.prefix_refl _, registered⟩
  · rw [same]
    exact declarations.distinct sound.distinct
  · obtain ⟨l, vs, hl, hvs, rows⟩ := sound.constraints
    refine ⟨l, vs, by rw [same, constraints, hl], hvs, fun v hv => ?_⟩
    exact (rows v hv).mono (List.prefix_refl _) (List.prefix_refl _) registered
  · rw [same]
    rcases objective with h | h
    · rw [h]
      exact sound.objective.imp_right fun stated =>
        stated.mono (List.prefix_refl _) declarations.registered
    · exact .inr h

theorem keeps_onDeclarations {α : Type} {a : Action Declarations α}
    (h : Keeps Declarations.Extends a) : Keeps (Grows id) (onDeclarations id a) :=
  h.onPart fun s d extends_ => grows_modify s (fun p => { p with toDeclarations := d }) extends_ rfl
    (.inl rfl)

/-- What comes of a store by new expressions and constraints leaves a problem sound. -/
theorem Adds.grows (h : Adds s s') : Grows id s s' := by
  intro sound
  have same : s'.problem id = s.problem id := by
    unfold problem
    rw [h.problems]
  have registered : ∀ v, (s.problem id).Registered v → (s'.problem id).Registered v := by
    rw [same]
    exact fun _ h => h
  refine ⟨⟨h.problems ▸ sound.present, same ▸ sound.distinct, ?_, ?_, h.extras.trans sound.extras⟩,
    h.linears, h.constraints, registered⟩
  · obtain ⟨l, vs, hl, hvs, rows⟩ := sound.constraints
    refine ⟨l, vs, same ▸ hl, h.lists ▸ hvs, fun v hv => ?_⟩
    exact (rows v hv).mono h.linears h.constraints registered
  · rw [same]
    exact sound.objective.imp_right fun stated => stated.mono h.linears fun _ h => h

theorem SameParts.adds (h : SameParts s s') : Adds s s' :=
  ⟨h.linears ▸ List.prefix_refl _, h.constraints ▸ List.prefix_refl _, h.lists, h.problems,
    h.extras⟩

theorem SameParts.grows (h : SameParts s s') : Grows id s s' :=
  h.adds.grows

theorem adds_newLinear (l : Linear) : Keeps Adds (newLinear l) :=
  fun _ => ⟨List.prefix_append _ _, List.prefix_refl _, rfl, rfl, rfl⟩

theorem adds_newConstraint (c : ConstraintObject) : Keeps Adds (newConstraint c) :=
  fun _ => ⟨List.prefix_refl _, List.prefix_append _ _, rfl, rfl, rfl⟩

theorem keeps_newLinear (l : Linear) : Keeps (Grows id) (newLinear l) :=
  (adds_newLinear l).imp fun _ _ h => h.grows

/-! ## Registering terms -/

def registerTerm (id : Nat) (t : Value) : Action Store Unit := do
  let var ← .ofExcept (variableOf t)
  onDeclarations id (Declarations.register var)

theorem registerTerms_eq (id : Nat) (v : Value) :
    registerTerms id v = (do
      let s ← Action.read
      (s.walk v).items.forM (registerTerm id)
      .ofExcept ((s.walk v).finish "")) := rfl

theorem keeps_registerTerm (t : Value) : Keeps (Grows id) (registerTerm id t) :=
  (keeps_ofExcept _).bind fun _ => keeps_onDeclarations (Declarations.keeps_register _)

theorem keeps_registerTerms (v : Value) : Keeps (Grows id) (registerTerms id v) :=
  keeps_read.bind fun _ => (keeps_forM keeps_registerTerm _).bind fun _ => keeps_ofExcept _

theorem registered_of_registerTerm {t : Value} {s s' : Logged Store} (sound : s.state.Sound id)
    (h : (registerTerm id t).runOn s = (.ok (), s')) :
    (∃ v c, t = .term v c ∧ (s'.state.problem id).Registered v) ∧
      ∃ ps, s'.state = { s.state with problems := ps } := by
  obtain ⟨v, s₁, hv, h⟩ := runOn_bind_eq_ok.mp h
  obtain rfl : s = s₁ := congrArg Prod.snd hv
  have hv : variableOf t = .ok v := congrArg Prod.fst hv
  rw [onDeclarations, runOn_onPart] at h
  obtain ⟨hr, rfl⟩ := Prod.mk.inj h
  have registered := Declarations.registered_of_register (Prod.ext hr rfl)
  refine ⟨?_, _, rfl⟩
  cases t with
  | term w c =>
      obtain rfl : w = v := Except.ok.inj hv
      refine ⟨w, c, rfl, ?_⟩
      dsimp only
      rw [problem_modify sound.present]
      exact registered
  | _ => cases hv

theorem registered_of_forM {ts : List Value} {s s' : Logged Store} (sound : s.state.Sound id)
    (h : (ts.forM (registerTerm id)).runOn s = (.ok (), s')) :
    (∀ t ∈ ts, ∃ v c, t = .term v c ∧ (s'.state.problem id).Registered v) ∧
      ∃ ps, s'.state = { s.state with problems := ps } := by
  induction ts generalizing s with
  | nil =>
      obtain rfl := congrArg Prod.snd h
      exact ⟨by simp, _, rfl⟩
  | cons t ts ih =>
      obtain ⟨_, s₁, hhead, htail⟩ := runOn_bind_eq_ok.mp h
      obtain ⟨sound₁, -⟩ := (keeps_registerTerm t).of_runOn hhead sound
      obtain ⟨⟨v, c, rfl, registered⟩, ps, hps⟩ := registered_of_registerTerm sound hhead
      obtain ⟨rest, ps', hps'⟩ := ih sound₁ htail
      obtain ⟨-, within⟩ := (keeps_forM keeps_registerTerm ts).of_runOn htail sound₁
      refine ⟨List.forall_mem_cons.mpr ⟨⟨v, c, rfl, within.registered v registered⟩, rest⟩, ps', ?_⟩
      rw [hps', hps]

/-- `registerTerms` that comes to its end gives an expression over registered variables. -/
theorem registered_of_registerTerms {v : Value} {s s' : Logged Store} (sound : s.state.Sound id)
    (h : (registerTerms id v).runOn s = (.ok (), s')) {l : Linear}
    (hl : s'.state.linearOf v = .ok l) : ∀ t ∈ l.terms, (s'.state.problem id).Registered t.var := by
  rw [registerTerms_eq] at h
  obtain ⟨_, _, ⟨⟩, h⟩ := runOn_bind_eq_ok.mp h
  obtain ⟨_, s₁, hitems, hfinish⟩ := runOn_bind_eq_ok.mp h
  obtain rfl : s₁ = s' := congrArg Prod.snd hfinish
  obtain ⟨terms, ps, hps⟩ := registered_of_forM sound hitems
  rw [hps] at hl
  have parts : v ≠ .none → ∃ ts, List.Forall₂ (fun t e => (s₁.state.termOf t) = .ok e)
      (s.state.walk v).items ts ∧ l = ⟨ts⟩ := by
    intro hv
    obtain ⟨ts, hts, hl⟩ : ∃ ts, (({ s.state with problems := ps } : Store).walk v).mapM ""
        ({ s.state with problems := ps } : Store).termOf = .ok ts ∧ Linear.mk ts = l := by
      cases v with
      | none => exact absurd rfl hv
      | _ =>
          obtain ⟨ts, hts, hl⟩ := bind_eq_ok.mp hl
          exact ⟨ts, hts, Except.ok.inj hl⟩
    have walked : ({ s.state with problems := ps } : Store).walk v = s.state.walk v :=
      walk_others s.state ps s.state.solvers v
    rw [walked, ← hps] at hts
    obtain ⟨ts', hts', h⟩ := bind_eq_ok.mp hts
    obtain ⟨_, -, h⟩ := bind_eq_ok.mp h
    obtain rfl : ts' = ts := Except.ok.inj h
    exact ⟨ts', mapM_eq_ok.mp hts', hl.symm⟩
  by_cases hv : v = .none
  · subst hv
    obtain rfl : Linear.empty = l := Except.ok.inj hl
    simp [Linear.empty]
  · obtain ⟨ts, hts, rfl⟩ := parts hv
    intro t ht
    obtain ⟨i, hi⟩ := List.getElem?_of_mem ht
    obtain ⟨u, hu, hterm⟩ := exists_of_forall₂ hts.flip hi
    obtain ⟨w, c, rfl, registered⟩ := terms u (List.mem_of_getElem? hu)
    obtain rfl : (⟨w, c⟩ : Term) = t := Except.ok.inj hterm
    exact registered

end

end Milp.Store
