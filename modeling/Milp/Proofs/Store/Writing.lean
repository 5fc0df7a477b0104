import Milp.Proofs.Action.Frame
import Milp.Proofs.Store.Walk
import Milp.Store.Text

/-!
# What writing does besides giving a text

`write` may compute the objective value of a result, and tell values apart. It does not look at
solvers, and changes nothing that a problem is made of (`SameParts`).
-/

namespace Milp.Store

open Milp.Action

/-- A sort of actions that comprises what telling values apart does, and all that is made of parts of
the sort. -/
structure Numbering (C : ∀ α : Type, Action Store α → Prop) : Prop where
  pure {α : Type} (x : α) : C α (pure x)
  bind {α β : Type} {a : Action Store α} {f : α → Action Store β} :
    C α a → (∀ x, C β (f x)) → C β (a >>= f)
  identity : C Nat newIdentity

/-- A sort of actions that comprises what writing does besides giving a text, and all that is made of
parts of the sort without looking at solvers. -/
structure Incidental (C : ∀ α : Type, Action Store α → Prop) : Prop extends Numbering C where
  throw {α : Type} (f : Fault) : C α (throw f)
  look {α : Type} {f : Store → Action Store α} :
    (∀ s ss, f { s with solvers := ss } = f s) → (∀ s, C α (f s)) → C α (read >>= f)
  results (id : Nat) (v : Value) : C Unit (changeResult id (·.filled v))

/-! ## Telling values apart -/

namespace Numbering

variable {C : ∀ α : Type, Action Store α → Prop}

theorem newUndefined (h : Numbering C) (form : FloatForm) : C _ (newUndefined form) :=
  h.bind h.identity fun _ => h.pure _

theorem identityOf (h : Numbering C) (id : Option Nat) : C _ (identityOf id) := by
  cases id with
  | none => exact h.bind h.identity fun _ => h.pure _
  | some id => exact h.pure _

mutual

theorem distinguish (h : Numbering C) (v : Value) : C _ (distinguish v) := by
  cases v with
  | real x =>
      unfold Store.distinguish
      split
      · exact h.newUndefined _
      · exact h.pure _
  | scalar s =>
      cases s with
      | single x =>
          unfold Store.distinguish
          split
          · exact h.newUndefined _
          · exact h.pure _
      | double x =>
          unfold Store.distinguish
          split
          · exact h.newUndefined _
          · exact h.pure _
      | integer kind n => exact h.pure _
      | flag b => exact h.pure _
  | array g => exact h.bind (h.identityOf _) fun _ => h.pure _
  | sparse m => exact h.bind (h.identityOf _) fun _ => h.pure _
  | tuple xs => exact h.bind (h.distinguishAll xs) fun _ => h.pure _
  | term v c =>
      exact h.bind (h.distinguish v) fun _ => h.bind (h.distinguish c) fun _ => h.pure _
  | config a b c d e f g =>
      exact h.bind (h.distinguish a) fun _ => h.bind (h.distinguish b) fun _ =>
        h.bind (h.distinguish c) fun _ => h.bind (h.distinguish d) fun _ =>
        h.bind (h.distinguish e) fun _ => h.bind (h.distinguish f) fun _ =>
        h.bind (h.distinguish g) fun _ => h.pure _
  | _ => exact h.pure _

theorem distinguishAll (h : Numbering C) (vs : List Value) : C _ (distinguishAll vs) := by
  cases vs with
  | nil => exact h.pure _
  | cons v vs => exact h.bind (h.distinguish v) fun _ => h.bind (h.distinguishAll vs) fun _ => h.pure _

end

end Numbering

namespace Incidental

section

variable {C : ∀ α : Type, Action Store α → Prop} {α β : Type}

theorem ofExcept (h : Incidental C) (e : Except Fault α) : C α (Action.ofExcept e) := by
  cases e with
  | error f => exact h.throw f
  | ok x => exact h.pure x

theorem foldlM (h : Incidental C) {f : β → α → Action Store β} (each : ∀ y x, C β (f y x)) (y : β)
    (xs : List α) : C β (xs.foldlM f y) := by
  induction xs generalizing y with
  | nil => exact h.pure y
  | cons x xs ih =>
      rw [List.foldlM_cons]
      exact h.bind (each y x) fun z => ih z

/-! ## Writing -/

theorem objectiveOf (h : Incidental C) (id : Nat) : C _ (objectiveOf id) := by
  refine h.look (fun s ss => ?_) fun s => ?_
  · simp only [evaluate_others s s.problems ss]
    rfl
  · dsimp only
    split
    · exact h.pure _
    · exact h.bind (h.ofExcept _) fun _ => h.bind (h.distinguish _) fun _ =>
        h.bind (h.results _ _) fun _ => h.pure _
    · exact h.pure _

theorem literalPhrase (h : Incidental C) (v : Value) : C _ (literalPhrase v) := by
  refine h.look (fun s ss => ?_) fun s => ?_
  · simp only [length_others s s.problems ss]
    rfl
  · split
    all_goals try exact h.pure _
    · exact h.bind (h.ofExcept _) fun _ => h.pure _
    · exact h.bind (h.ofExcept _) fun _ => h.pure _
    · exact h.bind (h.objectiveOf _) fun _ => h.bind (h.ofExcept _) fun _ => h.pure _

theorem plainPhrase (h : Incidental C) (v : Value) : C _ (plainPhrase v) := by
  refine h.look (fun s ss => ?_) fun s => ?_
  · simp only [items_others s s.problems ss]
    rfl
  · split
    · exact h.pure _
    · exact h.pure _
    · exact h.pure _
    · refine h.bind (h.ofExcept _) fun _ => ?_
      dsimp only
      split
      · exact h.throw _
      · exact h.pure _
    · exact h.bind (h.objectiveOf _) fun _ => h.pure _
    · exact h.literalPhrase _

theorem writePart (h : Incidental C) (depth : Nat) (opened : List Ref) (part : Phrase.Part) :
    C _ (writePart depth opened part) := by
  induction depth generalizing opened part with
  | zero => exact h.throw _
  | succ depth ih =>
      have parts (opened : List Ref) {a : Action Store Phrase} (ha : C _ a) :
          C _ (do
            (← a).parts.foldlM (fun t p => do return t ++ (← Store.writePart depth opened p)) "") :=
        h.bind ha fun _ => h.foldlM (fun _ p => h.bind (ih opened p) fun _ => h.pure _) _ _
      unfold Store.writePart
      cases part with
      | text t => exact h.pure _
      | literal v =>
          dsimp only
          split
          · exact h.pure _
          · exact h.pure _
          · exact parts _ (h.literalPhrase v)
      | plain v =>
          dsimp only
          split
          · exact h.pure _
          · exact h.pure _
          · exact parts _ (h.plainPhrase v)
      | within v =>
          dsimp only
          split
          · exact h.pure _
          · exact h.pure _
          · exact parts _ (h.plainPhrase v)

theorem write (h : Incidental C) (p : Phrase) : C _ (write p) :=
  h.foldlM (fun _ _ => h.bind (h.writePart _ _ _) fun _ => h.pure _) _ _

theorem raise (h : Incidental C) (f : Fault) : C α (raise f) :=
  h.bind (h.write _) fun _ => h.throw f

end

/-- What writing does keeps a relation that its parts keep. -/
theorem of_keeps {R : Store → Store → Prop} [Std.Refl R] [IsTrans Store R]
    (identity : ∀ s n, R s { s with toldApart := n }) (results : ∀ s rs, R s { s with results := rs }) :
    Incidental fun _ => Keeps R where
  pure := keeps_pure
  throw := keeps_throw
  bind := Keeps.bind
  look _ each := keeps_read.bind each
  identity := keeps_read.bind fun _ => (keeps_update fun s => identity s _).bind fun _ =>
    keeps_pure _
  results _ _ := keeps_update fun s => results s _

end Incidental

/-! ## Faults that are worded -/

section

variable {α : Type} {a : Action Store α} {s : Logged Store}

theorem runOn_raising (a : Action Store α) (s : Logged Store) :
    (raising a).runOn s =
      match a.runOn s with
      | (.ok x, t) => (.ok x, t)
      | (.error f, t) => (raise f).runOn t := by
  unfold raising
  rw [runOn_tryCatch]
  rcases a.runOn s with ⟨f | x, t⟩ <;> rfl

/-- `raise` breaks off. -/
theorem exists_raise (f : Fault) (s : Logged Store) :
    ∃ g, ((raise f : Action Store α).runOn s).1 = .error g := by
  unfold raise
  rw [runOn_bind]
  rcases (write f.composed).runOn s with ⟨g | t, s₁⟩
  · exact ⟨g, rfl⟩
  · exact ⟨f, rfl⟩

theorem ok_of_raising {x : α} (h : ((raising a).runOn s).1 = .ok x) : (a.runOn s).1 = .ok x := by
  rw [runOn_raising] at h
  rcases ha : a.runOn s with ⟨f | y, t⟩ <;> rw [ha] at h
  · obtain ⟨g, broken⟩ := exists_raise (α := α) f t
    exact absurd (broken.symm.trans h) nofun
  · exact h

/-- After `a` has ended, `raising a` does no more than writing does. -/
theorem rel_raising {R : Store → Store → Prop} [Std.Refl R]
    (each : ∀ f, Keeps R (raise f : Action Store α)) (a : Action Store α) (s : Logged Store) :
    R (a.runOn s).2.state ((raising a).runOn s).2.state := by
  rw [runOn_raising]
  rcases a.runOn s with ⟨f | x, t⟩
  · exact each f t
  · exact Std.Refl.refl t.state

end

/-! ## Attempts -/

/-- `attempt` gives what the action ends with, where it ends. -/
theorem runOn_attempt {α : Type} (a : Action Store α) (s : Logged Store) :
    (attempt a).runOn s = (.ok (a.runOn s).1, (a.runOn s).2) := by
  unfold attempt
  rw [runOn_bind, runOn_tryCatch, runOn_bind]
  rcases a.runOn s with ⟨e | x, t⟩
  · rfl
  · rfl

theorem keeps_attempt {R : Store → Store → Prop} {α : Type} {a : Action Store α} (h : Keeps R a) :
    Keeps R (attempt a) := by
  intro s
  rw [runOn_attempt]
  exact h s

/-! ## What problems are made of -/

/-- Two stores have the same of everything that problems are made of. -/
structure SameParts (s s' : Store) : Prop where
  lists : s'.lists = s.lists
  linears : s'.linears = s.linears
  constraints : s'.constraints = s.constraints
  problems : s'.problems = s.problems
  extras : s'.extras = s.extras

instance : Std.Refl SameParts := ⟨fun _ => ⟨rfl, rfl, rfl, rfl, rfl⟩⟩

instance : IsTrans Store SameParts := ⟨fun _ _ _ h h' =>
  ⟨h'.lists.trans h.lists, h'.linears.trans h.linears, h'.constraints.trans h.constraints,
    h'.problems.trans h.problems, h'.extras.trans h.extras⟩⟩

theorem incidental_sameParts : Incidental fun _ => Keeps SameParts :=
  .of_keeps (fun _ _ => ⟨rfl, rfl, rfl, rfl, rfl⟩) fun _ _ => ⟨rfl, rfl, rfl, rfl, rfl⟩

theorem keeps_distinguish (v : Value) : Keeps SameParts (distinguish v) :=
  incidental_sameParts.distinguish v

theorem keeps_writing (p : Phrase) : Keeps SameParts (write p) :=
  incidental_sameParts.write p

theorem keeps_textOf (v : Value) : Keeps SameParts (textOf v) :=
  keeps_writing _

theorem sameParts_raising {α : Type} (a : Action Store α) (s : Logged Store) :
    SameParts (a.runOn s).2.state ((raising a).runOn s).2.state :=
  rel_raising incidental_sameParts.raise a s

end Milp.Store
