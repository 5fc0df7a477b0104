import Milp.Action
import Milp.Proofs.Computation

/-!
# What an action leaves as it was

`a` keeps a relation (`Keeps R a`) if the state that it leaves, whether it was broken off or not, is
related by `R` to the state that it was carried out on.
-/

namespace Milp

namespace Action

variable {σ τ α β : Type} {R : σ → σ → Prop}

theorem runOn_bind_eq_ok {a : Action σ α} {f : α → Action σ β} {s s₂ : Logged σ} {y : β} :
    (a >>= f).runOn s = (.ok y, s₂) ↔
      ∃ x s₁, a.runOn s = (.ok x, s₁) ∧ (f x).runOn s₁ = (.ok y, s₂) := by
  rw [runOn_bind]
  rcases a.runOn s with ⟨e | x, s₁⟩
  · simp
  · constructor
    · exact fun h => ⟨x, s₁, rfl, h⟩
    · rintro ⟨x', s', hx, h⟩
      cases hx
      exact h

theorem runOn_bind_eq_error {a : Action σ α} {f : α → Action σ β} {s s₂ : Logged σ} {e : Fault} :
    (a >>= f).runOn s = (.error e, s₂) ↔
      a.runOn s = (.error e, s₂) ∨
        ∃ x s₁, a.runOn s = (.ok x, s₁) ∧ (f x).runOn s₁ = (.error e, s₂) := by
  rw [runOn_bind]
  rcases a.runOn s with ⟨e' | x, s₁⟩
  · simp
  · constructor
    · exact fun h => .inr ⟨x, s₁, rfl, h⟩
    · rintro (h | ⟨x', s', hx, h⟩)
      · cases h
      · cases hx
        exact h

/-- Where `forM f` gives a result, `f` does so on each entry of the list. -/
theorem exists_of_forM {f : α → Action σ PUnit} {xs : List α} {s s' : Logged σ} {u : PUnit}
    (h : (xs.forM f).runOn s = (.ok u, s')) : ∀ x ∈ xs, ∃ t t', (f x).runOn t = (.ok ⟨⟩, t') := by
  induction xs generalizing s with
  | nil => simp
  | cons x xs ih =>
      obtain ⟨_, s₁, first, rest⟩ := runOn_bind_eq_ok.mp h
      exact List.forall_mem_cons.mpr ⟨⟨s, s₁, first⟩, ih rest⟩

/-- Actions that go on in the same way wherever the first part leads are the same. -/
theorem runOn_bind_congr {a : Action σ α} {f g : α → Action σ β} {s : Logged σ}
    (h : ∀ x s₁, a.runOn s = (.ok x, s₁) → (f x).runOn s₁ = (g x).runOn s₁) :
    (a >>= f).runOn s = (a >>= g).runOn s := by
  rw [runOn_bind, runOn_bind]
  rcases ha : a.runOn s with ⟨e | x, s₁⟩
  · rfl
  · exact h x s₁ ha

theorem ite_bind (c : Prop) [Decidable c] (a b : Action σ α) (f : α → Action σ β) :
    (if c then a else b) >>= f = if c then a >>= f else b >>= f := by
  split <;> rfl

/-- A fault is handled where it broke the action off. -/
theorem runOn_tryCatch (a : Action σ α) (handle : Fault → Action σ α) (s : Logged σ) :
    (tryCatch a handle).runOn s =
      match a.runOn s with
      | (.ok x, t) => (.ok x, t)
      | (.error e, t) => (handle e).runOn t := by
  change (ExceptT.tryCatch a handle).run.run s = _
  unfold runOn ExceptT.tryCatch ExceptT.run StateT.run
  simp only [bind, ExceptT.mk, StateT.bind]
  rcases a s with ⟨e | x, t⟩
  · rfl
  · rfl

/-! ## Frames -/

/-- `a` leads from any state to one that is related to it by `R`. -/
def Keeps (R : σ → σ → Prop) (a : Action σ α) : Prop :=
  ∀ s, R s.state (a.runOn s).2.state

theorem Keeps.of_runOn {a : Action σ α} (h : Keeps R a) {s s₁ : Logged σ} {r : Except Fault α}
    (run : a.runOn s = (r, s₁)) : R s.state s₁.state := by
  have := h s
  rwa [run] at this

section

variable [Std.Refl R]

theorem keeps_pure (x : α) : Keeps R (pure x : Action σ α) :=
  fun s => Std.Refl.refl s.state

theorem keeps_throw (f : Fault) : Keeps R (throw f : Action σ α) :=
  fun s => Std.Refl.refl s.state

theorem keeps_read : Keeps R (read : Action σ σ) :=
  fun s => Std.Refl.refl s.state

theorem keeps_note (level : Level) (channel : Channel) (text : Phrase) :
    Keeps R (note level channel text : Action σ Unit) :=
  fun s => Std.Refl.refl s.state

theorem keeps_noteAll (notes : List Message) : Keeps R (noteAll notes : Action σ Unit) :=
  fun s => refl s.state

theorem keeps_ofExcept (e : Except Fault α) : Keeps R (ofExcept e : Action σ α) :=
  fun s => Std.Refl.refl s.state

end

theorem keeps_update {f : σ → σ} (h : ∀ s, R s (f s)) : Keeps R (update f) :=
  fun s => h s.state

/-- Where the parts of an action lead stands in a relation to where they start, and so does where
the whole of it leads. -/
theorem rel_bind [IsTrans σ R] {a : Action σ α} {f : α → Action σ β} {s : Logged σ}
    (ha : R s.state (a.runOn s).2.state)
    (hf : ∀ x s₁, a.runOn s = (.ok x, s₁) → R s₁.state ((f x).runOn s₁).2.state) :
    R s.state ((a >>= f).runOn s).2.state := by
  rw [runOn_bind]
  rcases h : a.runOn s with ⟨e | x, s₁⟩ <;> rw [h] at ha
  · exact ha
  · exact IsTrans.trans _ _ _ ha (hf x s₁ h)

theorem Keeps.bind [IsTrans σ R] {a : Action σ α} {f : α → Action σ β} (ha : Keeps R a)
    (hf : ∀ x, Keeps R (f x)) : Keeps R (a >>= f) :=
  fun s => rel_bind (ha s) fun x s₁ _ => hf x s₁

/-- What is done only on a condition, before something that is done anyway. -/
theorem Keeps.when [IsTrans σ R] {c : Prop} [Decidable c] {a : Action σ PUnit}
    {f : PUnit → Action σ α} (ha : Keeps R a) (hf : ∀ u, Keeps R (f u)) :
    Keeps R (if c then a >>= f else f ⟨⟩) := by
  split
  · exact ha.bind hf
  · exact hf ⟨⟩

theorem keeps_foldlM [Std.Refl R] [IsTrans σ R] {f : β → α → Action σ β}
    (h : ∀ y x, Keeps R (f y x)) (y : β) (xs : List α) : Keeps R (xs.foldlM f y) := by
  induction xs generalizing y with
  | nil => exact keeps_pure y
  | cons x xs ih =>
      rw [List.foldlM_cons]
      exact (h y x).bind fun z => ih z

theorem keeps_forM [Std.Refl R] [IsTrans σ R] {f : α → Action σ PUnit} (h : ∀ x, Keeps R (f x))
    (xs : List α) : Keeps R (xs.forM f) := by
  induction xs with
  | nil => exact keeps_pure _
  | cons x xs ih => exact (h x).bind fun _ => ih

theorem keeps_mapM [Std.Refl R] [IsTrans σ R] {f : α → Action σ β} (h : ∀ x, Keeps R (f x))
    (xs : List α) : Keeps R (xs.mapM f) := by
  induction xs with
  | nil => exact keeps_pure _
  | cons x xs ih =>
      rw [List.mapM_cons]
      exact (h x).bind fun _ => ih.bind fun _ => keeps_pure _

theorem Keeps.tryCatch [IsTrans σ R] {a : Action σ α} {handle : Fault → Action σ α}
    (ha : Keeps R a) (hf : ∀ f, Keeps R (handle f)) : Keeps R (tryCatch a handle) := by
  intro s
  rw [runOn_tryCatch]
  rcases h : a.runOn s with ⟨e | x, s₁⟩
  · exact IsTrans.trans _ _ _ (ha.of_runOn h) (hf e s₁)
  · exact ha.of_runOn h

theorem Keeps.imp {S : σ → σ → Prop} {a : Action σ α} (h : Keeps R a) (sub : ∀ s t, R s t → S s t) :
    Keeps S a :=
  fun s => sub _ _ (h s)

/-- An action on a part keeps what follows from the relation that it keeps on the part. -/
theorem Keeps.onPart {S : τ → τ → Prop} {a : Action τ α} (h : Keeps S a) {part : σ → τ}
    {put : τ → σ → σ} (sub : ∀ s t, S (part s) t → R s (put t s)) :
    Keeps R (Action.onPart part put a) :=
  fun s => sub _ _ (h ⟨part s.state, s.log⟩)

/-! ## Faults and the states they leave -/

/-- From a state with the property `P`, `a` leads to one that has it too, and a fault that breaks it
off is one that `E` allows in the state that is left. -/
def Tied (P : σ → Prop) (E : Fault → σ → Prop) (a : Action σ α) : Prop :=
  ∀ s, P s.state → match a.runOn s with
    | (.ok _, s') => P s'.state
    | (.error f, s') => E f s'.state

section

variable {P : σ → Prop} {E : Fault → σ → Prop}

theorem tied_pure (x : α) : Tied P E (pure x : Action σ α) :=
  fun _ h => h

theorem Tied.bind {a : Action σ α} {f : α → Action σ β} (ha : Tied P E a)
    (hf : ∀ x, Tied P E (f x)) : Tied P E (a >>= f) := by
  intro s h
  have first := ha s h
  rw [runOn_bind]
  rcases ran : a.runOn s with ⟨e | x, s₁⟩ <;> rw [ran] at first
  · exact first
  · exact hf x s₁ first

/-- A fault goes with any state that an action leaves while it keeps the property. -/
theorem Keeps.tied {a : Action σ α} (ha : Keeps R a) (kept : ∀ s s', R s s' → P s → P s')
    (goes : ∀ f s, P s → E f s) : Tied P E a := by
  intro s h
  rcases ran : a.runOn s with ⟨f | x, s'⟩
  · exact goes f s'.state (kept _ _ (ha.of_runOn ran) h)
  · exact kept _ _ (ha.of_runOn ran) h

/-- An action that leaves the state as it is is `Tied` as far as its faults are. -/
theorem tied_of_same {a : Action σ α} (same : Keeps Eq a) (goes : ∀ f s, P s → E f s) :
    Tied P E a :=
  same.tied (fun _ _ same h => same ▸ h) goes

end

end Action

end Milp
