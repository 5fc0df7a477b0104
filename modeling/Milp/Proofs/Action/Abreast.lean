import Milp.Proofs.Action.Frame

/-!
# Actions abreast

Two actions that are carried out side by side, on states that stand in a relation: they give results
in a relation or are broken off by the same fault, note the same, and leave states in the relation.
-/

namespace Milp.Action

variable {σ α β γ δ : Type} {S : σ → σ → Prop} {R : α → β → Prop} {T : γ → δ → Prop}

/-- From states related by `S`, with the same notes, `a` and `b` give results that are `Parallel` and
leave states related by `S`, again with the same notes. -/
def Abreast (S : σ → σ → Prop) (R : α → β → Prop) (a : Action σ α) (b : Action σ β) : Prop :=
  ∀ s t, S s.state t.state → t.log = s.log →
    Parallel R (a.runOn s).1 (b.runOn t).1 ∧ S (a.runOn s).2.state (b.runOn t).2.state ∧
      (b.runOn t).2.log = (a.runOn s).2.log

theorem abreast_pure {x : α} {y : β} (h : R x y) :
    Abreast S R (pure x : Action σ α) (pure y) :=
  fun _ _ states logs => ⟨.ok h, states, logs⟩

theorem abreast_throw (f : Fault) : Abreast S R (throw f : Action σ α) (throw f) :=
  fun _ _ states logs => ⟨.error f, states, logs⟩

theorem abreast_ofExcept {x : Except Fault α} {y : Except Fault β} (h : Parallel R x y) :
    Abreast S R (ofExcept x : Action σ α) (ofExcept y) :=
  fun _ _ states logs => ⟨h, states, logs⟩

theorem abreast_note (level : Level) (channel : Channel) (text : Phrase) :
    Abreast S (fun _ _ => True) (note level channel text : Action σ Unit)
      (note level channel text) :=
  fun _ _ states logs => ⟨.ok trivial, states, congrArg (· ++ _) logs⟩

theorem abreast_update {f g : σ → σ} (h : ∀ s t, S s t → S (f s) (g t)) :
    Abreast S (fun _ _ => True) (update f) (update g) :=
  fun _ _ states logs => ⟨.ok trivial, h _ _ states, logs⟩

theorem Abreast.bind {a : Action σ α} {b : Action σ β} {f : α → Action σ γ} {g : β → Action σ δ}
    (h : Abreast S R a b) (next : ∀ x y, R x y → Abreast S T (f x) (g y)) :
    Abreast S T (a >>= f) (b >>= g) := by
  intro s t states logs
  have first := h s t states logs
  rw [runOn_bind, runOn_bind]
  rcases ha : a.runOn s with ⟨r, s₁⟩
  rcases hb : b.runOn t with ⟨r', t₁⟩
  rw [ha, hb] at first
  obtain ⟨results, states, logs⟩ := first
  cases results with
  | ok related => exact next _ _ related s₁ t₁ states logs
  | error e => exact ⟨.error e, states, logs⟩

/-- What is done only on a condition, before something that is done anyway. -/
theorem Abreast.when {c : Prop} [Decidable c] {a b : Action σ PUnit} {f : PUnit → Action σ γ}
    {g : PUnit → Action σ δ} (h : Abreast S (fun _ _ => True) a b)
    (next : ∀ u v, Abreast S T (f u) (g v)) :
    Abreast S T (if c then a >>= f else f ⟨⟩) (if c then b >>= g else g ⟨⟩) := by
  split
  · exact h.bind fun u v _ => next u v
  · exact next ⟨⟩ ⟨⟩

/-- Faults that break both actions off are handled on both sides. -/
theorem Abreast.tryCatch {a : Action σ α} {b : Action σ β} {handle : Fault → Action σ α}
    {handle' : Fault → Action σ β} (h : Abreast S R a b)
    (handled : ∀ f, Abreast S R (handle f) (handle' f)) :
    Abreast S R (tryCatch a handle) (tryCatch b handle') := by
  intro s t states logs
  have first := h s t states logs
  rw [runOn_tryCatch, runOn_tryCatch]
  rcases ha : a.runOn s with ⟨r, s₁⟩
  rcases hb : b.runOn t with ⟨r', t₁⟩
  rw [ha, hb] at first
  obtain ⟨results, states, logs⟩ := first
  cases results with
  | ok related => exact ⟨.ok related, states, logs⟩
  | error e => exact handled e s₁ t₁ states logs

end Milp.Action
