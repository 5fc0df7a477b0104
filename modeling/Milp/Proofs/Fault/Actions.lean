import Milp.Proofs.Action.Frame
import Milp.Proofs.Fault.Internal
import Milp.Solver.Settings

/-!
# Faults of actions

An action raises faults of some sort only if all of its parts do, whatever they do to the state. So
no parameter that is refused can be taken for a failure of an engine.
-/

namespace Milp.Action

variable {σ τ α β : Type} {P : Fault → Prop}

/-- `a` breaks off only with faults that have the property `P`. -/
def Raises (P : Fault → Prop) (a : Action σ α) : Prop :=
  ∀ s, BreaksBy P (a.runOn s).1

theorem raises_pure (x : α) : Raises P (pure x : Action σ α) :=
  fun _ => breaksBy_ok x

theorem raises_throw {f : Fault} (h : P f) : Raises P (throw f : Action σ α) :=
  fun _ => breaksBy_error.mpr h

theorem raises_ofExcept {x : Except Fault α} (h : BreaksBy P x) :
    Raises P (ofExcept x : Action σ α) :=
  fun _ => h

theorem raises_note (level : Level) (channel : Channel) (text : Phrase) :
    Raises P (note level channel text : Action σ Unit) :=
  fun _ => breaksBy_ok ()

theorem raises_update (f : σ → σ) : Raises P (update f) :=
  fun _ => breaksBy_ok ()

theorem raises_read : Raises P (read : Action σ σ) :=
  fun s => breaksBy_ok s.state

/-- What follows an action matters only where the action can lead. -/
theorem Raises.bind_of_ok {a : Action σ α} {f : α → Action σ β} (ha : Raises P a)
    (hf : ∀ x s s₁, a.runOn s = (.ok x, s₁) → BreaksBy P ((f x).runOn s₁).1) :
    Raises P (a >>= f) := by
  intro s
  rw [runOn_bind]
  rcases h : a.runOn s with ⟨e | x, s₁⟩
  · exact breaksBy_error.mpr (ha s e (congrArg Prod.fst h))
  · exact hf x s s₁ h

theorem Raises.bind {a : Action σ α} {f : α → Action σ β} (ha : Raises P a)
    (hf : ∀ x, Raises P (f x)) : Raises P (a >>= f) :=
  ha.bind_of_ok fun x _ s₁ _ => hf x s₁

theorem Raises.when {c : Prop} [Decidable c] {a : Action σ PUnit} {f : PUnit → Action σ α}
    (ha : Raises P a) (hf : ∀ u, Raises P (f u)) :
    Raises P (if c then a >>= f else f ⟨⟩) := by
  split
  · exact ha.bind hf
  · exact hf ⟨⟩

theorem raises_forM {f : α → Action σ PUnit} (h : ∀ x, Raises P (f x)) (xs : List α) :
    Raises P (xs.forM f) := by
  induction xs with
  | nil => exact raises_pure _
  | cons x xs ih => exact (h x).bind fun _ => ih

theorem raises_foldlM {f : β → α → Action σ β} (h : ∀ y x, Raises P (f y x)) (y : β)
    (xs : List α) : Raises P (xs.foldlM f y) := by
  induction xs generalizing y with
  | nil => exact raises_pure y
  | cons x xs ih =>
      rw [List.foldlM_cons]
      exact (h y x).bind fun z => ih z

theorem raises_onPart {part : σ → τ} {put : τ → σ → σ} {a : Action τ α} (h : Raises P a) :
    Raises P (Action.onPart part put a) :=
  fun s => h ⟨part s.state, s.log⟩

end Milp.Action

/-! ## Settings -/

namespace Milp.Settings

open Milp.Action

theorem raises_passOver (p : Parameter) (v : Value) : Raises Fault.Internal (passOver p v) :=
  raises_note _ _ _

theorem contained_toInt (v : Value) : Contained (toInt v) := by
  unfold toInt
  split <;> simp

theorem raises_setParameter (p : Parameter) (v : Value) :
    Raises Fault.Internal (setParameter p v) := by
  have read : Raises Fault.Internal (.ofExcept (Numeric.ofValue v) : Action Settings Float) :=
    raises_ofExcept (contained_ofValue v)
  unfold setParameter
  cases p <;> dsimp only
  · split
    · exact read.bind fun _ => raises_update _
    · exact raises_passOver _ v
  · split
    · exact (raises_ofExcept (contained_toInt v)).bind fun _ => raises_update _
    · exact raises_passOver _ v
  · exact raises_update _
  · split
    · exact read.bind fun _ => raises_update _
    · exact raises_passOver _ v
  · split
    · exact raises_update _
    · exact raises_passOver _ v

theorem raises_take (k v : Value) : Raises Fault.Internal (take k v) := by
  unfold take
  split
  · exact raises_update _
  · split
    · exact raises_note _ _ _
    · split
      · exact raises_pure _
      · exact raises_setParameter _ v

/-- `Settings.ofParameters` refuses parameters by faults of the library's own. -/
theorem contained_ofParameters (name : Value) (parameters : Table Value) :
    Contained (ofParameters name parameters).1 := by
  have taken : Raises Fault.Internal
      (parameters.entries.forM fun e => take e.1 e.2 : Action Settings Unit) :=
    raises_forM (fun (e : Value × Value) => raises_take e.1 e.2) _
  exact breaksBy_map.mpr (taken ⟨initial name, []⟩)

end Milp.Settings
