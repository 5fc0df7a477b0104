import Mathlib.Data.List.Forall2

/-!
# Results of computations

A computation that may be broken off gives a result only if each of its steps does.
-/

namespace Milp

variable {α β ε : Type}

theorem bind_eq_ok {x : Except ε α} {f : α → Except ε β} {b : β} :
    (x >>= f) = .ok b ↔ ∃ a, x = .ok a ∧ f a = .ok b := by
  cases x with
  | error e => simp [bind, Except.bind]
  | ok a => simp [bind, Except.bind]

@[simp] theorem throw_ne_ok {e : ε} {a : α} : (throw e : Except ε α) ≠ .ok a := by
  simp [throw, throwThe, MonadExceptOf.throw]

theorem join_toOption_eq_some {r : Except ε (Option α)} {x : α} :
    r.toOption.join = some x ↔ r = .ok (some x) := by
  rw [Option.join_eq_some_iff]
  cases r <;> simp [Except.toOption]

theorem mapM_eq_ok {f : α → Except ε β} {xs : List α} {ys : List β} :
    xs.mapM f = .ok ys ↔ List.Forall₂ (fun x y => f x = .ok y) xs ys := by
  induction xs generalizing ys with
  | nil => cases ys <;> simp [pure, Except.pure]
  | cons x xs ih =>
      rw [List.mapM_cons, bind_eq_ok]
      constructor
      · rintro ⟨y, hy, h⟩
        obtain ⟨rest, hrest, h⟩ := bind_eq_ok.mp h
        obtain rfl : y :: rest = ys := Except.ok.inj h
        exact .cons hy (ih.mp hrest)
      · rintro (_ | ⟨hy, hrest⟩)
        exact ⟨_, hy, bind_eq_ok.mpr ⟨_, ih.mpr hrest, rfl⟩⟩

theorem forM_eq_ok {f : α → Except ε Unit} {xs : List α} :
    xs.forM f = .ok () ↔ ∀ x ∈ xs, f x = .ok () := by
  induction xs with
  | nil => simp [pure, Except.pure]
  | cons x xs ih =>
      change (f x >>= fun _ => xs.forM f) = .ok () ↔ _
      rw [bind_eq_ok, List.forall_mem_cons, ← ih]
      exact ⟨fun ⟨_, head, tail⟩ => ⟨head, tail⟩, fun ⟨head, tail⟩ => ⟨(), head, tail⟩⟩

theorem forM_congr_of_mem {f g : α → Except ε Unit} {xs : List α} (h : ∀ x ∈ xs, f x = g x) :
    xs.forM f = xs.forM g := by
  induction xs with
  | nil => rfl
  | cons x xs ih =>
      obtain ⟨head, tail⟩ := List.forall_mem_cons.mp h
      change (f x >>= fun _ => xs.forM f) = (g x >>= fun _ => xs.forM g)
      rw [head, ih tail]

/-- `x` is the first entry of a list that has the property `P`. -/
def First (P : α → Prop) (xs : List α) (x : α) : Prop :=
  ∃ before after, xs = before ++ x :: after ∧ P x ∧ ∀ y ∈ before, ¬ P y

/-- A list with some entry that has `P` has a `First` one. -/
theorem exists_first {P : α → Prop} {xs : List α} (h : ∃ x ∈ xs, P x) : ∃ x, First P xs x := by
  induction xs with
  | nil => simp at h
  | cons y xs ih =>
      by_cases hy : P y
      · exact ⟨y, [], xs, rfl, hy, by simp⟩
      · have rest : ∃ x ∈ xs, P x := by simpa [hy] using h
        obtain ⟨x, before, after, rfl, hx, none⟩ := ih rest
        exact ⟨x, y :: before, after, rfl, hx, List.forall_mem_cons.mpr ⟨hy, none⟩⟩

/-- `forM` is broken off at the `First` entry that is refused. -/
theorem forM_of_first {f : α → Except ε Unit} {P : α → Prop} {xs : List α} {x : α} {e : ε}
    (first : First P xs x) (passes : ∀ y ∈ xs, ¬ P y → f y = .ok ()) (fails : f x = .error e) :
    xs.forM f = .error e := by
  obtain ⟨before, after, rfl, -, others⟩ := first
  induction before with
  | nil =>
      change (f x >>= fun _ => after.forM f) = .error e
      rw [fails]
      rfl
  | cons y before ih =>
      obtain ⟨hy, others⟩ := List.forall_mem_cons.mp others
      obtain ⟨head, tail⟩ := List.forall_mem_cons.mp passes
      change (f y >>= fun _ => (before ++ x :: after).forM f) = .error e
      rw [head hy]
      exact ih tail others

/-- A fold that gives a result was not broken off at any part. -/
theorem foldlM_eq_ok_mem {f : β → α → Except ε β} {xs : List α} {a b : β}
    (h : xs.foldlM f a = .ok b) : ∀ x ∈ xs, ∃ a b, f a x = .ok b := by
  induction xs generalizing a with
  | nil => simp
  | cons x xs ih =>
      rw [List.foldlM_cons] at h
      obtain ⟨c, hc, h⟩ := bind_eq_ok.mp h
      exact List.forall_mem_cons.mpr ⟨⟨a, c, hc⟩, ih h⟩

/-- Where something stands in a relation to each part of a list, there is a list of such things. -/
theorem exists_forall₂ {R : α → β → Prop} {xs : List α} (h : ∀ x ∈ xs, ∃ y, R x y) :
    ∃ ys, List.Forall₂ R xs ys := by
  induction xs with
  | nil => exact ⟨[], .nil⟩
  | cons x xs ih =>
      obtain ⟨⟨y, hy⟩, rest⟩ := List.forall_mem_cons.mp h
      obtain ⟨ys, hys⟩ := ih rest
      exact ⟨y :: ys, .cons hy hys⟩

/-- Relations that are the same on the parts of a list relate it to the same lists. -/
theorem forall₂_congr_of_mem {R S : α → β → Prop} {xs : List α} {ys : List β}
    (h : ∀ x ∈ xs, ∀ y, R x y ↔ S x y) : List.Forall₂ R xs ys ↔ List.Forall₂ S xs ys := by
  induction xs generalizing ys with
  | nil => simp
  | cons x xs ih =>
      obtain ⟨head, tail⟩ := List.forall_mem_cons.mp h
      cases ys with
      | nil => simp
      | cons y ys => rw [List.forall₂_cons, List.forall₂_cons, head y, ih tail]

theorem exists_of_forall₂ {R : α → β → Prop} {xs : List α} {ys : List β}
    (h : List.Forall₂ R xs ys) {i : Nat} {x : α} (hx : xs[i]? = some x) :
    ∃ y, ys[i]? = some y ∧ R x y := by
  obtain ⟨hi, rfl⟩ := List.getElem?_eq_some_iff.mp hx
  have hj : i < ys.length := h.length_eq ▸ hi
  exact ⟨ys[i], List.getElem?_eq_getElem hj, h.get hi hj⟩

/-- What stands in relations to the parts of one list stands in a relation to each other. -/
theorem forall₂_of_common {γ : Type} {R : α → β → Prop} {R' : α → γ → Prop} {S : β → γ → Prop}
    {xs : List α} {ys : List β} {zs : List γ} (h : List.Forall₂ R xs ys)
    (h' : List.Forall₂ R' xs zs) (related : ∀ x y z, R x y → R' x z → S y z) :
    List.Forall₂ S ys zs := by
  induction h generalizing zs with
  | nil =>
      cases h'
      exact .nil
  | cons head _ ih =>
      cases h' with
      | cons head' tail' => exact .cons (related _ _ _ head head') (ih tail')

/-- What parts of two lists that belong together say of themselves is the same for the lists. -/
theorem forall_mem_iff_of_forall₂ {R : α → β → Prop} {xs : List α} {ys : List β}
    (h : List.Forall₂ R xs ys) {P : α → Prop} {Q : β → Prop}
    (each : ∀ x ∈ xs, ∀ y, R x y → (P x ↔ Q y)) : (∀ x ∈ xs, P x) ↔ ∀ y ∈ ys, Q y := by
  induction h with
  | nil => simp
  | @cons x y xs ys hxy _ ih =>
      obtain ⟨head, tail⟩ := List.forall_mem_cons.mp each
      rw [List.forall_mem_cons, List.forall_mem_cons, head y hxy, ih tail]

/-! ## Computations side by side -/

/-- Two computations give results in a relation, or are broken off by the same fault. -/
inductive Parallel (R : α → β → Prop) : Except ε α → Except ε β → Prop
  | ok {x : α} {y : β} (h : R x y) : Parallel R (.ok x) (.ok y)
  | error (e : ε) : Parallel R (.error e) (.error e)

theorem Parallel.bind {γ δ : Type} {R : α → β → Prop} {S : γ → δ → Prop} {a : Except ε α}
    {b : Except ε β} {f : α → Except ε γ} {g : β → Except ε δ} (h : Parallel R a b)
    (next : ∀ x y, R x y → Parallel S (f x) (g y)) : Parallel S (a >>= f) (b >>= g) := by
  cases h with
  | ok h => exact next _ _ h
  | error e => exact .error e

/-- What is produced on the left may be assumed to be what it is. -/
theorem Parallel.attach {R : α → β → Prop} {a : Except ε α} {b : Except ε β} (h : Parallel R a b) :
    Parallel (fun x y => R x y ∧ a = .ok x) a b := by
  cases h with
  | ok h => exact .ok ⟨h, rfl⟩
  | error e => exact .error e

theorem parallel_of_same {R : β → β → Prop} {a : Except ε α} {f g : α → Except ε β}
    (next : ∀ x, Parallel R (f x) (g x)) : Parallel R (a >>= f) (a >>= g) := by
  cases a with
  | ok x => exact next x
  | error e => exact .error e

theorem parallel_refl {R : α → α → Prop} [Std.Refl R] (a : Except ε α) : Parallel R a a := by
  cases a with
  | ok x => exact .ok (Std.Refl.refl x)
  | error e => exact .error e

theorem parallel_mapM {γ : Type} {R : α → β → Prop} {f : γ → Except ε α} {g : γ → Except ε β}
    (each : ∀ x, Parallel R (f x) (g x)) (xs : List γ) :
    Parallel (List.Forall₂ R) (xs.mapM f) (xs.mapM g) := by
  induction xs with
  | nil => exact .ok .nil
  | cons x xs ih =>
      rw [List.mapM_cons, List.mapM_cons]
      exact (each x).bind fun _ _ head => ih.bind fun _ _ rest => .ok (.cons head rest)

theorem parallel_foldlM {γ : Type} {R : α → α → Prop} {T : γ → γ → Prop} {f : α → γ → Except ε α}
    {xs ys : List γ} (h : List.Forall₂ T xs ys) {a b : α} (start : R a b)
    (step : ∀ a b x y, R a b → T x y → Parallel R (f a x) (f b y)) :
    Parallel R (xs.foldlM f a) (ys.foldlM f b) := by
  induction h generalizing a b with
  | nil => exact .ok start
  | cons head _ ih =>
      rw [List.foldlM_cons, List.foldlM_cons]
      exact (step _ _ _ _ start head).bind fun _ _ related => ih related

end Milp
