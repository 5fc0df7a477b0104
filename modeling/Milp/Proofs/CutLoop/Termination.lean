import Mathlib.Data.Finset.Card
import Milp.Proofs.Action.Frame
import Milp.Proofs.CutLoop.Optimality

/-!
# When a run of cuts ends

An engine that finds only assignments within the cuts passed before finds a strictly better value
every time. Where there are finitely many values, the number of values that are still within the
cuts falls with every question, so a run ends however many questions it may ask.
-/

namespace Milp.CutLoop

variable {σ K α β : Type}

/-! ## Engines that keep to the cuts -/

def cutBounds (record : List (Exchange K α)) : List Int :=
  record.filterMap fun
    | .question .. => none
    | .cut bound => some bound

theorem cutBounds_append (record rest : List (Exchange K α)) :
    cutBounds (record ++ rest) = cutBounds record ++ cutBounds rest :=
  List.filterMap_append

/-- From a state on, an engine that was passed cuts finds only assignments of a set that are within
these cuts and within those that follow. -/
def Task.Obeys (t : Task K α β) (F : Set α) (oracle : Oracle σ K α) (cuts : List Int)
    (s : Logged σ) : Prop :=
  ∀ record s₁ remaining status a s₂, oracle.Passes s record s₁ →
    (oracle.decide remaining).runOn s₁ = (.ok (status, some a), s₂) →
    status.hasSolution = true → a ∈ F ∧ t.Meets (cuts ++ cutBounds record) a

/-- The assignments in a record are in a set, and within the cuts before them. -/
def Task.Obedient (t : Task K α β) (F : Set α) : List Int → List (Exchange K α) → Prop
  | _, [] => True
  | cuts, .question _ status answer :: rest =>
    (status.hasSolution = true → ∀ a, answer = some a → a ∈ F ∧ t.Meets cuts a) ∧
      t.Obedient F cuts rest
  | cuts, .cut bound :: rest => t.Obedient F (cuts ++ [bound]) rest

namespace Task.Obeys

variable {t : Task K α β} {F : Set α} {oracle : Oracle σ K α} {cuts : List Int}
  {s s₁ : Logged σ}

/-- An engine keeps to the cuts wherever calls lead it. -/
theorem passes (h : t.Obeys F oracle cuts s) {record : List (Exchange K α)}
    (hp : oracle.Passes s record s₁) : t.Obeys F oracle (cuts ++ cutBounds record) s₁ := by
  intro rest s₂ remaining status a s₃ hp'
  rw [List.append_assoc, ← cutBounds_append]
  exact h (record ++ rest) s₂ remaining status a s₃ (hp.append hp')

theorem answer (h : t.Obeys F oracle cuts s) {remaining : Option K} {status : Status} {a : α}
    (hd : (oracle.decide remaining).runOn s = (.ok (status, some a), s₁))
    (hs : status.hasSolution = true) : a ∈ F ∧ t.Meets cuts a := by
  simpa [cutBounds] using h [] s remaining status a s₁ (.nil s) hd hs

theorem obedient (h : t.Obeys F oracle cuts s) {record : List (Exchange K α)}
    (hp : oracle.Passes s record s₁) : t.Obedient F cuts record := by
  induction hp generalizing cuts with
  | nil => trivial
  | question hd _ ih =>
      refine ⟨?_, ih (by simpa [cutBounds] using h.passes (.question hd (.nil _)))⟩
      rintro hs a rfl
      exact h.answer hd hs
  | cut hc _ ih => exact ih (h.passes (.cut hc (.nil _)))
  | note message _ ih => exact ih (by simpa [cutBounds] using h.passes (.note message (.nil _)))

end Task.Obeys

/-! ## Values that are left -/

instance (t : Task K α β) (v bound : Int) : Decidable (t.Within v bound) :=
  inferInstanceAs (Decidable (if t.maximize then bound ≤ v else v ≤ bound))

/-- The values that are within all cuts. -/
def Task.left (t : Task K α β) (values : Finset Int) (cuts : List Int) : Finset Int :=
  values.filter fun v => ∀ bound ∈ cuts, t.Within v bound

theorem Task.card_left_lt {t : Task K α β} {values : Finset Int} {cuts : List Int} {v : Int}
    (mem : v ∈ t.left values cuts) :
    (t.left values (cuts ++ [t.improved v])).card < (t.left values cuts).card := by
  refine Finset.card_lt_card (Finset.ssubset_iff_of_subset ?_ |>.mpr ⟨v, mem, ?_⟩)
  · intro u hu
    simp only [left, Finset.mem_filter, List.mem_append] at hu ⊢
    exact ⟨hu.1, fun bound h => hu.2 bound (.inl h)⟩
  · intro hv
    simp only [left, Finset.mem_filter, List.mem_append] at hv
    have within := hv.2 _ (.inr (List.mem_singleton_self _))
    rw [Task.within_improved] at within
    unfold Better at within
    split at within <;> omega

theorem Task.Meets.mem_left {t : Task K α β} {values : Finset Int} {cuts : List Int} {a : α}
    {v : Int} (meets : t.Meets cuts a) (ha : t.HasValue a v) (mem : v ∈ values) :
    v ∈ t.left values cuts := by
  refine Finset.mem_filter.mpr ⟨mem, fun bound hb => ?_⟩
  obtain ⟨u, hu, within⟩ := meets bound hb
  exact hu.unique ha ▸ within

/-! ## Runs -/

section

variable [Numeric K]

/-- Where an engine obeys its cuts (`Task.Obedient`), the values in a history get strictly
better. -/
theorem Course.history_pairwise {t : Task K α β} {F : Set α} {cuts : List Int} {n : Nat}
    {o o' : Outcome β} {record : List (Exchange K α)} {last : Status}
    (course : Course t n o record (.ok (last, o'))) (obedient : t.Obedient F cuts record)
    (passed : ∀ v ∈ o.history, t.improved v ∈ cuts)
    (sorted : o.history.Pairwise fun v w => t.Better w v) :
    o'.history.Pairwise fun v w => t.Better w v := by
  generalize hr : Except.ok (last, o') = result at course
  induction course generalizing cuts with
  | spent hb =>
      obtain ⟨rfl, rfl⟩ := Prod.mk.inj (Except.ok.inj hr)
      exact sorted
  | refused hb hs =>
      obtain ⟨rfl, rfl⟩ := Prod.mk.inj (Except.ok.inj hr)
      exact sorted
  | found hb hs hk hv =>
      obtain ⟨rfl, rfl⟩ := Prod.mk.inj (Except.ok.inj hr)
      exact sorted
  | improved hb hs hk value ha _ ih =>
      obtain ⟨-, meets⟩ := obedient.1 hs _ rfl
      refine ih obedient.2 ?_ ?_ hr
      · intro u hu
        rcases List.mem_append.mp hu with hu | hu
        · exact List.mem_append_left _ (passed u hu)
        · obtain rfl := List.mem_singleton.mp hu
          exact List.mem_append_right _ (List.mem_singleton_self _)
      · refine List.pairwise_append.mpr ⟨sorted, List.pairwise_singleton _ _, ?_⟩
        intro u hu v hv
        obtain rfl := List.mem_singleton.mp hv
        obtain ⟨v', hv', within⟩ := meets _ (passed u hu)
        obtain rfl := Task.HasValue.unique ⟨_, value, ha⟩ hv'
        exact Task.within_improved.mp within
  | brokenBefore f => cases hr
  | brokenAfter f hb => cases hr

theorem Task.afterAnswer_congr (t : Task K α β) (oracle : Oracle σ K α) {q q' n : Nat}
    {o : Outcome β} {status : Status} {answer : Option α} {s : Logged σ}
    (later : ∀ a kept v s₁, status.hasSolution = true → answer = some a → t.HasValue a v →
      oracle.Passes s [.cut (t.improved v)] s₁ →
      (t.run oracle q (t.nextReading n) (o.asked.withValue kept v)).runOn s₁ =
        (t.run oracle q' (t.nextReading n) (o.asked.withValue kept v)).runOn s₁) :
    (t.afterAnswer oracle q n o (status, answer)).runOn s =
      (t.afterAnswer oracle q' n o (status, answer)).runOn s := by
  cases hs : status.hasSolution with
  | false => simp only [afterAnswer, hs]
  | true =>
      cases answer with
      | none => simp only [afterAnswer, hs]
      | some a =>
          simp only [afterAnswer, hs, Action.runOn_bind, Action.runOn_ofExcept]
          cases hk : t.keep a with
          | error f => rfl
          | ok kept =>
              cases hv : t.value? with
              | none => rfl
              | some value =>
                  simp only [Action.runOn_bind]
                  cases ha : value a with
                  | error f => simp [record, ha, Action.runOn_bind]
                  | ok v =>
                      rcases t.recorded_record oracle value o.asked a kept ha s with
                        ⟨f, s₁, hr, -⟩ | ⟨s₁, hr, -, hp⟩
                      · simp only [hr]
                      · simp only [hr]
                        exact later a kept v s₁ hs rfl ⟨value, hv, ha⟩ hp

/-- With finitely many values, a run that may ask more questions than there are values left is the
same however many more it may ask. -/
theorem Task.run_eq_of_left_lt {t : Task K α β} {F : Set α} {oracle : Oracle σ K α}
    {values : Finset Int} (finite : ∀ a ∈ F, ∀ v, t.HasValue a v → v ∈ values)
    {q q' : Nat} {cuts : List Int} {n : Nat} {o : Outcome β} {s : Logged σ}
    (obeys : t.Obeys F oracle cuts s) (hq : (t.left values cuts).card < q)
    (hq' : (t.left values cuts).card < q') :
    (t.run oracle q n o).runOn s = (t.run oracle q' n o).runOn s := by
  -- Every improvement leaves fewer values, so neither bound on the questions is ever met.
  induction q generalizing q' cuts n o s with
  | zero => omega
  | succ q ih =>
      obtain ⟨q', rfl⟩ : ∃ k, q' = k + 1 := ⟨q' - 1, by omega⟩
      cases hb : t.budget n with
      | none => simp only [t.run_of_spent _ _ _ _ hb]
      | some remaining =>
          simp only [t.run_succ _ _ _ _ hb, Action.runOn_bind]
          rcases hd : (oracle.decide remaining).runOn s with ⟨f | ⟨status, answer⟩, s₁⟩
          · rfl
          · refine t.afterAnswer_congr oracle ?_
            rintro a kept v s₂ hs rfl ha hp
            obtain ⟨mem, meets⟩ := obeys.answer hd hs
            have fewer := card_left_lt (meets.mem_left ha (finite a mem v ha))
            have next := (obeys.passes (.question hd (.nil s₁))).passes hp
            simp only [cutBounds, List.filterMap_cons, List.filterMap_nil, List.append_nil] at next
            exact ih next (by omega) (by omega)

/-- With finitely many values, a run is the same however many more questions than values it may
ask. -/
theorem Task.optimize_eq_of_card_lt {t : Task K α β} {F : Set α} {oracle : Oracle σ K α}
    {values : Finset Int} (finite : ∀ a ∈ F, ∀ v, t.HasValue a v → v ∈ values) {s : Logged σ}
    (obeys : t.Obeys F oracle [] s) {q q' : Nat} (hq : values.card < q) (hq' : values.card < q') :
    (t.optimize oracle q).runOn s = (t.optimize oracle q').runOn s := by
  have all : (t.left values []).card ≤ values.card := Finset.card_filter_le _ _
  simp only [optimize, Action.runOn_bind]
  rw [run_eq_of_left_lt finite obeys (by omega) (by omega : _ < q')]

/-- A run without an objective ends with its first answer. -/
theorem Task.optimize_eq_of_search {t : Task K α β} (search : t.value? = none)
    (oracle : Oracle σ K α) {q q' : Nat} (hq : 0 < q) (hq' : 0 < q') (s : Logged σ) :
    (t.optimize oracle q).runOn s = (t.optimize oracle q').runOn s := by
  obtain ⟨q, rfl⟩ : ∃ k, q = k + 1 := ⟨q - 1, by omega⟩
  obtain ⟨q', rfl⟩ : ∃ k, q' = k + 1 := ⟨q' - 1, by omega⟩
  have once : (t.run oracle (q + 1) 1 .initial).runOn s =
      (t.run oracle (q' + 1) 1 .initial).runOn s := by
    cases hb : t.budget 1 with
    | none => simp only [t.run_of_spent _ _ _ _ hb]
    | some remaining =>
        rw [t.run_succ _ _ _ _ hb, t.run_succ _ _ _ _ hb]
        refine Action.runOn_bind_congr fun answer s₁ _ => ?_
        refine t.afterAnswer_congr oracle fun a kept v s₂ _ _ ha => ?_
        obtain ⟨value, hv, -⟩ := ha
        simp [search] at hv
  simp only [optimize, Action.runOn_bind, once]

theorem Course.history_search {t : Task K α β} (search : t.value? = none) {n : Nat}
    {o o' : Outcome β} {record : List (Exchange K α)} {last : Status}
    (course : Course t n o record (.ok (last, o'))) : o'.history = o.history := by
  cases course with
  | spent hb => rfl
  | refused hb hs => rfl
  | found hb hs hk hv => rfl
  | improved _ _ _ hv => simp [search] at hv

/-- The history that `Task.optimize` leaves, if the engine keeps to the cuts or there are none. -/
theorem Task.history_optimize {t : Task K α β} {F : Set α} {oracle : Oracle σ K α}
    {questions : Nat} {s s' : Logged σ} {o : Outcome β}
    (obeys : t.value? ≠ none → t.Obeys F oracle [] s)
    (run : (t.optimize oracle questions).runOn s = (.ok o, s')) :
    o.history.Pairwise fun v w => t.Better w v := by
  obtain ⟨last, o', s₁, course, passes, rfl⟩ := t.course_exchanges oracle questions run
  by_cases search : t.value? = none
  · rw [course.history_search search]
    exact .nil
  · exact course.history_pairwise ((obeys search).obedient passes) (by simp [Outcome.initial])
      (by simp [Outcome.initial])

end

end Milp.CutLoop
