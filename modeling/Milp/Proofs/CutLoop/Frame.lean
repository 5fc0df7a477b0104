import Milp.Proofs.CutLoop.Exchange
import Milp.Proofs.Fault.Actions

/-!
# What a run of cuts keeps and raises

`Task.run` does to the state of its engine what the engine does to it, so it keeps what a question
and a cut keep (`keeps_run`). It breaks off with what they raise, with what values raise, and on two
occasions of its own.
-/

namespace Milp.CutLoop

open Milp.Action

variable {σ K α β : Type} [Numeric K] {t : Task K α β} {oracle : Oracle σ K α}

section

variable {R : σ → σ → Prop} [Std.Refl R] [IsTrans σ R]

omit [Numeric K] in
theorem keeps_record (hcut : ∀ b, Keeps R (oracle.addCut b)) (value : α → Except Fault Int)
    (o : Outcome β) (a : α) (kept : β) : Keeps R (t.record oracle value o a kept) :=
  (keeps_ofExcept _).bind fun _ => (keeps_note _ _ _).bind fun _ => (hcut _).bind fun _ =>
    keeps_pure _

/-- A run of cuts asks only with the time that is left at some reading of the clock. -/
theorem keeps_run (hdecide : ∀ n r, t.budget n = some r → Keeps R (oracle.decide r))
    (hcut : ∀ b, Keeps R (oracle.addCut b)) (questions n : Nat) (o : Outcome β) :
    Keeps R (t.run oracle questions n o) := by
  induction questions generalizing n o with
  | zero =>
      cases hb : t.budget n with
      | none => simpa only [t.run_of_spent _ _ _ _ hb] using keeps_pure _
      | some remaining => simpa only [t.run_zero _ _ _ hb] using keeps_throw _
  | succ questions ih =>
      cases hb : t.budget n with
      | none => simpa only [t.run_of_spent _ _ _ _ hb] using keeps_pure _
      | some remaining =>
          rw [t.run_succ _ _ _ _ hb]
          refine (hdecide n remaining hb).bind fun ⟨status, answer⟩ => ?_
          simp only [Task.afterAnswer]
          split
          · exact keeps_pure _
          · exact keeps_throw _
          · refine (keeps_ofExcept _).bind fun kept => ?_
            split
            · exact keeps_pure _
            · exact (keeps_record hcut _ _ _ _).bind fun o => ih _ o

theorem keeps_optimize_of_budget (hdecide : ∀ n r, t.budget n = some r → Keeps R (oracle.decide r))
    (hcut : ∀ b, Keeps R (oracle.addCut b)) (questions : Nat) :
    Keeps R (t.optimize oracle questions) :=
  (keeps_run hdecide hcut _ _ _).bind fun _ => (keeps_note _ _ _).bind fun _ => keeps_pure _

theorem keeps_optimize (hdecide : ∀ r, Keeps R (oracle.decide r))
    (hcut : ∀ b, Keeps R (oracle.addCut b)) (questions : Nat) :
    Keeps R (t.optimize oracle questions) :=
  keeps_optimize_of_budget (fun _ r _ => hdecide r) hcut questions

end

section

variable {P : Fault → Prop} {Good : α → Prop}

/-- A run of cuts breaks off with nothing but faults of some sort, since every answer is of a sort
with which that is so. -/
structure BreaksOn (t : Task K α β) (oracle : Oracle σ K α) (P : Fault → Prop)
    (Good : α → Prop) : Prop where
  unfinished : P .unfinished
  unanswered : P (.notIterable "NoneType")
  decides : ∀ r, Raises P (oracle.decide r)
  answers : ∀ r s status a s', (oracle.decide r).runOn s = (.ok (status, some a), s') → Good a
  cuts : ∀ b, Raises P (oracle.addCut b)
  keeps : ∀ a, Good a → BreaksBy P (t.keep a)
  values : ∀ value a, t.value? = some value → Good a → BreaksBy P (value a)

omit [Numeric K] in
theorem BreaksOn.raises_record (breaks : BreaksOn t oracle P Good) {value : α → Except Fault Int}
    (h : t.value? = some value) (o : Outcome β) {a : α} (good : Good a) (kept : β) :
    Raises P (t.record oracle value o a kept) :=
  (raises_ofExcept (breaks.values value a h good)).bind fun _ => (raises_note _ _ _).bind fun _ =>
    (breaks.cuts _).bind fun _ => raises_pure _

theorem BreaksOn.raises_run (breaks : BreaksOn t oracle P Good) (questions n : Nat)
    (o : Outcome β) : Raises P (t.run oracle questions n o) := by
  induction questions generalizing n o with
  | zero =>
      cases hb : t.budget n with
      | none => simpa only [t.run_of_spent _ _ _ _ hb] using raises_pure _
      | some remaining =>
          simpa only [t.run_zero _ _ _ hb] using raises_throw breaks.unfinished
  | succ questions ih =>
      cases hb : t.budget n with
      | none => simpa only [t.run_of_spent _ _ _ _ hb] using raises_pure _
      | some remaining =>
          rw [t.run_succ _ _ _ _ hb]
          refine (breaks.decides remaining).bind_of_ok fun ⟨status, answer⟩ s s₁ asked => ?_
          simp only [Task.afterAnswer]
          split
          · exact raises_pure _ s₁
          · exact raises_throw breaks.unanswered s₁
          · rename_i a _
            have good : Good a := breaks.answers remaining s status a s₁ asked
            refine (raises_ofExcept (breaks.keeps a good)).bind (fun kept => ?_) s₁
            split
            · exact raises_pure _
            · rename_i value h
              exact (breaks.raises_record h _ good _).bind fun o => ih _ o

theorem BreaksOn.raises_optimize (breaks : BreaksOn t oracle P Good) (questions : Nat) :
    Raises P (t.optimize oracle questions) :=
  (breaks.raises_run _ _ _).bind fun _ => (raises_note _ _ _).bind fun _ => raises_pure _

/-- A run of cuts breaks off with nothing but faults of the library's own and those of some sort. -/
structure Breaks (t : Task K α β) (oracle : Oracle σ K α) (P : Fault → Prop) : Prop where
  internal : ∀ f, f.Internal → P f
  decides : ∀ r, Raises P (oracle.decide r)
  cuts : ∀ b, Raises P (oracle.addCut b)
  keeps : ∀ a, BreaksBy P (t.keep a)
  values : ∀ value a, t.value? = some value → BreaksBy P (value a)

theorem Breaks.raises_optimize (breaks : Breaks t oracle P) (questions : Nat) :
    Raises P (t.optimize oracle questions) := by
  have on : BreaksOn t oracle P fun _ => True :=
    ⟨breaks.internal _ trivial, breaks.internal _ trivial, breaks.decides,
      fun _ _ _ _ _ _ => trivial, breaks.cuts, fun a _ => breaks.keeps a,
      fun value a h _ => breaks.values value a h⟩
  exact on.raises_optimize questions

end

section

variable {P : σ → Prop} {E : Fault → σ → Prop}

omit [Numeric K] in
theorem tied_record (hcut : ∀ b, Tied P E (oracle.addCut b)) (goes : ∀ f s, P s → E f s)
    (value : α → Except Fault Int) (o : Outcome β) (a : α) (kept : β) :
    Tied P E (t.record oracle value o a kept) :=
  (tied_of_same (keeps_ofExcept _) goes).bind fun _ =>
    (tied_of_same (keeps_note _ _ _) goes).bind fun _ => (hcut _).bind fun _ => tied_pure _

/-- The fault that breaks off a run of cuts goes with the state that is left, if that is so of
questions and of cuts. -/
theorem tied_run (hdecide : ∀ r, Tied P E (oracle.decide r)) (hcut : ∀ b, Tied P E (oracle.addCut b))
    (goes : ∀ f s, P s → E f s) (questions n : Nat) (o : Outcome β) :
    Tied P E (t.run oracle questions n o) := by
  have throws {γ : Type} (f : Fault) : Tied P E (throw f : Action σ γ) :=
    tied_of_same (keeps_throw f) goes
  induction questions generalizing n o with
  | zero =>
      cases hb : t.budget n with
      | none => simpa only [t.run_of_spent _ _ _ _ hb] using tied_pure _
      | some remaining => simpa only [t.run_zero _ _ _ hb] using throws _
  | succ questions ih =>
      cases hb : t.budget n with
      | none => simpa only [t.run_of_spent _ _ _ _ hb] using tied_pure _
      | some remaining =>
          rw [t.run_succ _ _ _ _ hb]
          refine (hdecide remaining).bind fun ⟨status, answer⟩ => ?_
          simp only [Task.afterAnswer]
          split
          · exact tied_pure _
          · exact throws _
          · refine (tied_of_same (keeps_ofExcept _) goes).bind fun kept => ?_
            split
            · exact tied_pure _
            · exact (tied_record hcut goes _ _ _ _).bind fun o => ih _ o

theorem tied_optimize (hdecide : ∀ r, Tied P E (oracle.decide r))
    (hcut : ∀ b, Tied P E (oracle.addCut b)) (goes : ∀ f s, P s → E f s) (questions : Nat) :
    Tied P E (t.optimize oracle questions) :=
  (tied_run hdecide hcut goes _ _ _).bind fun _ =>
    (tied_of_same (keeps_note _ _ _) goes).bind fun _ => tied_pure _

end

end Milp.CutLoop
