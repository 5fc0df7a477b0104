import Milp.CutLoop

/-!
# What passes between a run of cuts and its engine

An engine is watched by one that does the same and keeps a record (`Oracle.recording`). The record
of every run is a `Course`: questions and cuts take turns, and the first answer without an
assignment, the end of the time, or a fault ends it.
-/

namespace Milp.CutLoop

/-- What passes between a run of cuts and its engine. -/
inductive Exchange (K α : Type) where
  /-- A question, with the time given for it, and its answer. -/
  | question (remaining : Option K) (status : Status) (answer : Option α)
  | cut (bound : Int)
  deriving Repr

variable {σ K α β : Type}

/-! ## Recording -/

/-- The engine with a record of what passes (`Exchange`); what it breaks off is not recorded. -/
def Oracle.recording (oracle : Oracle σ K α) : Oracle (σ × List (Exchange K α)) K α where
  decide remaining := do
    let answer ← .onPart Prod.fst (fun s r => (s, r.2)) (oracle.decide remaining)
    .update fun r => (r.1, r.2 ++ [.question remaining answer.1 answer.2])
    return answer
  addCut bound := do
    .onPart Prod.fst (fun s r => (s, r.2)) (oracle.addCut bound)
    .update fun r => (r.1, r.2 ++ [.cut bound])

/-- What passes in a run with at most a given number of questions. -/
def Task.exchanges [Numeric K] (t : Task K α β) (oracle : Oracle σ K α) (questions : Nat)
    (s : Logged σ) : List (Exchange K α) :=
  ((t.optimize oracle.recording questions).runOn ⟨(s.state, []), s.log⟩).2.state.2

/-- The second action does what the first one does from a state on, and records what passes. -/
def Recorded {γ ε : Type} (a : Action σ γ) (watched : Action (σ × List ε) γ) (s : Logged σ)
    (passed : List ε) : Prop :=
  ∀ record, watched.runOn ⟨(s.state, record), s.log⟩ =
    ((a.runOn s).1, ⟨((a.runOn s).2.state, record ++ passed), (a.runOn s).2.log⟩)

namespace Recorded

variable {γ δ ε : Type} {a : Action σ γ} {watched : Action (σ × List ε) γ} {s s' : Logged σ}
  {passed rest : List ε}

theorem pure (x : γ) (s : Logged σ) :
    Recorded (ε := ε) (Pure.pure x : Action σ γ) (Pure.pure x) s [] := by
  intro record
  simp

theorem throw (f : Fault) (s : Logged σ) :
    Recorded (ε := ε) (MonadExcept.throw f : Action σ γ) (MonadExcept.throw f) s [] := by
  intro record
  simp

theorem note (level : Level) (channel : Channel) (text : Phrase) (s : Logged σ) :
    Recorded (ε := ε) (.note level channel text) (.note level channel text) s [] := by
  intro record
  simp

theorem bind_ok (h : Recorded a watched s passed) {x : γ} (ha : a.runOn s = (.ok x, s'))
    {f : γ → Action σ δ} {g : γ → Action (σ × List ε) δ}
    (hf : Recorded (f x) (g x) s' rest) :
    Recorded (a >>= f) (watched >>= g) s (passed ++ rest) := by
  intro record
  simp only [Action.runOn_bind, h record, ha]
  rw [hf, List.append_assoc]

theorem bind_error (h : Recorded a watched s passed) {e : Fault} (ha : a.runOn s = (.error e, s'))
    {f : γ → Action σ δ} {g : γ → Action (σ × List ε) δ} :
    Recorded (a >>= f) (watched >>= g) s passed := by
  intro record
  simp only [Action.runOn_bind, h record, ha]

end Recorded

theorem Oracle.recorded_decide (oracle : Oracle σ K α) (remaining : Option K) (s : Logged σ) :
    Recorded (oracle.decide remaining) (oracle.recording.decide remaining) s
      (match ((oracle.decide remaining).runOn s).1 with
        | .ok x => [.question remaining x.1 x.2]
        | .error _ => []) := by
  intro record
  simp only [recording, Action.runOn_bind, Action.runOn_onPart]
  rcases (oracle.decide remaining).runOn s with ⟨f | x, s'⟩ <;> simp

theorem Oracle.recorded_addCut (oracle : Oracle σ K α) (bound : Int) (s : Logged σ) :
    Recorded (oracle.addCut bound) (oracle.recording.addCut bound) s
      (match ((oracle.addCut bound).runOn s).1 with
        | .ok _ => [.cut bound]
        | .error _ => []) := by
  intro record
  simp only [recording, Action.runOn_bind, Action.runOn_onPart]
  rcases (oracle.addCut bound).runOn s with ⟨f | x, s'⟩ <;> simp

/-- The calls that lead an engine from one state to another, with what passes in them. Notes may be
taken in between. -/
inductive Oracle.Passes (oracle : Oracle σ K α) :
    Logged σ → List (Exchange K α) → Logged σ → Prop where
  | nil (s) : Passes oracle s [] s
  | question {s s₁ s₂ remaining status answer record}
      (h : (oracle.decide remaining).runOn s = (.ok (status, answer), s₁)) :
      Passes oracle s₁ record s₂ →
      Passes oracle s (.question remaining status answer :: record) s₂
  | cut {s s₁ s₂ bound record} (h : (oracle.addCut bound).runOn s = (.ok (), s₁)) :
      Passes oracle s₁ record s₂ → Passes oracle s (.cut bound :: record) s₂
  | note {s s₂ record} (message : Message) :
      Passes oracle { s with log := s.log ++ [message] } record s₂ → Passes oracle s record s₂

theorem Oracle.Passes.append {oracle : Oracle σ K α} {s s₁ s₂ : Logged σ}
    {record rest : List (Exchange K α)} (h : oracle.Passes s record s₁)
    (later : oracle.Passes s₁ rest s₂) : oracle.Passes s (record ++ rest) s₂ := by
  induction h with
  | nil => exact later
  | question h _ ih => exact .question h (ih later)
  | cut h _ ih => exact .cut h (ih later)
  | note message _ ih => exact .note message (ih later)

/-! ## The course of a run -/

def Outcome.asked (o : Outcome β) : Outcome β :=
  { o with iterations := o.iterations + 1 }

def Outcome.withValue (o : Outcome β) (kept : β) (v : Int) : Outcome β :=
  { o with assignment := some kept, objectiveValue := some v, history := o.history ++ [v] }

/-- What can pass in a run that goes on from an outcome when the clock has been read a given number
of times, and how the run ends. -/
inductive Course [Numeric K] (t : Task K α β) :
    Nat → Outcome β → List (Exchange K α) → Except Fault (Status × Outcome β) → Prop where
  | spent {n o} (hb : t.budget n = none) : Course t n o [] (.ok (.timeLimit, o))
  | refused {n o remaining status answer} (hb : t.budget n = some remaining)
      (hs : status.hasSolution = false) :
      Course t n o [.question remaining status answer] (.ok (status, o.asked))
  | found {n o remaining status a kept} (hb : t.budget n = some remaining)
      (hs : status.hasSolution = true) (hk : t.keep a = .ok kept) (hv : t.value? = none) :
      Course t n o [.question remaining status (some a)]
        (.ok (status, { o.asked with assignment := some kept }))
  | improved {n o remaining status a kept value v record result} (hb : t.budget n = some remaining)
      (hs : status.hasSolution = true) (hk : t.keep a = .ok kept) (hv : t.value? = some value)
      (ha : value a = .ok v) :
      Course t (t.nextReading n) (o.asked.withValue kept v) record result →
      Course t n o (.question remaining status (some a) :: .cut (t.improved v) :: record) result
  | brokenBefore {n o} (f) : Course t n o [] (.error f)
  | brokenAfter {n o remaining status answer} (f) (hb : t.budget n = some remaining) :
      Course t n o [.question remaining status answer] (.error f)

/-! ## Runs of the loop -/

section

variable [Numeric K]

def Task.afterAnswer (t : Task K α β) (oracle : Oracle σ K α) (questions n : Nat) (o : Outcome β) :
    Status × Option α → Action σ (Status × Outcome β)
  | (status, answer) =>
    match status.hasSolution, answer with
    | false, _ => return (status, o.asked)
    | true, none => throw (.notIterable "NoneType")
    | true, some a => do
      let kept ← .ofExcept (t.keep a)
      match t.value? with
      | none => return (status, { o.asked with assignment := some kept })
      | some value =>
        let o ← t.record oracle value o.asked a kept
        t.run oracle questions (t.nextReading n) o

theorem Task.run_of_spent (t : Task K α β) (oracle : Oracle σ K α) (questions n : Nat)
    (o : Outcome β) (h : t.budget n = none) :
    t.run oracle questions n o = pure (.timeLimit, o) := by
  rw [Task.run.eq_def]
  simp only [h]

theorem Task.run_zero (t : Task K α β) (oracle : Oracle σ K α) (n : Nat) (o : Outcome β)
    {remaining : Option K} (h : t.budget n = some remaining) :
    t.run oracle 0 n o = throw .unfinished := by
  rw [Task.run.eq_def]
  simp only [h]

theorem Task.run_succ (t : Task K α β) (oracle : Oracle σ K α) (questions n : Nat)
    (o : Outcome β) {remaining : Option K} (h : t.budget n = some remaining) :
    t.run oracle (questions + 1) n o =
      oracle.decide remaining >>= t.afterAnswer oracle questions n o := by
  rw [Task.run.eq_def]
  simp only [h]
  rfl

omit [Numeric K] in
theorem Task.record_eq (t : Task K α β) (oracle : Oracle σ K α) (value : α → Except Fault Int)
    (o : Outcome β) (a : α) (kept : β) {v : Int} (hv : value a = .ok v) :
    t.record oracle value o a kept = (do
      .note .info .cuts ("Found new solution: " ++ Int.repr v)
      oracle.addCut (t.improved v)
      return o.withValue kept v) := by
  rw [record, hv]
  rfl

omit [Numeric K] in
/-- Recording an assignment passes the cut that improves on it, unless the engine breaks off. -/
theorem Task.recorded_record (t : Task K α β) (oracle : Oracle σ K α)
    (value : α → Except Fault Int) (o : Outcome β) (a : α) (kept : β) {v : Int}
    (hv : value a = .ok v) (s : Logged σ) :
    (∃ f s', (t.record oracle value o a kept).runOn s = (.error f, s') ∧
      Recorded (t.record oracle value o a kept) (t.record oracle.recording value o a kept) s []) ∨
    (∃ s', (t.record oracle value o a kept).runOn s = (.ok (o.withValue kept v), s') ∧
      Recorded (t.record oracle value o a kept) (t.record oracle.recording value o a kept) s
        [.cut (t.improved v)] ∧ oracle.Passes s [.cut (t.improved v)] s') := by
  rw [t.record_eq oracle value o a kept hv, t.record_eq oracle.recording value o a kept hv]
  let s₁ : Logged σ := { s with
    log := s.log ++ [⟨.info, .cuts, "Found new solution: " ++ Int.repr v⟩] }
  have noted := Recorded.note (ε := Exchange K α) .info .cuts
    ("Found new solution: " ++ Int.repr v) s
  have cut := oracle.recorded_addCut (t.improved v) s₁
  rcases hc : (oracle.addCut (t.improved v)).runOn s₁ with ⟨f | u, s'⟩
  · left
    rw [hc] at cut
    refine ⟨f, s', ?_, noted.bind_ok rfl (cut.bind_error hc)⟩
    simp only [Action.runOn_bind, Action.runOn_note]
    rw [hc]
  · right
    rw [hc] at cut
    refine ⟨s', ?_, noted.bind_ok rfl (cut.bind_ok hc (.pure _ s')), .note _ (.cut hc (.nil s'))⟩
    simp only [Action.runOn_bind, Action.runOn_note]
    rw [hc]
    rfl

/-- What follows an answer, when the runs that it can lead to follow the loop. -/
theorem course_afterAnswer (t : Task K α β) (oracle : Oracle σ K α) (questions n : Nat)
    (o : Outcome β) {remaining : Option K} (hb : t.budget n = some remaining) (status : Status)
    (answer : Option α) (s : Logged σ)
    (later : ∀ n o s, ∃ passed s',
      Course t n o passed ((t.run oracle questions n o).runOn s).1 ∧
      Recorded (t.run oracle questions n o) (t.run oracle.recording questions n o) s passed ∧
      oracle.Passes s passed s') :
    ∃ passed s',
      Course t n o (.question remaining status answer :: passed)
        ((t.afterAnswer oracle questions n o (status, answer)).runOn s).1 ∧
      Recorded (t.afterAnswer oracle questions n o (status, answer))
        (t.afterAnswer oracle.recording questions n o (status, answer)) s passed ∧
      oracle.Passes s passed s' := by
  cases hs : status.hasSolution with
  | false =>
      simp only [Task.afterAnswer, hs]
      exact ⟨[], s, .refused hb hs, .pure _ s, .nil s⟩
  | true =>
      cases answer with
      | none =>
          simp only [Task.afterAnswer, hs]
          exact ⟨[], s, .brokenAfter _ hb, .throw _ s, .nil s⟩
      | some a =>
          simp only [Task.afterAnswer, hs]
          cases hk : t.keep a with
          | error f => exact ⟨[], s, .brokenAfter f hb, .throw f s, .nil s⟩
          | ok kept =>
              cases hv : t.value? with
              | none => exact ⟨[], s, .found hb hs hk hv, .pure _ s, .nil s⟩
              | some value =>
                  cases ha : value a with
                  | error f =>
                      simp only [Task.record, ha]
                      exact ⟨[], s, .brokenAfter f hb, .throw f s, .nil s⟩
                  | ok v =>
                      rcases t.recorded_record oracle value o.asked a kept ha s with
                        ⟨f, s', hr, hw⟩ | ⟨s', hr, hw, hs'⟩
                      · refine ⟨[], s, ?_, hw.bind_error hr, .nil s⟩
                        simp only [Action.runOn_bind, Action.runOn_ofExcept, hr]
                        exact .brokenAfter f hb
                      · obtain ⟨passed, s₂, hc, hp, hl⟩ := later (t.nextReading n)
                          (o.asked.withValue kept v) s'
                        refine ⟨.cut (t.improved v) :: passed, s₂, ?_, hw.bind_ok hr hp,
                          hs'.append hl⟩
                        simp only [Action.runOn_bind, Action.runOn_ofExcept, hr]
                        exact .improved hb hs hk hv ha hc

/-- What `Task.run` records with `Oracle.recording` is a `Course`. -/
theorem course_run (t : Task K α β) (oracle : Oracle σ K α) (questions n : Nat) (o : Outcome β)
    (s : Logged σ) :
    ∃ passed s', Course t n o passed ((t.run oracle questions n o).runOn s).1 ∧
      Recorded (t.run oracle questions n o) (t.run oracle.recording questions n o) s passed ∧
      oracle.Passes s passed s' := by
  induction questions generalizing n o s with
  | zero =>
      cases hb : t.budget n with
      | none =>
          simp only [t.run_of_spent _ _ _ _ hb]
          exact ⟨[], s, .spent hb, .pure _ s, .nil s⟩
      | some remaining =>
          simp only [t.run_zero _ _ _ hb]
          exact ⟨[], s, .brokenBefore _, .throw _ s, .nil s⟩
  | succ questions ih =>
      cases hb : t.budget n with
      | none =>
          simp only [t.run_of_spent _ _ _ _ hb]
          exact ⟨[], s, .spent hb, .pure _ s, .nil s⟩
      | some remaining =>
          simp only [t.run_succ _ _ _ _ hb]
          have asked := oracle.recorded_decide remaining s
          rcases hd : (oracle.decide remaining).runOn s with ⟨f | ⟨status, answer⟩, s'⟩
          · rw [hd] at asked
            refine ⟨[], s, ?_, asked.bind_error hd, .nil s⟩
            simp only [Action.runOn_bind, hd]
            exact .brokenBefore f
          · rw [hd] at asked
            obtain ⟨passed, s₂, hc, hp, hl⟩ :=
              course_afterAnswer t oracle questions n o hb status answer s' ih
            refine ⟨.question remaining status answer :: passed, s₂, ?_, asked.bind_ok hd hp,
              .question hd hl⟩
            simp only [Action.runOn_bind, hd]
            exact hc

/-- A run of `Task.optimize` that has ended is a `Course`, whose outcome it has with the status that
is found at the end. -/
theorem Task.course_exchanges (t : Task K α β) (oracle : Oracle σ K α) (questions : Nat)
    {s s' : Logged σ} {o : Outcome β}
    (run : (t.optimize oracle questions).runOn s = (.ok o, s')) :
    ∃ last o' s₁, Course t 1 .initial (t.exchanges oracle questions s) (.ok (last, o')) ∧
      oracle.Passes s (t.exchanges oracle questions s) s₁ ∧
      o = { o' with status := t.finalStatus last o' } := by
  obtain ⟨passed, s₂, hc, hp, hl⟩ := course_run t oracle questions 1 .initial s
  have watched := hp []
  rw [List.nil_append] at watched
  rcases hr : (t.run oracle questions 1 .initial).runOn s with ⟨f | ⟨last, o'⟩, s₁⟩
  · simp [optimize, Action.runOn_bind, hr] at run
  · rw [hr] at watched hc
    have passes : t.exchanges oracle questions s = passed := by
      simp only [exchanges, optimize, Action.runOn_bind, watched]
      rfl
    refine ⟨last, o', s₂, passes ▸ hc, passes ▸ hl, ?_⟩
    simp only [optimize, Action.runOn_bind, hr, Action.runOn_note, Action.runOn_pure,
      Prod.mk.injEq, Except.ok.injEq] at run
    exact run.1.symm

end

end Milp.CutLoop
