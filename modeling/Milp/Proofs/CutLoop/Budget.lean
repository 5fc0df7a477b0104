import Milp.Proofs.CutLoop.Rounds
import Milp.Proofs.Number.Extended

/-!
# The time of a run of cuts

`Task.run` reads the clock once before the first question, and under a limit once more at every head
of the loop. Every question is given what is left then; where nothing is left, the run ends with
what it has found (`budget_optimize`).
-/

namespace Milp.CutLoop

variable {σ K α β : Type}

/-! ## Calls -/

/-- The engine with a list of the calls (`Asked`) that it gets, before it answers or breaks off. -/
def Oracle.listing (oracle : Oracle σ K α) : Oracle (σ × List (Asked K)) K α where
  decide remaining := do
    .update fun r => (r.1, r.2 ++ [.decide remaining])
    .onPart Prod.fst (fun s r => (s, r.2)) (oracle.decide remaining)
  addCut bound := do
    .update fun r => (r.1, r.2 ++ [.cut bound])
    .onPart Prod.fst (fun s r => (s, r.2)) (oracle.addCut bound)

theorem Oracle.listed_decide (oracle : Oracle σ K α) (remaining : Option K) (s : Logged σ) :
    Recorded (oracle.decide remaining) (oracle.listing.decide remaining) s
      [.decide remaining] := by
  intro record
  simp [listing, Action.runOn_bind]

theorem Oracle.listed_addCut (oracle : Oracle σ K α) (bound : Int) (s : Logged σ) :
    Recorded (oracle.addCut bound) (oracle.listing.addCut bound) s [.cut bound] := by
  intro record
  simp [listing, Action.runOn_bind]

theorem Task.listed_record (t : Task K α β) (oracle : Oracle σ K α)
    (value : α → Except Fault Int) (o : Outcome β) (a : α) (kept : β) {v : Int}
    (hv : value a = .ok v) (s : Logged σ) :
    Recorded (t.record oracle value o a kept) (t.record oracle.listing value o a kept) s
      [.cut (t.improved v)] := by
  rw [t.record_eq oracle value o a kept hv, t.record_eq oracle.listing value o a kept hv]
  refine (Recorded.note _ _ _ s).bind_ok (Action.runOn_note _ _ _ s) ?_
  have cut := oracle.listed_addCut (t.improved v) { s with
    log := s.log ++ [⟨.info, .cuts, "Found new solution: " ++ Int.repr v⟩] }
  rcases hc : (oracle.addCut (t.improved v)).runOn { s with
    log := s.log ++ [⟨.info, .cuts, "Found new solution: " ++ Int.repr v⟩] } with ⟨f | u, s'⟩
  · exact cut.bind_error hc
  · exact cut.bind_ok hc (.pure _ s')

/-- The time that a question is given. -/
def Asked.time? : Asked K → Option (Option K)
  | .decide remaining => some remaining
  | .cut _ => none

section

variable [Numeric K]

/-- What the engine is asked in a run of `Task.optimize` with at most a given number of
questions. -/
def Task.calls (t : Task K α β) (oracle : Oracle σ K α) (questions : Nat) (s : Logged σ) :
    List (Asked K) :=
  ((t.optimize oracle.listing questions).runOn ⟨(s.state, []), s.log⟩).2.state.2

/-- What may be asked from a head of the loop on: questions and cuts take turns, and every question
is given the time that is left at its head. -/
inductive Task.Asks (t : Task K α β) : Nat → List (Asked K) → Prop
  | nothing {n : Nat} : Asks t n []
  | question {n : Nat} {remaining : Option K} (hb : t.budget n = some remaining) :
      Asks t n [.decide remaining]
  | round {n : Nat} {remaining : Option K} {bound : Int} {calls : List (Asked K)}
      (hb : t.budget n = some remaining) (later : Asks t (t.nextReading n) calls) :
      Asks t n (.decide remaining :: .cut bound :: calls)

variable {t : Task K α β} {oracle : Oracle σ K α} {n : Nat}

/-- What follows an answer, when what it can lead to asks in turns. -/
theorem asks_afterAnswer (questions : Nat) (o : Outcome β) {remaining : Option K}
    (hb : t.budget n = some remaining) (status : Status) (answer : Option α) (s : Logged σ)
    (later : ∀ n o s, ∃ calls,
      Recorded (t.run oracle questions n o) (t.run oracle.listing questions n o) s calls ∧
        t.Asks n calls) :
    ∃ calls,
      Recorded (t.afterAnswer oracle questions n o (status, answer))
        (t.afterAnswer oracle.listing questions n o (status, answer)) s calls ∧
      t.Asks n (.decide remaining :: calls) := by
  cases hs : status.hasSolution with
  | false =>
      simp only [Task.afterAnswer, hs]
      exact ⟨[], .pure _ s, .question hb⟩
  | true =>
      cases answer with
      | none =>
          simp only [Task.afterAnswer, hs]
          exact ⟨[], .throw _ s, .question hb⟩
      | some a =>
          simp only [Task.afterAnswer, hs]
          cases hk : t.keep a with
          | error f => exact ⟨[], .throw f s, .question hb⟩
          | ok kept =>
              cases hv : t.value? with
              | none => exact ⟨[], .pure _ s, .question hb⟩
              | some value =>
                  cases ha : value a with
                  | error f =>
                      simp only [Task.record, ha]
                      exact ⟨[], .throw f s, .question hb⟩
                  | ok v =>
                      have listed := t.listed_record oracle value o.asked a kept ha s
                      rcases t.recorded_record oracle value o.asked a kept ha s with
                        ⟨f, s', hr, -⟩ | ⟨s', hr, -, -⟩
                      · exact ⟨_, listed.bind_error hr, .round hb .nothing⟩
                      · obtain ⟨calls, rest, asks⟩ := later (t.nextReading n)
                          (o.asked.withValue kept v) s'
                        exact ⟨_, listed.bind_ok hr rest, .round hb asks⟩

/-- A run with `Oracle.listing` does the same as one without, and what it lists is in turns
(`Task.Asks`). -/
theorem asks_run (questions n : Nat) (o : Outcome β) (s : Logged σ) :
    ∃ calls, Recorded (t.run oracle questions n o) (t.run oracle.listing questions n o) s calls ∧
      t.Asks n calls := by
  induction questions generalizing n o s with
  | zero =>
      cases hb : t.budget n with
      | none =>
          simp only [t.run_of_spent _ _ _ _ hb]
          exact ⟨[], .pure _ s, .nothing⟩
      | some remaining =>
          simp only [t.run_zero _ _ _ hb]
          exact ⟨[], .throw _ s, .nothing⟩
  | succ questions ih =>
      cases hb : t.budget n with
      | none =>
          simp only [t.run_of_spent _ _ _ _ hb]
          exact ⟨[], .pure _ s, .nothing⟩
      | some remaining =>
          simp only [t.run_succ _ _ _ _ hb]
          have listed := oracle.listed_decide remaining s
          rcases hd : (oracle.decide remaining).runOn s with ⟨f | ⟨status, answer⟩, s'⟩
          · exact ⟨_, listed.bind_error hd, .question hb⟩
          · obtain ⟨calls, rest, asks⟩ := asks_afterAnswer questions o hb status answer s' ih
            exact ⟨_, listed.bind_ok hd rest, asks⟩

/-- A run that is listed ends in the same way, and what it lists was asked in turns. -/
theorem asks_calls (t : Task K α β) (oracle : Oracle σ K α) (questions : Nat) (s : Logged σ) :
    t.Asks 1 (t.calls oracle questions s) ∧
      Recorded (t.optimize oracle questions) (t.optimize oracle.listing questions) s
        (t.calls oracle questions s) := by
  obtain ⟨calls, listed, asks⟩ : ∃ calls, Recorded (t.run oracle questions 1 .initial)
      (t.run oracle.listing questions 1 .initial) s calls ∧ t.Asks 1 calls :=
    asks_run questions 1 .initial s
  have all : Recorded (t.optimize oracle questions) (t.optimize oracle.listing questions) s
      calls := by
    rcases hr : (t.run oracle questions 1 .initial).runOn s with ⟨f | ⟨last, o⟩, s'⟩
    · exact listed.bind_error hr
    · rw [← List.append_nil calls]
      exact listed.bind_ok hr ((Recorded.note _ _ _ s').bind_ok rfl (.pure _ _))
  have same : t.calls oracle questions s = calls := by
    rw [Task.calls, all]
    rfl
  rw [same]
  exact ⟨asks, all⟩

/-! ## Times -/

theorem Task.Asks.time {calls : List (Asked K)} (h : t.Asks n calls) {i : Nat}
    {remaining : Option K} (hi : (calls.filterMap Asked.time?)[i]? = some remaining) :
    t.budget (t.nextReading^[i] n) = some remaining := by
  induction h generalizing i with
  | nothing => simp at hi
  | question hb =>
      cases i with
      | zero =>
          obtain rfl := Option.some.inj hi
          exact hb
      | succ i => simp [Asked.time?] at hi
  | round hb _ ih =>
      cases i with
      | zero =>
          obtain rfl := Option.some.inj hi
          exact hb
      | succ i => exact ih hi

/-- Where the time is spent at a head of the loop, there are no calls but those of the rounds before
it. -/
theorem Task.Asks.length_le {calls : List (Asked K)} (h : t.Asks n calls) {k : Nat}
    (spent : t.budget (t.nextReading^[k] n) = none) : calls.length ≤ 2 * k := by
  induction h generalizing k with
  | nothing => exact Nat.zero_le _
  | question hb =>
      cases k with
      | zero => exact absurd (hb.symm.trans spent) (by simp)
      | succ k => simp only [List.length_singleton]; omega
  | round hb _ ih =>
      cases k with
      | zero => exact absurd (hb.symm.trans spent) (by simp)
      | succ k =>
          have := ih spent
          simp only [List.length_cons]
          omega

/-! ## Heads of the loop -/

/-- The note on a value that was found. -/
def foundNote (v : Int) : Message :=
  ⟨.info, .cuts, "Found new solution: " ++ Int.repr v⟩

omit [Numeric K] in
theorem Task.runOn_record (t : Task K α β) {oracle : Oracle σ K α} {value : α → Except Fault Int}
    (o : Outcome β) {a : α} (kept : β) {v : Int} (hv : value a = .ok v) {s s₁ : Logged σ}
    (hc : (oracle.addCut (t.improved v)).runOn { s with log := s.log ++ [foundNote v] } =
      (.ok (), s₁)) :
    (t.record oracle value o a kept).runOn s = (.ok (o.withValue kept v), s₁) := by
  rw [t.record_eq oracle value o a kept hv]
  simp only [Action.runOn_bind, Action.runOn_note]
  rw [foundNote] at hc
  rw [hc]
  rfl

/-- From a head of the loop, where the clock has been read a given number of times, rounds lead to
another head. -/
inductive Task.Reaches (t : Task K α β) (oracle : Oracle σ K α) :
    Nat → Outcome β → Logged σ → List (Round K α) → Nat → Outcome β → Logged σ → Prop
  | here {n : Nat} {o : Outcome β} {s : Logged σ} : Reaches t oracle n o s [] n o s
  | round {n n' : Nat} {o o' : Outcome β} {s s₁ s₂ s' : Logged σ} {r : Round K α} {kept : β}
      {value : α → Except Fault Int} {rounds : List (Round K α)}
      (hb : t.budget n = some r.remaining)
      (hd : (oracle.decide r.remaining).runOn s = (.ok (r.status, some r.assignment), s₁))
      (hs : r.status.hasSolution = true) (hk : t.keep r.assignment = .ok kept)
      (hv : t.value? = some value) (ha : value r.assignment = .ok r.value)
      (hc : (oracle.addCut (t.improved r.value)).runOn
        { s₁ with log := s₁.log ++ [foundNote r.value] } = (.ok (), s₂))
      (later : Reaches t oracle (t.nextReading n) (o.asked.withValue kept r.value) s₂ rounds n' o'
        s') :
      Reaches t oracle n o s (r :: rounds) n' o' s'

variable {o o' : Outcome β} {s s' : Logged σ} {rounds : List (Round K α)} {n' : Nat}

/-- A run goes through the rounds that lead to a head. -/
theorem Task.Reaches.runOn_run (h : t.Reaches oracle n o s rounds n' o' s') (questions : Nat) :
    (t.run oracle (rounds.length + questions) n o).runOn s =
      (t.run oracle questions n' o').runOn s' := by
  induction h with
  | here => rw [List.length_nil, Nat.zero_add]
  | @round n n' o o' s s₁ s₂ s' r kept value rounds hb hd hs hk hv ha hc _ ih =>
      rw [← ih, List.length_cons, Nat.add_right_comm, t.run_succ _ _ _ _ hb, Action.runOn_bind, hd]
      have recorded := t.runOn_record o.asked kept ha hc
      simp only [afterAnswer, hs, hk, hv, Action.runOn_bind, Action.runOn_ofExcept, recorded]

theorem Task.Reaches.readings (h : t.Reaches oracle n o s rounds n' o' s') :
    n' = t.nextReading^[rounds.length] n := by
  induction h with
  | here => rfl
  | round _ _ _ _ _ _ _ _ ih => exact ih

/-- An outcome is what rounds have found: all of their values, and the last of their
assignments. -/
structure Task.Found (t : Task K α β) (rounds : List (Round K α)) (o : Outcome β) : Prop where
  history : o.history = rounds.map Round.value
  iterations : o.iterations = rounds.length
  nothing : rounds = [] → o.assignment = none ∧ o.objectiveValue = none
  last : ∀ r, rounds.getLast? = some r → o.objectiveValue = some r.value ∧
    ∃ kept, t.keep r.assignment = .ok kept ∧ o.assignment = some kept

omit [Numeric K] in
theorem Task.found_initial : t.Found [] .initial :=
  ⟨rfl, rfl, fun _ => ⟨rfl, rfl⟩, fun _ h => by cases h⟩

omit [Numeric K] in
theorem Task.Found.snoc (found : t.Found rounds o) {r : Round K α} {kept : β}
    (hk : t.keep r.assignment = .ok kept) :
    t.Found (rounds ++ [r]) (o.asked.withValue kept r.value) where
  history := by simp [Outcome.withValue, Outcome.asked, found.history]
  iterations := by simp [Outcome.withValue, Outcome.asked, found.iterations]
  nothing h := by simp at h
  last r' h := by
    obtain rfl : r = r' := by simpa using h
    exact ⟨rfl, kept, hk, rfl⟩

theorem Task.Reaches.found (h : t.Reaches oracle n o s rounds n' o' s')
    {before : List (Round K α)} (found : t.Found before o) : t.Found (before ++ rounds) o' := by
  induction h generalizing before with
  | here => rwa [List.append_nil]
  | round _ _ _ hk _ _ _ _ ih =>
      rw [← List.singleton_append, ← List.append_assoc]
      exact ih (found.snoc hk)

/-- There are rounds only where there is an objective. -/
theorem Task.Reaches.objective (h : t.Reaches oracle n o s rounds n' o' s')
    (some : rounds ≠ []) : t.value? ≠ none := by
  cases h with
  | here => exact absurd rfl some
  | round _ _ _ _ hv _ _ _ => simp [hv]

/-- The status of what rounds have found when the time is spent. -/
def statusSpent (rounds : List (Round K α)) : Status :=
  if rounds.isEmpty then .timeLimit else .feasible

/-- The note at the end of a run. -/
def endNote (o : Outcome β) : Message :=
  ⟨.debug, .cuts, "Cut loop finished after " ++ Nat.repr o.iterations ++
    " iterations with status " ++ o.status.word⟩

/-- At a head where no time is left, a run ends with what was found, and the engine is not called
any more. -/
theorem Task.Reaches.runOn_optimize (h : t.Reaches oracle 1 .initial s rounds n o s')
    {questions : Nat} (enough : rounds.length ≤ questions) (spent : t.budget n = none) :
    (t.optimize oracle questions).runOn s =
      (.ok { o with status := statusSpent rounds },
        { s' with log := s'.log ++ [endNote { o with status := statusSpent rounds }] }) := by
  obtain ⟨more, rfl⟩ := Nat.exists_eq_add_of_le enough
  have found : t.Found rounds o := h.found Task.found_initial
  have final : t.finalStatus .timeLimit o = statusSpent rounds := by
    unfold finalStatus statusSpent
    cases last : rounds.getLast? with
    | none =>
        obtain rfl := List.getLast?_eq_none_iff.mp last
        simp [(found.nothing rfl).1]
    | some r =>
        have some : rounds ≠ [] := by
          rintro rfl
          cases last
        obtain ⟨-, kept, -, assignment⟩ := found.last r last
        simp [assignment, h.objective some, some]
  rw [optimize, Action.runOn_bind, h.runOn_run, t.run_of_spent _ _ _ _ spent]
  simp only [Action.runOn_pure, Action.runOn_bind, Action.runOn_note, final]
  rfl

/-! ## Engines that answer -/

/-- From a state on, an engine answers whatever it is asked and takes every cut; what it finds can
be kept and valued. It need not keep to the cuts. -/
structure Task.Answered (t : Task K α β) (oracle : Oracle σ K α) (s : Logged σ) : Prop where
  decides : ∀ record s₁ remaining, oracle.Passes s record s₁ →
    ∃ status answer s₂, (oracle.decide remaining).runOn s₁ = (.ok (status, answer), s₂) ∧
      (status.hasSolution = true → ∃ a kept, answer = some a ∧ t.keep a = .ok kept ∧
        ∀ value, t.value? = some value → ∃ v, value a = .ok v)
  takes : ∀ record s₁ bound, oracle.Passes s record s₁ →
    ∃ s₂, (oracle.addCut bound).runOn s₁ = (.ok (), s₂)

omit [Numeric K] in
theorem Task.Answered.passes (h : t.Answered oracle s) {record : List (Exchange K α)}
    (hp : oracle.Passes s record s') : t.Answered oracle s' where
  decides rest s₂ remaining hp' := h.decides (record ++ rest) s₂ remaining (hp.append hp')
  takes rest s₂ bound hp' := h.takes (record ++ rest) s₂ bound (hp.append hp')

/-- A run with an engine that answers ends at the latest when its time is spent. -/
theorem Task.Answered.exists_run (answered : t.Answered oracle s) {k questions : Nat}
    (spent : t.budget (t.nextReading^[k] n) = none) (enough : k ≤ questions) :
    ∃ r s', (t.run oracle questions n o).runOn s = (.ok r, s') := by
  induction k generalizing questions n o s with
  | zero =>
      rw [t.run_of_spent _ questions n o spent]
      exact ⟨_, _, rfl⟩
  | succ k ih =>
      obtain ⟨questions, rfl⟩ : ∃ q, questions = q + 1 := ⟨questions - 1, by omega⟩
      cases hb : t.budget n with
      | none =>
          rw [t.run_of_spent _ _ _ _ hb]
          exact ⟨_, _, rfl⟩
      | some remaining =>
          obtain ⟨status, answer, s₁, hd, usable⟩ := answered.decides [] s remaining (.nil s)
          rw [t.run_succ _ _ _ _ hb, Action.runOn_bind, hd]
          cases hs : status.hasSolution with
          | false =>
              simp only [afterAnswer, hs]
              exact ⟨_, _, rfl⟩
          | true =>
              obtain ⟨a, kept, rfl, hk, valued⟩ := usable hs
              cases hv : t.value? with
              | none =>
                  simp only [afterAnswer, hs, hk, hv]
                  exact ⟨_, _, rfl⟩
              | some value =>
                  obtain ⟨v, ha⟩ := valued value hv
                  have asked : oracle.Passes s [.question remaining status (some a)] s₁ :=
                    .question hd (.nil s₁)
                  obtain ⟨s₂, hc⟩ := answered.takes _ _ (t.improved v)
                    (asked.append (.note (foundNote v) (.nil _)))
                  have next : t.Answered oracle s₂ := answered.passes
                    (asked.append (.note (foundNote v) (.cut hc (.nil s₂))))
                  have recorded := t.runOn_record o.asked kept ha hc
                  simp only [afterAnswer, hs, hk, hv, Action.runOn_bind, Action.runOn_ofExcept,
                    recorded]
                  exact ih next spent (Nat.le_of_succ_le_succ enough)

theorem Task.Answered.exists_optimize (answered : t.Answered oracle s) {k questions : Nat}
    (spent : t.budget (t.nextReading^[k] 1) = none) (enough : k ≤ questions) :
    ∃ o s', (t.optimize oracle questions).runOn s = (.ok o, s') := by
  obtain ⟨r, s', run⟩ := answered.exists_run (o := .initial) spent enough
  rw [optimize, Action.runOn_bind, run]
  exact ⟨_, _, rfl⟩

/-! ## Runs without a limit -/

theorem Task.budget_of_endless (endless : t.limit = none) (n : Nat) : t.budget n = some none := by
  rw [budget, endless]

omit [Numeric K] in
theorem Task.nextReading_of_endless (endless : t.limit = none) (n : Nat) :
    t.nextReading n = n := by
  simp [nextReading, endless]

theorem Task.run_of_endless (endless : t.limit = none) (oracle : Oracle σ K α) (clock : Nat → K)
    (questions n : Nat) (o : Outcome β) :
    { t with clock := clock }.run oracle questions n o = t.run oracle questions n o := by
  have given (n : Nat) : t.budget n = some none := budget_of_endless endless n
  have given' (n : Nat) : { t with clock := clock }.budget n = some none :=
    budget_of_endless (t := { t with clock := clock }) endless n
  induction questions generalizing n o with
  | zero => rw [t.run_zero _ _ _ (given n), run_zero _ _ _ _ (given' n)]
  | succ questions ih =>
      rw [t.run_succ _ _ _ _ (given n), run_succ _ _ _ _ _ (given' n)]
      have recorded (value : α → Except Fault Int) (o : Outcome β) (a : α) (kept : β) :
          { t with clock := clock }.record oracle value o a kept =
            t.record oracle value o a kept := rfl
      refine bind_congr fun ⟨status, answer⟩ => ?_
      simp only [afterAnswer, recorded, ih]
      rfl

/-- Without a limit it does not matter what the clock shows. -/
theorem Task.optimize_of_endless (endless : t.limit = none) (oracle : Oracle σ K α)
    (clock : Nat → K) (questions : Nat) :
    { t with clock := clock }.optimize oracle questions = t.optimize oracle questions := by
  rw [optimize, run_of_endless endless]
  rfl

end

/-! ## Exact time -/

section

variable {t : Task Extended α β} {T : Rat} {c : Nat → Rat}

theorem Task.budget_of_limit (limit : t.limit = some (.finite T))
    (clock : ∀ i, t.clock i = .finite (c i)) (n : Nat) :
    t.budget n = if T - (c n - c 0) ≤ 0 then none else some (some (.finite (T - (c n - c 0)))) := by
  have left : t.remaining (.finite T) n = .finite (max (T - (c n - c 0)) 0) := by
    rw [remaining, clock, clock, Extended.numericZero, Extended.finite_sub, Extended.finite_sub,
      Extended.max_finite]
  rw [budget, limit]
  dsimp only
  rw [left, Extended.numericZero]
  by_cases spent : T - (c n - c 0) ≤ 0
  · rw [if_pos spent, max_eq_right spent, if_pos (Extended.le_finite.mpr le_rfl)]
  · have some : 0 < T - (c n - c 0) := not_le.mp spent
    rw [if_neg spent, max_eq_left some.le, if_neg (by rwa [Extended.le_finite])]

theorem Task.nextReading_of_limit (limit : t.limit = some (.finite T)) (i n : Nat) :
    t.nextReading^[i] n = n + i := by
  have next : t.nextReading = Nat.succ := by
    funext n
    simp [nextReading, limit]
  rw [next, Nat.succ_iterate]

end

/-! ## Expressions as objectives -/

/-- `Task.optimize` with any engine and a clock that never goes back: each question is given exactly
the time that is left; where none is left there are no more calls, and the run ends with what it has
found. It gets there if the engine answers (`Task.Answered`). Without a limit no question is given a
time, and what the clock shows after the first reading does not matter. -/
theorem budget_optimize {T : Rat} {c : Nat → Rat} (forward : Monotone c)
    (keep : α → Except Fault β) (read : α → Value → Except Fault (Option (Operand Extended)))
    (objective : Option Expression) (maximize : Bool) (oracle : Oracle σ Extended α)
    (questions : Nat) (s : Logged σ) :
    let clock (i : Nat) : Extended := .finite (c i)
    let t := Task.ofExpression keep read objective maximize (some (.finite T)) clock
    let endless := Task.ofExpression keep read objective maximize none clock
    let left (i : Nat) := T - (c (i + 1) - c 0)
    (∀ i remaining, ((t.calls oracle questions s).filterMap Asked.time?)[i]? = some remaining →
      remaining = some (.finite (left i)) ∧ 0 < left i ∧ left i ≤ T ∧ ∀ j ≤ i, left i ≤ left j) ∧
    (∀ k, left k ≤ 0 → (t.calls oracle questions s).length ≤ 2 * k) ∧
    (∀ rounds n o s', t.Reaches oracle 1 .initial s rounds n o s' →
      n = rounds.length + 1 ∧ t.Found rounds o ∧
      (left rounds.length ≤ 0 → rounds.length ≤ questions →
        let o' := { o with status := statusSpent rounds }
        (t.optimize oracle questions).runOn s =
          (.ok o', { s' with log := s'.log ++ [endNote o'] }))) ∧
    (∀ k, left k ≤ 0 → k ≤ questions → t.Answered oracle s →
      ∃ o s', (t.optimize oracle questions).runOn s = (.ok o, s')) ∧
    (∀ remaining ∈ (endless.calls oracle questions s).filterMap Asked.time?, remaining = none) ∧
    (∀ rounds n o s', endless.Reaches oracle 1 .initial s rounds n o s' → n = 1) ∧
    ∀ clock', (Task.ofExpression keep read objective maximize none clock').optimize oracle
      questions = endless.optimize oracle questions := by
  intro clock t endless left
  have reading (i : Nat) : t.nextReading^[i] 1 = i + 1 :=
    (Task.nextReading_of_limit rfl i 1).trans (Nat.add_comm 1 i)
  have budget (i : Nat) : t.budget (t.nextReading^[i] 1) =
      if left i ≤ 0 then none else some (some (.finite (left i))) := by
    rw [reading]
    exact Task.budget_of_limit rfl (fun _ => rfl) (i + 1)
  have spent {k : Nat} (h : left k ≤ 0) : t.budget (t.nextReading^[k] 1) = none := by
    rw [budget, if_pos h]
  refine ⟨fun i remaining hi => ?_, fun k h => ?_, fun rounds n o s' reaches => ?_,
    fun k h enough answered => answered.exists_optimize (spent h) enough, fun remaining given => ?_,
    fun rounds n o s' reaches => ?_, fun clock' => ?_⟩
  · have given := (asks_calls t oracle questions s).1.time hi
    rw [budget] at given
    split at given
    · cases given
    · rename_i some
      have later {j : Nat} (h : j ≤ i) : c (j + 1) ≤ c (i + 1) := forward (Nat.succ_le_succ h)
      have start : c 0 ≤ c (i + 1) := forward (Nat.zero_le _)
      refine ⟨(Option.some.inj given).symm, not_le.mp some, ?_, fun j h => ?_⟩
      · exact sub_le_self _ (sub_nonneg.mpr start)
      · exact sub_le_sub_left (sub_le_sub_right (later h) _) _
  · exact (asks_calls t oracle questions s).1.length_le (spent h)
  · have head : n = t.nextReading^[rounds.length] 1 := reaches.readings
    refine ⟨head.trans (reading _), reaches.found Task.found_initial, fun h enough => ?_⟩
    exact reaches.runOn_optimize enough (head ▸ spent h)
  · obtain ⟨i, hi⟩ := List.getElem?_of_mem given
    have free := (asks_calls endless oracle questions s).1.time hi
    rw [Task.budget_of_endless rfl] at free
    exact (Option.some.inj free).symm
  · have same : endless.nextReading = id := funext fun n => Task.nextReading_of_endless rfl n
    rw [reaches.readings, same, Function.iterate_id]
    rfl
  · exact Task.optimize_of_endless (t := endless) rfl oracle clock' questions

/-- Three times a number that is zero or one, made large by an engine that finds the one, with a
limit of two and a clock that goes on by one at every reading. -/
theorem budget_optimize_tripled :
    let c (i : Nat) : Rat := i
    let t : Task Extended (Table Int) (Table Int) :=
      .ofExpression .ok CpSat.operand? (some (.linear ⟨[⟨.text "x", .int 3⟩]⟩)) true
        (some (.finite 2)) fun i => .finite (c i)
    let start : Logged (Replay Extended (Table Int)) :=
      ⟨⟨[.ok (.feasible, some ⟨[(.text "x", 1)]⟩)], []⟩, []⟩
    Monotone c ∧ (t.calls Replay.oracle 5 start).length ≤ 2 ∧
      ∃ s', (t.optimize Replay.oracle 5).runOn start =
        (.ok ⟨.feasible, some ⟨[(.text "x", 1)]⟩, some 3, [3], 1⟩, s') := by
  intro c t start
  have forward : Monotone c := Nat.mono_cast
  obtain ⟨-, few, heads, -⟩ := budget_optimize (T := 2) forward Except.ok CpSat.operand?
    (some (.linear ⟨[⟨.text "x", .int 3⟩]⟩)) true Replay.oracle 5 start
  have spent : (2 : Rat) - (c (1 + 1) - c 0) ≤ 0 := by norm_num [c]
  have reaches : t.Reaches Replay.oracle 1 .initial start
      [⟨some (.finite 1), .feasible, ⟨[(.text "x", 1)]⟩, 3⟩] 2
      (Outcome.initial.asked.withValue ⟨[(.text "x", 1)]⟩ 3)
      ⟨⟨[], [.decide (some (.finite 1)), .cut 4]⟩, [foundNote 3]⟩ := by
    have read : t.value? = some fun a =>
        wholeValue Extended (.linear ⟨[⟨.text "x", .int 3⟩]⟩) (CpSat.operand? a) := rfl
    refine .round ?_ rfl rfl rfl read (wholeValue_tripled 1) rfl .here
    rw [Task.budget_of_limit (T := 2) (c := c) rfl fun _ => rfl]
    norm_num [c]
  exact ⟨forward, few 1 spent, _, (heads _ _ _ _ reaches).2.2 spent (by decide)⟩

end Milp.CutLoop
