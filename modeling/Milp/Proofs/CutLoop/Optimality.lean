import Mathlib.Data.Set.Basic
import Mathlib.Tactic.Ring
import Milp.CutLoop.Replay
import Milp.Engine.CpSat
import Milp.Proofs.CutLoop.Exchange
import Milp.Store.Cuts

/-!
# What a run of cuts shows

The engine decides among a set of assignments and may choose any of them, or give up, at every
question. As long as its answers agree with the set and with the cuts passed before (`Task.Honest`),
the outcome of a run that ends is right about the set (`Task.Certifies`): an optimum is an optimum,
and where there is none the set is empty.
-/

namespace Milp.CutLoop

variable {σ K α β : Type}

/-! ## Values and cuts -/

def Task.HasValue (t : Task K α β) (a : α) (v : Int) : Prop :=
  ∃ value, t.value? = some value ∧ value a = .ok v

def Task.Better (t : Task K α β) (v w : Int) : Prop :=
  if t.maximize then w < v else v < w

/-- A value is on the side of a bound that a cut asks for. -/
def Task.Within (t : Task K α β) (v bound : Int) : Prop :=
  if t.maximize then bound ≤ v else v ≤ bound

def Task.Meets (t : Task K α β) (cuts : List Int) (a : α) : Prop :=
  ∀ bound ∈ cuts, ∃ v, t.HasValue a v ∧ t.Within v bound

section

variable {t : Task K α β} {a : α} {cuts : List Int} {u v w bound : Int}

theorem Task.HasValue.unique (hv : t.HasValue a v) (hw : t.HasValue a w) : v = w := by
  obtain ⟨value, ht, ha⟩ := hv
  obtain ⟨value', ht', ha'⟩ := hw
  obtain rfl : value = value' := Option.some.inj (ht.symm.trans ht')
  exact Except.ok.inj (ha.symm.trans ha')

/-- The cut after a value leaves exactly the values that are strictly better. -/
theorem Task.within_improved : t.Within v (t.improved w) ↔ t.Better v w := by
  unfold Within Better improved
  cases t.maximize with
  | false => exact Int.le_sub_one_iff
  | true => exact Int.add_one_le_iff

theorem Task.Better.within (h : t.Better v w) (hw : t.Within w bound) : t.Within v bound := by
  unfold Within Better at *
  cases ht : t.maximize <;> simp only [ht, if_true, if_false, Bool.false_eq_true] at * <;> omega

theorem Task.meets_nil (a : α) : t.Meets [] a := by
  intro bound h
  cases h

/-- What is better than an assignment meets the cuts that the assignment meets. -/
theorem Task.Meets.of_better {b : α} (meets : t.Meets cuts a) (ha : t.HasValue a v)
    (hb : t.HasValue b w) (h : t.Better w v) : t.Meets cuts b := by
  intro bound hbound
  obtain ⟨v', ha', hwithin⟩ := meets bound hbound
  obtain rfl := ha.unique ha'
  exact ⟨w, hb, h.within hwithin⟩

theorem Task.Meets.snoc_improved (meets : t.Meets cuts a) (ha : t.HasValue a w)
    (h : t.Better w v) : t.Meets (cuts ++ [t.improved v]) a := by
  intro bound hbound
  rcases List.mem_append.mp hbound with hbound | hbound
  · exact meets bound hbound
  · obtain rfl := List.mem_singleton.mp hbound
    exact ⟨w, ha, within_improved.mpr h⟩

end

/-! ## Honest engines -/

/-- The answers of an engine agree with a set of assignments and with the cuts passed so far. An
answer that neither gives an assignment nor denies that there is one may come at any time. -/
def Task.Honest (t : Task K α β) (F : Set α) : List Int → List (Exchange K α) → Prop
  | _, [] => True
  | cuts, .question _ status answer :: rest =>
    (status.hasSolution = true → ∀ a, answer = some a → a ∈ F ∧ t.Meets cuts a) ∧
      (status = .infeasible → ∀ a ∈ F, ¬ t.Meets cuts a) ∧
      t.Honest F cuts rest
  | cuts, .cut bound :: rest => t.Honest F (cuts ++ [bound]) rest

/-- An outcome holds an assignment of the set with its value, which is the last of the history. -/
structure Task.Incumbent (t : Task K α β) (F : Set α) (o : Outcome β) (v : Int) : Prop where
  assignment : ∃ a ∈ F, ∃ kept, t.keep a = .ok kept ∧ o.assignment = some kept ∧ t.HasValue a v
  objectiveValue : o.objectiveValue = some v
  history : o.history.getLast? = some v

/-- How things stand between two questions: nothing was found and nothing is cut off, or what is
better than the incumbent meets all cuts. -/
inductive Task.Standing (t : Task K α β) (F : Set α) : List Int → Outcome β → Prop where
  | untouched {o} (h : o.assignment = none) : Standing t F [] o
  | incumbent {cuts o v} (h : t.Incumbent F o v)
      (reachable : ∀ b w, t.HasValue b w → t.Better w v → t.Meets cuts b) : Standing t F cuts o

/-- An honest answer with a value is the next incumbent, and `Task.Standing` holds of it. -/
theorem Task.Standing.withValue {t : Task K α β} {F : Set α} {cuts : List Int} {o : Outcome β}
    {a : α} {kept : β} {v : Int} (mem : a ∈ F) (meets : t.Meets cuts a)
    (hk : t.keep a = .ok kept) (ha : t.HasValue a v) :
    t.Standing F (cuts ++ [t.improved v]) (o.withValue kept v) := by
  refine .incumbent ⟨⟨a, mem, kept, hk, rfl, ha⟩, rfl, by simp [Outcome.withValue]⟩ ?_
  intro b w hb h
  exact (meets.of_better ha hb h).snoc_improved hb h

/-- Where no cut was passed, an engine that has nothing had nothing to begin with. -/
theorem Task.eq_empty_of_exhausted {t : Task K α β} {F : Set α}
    (exhausted : ∀ a ∈ F, ¬ t.Meets [] a) : F = ∅ :=
  Set.eq_empty_of_forall_notMem fun a ha => exhausted a ha (meets_nil a)

/-! ## Runs -/

section

variable [Numeric K]

/-- A `Course` with an objective keeps `Task.Standing` up to its end, which is an answer that gives
no assignment. -/
theorem Course.standing {t : Task K α β} {F : Set α} {cuts : List Int} {n : Nat}
    {o o' : Outcome β} {record : List (Exchange K α)} {last : Status}
    (course : Course t n o record (.ok (last, o'))) (objective : t.value? ≠ none)
    (honest : t.Honest F cuts record) (standing : t.Standing F cuts o) :
    ∃ cuts', t.Standing F cuts' o' ∧ last.hasSolution = false ∧
      (last = .infeasible → ∀ a ∈ F, ¬ t.Meets cuts' a) := by
  -- The cuts grow with every improvement, and what is better than the incumbent meets all of them.
  generalize hr : Except.ok (last, o') = result at course
  induction course generalizing cuts with
  | spent hb =>
      obtain ⟨rfl, rfl⟩ := Prod.mk.inj (Except.ok.inj hr)
      exact ⟨cuts, standing, rfl, by simp⟩
  | refused hb hs =>
      obtain ⟨rfl, rfl⟩ := Prod.mk.inj (Except.ok.inj hr)
      refine ⟨cuts, ?_, hs, honest.2.1⟩
      cases standing with
      | untouched h => exact .untouched h
      | incumbent h reachable => exact .incumbent ⟨h.1, h.2, h.3⟩ reachable
  | found hb hs hk hv => exact (objective hv).elim
  | improved hb hs hk hv ha _ ih =>
      obtain ⟨mem, meets⟩ := honest.1 hs _ rfl
      exact ih honest.2.2 (.withValue mem meets hk ⟨_, hv, ha⟩) hr
  | brokenBefore f => cases hr
  | brokenAfter f hb => cases hr

def questionCount (record : List (Exchange K α)) : Nat :=
  record.countP fun
    | .question .. => true
    | .cut _ => false

/-- What the outcome of a run says about the set that the engine decides among. -/
structure Task.Certifies (t : Task K α β) (F : Set α) (o : Outcome β)
    (record : List (Exchange K α)) : Prop where
  optimal : o.status = .optimal → t.value? ≠ none →
    ∃ v, t.Incumbent F o v ∧ ∀ b ∈ F, ∀ w, t.HasValue b w → ¬ t.Better w v
  feasible : o.status = .feasible → ∃ v, t.Incumbent F o v
  infeasible : o.status = .infeasible → F = ∅
  otherwise : o.status ≠ .optimal → o.status ≠ .feasible → o.assignment = none
  search : t.value? = none → questionCount record ≤ 1 ∧
    (o.status = .optimal → ∃ a ∈ F, ∃ kept, t.keep a = .ok kept ∧ o.assignment = some kept)

/-- A run without an objective ends with its first answer. -/
private theorem Course.certifies_search {t : Task K α β} {F : Set α} {n : Nat} {o' : Outcome β}
    {record : List (Exchange K α)} {last : Status}
    (course : Course t n .initial record (.ok (last, o'))) (objective : t.value? = none)
    (honest : t.Honest F [] record) :
    t.Certifies F { o' with status := t.finalStatus last o' } record := by
  cases course with
  | spent hb => constructor <;> simp [Outcome.initial, Task.finalStatus, questionCount]
  | refused hb hs =>
      have unsolved : last ≠ .optimal ∧ last ≠ .feasible := by
        constructor <;> rintro rfl <;> cases hs
      have empty : last = .infeasible → F = ∅ := fun h =>
        Task.eq_empty_of_exhausted (honest.2.1 h)
      constructor <;>
        simp [Outcome.initial, Outcome.asked, Task.finalStatus, questionCount, unsolved]
      exact empty
  | found hb hs hk hv =>
      obtain ⟨mem, -⟩ := honest.1 hs _ rfl
      constructor <;> simp [Task.finalStatus, questionCount, objective]
      exact ⟨_, mem, hk⟩
  | improved _ _ _ hv => simp [objective] at hv

/-- A run with an objective ends when the engine denies or gives up, or with the time. -/
private theorem Course.certifies_optimum {t : Task K α β} {F : Set α} {n : Nat} {o' : Outcome β}
    {record : List (Exchange K α)} {last : Status}
    (course : Course t n .initial record (.ok (last, o'))) (objective : t.value? ≠ none)
    (honest : t.Honest F [] record) :
    t.Certifies F { o' with status := t.finalStatus last o' } record := by
  obtain ⟨cuts, standing, unsolved, exhausted⟩ :=
    course.standing objective honest (.untouched rfl)
  cases standing with
  | untouched h =>
      have final : t.finalStatus last o' = last := by simp [Task.finalStatus, h]
      refine ⟨?_, ?_, ?_, fun _ _ => h, fun hv => (objective hv).elim⟩ <;>
        simp only [final] <;> rintro rfl
      · cases unsolved
      · cases unsolved
      · exact Task.eq_empty_of_exhausted (exhausted rfl)
  | @incumbent _ _ v h reachable =>
      obtain ⟨a, mem, kept, hk, found, ha⟩ := h.assignment
      have incumbent : t.Incumbent F { o' with status := t.finalStatus last o' } v :=
        ⟨h.assignment, h.objectiveValue, h.history⟩
      have final : t.finalStatus last o' =
          if last = .infeasible then .optimal else .feasible := by
        simp [Task.finalStatus, found, objective]
      refine ⟨?_, fun _ => ⟨v, incumbent⟩, ?_, ?_, fun hv => (objective hv).elim⟩
      · intro hs _
        have denied : last = .infeasible := by
          by_contra hl
          simp [final, hl] at hs
        exact ⟨v, incumbent, fun b hb w hw better =>
          exhausted denied b hb (reachable b w hw better)⟩
      · intro hs
        simp only [final] at hs
        split at hs <;> cases hs
      · intro hs hs'
        simp only [final] at hs hs'
        split at hs
        · exact (hs rfl).elim
        · rename_i hl
          simp [hl] at hs'

/-- The outcome of a run with an honest engine is right about its set. -/
theorem Task.certifies_of_run (t : Task K α β) (F : Set α) (oracle : Oracle σ K α)
    (questions : Nat) {s s' : Logged σ} {o : Outcome β}
    (run : (t.optimize oracle questions).runOn s = (.ok o, s'))
    (honest : t.Honest F [] (t.exchanges oracle questions s)) :
    t.Certifies F o (t.exchanges oracle questions s) := by
  obtain ⟨last, o', -, course, -, rfl⟩ := t.course_exchanges oracle questions run
  by_cases objective : t.value? = none
  · exact course.certifies_search objective honest
  · exact course.certifies_optimum objective honest

/-! ## Expressions as objectives -/

/-- The task of optimising an expression, if there is one, that is read off an assignment. -/
def Task.ofExpression (keep : α → Except Fault β)
    (read : α → Value → Except Fault (Option (Operand K))) (objective : Option Expression)
    (maximize : Bool) (limit : Option K) (clock : Nat → K) : Task K α β where
  keep := keep
  value? := objective.map fun e a => wholeValue K e (read a)
  maximize := maximize
  limit := limit
  clock := clock

theorem Task.hasValue_ofExpression {keep : α → Except Fault β}
    {read : α → Value → Except Fault (Option (Operand K))} {objective : Option Expression}
    {maximize : Bool} {limit : Option K} {clock : Nat → K} {a : α} {v : Int} :
    (Task.ofExpression keep read objective maximize limit clock).HasValue a v ↔
      ∃ e, objective = some e ∧ wholeValue K e (read a) = .ok v := by
  cases objective <;> simp [HasValue, ofExpression]

/-- A run of `Task.optimize` with a `Task.Honest` engine is right about the set that the engine
decides among (`Task.Certifies`), over any set and with any clock. -/
theorem certifies_optimize (keep : α → Except Fault β)
    (read : α → Value → Except Fault (Option (Operand K))) (objective : Option Expression)
    (maximize : Bool) (limit : Option K) (clock : Nat → K) (F : Set α) (oracle : Oracle σ K α)
    (questions : Nat) {s s' : Logged σ} {o : Outcome β}
    (run : ((Task.ofExpression keep read objective maximize limit clock).optimize oracle
      questions).runOn s = (.ok o, s'))
    (honest : (Task.ofExpression keep read objective maximize limit clock).Honest F []
      ((Task.ofExpression keep read objective maximize limit clock).exchanges oracle
        questions s)) :
    (Task.ofExpression keep read objective maximize limit clock).Certifies F o
      ((Task.ofExpression keep read objective maximize limit clock).exchanges oracle
        questions s) :=
  Task.certifies_of_run _ F oracle questions run honest

theorem wholeValue_tripled (n : Int) :
    wholeValue Extended (.linear ⟨[⟨.text "x", .int 3⟩]⟩)
      (CpSat.operand? ⟨[(.text "x", n)]⟩) = .ok (3 * n) := by
  have product : (0 + (3 : Int) * n : Rat) = (3 * n : Int) := by
    push_cast
    ring
  have whole : Subtotal.truncate (0 + (3 : Int) * n) = 3 * n := by
    rw [product, Subtotal.truncate, Rat.num_intCast, Rat.den_intCast]
    exact Int.tdiv_one _
  exact congrArg Except.ok whole

/-- Three times a number that is zero or one, made large by an engine that finds the one and then
nothing more. -/
theorem certifies_optimize_tripled :
    let t : Task Extended (Table Int) (Table Int) :=
      .ofExpression .ok CpSat.operand? (some (.linear ⟨[⟨.text "x", .int 3⟩]⟩)) true none
        fun _ => .finite 0
    let F : Set (Table Int) := {a | ∃ n : Int, 0 ≤ n ∧ n ≤ 1 ∧ a = ⟨[(.text "x", n)]⟩}
    let start : Logged (Replay Extended (Table Int)) :=
      ⟨⟨[.ok (.feasible, some ⟨[(.text "x", 1)]⟩)], []⟩, []⟩
    ∃ o s', (t.optimize Replay.oracle 3).runOn start = (.ok o, s') ∧
      o = ⟨.optimal, some ⟨[(.text "x", 1)]⟩, some 3, [3], 2⟩ ∧
      t.Honest F [] (t.exchanges Replay.oracle 3 start) ∧
      t.Certifies F o (t.exchanges Replay.oracle 3 start) := by
  intro t F start
  have hasValue (n v : Int) : t.HasValue ⟨[(.text "x", n)]⟩ v ↔ v = 3 * n := by
    simp [t, Task.hasValue_ofExpression, wholeValue_tripled, eq_comm]
  have record : t.exchanges Replay.oracle 3 start =
      [.question none .feasible (some ⟨[(.text "x", 1)]⟩), .cut 4,
        .question none .infeasible none] := by
    with_unfolding_all rfl
  have honest : t.Honest F [] (t.exchanges Replay.oracle 3 start) := by
    rw [record]
    refine ⟨?_, by simp, by simp [Status.hasSolution], ?_, trivial⟩
    · rintro _ a ⟨⟩
      exact ⟨⟨1, by simp, by simp, rfl⟩, Task.meets_nil _⟩
    · rintro _ a ⟨n, -, hn, rfl⟩ meets
      obtain ⟨v, hv, within⟩ := meets 4 (by simp)
      rw [hasValue] at hv
      have : 4 ≤ v := by simpa [Task.Within, t, Task.ofExpression] using within
      omega
  have run : (t.optimize Replay.oracle 3).runOn start =
      (.ok ⟨.optimal, some ⟨[(.text "x", 1)]⟩, some 3, [3], 2⟩,
        ((t.optimize Replay.oracle 3).runOn start).2) := by
    with_unfolding_all rfl
  exact ⟨_, _, run, rfl, honest, certifies_optimize _ _ _ _ _ _ F _ 3 run honest⟩

end

end Milp.CutLoop

namespace Milp

open CutLoop

/-- A problem is optimised as the expression that is its objective. -/
theorem CpSat.task_eq (p : Problem) (s : Settings) (clock : Nat → Float) :
    task p s clock =
      .ofExpression .ok operand? p.objective (p.sense == .max) s.timeLimit clock := rfl

theorem Store.cutTask_eq (s : Store) (r : CutRun) (limit : Option Quantity) :
    s.cutTask r limit = .ofExpression s.toTable s.assigned?
      (r.objective.toOption.map s.viewExpression) r.maximize limit
      (fun i => .free (r.clock i)) := by
  cases h : r.objective.toOption <;> simp [cutTask, Task.ofExpression, h]

end Milp
