import Mathlib.Data.Set.Card
import Mathlib.Data.Set.Finite.Lattice
import Milp.Proofs.CutLoop.Termination

/-!
# The rounds of a run of cuts

With an engine that answers, finds only assignments of a set and keeps to the cuts (`Task.Served`),
a run is a number of rounds, each an assignment that is found and the cut that asks for a better one
(`Task.Shape`). The values get better from round to round, so there are no more rounds than there
are values on the set, and after the last one at most one question is asked.
-/

namespace Milp.CutLoop

variable {σ K α β : Type}

/-- An assignment that was found, with the question that it answers and its value. -/
structure Round (K α : Type) where
  remaining : Option K
  status : Status
  assignment : α
  value : Int

/-- What passes in a round. -/
def Task.passed (t : Task K α β) (r : Round K α) : List (Exchange K α) :=
  [.question r.remaining r.status (some r.assignment), .cut (t.improved r.value)]

/-- The values that an objective takes on a set. -/
def Task.attained (t : Task K α β) (F : Set α) : Set Int :=
  {v | ∃ a ∈ F, t.HasValue a v}

/-- From a state on, an engine that was passed cuts answers whatever it is asked, with an assignment
where it says so, takes every cut and keeps to the cuts. What it finds can be kept and valued. -/
structure Task.Served (t : Task K α β) (F : Set α) (oracle : Oracle σ K α) (cuts : List Int)
    (s : Logged σ) : Prop where
  kept : ∀ a ∈ F, ∃ b, t.keep a = .ok b
  valued : ∀ a ∈ F, ∀ value, t.value? = some value → ∃ v, value a = .ok v
  decides : ∀ record s₁ remaining, oracle.Passes s record s₁ →
    ∃ status answer s₂, (oracle.decide remaining).runOn s₁ = (.ok (status, answer), s₂) ∧
      (status.hasSolution = true → ∃ a, answer = some a)
  takes : ∀ record s₁ bound, oracle.Passes s record s₁ →
    ∃ s₂, (oracle.addCut bound).runOn s₁ = (.ok (), s₂)
  obeys : t.Obeys F oracle cuts s

namespace Task.Served

variable {t : Task K α β} {F : Set α} {oracle : Oracle σ K α} {cuts : List Int}
  {s s₁ : Logged σ}

theorem passes (h : t.Served F oracle cuts s) {record : List (Exchange K α)}
    (hp : oracle.Passes s record s₁) : t.Served F oracle (cuts ++ cutBounds record) s₁ where
  kept := h.kept
  valued := h.valued
  decides rest s₂ remaining hp' := h.decides (record ++ rest) s₂ remaining (hp.append hp')
  takes rest s₂ bound hp' := h.takes (record ++ rest) s₂ bound (hp.append hp')
  obeys := h.obeys.passes hp

theorem decide (h : t.Served F oracle cuts s) (remaining : Option K) :
    ∃ status answer s₁, (oracle.decide remaining).runOn s = (.ok (status, answer), s₁) ∧
      t.Served F oracle cuts s₁ ∧
      (status.hasSolution = true → ∃ a ∈ F, answer = some a ∧ t.Meets cuts a) := by
  obtain ⟨status, answer, s₁, hd, found⟩ := h.decides [] s remaining (.nil s)
  refine ⟨status, answer, s₁, hd, by simpa [cutBounds] using h.passes (.question hd (.nil s₁)), ?_⟩
  intro hs
  obtain ⟨a, rfl⟩ := found hs
  obtain ⟨mem, meets⟩ := h.obeys.answer hd hs
  exact ⟨a, mem, rfl, meets⟩

end Task.Served

section

variable [Numeric K]

/-! ## Runs come to an end -/

omit [Numeric K] in
theorem Task.Served.exists_record {t : Task K α β} {F : Set α} {oracle : Oracle σ K α}
    {cuts : List Int} {s : Logged σ} (served : t.Served F oracle cuts s)
    {value : α → Except Fault Int} {a : α} {v : Int} (ha : value a = .ok v) (o : Outcome β)
    (kept : β) :
    ∃ s₁, (t.record oracle value o a kept).runOn s = (.ok (o.withValue kept v), s₁) ∧
      t.Served F oracle (cuts ++ [t.improved v]) s₁ := by
  rcases t.recorded_record oracle value o a kept ha s with ⟨f, s₁, hr, -⟩ | ⟨s₁, hr, -, hp⟩
  · exfalso
    obtain ⟨s₂, hc⟩ := served.takes [] _ (t.improved v)
      (.note ⟨.info, .cuts, "Found new solution: " ++ Int.repr v⟩ (.nil _))
    rw [t.record_eq oracle value o a kept ha, Action.runOn_bind, Action.runOn_note] at hr
    simp only [Action.runOn_bind, hc, Action.runOn_pure] at hr
    cases hr
  · exact ⟨s₁, hr, served.passes hp⟩

/-- A run that may ask more questions than there are values left ends. -/
theorem Task.Served.exists_run {t : Task K α β} {F : Set α} {oracle : Oracle σ K α}
    {values : Finset Int} (finite : ∀ a ∈ F, ∀ v, t.HasValue a v → v ∈ values) {q : Nat}
    {cuts : List Int} {s : Logged σ} (served : t.Served F oracle cuts s)
    (hq : (t.left values cuts).card < q) (n : Nat) (o : Outcome β) :
    ∃ r s', (t.run oracle q n o).runOn s = (.ok r, s') := by
  induction q generalizing cuts s n o with
  | zero => omega
  | succ q ih =>
      cases hb : t.budget n with
      | none =>
          rw [t.run_of_spent _ _ _ _ hb]
          exact ⟨_, _, rfl⟩
      | some remaining =>
          rw [t.run_succ _ _ _ _ hb]
          obtain ⟨status, answer, s₁, hd, served₁, found⟩ := served.decide remaining
          simp only [Action.runOn_bind, hd]
          cases hs : status.hasSolution with
          | false =>
              simp only [afterAnswer, hs]
              exact ⟨_, _, rfl⟩
          | true =>
              obtain ⟨a, mem, rfl, meets⟩ := found hs
              obtain ⟨kept, hk⟩ := served.kept a mem
              simp only [afterAnswer, hs, hk, Action.runOn_bind, Action.runOn_ofExcept]
              cases hv : t.value? with
              | none => exact ⟨_, _, rfl⟩
              | some value =>
                  obtain ⟨v, ha⟩ := served.valued a mem value hv
                  obtain ⟨s₂, hr, served₂⟩ := served₁.exists_record ha o.asked kept
                  have value : t.HasValue a v := ⟨value, hv, ha⟩
                  have fewer := card_left_lt (meets.mem_left value (finite a mem v value))
                  simp only [Action.runOn_bind, hr]
                  exact ih served₂ (by omega) _ _

theorem Task.Served.exists_optimize {t : Task K α β} {F : Set α} {oracle : Oracle σ K α}
    {values : Finset Int} (finite : ∀ a ∈ F, ∀ v, t.HasValue a v → v ∈ values) {s : Logged σ}
    (served : t.Served F oracle [] s) {q : Nat} (hq : values.card < q) :
    ∃ o s', (t.optimize oracle q).runOn s = (.ok o, s') := by
  have all : (t.left values []).card ≤ values.card := Finset.card_filter_le _ _
  obtain ⟨⟨last, o⟩, s', run⟩ := served.exists_run finite (by omega : _ < q) 1 .initial
  simp only [optimize, Action.runOn_bind, run]
  exact ⟨_, _, rfl⟩

/-! ## The rounds of a course -/

/-- What passes after the rounds of a run when the clock has been read a given number of times, and
how many questions are in it. -/
inductive Task.Ends (t : Task K α β) (n : Nat) : List (Exchange K α) → Nat → Prop where
  /-- The time was spent. -/
  | spent (hb : t.budget n = none) : Ends t n [] 0
  /-- The answer gave no assignment. -/
  | refused {remaining status answer} (hs : status.hasSolution = false) :
      Ends t n [.question remaining status answer] 1
  /-- There was an answer and no objective. -/
  | found {remaining status a} (hs : status.hasSolution = true) (hv : t.value? = none) :
      Ends t n [.question remaining status (some a)] 1

theorem Course.exists_rounds {t : Task K α β} {F : Set α} {cuts : List Int} {n : Nat}
    {o o' : Outcome β} {record : List (Exchange K α)} {status : Status}
    (course : Course t n o record (.ok (status, o'))) (obedient : t.Obedient F cuts record) :
    ∃ (rounds : List (Round K α)) (last : List (Exchange K α)) (rest : Nat),
      record = rounds.flatMap t.passed ++ last ∧
      o'.history = o.history ++ rounds.map Round.value ∧
      (∀ r ∈ rounds, r.assignment ∈ F ∧ t.HasValue r.assignment r.value) ∧
      t.Ends (t.nextReading^[rounds.length] n) last rest ∧
      o'.iterations = o.iterations + rounds.length + rest := by
  generalize hr : Except.ok (status, o') = result at course
  induction course generalizing cuts with
  | spent hb =>
      obtain ⟨rfl, rfl⟩ := Prod.mk.inj (Except.ok.inj hr)
      exact ⟨[], [], 0, rfl, by simp, by simp, .spent hb, rfl⟩
  | refused hb hs =>
      obtain ⟨rfl, rfl⟩ := Prod.mk.inj (Except.ok.inj hr)
      exact ⟨[], _, 1, rfl, by simp [Outcome.asked], by simp, .refused hs, rfl⟩
  | found hb hs hk hv =>
      obtain ⟨rfl, rfl⟩ := Prod.mk.inj (Except.ok.inj hr)
      exact ⟨[], _, 1, rfl, by simp [Outcome.asked], by simp, .found hs hv, rfl⟩
  | @improved n o remaining status a kept value v record result hb hs hk hv ha _ ih =>
      obtain ⟨mem, -⟩ := obedient.1 hs a rfl
      obtain ⟨rounds, last, rest, rfl, history, found, ends, iterations⟩ := ih obedient.2 hr
      refine ⟨⟨remaining, status, a, v⟩ :: rounds, last, rest, rfl, ?_, ?_, ends, ?_⟩
      · simpa [Outcome.withValue, Outcome.asked] using history
      · exact List.forall_mem_cons.mpr ⟨⟨mem, value, hv, ha⟩, found⟩
      · simp only [Outcome.withValue, Outcome.asked, List.length_cons] at iterations ⊢
        omega
  | brokenBefore f => cases hr
  | brokenAfter f hb => cases hr

theorem Course.iterations_eq {t : Task K α β} {n : Nat} {o o' : Outcome β}
    {record : List (Exchange K α)} {status : Status}
    (course : Course t n o record (.ok (status, o'))) :
    o'.iterations = o.iterations + questionCount record := by
  generalize hr : Except.ok (status, o') = result at course
  induction course with
  | spent hb =>
      obtain ⟨rfl, rfl⟩ := Prod.mk.inj (Except.ok.inj hr)
      rfl
  | refused hb hs =>
      obtain ⟨rfl, rfl⟩ := Prod.mk.inj (Except.ok.inj hr)
      rfl
  | found hb hs hk hv =>
      obtain ⟨rfl, rfl⟩ := Prod.mk.inj (Except.ok.inj hr)
      rfl
  | improved hb hs hk hv ha _ ih =>
      simp only [ih hr, questionCount, List.countP_cons, Outcome.withValue, Outcome.asked]
      simp
      omega
  | brokenBefore f => cases hr
  | brokenAfter f hb => cases hr

/-! ## The shape of a run -/

/-- A run is its rounds, with a history that gets strictly better, and an end. It counts every
question, and the rounds are the questions in the history. -/
structure Task.Shape (t : Task K α β) (F : Set α) (o : Outcome β) (record : List (Exchange K α))
    (rounds : List (Round K α)) (last : List (Exchange K α)) (rest : Nat) : Prop where
  passed : record = rounds.flatMap t.passed ++ last
  found : ∀ r ∈ rounds, r.assignment ∈ F ∧ t.HasValue r.assignment r.value
  history : o.history = rounds.map Round.value
  better : o.history.Pairwise fun v w => t.Better w v
  ends : t.Ends (t.nextReading^[rounds.length] 1) last rest
  counted : o.iterations = questionCount record
  iterations : o.iterations = o.history.length + rest

omit [Numeric K] in
theorem Task.Better.irrefl {t : Task K α β} (v : Int) : ¬ t.Better v v := by
  unfold Better
  split <;> exact lt_irrefl v

namespace Task.Shape

variable {t : Task K α β} {F : Set α} {o : Outcome β} {record last : List (Exchange K α)}
  {rounds : List (Round K α)} {rest : Nat}

/-- No value is found twice. -/
theorem length_history_le (h : t.Shape F o record rounds last rest)
    (finite : (t.attained F).Finite) : o.history.length ≤ (t.attained F).ncard := by
  have nodup : o.history.Nodup := h.better.imp fun {v w} better => by
    rintro rfl
    exact Better.irrefl v better
  have mem : o.history.toFinset ⊆ finite.toFinset := by
    intro v hv
    rw [List.mem_toFinset, h.history, List.mem_map] at hv
    obtain ⟨r, hr, rfl⟩ := hv
    exact finite.mem_toFinset.mpr ⟨r.assignment, h.found r hr⟩
  rw [← List.toFinset_card_of_nodup nodup, Set.ncard_eq_toFinset_card _ finite]
  exact Finset.card_le_card mem

theorem questionCount_le (h : t.Shape F o record rounds last rest)
    (finite : (t.attained F).Finite) : questionCount record ≤ (t.attained F).ncard + 1 := by
  have few := h.length_history_le finite
  have one : rest ≤ 1 := by
    cases h.ends <;> omega
  have := h.counted
  have := h.iterations
  omega

end Task.Shape

/-- Where an engine serves a task with finitely many values, the run has a `Task.Shape` and does not
change when it may ask more questions. -/
theorem Task.Served.shape {t : Task K α β} {F : Set α} {oracle : Oracle σ K α} {s : Logged σ}
    (served : t.Served F oracle [] s) (finite : (t.attained F).Finite) :
    ∃ o s', ∀ questions, (t.attained F).ncard < questions →
      (t.optimize oracle questions).runOn s = (.ok o, s') ∧
        ∃ rounds last rest, t.Shape F o (t.exchanges oracle questions s) rounds last rest := by
  have values (a : α) (mem : a ∈ F) (v : Int) (h : t.HasValue a v) : v ∈ finite.toFinset :=
    finite.mem_toFinset.mpr ⟨a, mem, h⟩
  rw [Set.ncard_eq_toFinset_card _ finite]
  obtain ⟨o, s', run⟩ := served.exists_optimize values (Nat.lt_succ_self _)
  refine ⟨o, s', fun questions hq => ?_⟩
  have same : (t.optimize oracle questions).runOn s = (.ok o, s') := by
    rw [t.optimize_eq_of_card_lt values served.obeys hq (Nat.lt_succ_self _), run]
  obtain ⟨status, o', s₁, course, passes, rfl⟩ := t.course_exchanges oracle questions same
  have obedient := served.obeys.obedient passes
  obtain ⟨rounds, last, rest, passed, history, found, ends, iterations⟩ :=
    course.exists_rounds obedient
  refine ⟨same, rounds, last, rest, passed, found, by simpa [Outcome.initial] using history, ?_,
    ends, by simpa [Outcome.initial] using course.iterations_eq, ?_⟩
  · exact course.history_pairwise obedient (by simp [Outcome.initial]) (by simp [Outcome.initial])
  · simp [iterations, history, Outcome.initial]

end

theorem Task.finite_attained (t : Task K α β) {F : Set α} (finite : F.Finite) :
    (t.attained F).Finite := by
  have each (a : α) : {v | t.HasValue a v}.Finite :=
    Set.Subsingleton.finite fun _ hv _ hw => hv.unique hw
  refine Set.Finite.subset (Set.Finite.biUnion finite fun a _ => each a) ?_
  rintro v ⟨a, mem, ha⟩
  exact Set.mem_biUnion mem ha

/-! ## Engines that try every candidate -/

def Task.meets? (t : Task K α β) (cuts : List Int) (a : α) : Bool :=
  cuts.all fun bound =>
    match t.value? with
    | none => false
    | some value =>
      match value a with
      | .ok v => decide (t.Within v bound)
      | .error _ => false

theorem Task.meets?_iff {t : Task K α β} {cuts : List Int} {a : α} :
    t.meets? cuts a = true ↔ t.Meets cuts a := by
  rw [meets?, List.all_eq_true]
  refine forall₂_congr fun bound _ => ?_
  cases hv : t.value? with
  | none => simp [HasValue, hv]
  | some value => cases ha : value a <;> simp [HasValue, hv, ha]

/-- The engine that keeps the cuts and answers with the first candidate that meets them all. -/
def Task.search (t : Task K α β) (candidates : List α) : Oracle (List Int) K α where
  decide _ := do
    let cuts ← .read
    match candidates.find? (t.meets? cuts) with
    | some a => return (.feasible, some a)
    | none => return (.infeasible, none)
  addCut bound := .update (· ++ [bound])

theorem Task.runOn_search (t : Task K α β) (candidates : List α) (remaining : Option K)
    (s : Logged (List Int)) :
    ((t.search candidates).decide remaining).runOn s =
      (.ok (match candidates.find? (t.meets? s.state) with
        | some a => (.feasible, some a)
        | none => (.infeasible, none)), s) := by
  simp only [search, Action.runOn_bind, Action.runOn_read]
  cases candidates.find? (t.meets? s.state) <;> rfl

theorem Task.state_of_passes_search {t : Task K α β} {candidates : List α}
    {s s₁ : Logged (List Int)} {record : List (Exchange K α)}
    (h : (t.search candidates).Passes s record s₁) : s₁.state = s.state ++ cutBounds record := by
  induction h with
  | nil s => simp [cutBounds]
  | question hd _ ih =>
      rw [runOn_search] at hd
      obtain ⟨-, rfl⟩ := Prod.mk.inj hd
      exact ih
  | cut hc _ ih =>
      obtain ⟨-, rfl⟩ := Prod.mk.inj hc
      simpa [cutBounds] using ih
  | note message _ ih => exact ih

/-- The search serves every task whose candidates can all be kept and valued. -/
theorem Task.served_search {t : Task K α β} {candidates : List α}
    (kept : ∀ a ∈ candidates, ∃ b, t.keep a = .ok b)
    (valued : ∀ a ∈ candidates, ∀ value, t.value? = some value → ∃ v, value a = .ok v)
    (s : Logged (List Int)) :
    t.Served {a | a ∈ candidates} (t.search candidates) s.state s where
  kept := kept
  valued := valued
  decides record s₁ remaining _ := by
    rw [runOn_search]
    refine ⟨_, _, _, rfl, ?_⟩
    cases candidates.find? (t.meets? s₁.state) <;> simp [Status.hasSolution]
  takes record s₁ bound _ := ⟨_, rfl⟩
  obeys record s₁ remaining status a s₂ hp hd _ := by
    rw [runOn_search, state_of_passes_search hp] at hd
    cases hf : candidates.find? (t.meets? (s.state ++ cutBounds record)) with
    | none => simp [hf] at hd
    | some b =>
        simp only [hf, Prod.mk.injEq, Except.ok.injEq, Option.some.injEq] at hd
        obtain ⟨⟨-, rfl⟩, -⟩ := hd
        exact ⟨List.mem_of_find?_eq_some hf, meets?_iff.mp (List.find?_some hf)⟩

section

variable [Numeric K]

/-! ## Expressions as objectives -/

/-- With an engine that serves the task (`Task.Served`), `Task.optimize` ends after at most one
question more than there are values, in rounds with strictly better values (`Task.Shape`). -/
theorem shape_optimize (keep : α → Except Fault β)
    (read : α → Value → Except Fault (Option (Operand K))) (objective : Option Expression)
    (maximize : Bool) (limit : Option K) (clock : Nat → K) (F : Set α) (oracle : Oracle σ K α)
    {s : Logged σ}
    (served : (Task.ofExpression keep read objective maximize limit clock).Served F oracle [] s)
    (finite : ((Task.ofExpression keep read objective maximize limit clock).attained F).Finite) :
    let t := Task.ofExpression keep read objective maximize limit clock
    ∃ o s', ∀ questions, (t.attained F).ncard < questions →
      (t.optimize oracle questions).runOn s = (.ok o, s') ∧
        questionCount (t.exchanges oracle questions s) ≤ (t.attained F).ncard + 1 ∧
        ∃ rounds last rest,
          t.Shape F o (t.exchanges oracle questions s) rounds last rest := by
  intro t
  obtain ⟨o, s', h⟩ := served.shape finite
  refine ⟨o, s', fun questions hq => ?_⟩
  obtain ⟨run, rounds, last, rest, shape⟩ := h questions hq
  exact ⟨run, shape.questionCount_le finite, rounds, last, rest, shape⟩

/-- Three times a number that is zero or one, made large by a search that finds the zero first. -/
theorem shape_optimize_tripled :
    let t : Task Extended (Table Int) (Table Int) :=
      .ofExpression .ok CpSat.operand? (some (.linear ⟨[⟨.text "x", .int 3⟩]⟩)) true none
        fun _ => .finite 0
    let candidates : List (Table Int) := [⟨[(.text "x", 0)]⟩, ⟨[(.text "x", 1)]⟩]
    let F : Set (Table Int) := {a | a ∈ candidates}
    t.Served F (t.search candidates) [] ⟨[], []⟩ ∧ t.attained F = {0, 3} ∧
      ∃ o s', ∀ questions, 2 < questions →
        (t.optimize (t.search candidates) questions).runOn ⟨[], []⟩ = (.ok o, s') ∧
          o = ⟨.optimal, some ⟨[(.text "x", 1)]⟩, some 3, [0, 3], 3⟩ ∧
          questionCount (t.exchanges (t.search candidates) questions ⟨[], []⟩) ≤ 3 ∧
          ∃ rounds last rest,
            t.Shape F o (t.exchanges (t.search candidates) questions ⟨[], []⟩) rounds last rest := by
  intro t candidates F
  have hasValue (n v : Int) : t.HasValue ⟨[(.text "x", n)]⟩ v ↔ v = 3 * n := by
    simp [t, Task.hasValue_ofExpression, wholeValue_tripled, eq_comm]
  have served : t.Served F (t.search candidates) [] ⟨[], []⟩ := by
    refine Task.served_search (fun a _ => ⟨a, rfl⟩) ?_ ⟨[], []⟩
    rintro a mem value ⟨⟩
    simp only [candidates, List.mem_cons, List.not_mem_nil, or_false] at mem
    rcases mem with rfl | rfl
    · exact ⟨_, wholeValue_tripled 0⟩
    · exact ⟨_, wholeValue_tripled 1⟩
  have attained : t.attained F = {0, 3} := by
    ext v
    simp [Task.attained, F, candidates, hasValue]
  have two : (t.attained F).ncard = 2 := by
    rw [attained]
    exact Set.ncard_pair (by decide)
  have finite : (t.attained F).Finite := t.finite_attained (List.finite_toSet candidates)
  obtain ⟨o, s', h⟩ := shape_optimize _ _ _ _ _ _ F _ served finite
  have run : ((t.optimize (t.search candidates) 3).runOn ⟨[], []⟩).1 =
      .ok ⟨.optimal, some ⟨[(.text "x", 1)]⟩, some 3, [0, 3], 3⟩ := by
    with_unfolding_all rfl
  have outcome : o = ⟨.optimal, some ⟨[(.text "x", 1)]⟩, some 3, [0, 3], 3⟩ := by
    have := (h 3 (by rw [two]; decide)).1
    rw [this] at run
    exact Except.ok.inj run
  refine ⟨served, attained, o, s', fun questions hq => ?_⟩
  obtain ⟨run', count, shape⟩ := h questions (by rw [two]; exact hq)
  exact ⟨run', outcome, by rwa [two] at count, shape⟩

end

end Milp.CutLoop
