import Milp.Proofs.Engine.CpSat.Course
import Milp.Proofs.Engine.Session

/-!
# What a solve by cuts has found when it ends

A run of cuts holds an assignment if and only if one of its questions was answered with one. If the
last question was left open, what is held then is what an earlier answer gave.
-/

namespace Milp.CpSat

open CutLoop Milp.Action

variable {engine : Engine} {s : Settings} {index : Index} {objective : WholeSum} {maximize : Bool}

/-! ## Replies -/

/-- The replies to questions, in order; one that was broken off has none. -/
def Engine.replies (engine : Engine) (told : List Question) : List (Option Reply) :=
  told.mapIdx fun i q => (engine.answer i q).toOption

theorem Engine.replies_concat (told : List Question) (q : Question) :
    engine.replies (told ++ [q]) =
      engine.replies told ++ [(engine.answer told.length q).toOption] :=
  List.mapIdx_concat

/-- A reply that brings an assignment. -/
def Reply.Finds (r : Reply) : Prop :=
  r.answer = .optimal ∨ r.answer = .feasible

/-- Some question was answered with an assignment. -/
def Engine.Found (engine : Engine) (told : List Question) : Prop :=
  ∃ r, some r ∈ engine.replies told ∧ r.Finds

/-- The last question was left open. -/
def Engine.GaveUp (engine : Engine) (told : List Question) : Prop :=
  ∃ r, (engine.replies told).getLast? = some (some r) ∧ r.answer = .unknown

theorem Engine.not_found_nil : ¬ engine.Found [] := by
  rintro ⟨r, hr, -⟩
  cases hr

theorem Engine.not_gaveUp_nil : ¬ engine.GaveUp [] := by
  rintro ⟨r, hr, -⟩
  cases hr

theorem Engine.found_concat {told : List Question} {q : Question} :
    engine.Found (told ++ [q]) ↔
      engine.Found told ∨ ∃ r, engine.answer told.length q = .ok r ∧ r.Finds := by
  unfold Found
  rw [replies_concat]
  cases engine.answer told.length q <;> simp [Except.toOption, or_and_right, exists_or]

theorem Engine.gaveUp_concat {told : List Question} {q : Question} :
    engine.GaveUp (told ++ [q]) ↔
      ∃ r, engine.answer told.length q = .ok r ∧ r.answer = .unknown := by
  unfold GaveUp
  rw [replies_concat]
  cases engine.answer told.length q <;> simp [Except.toOption]

/-! ## Questions -/

/-- What the answer to a question says. -/
def meaning (name : Value) (index : Index) (answer : Except Fault Reply) :
    Except Fault (Status × Option (Table Int)) := do
  let reply ← answer
  match reply.answer with
  | .optimal => return (.feasible, some (assignment index reply.values))
  | .feasible => return (.feasible, some (assignment index reply.values))
  | .infeasible => return (.infeasible, none)
  | .unknown => return (.timeLimit, none)
  | .modelInvalid =>
    let reason := if reply.complaint.isEmpty then reply.answer.name else reply.complaint
    throw (.engineFailed (some name) (.cpsatModel reason))

/-- As many questions were counted as were asked. -/
def Counted (st : State) : Prop :=
  st.asked = st.session.tellings.length

def SameQuestions (st st' : State) : Prop :=
  st'.session.tellings = st.session.tellings ∧ st'.asked = st.asked

instance : Std.Refl SameQuestions := ⟨fun _ => ⟨rfl, rfl⟩⟩

instance : IsTrans State SameQuestions :=
  ⟨fun _ _ _ h h' => ⟨h'.1.trans h.1, h'.2.trans h.2⟩⟩

/-- `decide` is broken off before it asks, or it asks and the answer says how it ends. -/
theorem asks_decide {remaining : Option Float} {st st' : Logged State}
    {r : Except Fault (Status × Option (Table Int))}
    (h : (decide engine s index remaining).runOn st = (r, st')) :
    (∃ f, r = .error f) ∧ SameQuestions st.state st'.state ∨
      ∃ q, r = meaning s.name index (engine.answer st.state.asked q) ∧
        st'.state.session.tellings = st.state.session.tellings ++ [q] ∧
        st'.state.asked = st.state.asked + 1 := by
  unfold decide at h
  rw [runOn_bind, runOn_ofExcept] at h
  cases hgeneral : (generalOptions s remaining).foldlM (setGeneralOption engine) [] with
  | error f =>
      rw [hgeneral] at h
      obtain ⟨rfl, rfl⟩ := Prod.mk.inj h
      exact .inl ⟨⟨f, rfl⟩, rfl, rfl⟩
  | ok general =>
      rw [hgeneral] at h
      dsimp only at h
      have same : SameQuestions st.state
          ((s.options.entries.foldlM (setOption engine) general).runOn st).2.state :=
        keeps_foldlM (keeps_setOption engine) _ _ st
      rw [runOn_bind] at h
      rcases hoptions : (s.options.entries.foldlM (setOption engine) general).runOn st with
        ⟨f | options, t⟩ <;> rw [hoptions] at h same
      · obtain ⟨rfl, rfl⟩ := Prod.mk.inj h
        exact .inl ⟨⟨f, rfl⟩, same⟩
      · right
        refine ⟨⟨options, t.state.model⟩, ?_⟩
        rw [← same.1, ← same.2]
        dsimp only at h
        rw [runOn_bind, runOn_read] at h
        dsimp only at h
        rw [runOn_bind, runOn_update] at h
        dsimp only at h
        rw [runOn_bind, runOn_ofExcept] at h
        unfold meaning
        cases hanswer : engine.answer t.state.asked ⟨options, t.state.model⟩ with
        | error f =>
            rw [hanswer] at h
            obtain ⟨rfl, rfl⟩ := Prod.mk.inj h
            exact ⟨rfl, Session.tellings_told _ _, rfl⟩
        | ok reply =>
            rw [hanswer] at h
            cases found : reply.answer <;>
              · simp only [found] at h
                obtain ⟨rfl, rfl⟩ := Prod.mk.inj h
                exact ⟨by simp [found, bind, Except.bind]; rfl, Session.tellings_told _ _, rfl⟩

/-! ## Runs -/

variable {p : Problem} {clock : Nat → Float}

/-- What a run holds is what was found: an assignment, if some question was answered with one. -/
structure Holds (engine : Engine) (index : Index) (o : Outcome (Table Int)) (st : State) : Prop where
  counted : Counted st
  found : o.assignment.isSome = true ↔ engine.Found st.session.tellings
  values : ∀ a, o.assignment = some a → ∃ values, a = assignment index values

/-- How a run ends that is not broken off. A last question that was left open ended it for want of
time, while something better than what it holds was sought. -/
structure Ended (engine : Engine) (index : Index) (p : Problem) (last : Status)
    (o : Outcome (Table Int)) (st : State) : Prop extends Holds engine index o st where
  ending : last = .timeLimit ∨ last = .infeasible ∨ last = .feasible ∧ o.assignment.isSome = true
  gaveUp : engine.GaveUp st.session.tellings →
    last = .timeLimit ∧ (o.assignment.isSome = true → p.objective.isSome = true)

/-- How a run ends: a last question that was left open did not break it off. -/
def Ends (engine : Engine) (index : Index) (p : Problem) :
    Except Fault (Status × Outcome (Table Int)) → State → Prop
  | .ok (last, o), st => Ended engine index p last o st
  | .error _, st => ¬ engine.GaveUp st.session.tellings

/-- A run goes on while its last question brought an assignment, and only to find a better one. -/
structure Running (engine : Engine) (index : Index) (p : Problem) (o : Outcome (Table Int))
    (st : State) : Prop extends Holds engine index o st where
  answered : ¬ engine.GaveUp st.session.tellings
  search : o.assignment.isSome = true → p.objective.isSome = true

theorem Running.ends {o : Outcome (Table Int)} {st : State} (h : Running engine index p o st) :
    Ends engine index p (.ok (.timeLimit, o)) st :=
  ⟨h.toHolds, .inl rfl, fun gaveUp => absurd gaveUp h.answered⟩

theorem Running.of_same {o : Outcome (Table Int)} {st st' : State}
    (h : Running engine index p o st) (same : SameQuestions st st') :
    Running engine index p o st' := by
  obtain ⟨⟨counted, found, values⟩, answered, search⟩ := h
  rw [← same.1] at found answered
  exact ⟨⟨by rw [Counted, same.1, same.2, counted], found, values⟩, answered, search⟩

theorem keepsQuestions_record (value : Table Int → Except Fault Int) (o : Outcome (Table Int))
    (a kept : Table Int) :
    Keeps SameQuestions ((task p s clock).record (oracle engine s index objective maximize)
      value o a kept) := by
  refine (keeps_ofExcept _).bind fun _ => (keeps_note _ _ _).bind fun _ => Keeps.bind ?_ fun _ =>
    keeps_pure _
  exact (keeps_ofExcept _).bind fun _ => keeps_update fun _ => ⟨rfl, rfl⟩

/-- What a question that was answered changes in what a run holds. -/
theorem Running.asked {o : Outcome (Table Int)} {st st' : State} {q : Question} {r : Reply}
    (h : Running engine index p o st) (answer : engine.answer st.asked q = .ok r)
    (told : st'.session.tellings = st.session.tellings ++ [q]) (count : st'.asked = st.asked + 1) :
    Counted st' ∧ (engine.Found st'.session.tellings ↔ o.assignment.isSome = true ∨ r.Finds) ∧
      (engine.GaveUp st'.session.tellings ↔ r.answer = .unknown) := by
  rw [h.counted] at answer
  refine ⟨by rw [Counted, told, count, h.counted, List.length_append]; rfl, ?_, ?_⟩
  · rw [told, Engine.found_concat, answer, h.found]
    simp
  · rw [told, Engine.gaveUp_concat, answer]
    simp

/-- The runs with so many questions end with what they found. -/
def EndsAfter (engine : Engine) (s : Settings) (index : Index) (objective : WholeSum)
    (maximize : Bool) (p : Problem) (clock : Nat → Float) (questions : Nat) : Prop :=
  ∀ n o (st : Logged State), Running engine index p o st.state →
    Ends engine index p
      (((task p s clock).run (oracle engine s index objective maximize) questions n o).runOn st).1
      (((task p s clock).run (oracle engine s index objective maximize) questions n o).runOn
        st).2.state

theorem assignment_record {value : Table Int → Except Fault Int} {o o' : Outcome (Table Int)}
    {a kept : Table Int} {st st' : Logged State}
    (h : ((task p s clock).record (oracle engine s index objective maximize) value o a kept).runOn
      st = (.ok o', st')) : o'.assignment = some kept := by
  obtain ⟨_, _, -, h⟩ := runOn_bind_eq_ok.mp h
  obtain ⟨_, _, -, h⟩ := runOn_bind_eq_ok.mp h
  obtain ⟨_, _, -, h⟩ := runOn_bind_eq_ok.mp h
  obtain rfl := Except.ok.inj (congrArg Prod.fst h)
  rfl

/-- What follows an assignment that was found: it is kept, or a better one is sought. -/
theorem ends_of_found {questions : Nat}
    (later : EndsAfter engine s index objective maximize p clock questions) (n : Nat)
    (o : Outcome (Table Int)) {st : Logged State} (counted : Counted st.state)
    (found : engine.Found st.state.session.tellings)
    (answered : ¬ engine.GaveUp st.state.session.tellings) (values : List Bool) :
    let run := ((task p s clock).afterAnswer (oracle engine s index objective maximize)
      questions n o (.feasible, some (assignment index values))).runOn st
    Ends engine index p run.1 run.2.state := by
  have own {o' : Outcome (Table Int)} (ho : o'.assignment = some (assignment index values)) :
      Holds engine index o' st.state :=
    ⟨counted, by simpa [ho] using found, fun a ha => ⟨values, Option.some.inj (ha.symm.trans ho)⟩⟩
  cases he : p.objective with
  | none =>
      have plain : (task p s clock).value? = none := by simp [task, he]
      simp only [Task.afterAnswer, Status.hasSolution, plain]
      exact ⟨own rfl, .inr (.inr ⟨rfl, rfl⟩), fun gaveUp => absurd gaveUp answered⟩
  | some e =>
      have search : (task p s clock).value? =
          some fun a => wholeValue Float e (operand? a) := by simp [task, he]
      simp only [Task.afterAnswer, Status.hasSolution, search]
      rw [show (task p s clock).keep (assignment index values) = .ok (assignment index values)
        from rfl, runOn_bind, runOn_ofExcept]
      dsimp only
      rw [runOn_bind]
      rcases hr : ((task p s clock).record (oracle engine s index objective maximize)
        (fun a => wholeValue Float e (operand? a)) o.asked (assignment index values)
        (assignment index values)).runOn st with ⟨f | o', st'⟩
      · have same := (keepsQuestions_record _ _ _ _).of_runOn hr
        change ¬ engine.GaveUp st'.state.session.tellings
        rwa [same.1]
      · have same := (keepsQuestions_record _ _ _ _).of_runOn hr
        have running : Running engine index p o' st.state :=
          ⟨own (assignment_record hr), answered, fun _ => by simp [he]⟩
        exact later _ o' st' (running.of_same same)

/-- `Task.afterAnswer` ends with what was found (`Ends`), when the runs that it leads to do so. -/
theorem ends_afterAnswer {questions : Nat}
    (later : EndsAfter engine s index objective maximize p clock questions) (n : Nat)
    {o : Outcome (Table Int)} {st : State} (h : Running engine index p o st) {q : Question}
    {r : Reply} (answer : engine.answer st.asked q = .ok r) {said : Status × Option (Table Int)}
    (means : meaning s.name index (.ok r) = .ok said) (st' : Logged State)
    (told : st'.state.session.tellings = st.session.tellings ++ [q])
    (count : st'.state.asked = st.asked + 1) :
    let run := ((task p s clock).afterAnswer (oracle engine s index objective maximize)
      questions n o said).runOn st'
    Ends engine index p run.1 run.2.state := by
  obtain ⟨counted, found, gaveUp⟩ := h.asked answer told count
  -- An answer without an assignment leaves what is held as it was.
  have held (other : ¬ r.Finds) : Holds engine index o.asked st'.state :=
    ⟨counted, by rw [found, or_iff_left other]; rfl, h.values⟩
  cases hr : r.answer with
  | optimal | feasible =>
      have finds : r.Finds := by simp [Reply.Finds, hr]
      obtain rfl : (.feasible, some (assignment index r.values)) = said := by
        simpa [meaning, hr, bind, Except.bind, pure, Except.pure] using means
      exact ends_of_found later n o counted (found.mpr (.inr finds)) (by simp [gaveUp, hr]) r.values
  | infeasible =>
      obtain rfl : (.infeasible, none) = said := by
        simpa [meaning, hr, bind, Except.bind, pure, Except.pure] using means
      exact ⟨held (by simp [Reply.Finds, hr]), .inr (.inl rfl),
        fun up => by simp [hr] at gaveUp; exact absurd up gaveUp⟩
  | unknown =>
      obtain rfl : (.timeLimit, none) = said := by
        simpa [meaning, hr, bind, Except.bind, pure, Except.pure] using means
      exact ⟨held (by simp [Reply.Finds, hr]), .inl rfl, fun _ => ⟨rfl, h.search⟩⟩
  | modelInvalid => simp [meaning, hr, bind, Except.bind] at means

/-- What `Task.run` holds when it ends was found by it (`Ends`). -/
theorem endsAfter (questions : Nat) :
    EndsAfter engine s index objective maximize p clock questions := by
  intro n o st h
  induction questions generalizing n o st with
  | zero =>
      cases hb : (task p s clock).budget n with
      | none =>
          rw [Task.run_of_spent _ _ _ _ _ hb]
          exact h.ends
      | some remaining =>
          rw [Task.run_zero _ _ _ _ hb]
          exact h.answered
  | succ questions ih =>
      cases hb : (task p s clock).budget n with
      | none =>
          rw [Task.run_of_spent _ _ _ _ _ hb]
          exact h.ends
      | some remaining =>
          rw [Task.run_succ _ _ _ _ _ hb, runOn_bind]
          rcases hd : ((oracle engine s index objective maximize).decide remaining).runOn st with
            ⟨said, st'⟩
          rcases asks_decide hd with ⟨⟨f, rfl⟩, same⟩ | ⟨q, said_eq, told, count⟩
          · exact (h.of_same same).answered
          · cases answer : engine.answer st.state.asked q with
            | error f =>
                rw [answer] at said_eq
                obtain rfl : said = .error f := said_eq
                change ¬ engine.GaveUp st'.state.session.tellings
                rw [told, Engine.gaveUp_concat, ← h.counted, answer]
                simp
            | ok r =>
                rw [answer] at said_eq
                cases said with
                | error f =>
                    change ¬ engine.GaveUp st'.state.session.tellings
                    rw [(h.asked answer told count).2.2]
                    intro unknown
                    simp [meaning, unknown, bind, Except.bind] at said_eq
                    cases said_eq
                | ok said =>
                    exact ends_afterAnswer ih n h answer said_eq.symm st' told count

end Milp.CpSat
