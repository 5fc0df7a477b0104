import Milp.Engine.Highs
import Milp.Proofs.Engine.Session

/-!
# The course of a solve by HiGHS

HiGHS is told about options and about a model, hooks run, and then it is run, which happens once.
All that is left after that is to read its reply.
-/

namespace Milp.Highs

open Milp.Action

variable {K : Type} [Numeric K]

/-- What happens before hooks run, with the model that they are handed. -/
def handed (engine : Engine K) (solver : Solver) (p : Problem) :
    Action (Session (Call K)) (Columnwise K) := do
  let settings ← Settings.freeze solver.name solver.parameters
  Session.setStatus none
  let model ← .ofExcept (p.columnwise p.index)
  configure engine settings
  Session.tell (.pass model)
  if !engine.acceptsModel model then Session.fail solver.name .highsModel
  return model

/-- What happens before HiGHS is run. -/
def present (engine : Engine K) (hooks : Hooks (Columnwise K)) (solver : Solver) (p : Problem) :
    Action (Session (Call K)) (Columnwise K) := do
  let settings ← Settings.freeze solver.name solver.parameters
  Session.setStatus none
  let model ← .ofExcept (p.columnwise p.index)
  configure engine settings
  Session.tell (.pass model)
  if !engine.acceptsModel model then Session.fail solver.name .highsModel
  let model ← Session.runHooks "Highs" hooks p.index solver.hooks model
  let count ← .ofExcept p.constraints.length
  .note .debug (.engine .highs) ("Solving with HiGHS: " ++ Nat.repr p.index.size ++ " columns, " ++
    Nat.repr count ++ " rows")
  return model

def takeReply (solver : Solver) (p : Problem) (reply : Reply K) :
    Action (Session (Call K)) (Option (Solution K)) := do
  if reply.failed then Session.fail solver.name (.highsRun reply.description)
  match reply.status? with
  | none => Session.fail solver.name (.highsState reply.description)
  | some status =>
    Session.setStatus (some status)
    .note .debug (.engine .highs) ("HiGHS finished with status " ++ status.word)
    if !status.hasSolution then return none
    return some (← .ofExcept (readSolution p p.index reply))

variable (engine : Engine K) (hooks : Hooks (Columnwise K)) (solver : Solver) (p : Problem)

theorem solve_eq : solve engine hooks solver p = (do
    let model ← present engine hooks solver p
    Session.tell (.run model)
    let reply ← .ofExcept (engine.run model)
    takeReply solver p reply) := by
  conv_rhs => simp only [present, takeReply, bind_assoc, pure_bind, ite_bind]
  rfl

theorem present_eq : present engine hooks solver p = (do
    let model ← handed engine solver p
    let model ← Session.runHooks "Highs" hooks p.index solver.hooks model
    let count ← .ofExcept p.constraints.length
    .note .debug (.engine .highs) ("Solving with HiGHS: " ++ Nat.repr p.index.size ++
      " columns, " ++ Nat.repr count ++ " rows")
    return model) := by
  conv_rhs => simp only [handed, bind_assoc, pure_bind, ite_bind]
  rfl

/-! ## Before and after a run -/

/-- HiGHS is told to do anything but run. -/
def Preparing (c : Call K) : Prop :=
  ¬ ∃ m, c = .run m

omit [Numeric K] in
theorem keeps_setOption (name value : Value) :
    Keeps (Session.Only Preparing) (setOption engine name value) := by
  unfold setOption
  refine (Session.keeps_tell (by rintro ⟨m, ⟨⟩⟩)).bind fun _ => ?_
  split
  · exact keeps_note _ _ _
  · exact keeps_pure _

omit [Numeric K] in
theorem keeps_configure (settings : Settings) :
    Keeps (Session.Only Preparing) (configure engine settings) := by
  unfold configure
  have told (o : String × Value) : Keeps (Session.Only Preparing)
      (Session.tell (.option o.1 o.2) : Action (Session (Call K)) Unit) :=
    Session.keeps_tell (by rintro ⟨m, ⟨⟩⟩)
  have set (o : Value × Value) : Keeps (Session.Only Preparing) (setOption engine o.1 o.2) :=
    keeps_setOption engine o.1 o.2
  refine (keeps_forM told _).bind fun _ => ?_
  refine Keeps.when ?_ fun _ => ?_
  · exact keeps_note _ _ _
  · exact keeps_forM set _

theorem keeps_handed : Keeps (Session.Appends Preparing) (handed engine solver p) := by
  have passed (m : Columnwise K) : Keeps (Session.Only Preparing)
      (Session.tell (.pass m) : Action (Session (Call K)) Unit) :=
    Session.keeps_tell (by rintro ⟨m, ⟨⟩⟩)
  unfold handed
  refine (Session.keeps_freeze _ _).bind fun settings => ?_
  refine (Session.keeps_setStatus _).bind fun _ => (keeps_ofExcept _).bind fun model => ?_
  refine ((keeps_configure engine settings).imp fun _ _ h => h.appends).bind fun _ => ?_
  refine ((passed model).imp fun _ _ h => h.appends).bind fun _ => ?_
  exact Keeps.when (Session.keeps_fail _ _) fun _ => keeps_pure _

theorem keeps_present : Keeps (Session.Adds Preparing) (present engine hooks solver p) := by
  rw [present_eq]
  refine ((keeps_handed engine solver p).imp fun _ _ h => h.adds).bind fun model => ?_
  refine (Session.keeps_runHooks _ _ _ _ _).bind fun model => (keeps_ofExcept _).bind fun _ => ?_
  exact (keeps_note _ _ _).bind fun _ => keeps_pure _

theorem keeps_takeReply (reply : Reply K) :
    Keeps (Session.Appends fun _ => False) (takeReply solver p reply) := by
  unfold takeReply
  refine Keeps.when (Session.keeps_fail _ _) fun _ => ?_
  split
  · exact Session.keeps_fail _ _
  · refine (Session.keeps_setStatus _).bind fun _ => (keeps_note _ _ _).bind fun _ => ?_
    split
    · exact keeps_pure _
    · exact (keeps_ofExcept _).bind fun _ => keeps_pure _

/-! ## Replies -/

/-- HiGHS was run, and this is its reply. -/
def Replied (told : List (Call K)) (reply : Reply K) : Prop :=
  ∃ m, .run m ∈ told ∧ engine.run m = .ok reply

variable {engine hooks solver p}

/-- A solve in which HiGHS was run went through `present`, ran it on the model of that, and told it
nothing more. -/
theorem exists_of_ran {m : Columnwise K}
    (ran : .run m ∈ ((solve engine hooks solver p).perform (.start solver)).2.state.tellings) :
    ∃ s, (present engine hooks solver p).perform (.start solver) = (.ok m, s) ∧
      (solve engine hooks solver p).perform (.start solver) =
        (Action.ofExcept (engine.run m) >>= takeReply solver p).runOn
          ⟨{ s.state with events := s.state.events ++ [.told (.run m)] }, s.log⟩ ∧
      ((solve engine hooks solver p).perform (.start solver)).2.state.tellings =
        s.state.tellings ++ [.run m] ∧ ∀ c ∈ s.state.tellings, Preparing c := by
  rw [solve_eq] at ran ⊢
  obtain ⟨m', s, presented, course, before⟩ := Session.exists_of_told
    (keeps_present engine hooks solver p) (by simp [Session.tellings_start]) ⟨m, rfl⟩ ran
  -- After the model that HiGHS is run on, it is told nothing.
  have after : Keeps (Session.Appends fun _ => False)
      (Action.ofExcept (engine.run m') >>= takeReply solver p) :=
    (keeps_ofExcept _).bind (keeps_takeReply solver p)
  rw [runOn_bind (Session.tell (Call.run m') : Action (Session (Call K)) Unit), Session.tell,
    runOn_update] at course
  rw [perform, course, (after _).adds.tellings_eq, Session.tellings_told] at ran
  rw [perform, perform, course, (after _).adds.tellings_eq, Session.tellings_told]
  obtain rfl : m = m' := by
    rcases List.mem_append.mp ran with old | new
    · exact absurd ⟨m, rfl⟩ (before _ old)
    · simpa using new
  exact ⟨s, presented, rfl, rfl, before⟩

/-- A solve in which HiGHS replied went through `present`, and goes on with the reply. -/
theorem exists_of_replied {reply : Reply K}
    (replied : Replied engine
      ((solve engine hooks solver p).perform (.start solver)).2.state.tellings reply) :
    ∃ m s, (present engine hooks solver p).perform (.start solver) = (.ok m, s) ∧
      (solve engine hooks solver p).perform (.start solver) =
        (takeReply solver p reply).runOn
          ⟨{ s.state with events := s.state.events ++ [.told (.run m)] }, s.log⟩ := by
  obtain ⟨m, told, reply_eq⟩ := replied
  obtain ⟨s, presented, course, -⟩ := exists_of_ran told
  refine ⟨m, s, presented, ?_⟩
  rw [course, runOn_bind, runOn_ofExcept, reply_eq]

/-- A reply that says something about the model sets the status, and a solution is read off it where
there is one. -/
theorem runOn_takeReply {reply : Reply K} (succeeded : reply.failed = false) {status : Status}
    (h : reply.status? = some status) (s : Logged (Session (Call K))) :
    ∃ log, (takeReply solver p reply).runOn s =
      (if status.hasSolution then (readSolution p p.index reply).map some else .ok none,
        ⟨{ s.state with status := .symbol (.status status) }, log⟩) := by
  unfold takeReply
  rw [succeeded, h]
  cases hs : status.hasSolution with
  | false => exact ⟨_, by simp [Session.setStatus, runOn_bind, hs]; rfl⟩
  | true =>
      cases readSolution p p.index reply <;>
        exact ⟨_, by simp [Session.setStatus, runOn_bind, hs]; rfl⟩

end Milp.Highs
