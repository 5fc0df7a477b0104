import Milp.Proofs.Engine.Session
import Milp.Proofs.Extraction
import Milp.Proofs.Fault.Actions

/-!
# Status and outcome

The status that a solve leaves and the way in which it ended are set in different places. They agree
(`Coherent`) if every part of the solve is `Reporting`: it leaves the status of a
failure exactly if it is broken off by one.
-/

namespace Milp

/-- An engine is reported to have failed. -/
def Fault.IsFailure (f : Fault) : Prop :=
  f.className = "BackendError"

theorem Fault.not_isFailure_of_cls {f : Fault} (h : f.cls ≠ .engine) : ¬ f.IsFailure := by
  intro failure
  refine h ?_
  rw [cls, failure]
  rfl

/-- What is taken for a failure of an engine is one. -/
def Fault.Genuine (f : Fault) : Prop :=
  f.cls = .engine → f.IsFailure

theorem Fault.genuine_of_cls {f : Fault} (h : f.cls ≠ .engine) : f.Genuine :=
  fun engine => absurd engine h

theorem Fault.Internal.genuine {f : Fault} (h : f.Internal) : f.Genuine :=
  genuine_of_cls h.cls_ne_engine

namespace Session

open Milp.Action

variable {ν μ α β : Type}

/-- The status is that of a failure. -/
def Failed (s : Session ν) : Prop :=
  s.status = .symbol (.status .error)

/-- The status is that of a failure if and only if something was broken off by one. -/
def FailureReported (r : Except Fault α × Logged (Session ν)) : Prop :=
  r.2.state.Failed ↔ ∃ f, r.1 = .error f ∧ f.IsFailure

/-- After no failure, the status tells whether there was one. -/
def Reporting (a : Action (Session ν) α) : Prop :=
  ∀ s, ¬ s.state.Failed → FailureReported (a.runOn s)

theorem failureReported_ok {x : α} {s : Logged (Session ν)} :
    FailureReported ((.ok x : Except Fault α), s) ↔ ¬ s.state.Failed := by
  simp [FailureReported]

theorem failureReported_error {f : Fault} {s : Logged (Session ν)} :
    FailureReported ((.error f : Except Fault α), s) ↔ (s.state.Failed ↔ f.IsFailure) := by
  simp [FailureReported]

def SameStatus (s s' : Session ν) : Prop :=
  s'.status = s.status

instance : Std.Refl (SameStatus (ν := ν)) := ⟨fun _ => rfl⟩

instance : IsTrans (Session ν) SameStatus := ⟨fun _ _ _ h h' => h'.trans h⟩

/-! ## Reporting parts -/

/-- What leaves the status as it is and raises no failure is `Reporting`. -/
theorem reporting_of_keeps {a : Action (Session ν) α} (same : Keeps SameStatus a)
    (raises : Raises (fun f => f.cls ≠ .engine) a) : Reporting a := by
  intro s before
  have status : (a.runOn s).2.state.Failed ↔ s.state.Failed := by
    rw [Failed, same s]
    rfl
  refine ⟨fun failed => absurd (status.mp failed) before, ?_⟩
  rintro ⟨f, hf, failure⟩
  exact absurd failure (Fault.not_isFailure_of_cls (raises s f hf))

theorem reporting_pure (x : α) : Reporting (pure x : Action (Session ν) α) :=
  reporting_of_keeps (keeps_pure x) (raises_pure x)

theorem reporting_throw {f : Fault} (h : f.cls ≠ .engine) :
    Reporting (throw f : Action (Session ν) α) :=
  reporting_of_keeps (keeps_throw f) (raises_throw h)

/-- That an engine is not there is no failure of it. -/
theorem reporting_unavailable (why : Unavailability) :
    Reporting (throw (.unavailable why) : Action (Session ν) α) :=
  fun _ before => failureReported_error.mpr
    ⟨fun failed => absurd failed before, by simp [Fault.IsFailure, Fault.className]⟩

theorem reporting_ofExcept {x : Except Fault α} (h : BreaksBy (fun f => f.cls ≠ .engine) x) :
    Reporting (.ofExcept x : Action (Session ν) α) :=
  reporting_of_keeps (keeps_ofExcept x) (raises_ofExcept h)

theorem reporting_ofContained {x : Except Fault α} (h : Contained x) :
    Reporting (.ofExcept x : Action (Session ν) α) :=
  reporting_ofExcept (h.imp fun _ => Fault.Internal.cls_ne_engine)

theorem reporting_note (level : Level) (channel : Channel) (text : Phrase) :
    Reporting (.note level channel text : Action (Session ν) Unit) :=
  reporting_of_keeps (keeps_note _ _ _) (raises_note _ _ _)

theorem reporting_tell (x : ν) : Reporting (tell x) :=
  reporting_of_keeps (keeps_update fun _ => rfl) (raises_update _)

theorem reporting_setHistory (history : List Int) :
    Reporting (setHistory history : Action (Session ν) Unit) :=
  reporting_of_keeps (keeps_update fun _ => rfl) (raises_update _)

theorem reporting_freeze (name : Value) (parameters : Table Value) :
    Reporting (Settings.freeze name parameters : Action (Session ν) Settings) := by
  refine reporting_of_keeps (fun _ => rfl) fun s => ?_
  exact (Settings.contained_ofParameters name parameters).imp fun _ => Fault.Internal.cls_ne_engine

theorem reporting_setStatus {status : Option Status} (h : status ≠ some .error) :
    Reporting (setStatus status : Action (Session ν) Unit) := by
  intro s _
  refine failureReported_ok.mpr fun failed => h ?_
  cases status with
  | none => cases failed
  | some st =>
      obtain rfl : st = .error := by
        change Value.symbol (.status st) = _ at failed
        simpa using failed
      rfl

theorem reporting_fail (engine : Value) (failure : EngineFailure) :
    Reporting (fail engine failure : Action (Session ν) α) :=
  fun _ _ => failureReported_error.mpr ⟨fun _ => rfl, fun _ => rfl⟩

/-- What follows an action must be `Reporting` only for the results that it can have. -/
theorem Reporting.bind_of_ok {a : Action (Session ν) α} {f : α → Action (Session ν) β}
    (ha : Reporting a) (hf : ∀ x s s₁, a.runOn s = (.ok x, s₁) → Reporting (f x)) :
    Reporting (a >>= f) := by
  intro s before
  have first := ha s before
  rw [runOn_bind]
  rcases h : a.runOn s with ⟨e | x, s₁⟩ <;> rw [h] at first
  · exact failureReported_error.mpr (failureReported_error.mp first)
  · exact hf x s s₁ h s₁ (failureReported_ok.mp first)

theorem Reporting.bind {a : Action (Session ν) α} {f : α → Action (Session ν) β} (ha : Reporting a)
    (hf : ∀ x, Reporting (f x)) : Reporting (a >>= f) :=
  ha.bind_of_ok fun x _ _ _ => hf x

theorem Reporting.when {c : Prop} [Decidable c] {a : Action (Session ν) PUnit}
    {f : PUnit → Action (Session ν) α} (ha : Reporting a) (hf : ∀ u, Reporting (f u)) :
    Reporting (if c then a >>= f else f ⟨⟩) := by
  split
  · exact ha.bind hf
  · exact hf ⟨⟩

theorem reporting_forM {f : α → Action (Session ν) PUnit} (h : ∀ x, Reporting (f x)) (xs : List α) :
    Reporting (xs.forM f) := by
  induction xs with
  | nil => exact reporting_pure _
  | cons x xs ih => exact (h x).bind fun _ => ih

theorem reporting_foldlM {f : β → α → Action (Session ν) β} (h : ∀ y x, Reporting (f y x)) (y : β)
    (xs : List α) : Reporting (xs.foldlM f y) := by
  induction xs generalizing y with
  | nil => exact reporting_pure y
  | cons x xs ih =>
      rw [List.foldlM_cons]
      exact (h y x).bind fun z => ih z

theorem reporting_mapM_of_mem {f : α → Action (Session ν) β} {xs : List α}
    (h : ∀ x ∈ xs, Reporting (f x)) : Reporting (xs.mapM f) := by
  induction xs with
  | nil => exact reporting_pure _
  | cons x xs ih =>
      obtain ⟨head, tail⟩ := List.forall_mem_cons.mp h
      rw [List.mapM_cons]
      exact head.bind fun _ => (ih tail).bind fun _ => reporting_pure _

/-- `tryCatch` is `Reporting` where the handler reports each fault that the action can leave. -/
theorem Reporting.tryCatch {a : Action (Session ν) α} {handle : Fault → Action (Session ν) α}
    (ha : Reporting a)
    (hf : ∀ f (s : Logged (Session ν)), (s.state.Failed ↔ f.IsFailure) →
      FailureReported ((handle f).runOn s)) : Reporting (tryCatch a handle) := by
  intro s before
  have first := ha s before
  rw [runOn_tryCatch]
  rcases h : a.runOn s with ⟨e | x, s₁⟩ <;> rw [h] at first
  · exact hf e s₁ (failureReported_error.mp first)
  · exact first

/-- `tryCatch` is `Reporting` where the action raises no failure of its own and the handler reports
the faults of some sort. -/
theorem reporting_tryCatch {P : Fault → Prop} {a : Action (Session ν) α}
    {handle : Fault → Action (Session ν) α} (same : Keeps SameStatus a) (raises : Raises P a)
    (hf : ∀ f (s : Logged (Session ν)), P f → ¬ s.state.Failed →
      FailureReported ((handle f).runOn s)) : Reporting (tryCatch a handle) := by
  intro s before
  have kept : (a.runOn s).2.state.Failed ↔ s.state.Failed := by
    rw [Failed, same s]
    rfl
  have sort := raises s
  rw [runOn_tryCatch]
  rcases ended : a.runOn s with ⟨f | x, t⟩ <;> rw [ended] at kept sort
  · exact hf f t (sort f rfl) fun failed => before (kept.mp failed)
  · exact failureReported_ok.mpr fun failed => before (kept.mp failed)

/-- No hook raises a fault that `IsFailure`. -/
def Harmless (hooks : Hooks μ) : Prop :=
  ∀ hook index m f, (hooks hook index m).2 = some f → f.cls ≠ .engine

theorem contained_checkHook (native : String) (hook : Value) : Contained (checkHook native hook) := by
  unfold checkHook
  split
  · exact breaksBy_ok _
  · rename_i t
    cases t <;> simp [typeFault, Fault.Internal]
  · simp [Fault.Internal]

theorem reporting_runHooks {hooks : Hooks μ} (harmless : Harmless hooks) (native : String)
    (index : Index) (list : List Value) (m : μ) :
    Reporting (runHooks native hooks index list m : Action (Session ν) μ) := by
  induction list generalizing m with
  | nil => exact reporting_pure m
  | cons hook rest ih =>
      refine (reporting_ofContained (contained_checkHook native hook)).bind fun _ =>
        Reporting.bind ?_ fun _ => ?_
      · exact reporting_of_keeps (keeps_update fun _ => rfl) (raises_update _)
      · rcases hm : hooks hook index m with ⟨m', _ | f⟩
        · exact ih m'
        · exact reporting_throw (harmless hook index m f (by rw [hm]))

/-! ## Answers -/

variable {K : Type} [Numeric K] {d : Declarations}

/-- An answer and a status that go together: a solution has a value for every variable. -/
def Agrees (d : Declarations) (answer : Option (Solution K)) (status : Value) : Prop :=
  match answer with
  | some s => (status = .symbol (.status .optimal) ∨ status = .symbol (.status .feasible)) ∧
      s.Covers d
  | none => status = .symbol (.status .infeasible) ∨ status = .symbol (.status .unbounded) ∨
      status = .symbol (.status .timeLimit) ∨ status = .symbol (.status .unknown)

/-- Where an action gives an answer, the status `Agrees` with it. -/
def Concludes (d : Declarations) (a : Action (Session ν) (Option (Solution K))) : Prop :=
  ∀ s answer s', a.runOn s = (.ok answer, s') → Agrees d answer s'.state.status

omit [Numeric K] in
theorem Concludes.bind_of_ok {a : Action (Session ν) α}
    {f : α → Action (Session ν) (Option (Solution K))}
    (hf : ∀ x s s₁, a.runOn s = (.ok x, s₁) → Concludes d (f x)) : Concludes d (a >>= f) := by
  intro s answer s' h
  obtain ⟨x, s₁, hx, h⟩ := runOn_bind_eq_ok.mp h
  exact hf x s s₁ hx s₁ answer s' h

omit [Numeric K] in
theorem Concludes.bind {a : Action (Session ν) α}
    {f : α → Action (Session ν) (Option (Solution K))} (hf : ∀ x, Concludes d (f x)) :
    Concludes d (a >>= f) :=
  Concludes.bind_of_ok fun x _ _ _ => hf x

omit [Numeric K] in
theorem concludes_throw (f : Fault) :
    Concludes d (throw f : Action (Session ν) (Option (Solution K))) := by
  rintro s answer s' ⟨⟩

omit [Numeric K] in
theorem concludes_fail (engine : Value) (failure : EngineFailure) :
    Concludes d (fail engine failure : Action (Session ν) (Option (Solution K))) :=
  Concludes.bind fun _ => concludes_throw _

omit [Numeric K] in
theorem Concludes.tryCatch {a : Action (Session ν) (Option (Solution K))}
    {handle : Fault → Action (Session ν) (Option (Solution K))} (ha : Concludes d a)
    (hf : ∀ f, Concludes d (handle f)) : Concludes d (tryCatch a handle) := by
  intro s answer s' h
  rw [runOn_tryCatch] at h
  rcases ended : a.runOn s with ⟨e | x, s₁⟩ <;> rw [ended] at h
  · exact hf e s₁ answer s' h
  · exact ha s answer s' (ended.trans h)

/-- A status that is set, with the solution that is read where there is one. -/
def answer (status : Status) (channel : Channel) (text : Phrase)
    (read : Except Fault (Solution K)) : Action (Session ν) (Option (Solution K)) := do
  setStatus (some status)
  .note .debug channel text
  if !status.hasSolution then return none
  return some (← .ofExcept read)

omit [Numeric K] in
theorem runOn_answer (status : Status) (channel : Channel) (text : Phrase)
    (read : Except Fault (Solution K)) (s : Logged (Session ν)) :
    (answer status channel text read).runOn s =
      (if status.hasSolution then read.map some else .ok none,
        ⟨{ s.state with status := .symbol (.status status) }, s.log ++ [⟨.debug, channel, text⟩]⟩) := by
  unfold answer
  cases hs : status.hasSolution with
  | false => simp [setStatus, runOn_bind]; rfl
  | true => cases read <;> simp [setStatus, runOn_bind] <;> rfl

omit [Numeric K] in
theorem concludes_answer {status : Status} {channel : Channel} {text : Phrase}
    {read : Except Fault (Solution K)} (known : status ≠ .error)
    (covers : ∀ s, read = .ok s → s.Covers d) :
    Concludes d (answer status channel text read : Action (Session ν) _) := by
  intro s o s' h
  rw [runOn_answer] at h
  obtain ⟨ended, rfl⟩ := Prod.mk.inj h
  cases status with
  | error => exact absurd rfl known
  | optimal | feasible =>
      obtain ⟨x, hx, rfl⟩ : ∃ x, read = .ok x ∧ some x = o := by
        cases hr : read with
        | error f => simp [hr, Status.hasSolution, Except.map] at ended
        | ok x => exact ⟨x, rfl, by simpa [hr, Status.hasSolution, Except.map] using ended⟩
      exact ⟨by simp, covers x hx⟩
  | infeasible | unbounded | timeLimit | unknown =>
      obtain rfl : none = o := Except.ok.inj ended
      simp [Agrees]

omit [Numeric K] in
theorem reporting_answer {status : Status} {channel : Channel} {text : Phrase}
    {read : Except Fault (Solution K)} (known : status ≠ .error) (contained : Contained read) :
    Reporting (answer status channel text read : Action (Session ν) _) := by
  refine (reporting_setStatus (by simpa using known)).bind fun _ =>
    (reporting_note _ _ _).bind fun _ => ?_
  split
  · exact reporting_pure _
  · exact (reporting_ofContained contained).bind fun _ => reporting_pure _

/-! ## Solves -/

/-- What a solve ended with and the status that it left tell the same story. -/
structure Coherent (d : Declarations)
    (run : Except Fault (Option (Solution K)) × Logged (Session ν)) : Prop where
  agrees : ∀ answer, run.1 = .ok answer → Agrees d answer run.2.state.status
  failed : run.2.state.status = .symbol (.status .error) ↔
    ∃ f, run.1 = .error f ∧ f.className = "BackendError"

theorem failed_perform {a : Action (Session ν) α} (reports : Reporting a) {solver : Solver}
    (fresh : solver.lastStatus = .none) : FailureReported (a.perform (.start solver)) := by
  refine reports ⟨.start solver, []⟩ fun failed => ?_
  rw [Failed, start, fresh] at failed
  cases failed

omit [Numeric K] in
theorem coherent_perform {a : Action (Session ν) (Option (Solution K))} (reports : Reporting a)
    (concludes : Concludes d a) {solver : Solver} (fresh : solver.lastStatus = .none) :
    Coherent d (a.perform (.start solver)) where
  agrees answer h := concludes ⟨.start solver, []⟩ answer _ (Prod.ext h rfl)
  failed := failed_perform reports fresh

/-- How a solve ends whose engine stopped at a limit: with an incumbent the status is that of a
feasible solution, and the answer is whatever reading the reply gives. -/
structure Limited (run : Except Fault (Option (Solution K)) × Logged (Session ν))
    (incumbent : Prop) (read : Except Fault (Solution K)) : Prop where
  found : incumbent →
    run.2.state.status = .symbol (.status .feasible) ∧ run.1 = read.map some
  spent : ¬ incumbent →
    run.2.state.status = .symbol (.status .timeLimit) ∧ run.1 = .ok none

end Session

end Milp
