import Milp.Proofs.Engine.Gurobi.Course
import Milp.Proofs.Engine.Status
import Milp.Proofs.Fault.Forms

/-!
# The status that Gurobi leaves

The answer of `Gurobi.solve` and its status are `Coherent`, with any reply of Gurobi and wherever it
breaks off. A limit with solutions counts as feasible, and any other limit as one of time.
-/

namespace Milp.Gurobi

open Milp.Action Milp.Session

variable {K : Type} [Numeric K] {engine : Engine K} {hooks : Hooks (Incremental K)}
  {solver : Solver} {p : Problem} {reply : Reply K}

/-- No stage raises what is taken for a failure; a fault of the engine's own is none yet. -/
def Engine.Harmless (engine : Engine K) : Prop :=
  ∀ s f, engine.breaksOff s = some f → f.cls ≠ .engine

theorem outcome?_ne_error (code : Value) : outcome? code ≠ some .error := by
  unfold outcome?
  split <;> simp

omit [Numeric K] in
theorem status?_ne_error : reply.status? ≠ .ok (some .error) := by
  intro h
  obtain ⟨_, -, h⟩ := bind_eq_ok.mp h
  split at h
  · obtain ⟨found, -, h⟩ := bind_eq_ok.mp h
    cases found <;> cases h
  · exact outcome?_ne_error _ (Except.ok.inj h)

omit [Numeric K] in
theorem contained_status? : Contained reply.status? := by
  refine (contained_checkKey _).bind fun _ => ?_
  split <;> simp

/-! ## Stages -/

omit [Numeric K] in
/-- What Gurobi is told and may break off at once, as it does at a stage. -/
theorem reporting_told (harmless : engine.Harmless) (x : Call K) (s : Stage) :
    Reporting (do
      tell x
      match engine.breaksOff s with
      | some f => throw f
      | none => pure () : Action (Session (Call K)) Unit) := by
  refine (reporting_tell _).bind fun _ => ?_
  split
  · rename_i f broken
    exact reporting_throw (harmless _ f broken)
  · exact reporting_pure _

omit [Numeric K] in
theorem reporting_stage (harmless : engine.Harmless) (s : Stage) : Reporting (stage engine s) :=
  reporting_told harmless (.stage s) s

omit [Numeric K] in
theorem reporting_setParameter (harmless : engine.Harmless) (target : Target) (name : String)
    (value : Value) : Reporting (setParameter engine target name value) :=
  reporting_told harmless (.set target name value) (.parameter name)

omit [Numeric K] in
theorem reporting_configure (harmless : engine.Harmless) (s : Settings) :
    Reporting (configure engine s) := by
  have general (o : String × Value) : Reporting (setParameter engine .model o.1 o.2) :=
    reporting_setParameter harmless _ _ _
  have own (o : Value × Value) : Reporting (setParameter engine .model o.1.asText o.2) :=
    reporting_setParameter harmless _ _ _
  refine (reporting_forM general _).bind fun _ => Reporting.when ?_ fun _ => ?_
  · exact reporting_note _ _ _
  · exact reporting_forM own _

theorem reporting_build [Numeric.Contained K] (h : p.WellFormed) (harmless : engine.Harmless) :
    Reporting (build engine p p.index) := by
  unfold build
  refine Reporting.bind (reporting_mapM_of_mem fun e _ => ?_) fun _ => ?_
  · exact (reporting_ofContained (contained_variableOf p e)).bind fun _ =>
      (reporting_tell _).bind fun _ => reporting_pure _
  refine Reporting.bind (reporting_mapM_of_mem fun c hc => ?_) fun _ => ?_
  · exact (reporting_ofContained (contained_rowOf h hc)).bind fun _ =>
      (reporting_tell _).bind fun _ => reporting_pure _
  refine (reporting_ofContained (breaksBy_finish h.complete)).bind fun _ => ?_
  have updated (m : Incremental K) : Reporting (do
      stage engine .update
      return m) := (reporting_stage harmless _).bind fun _ => reporting_pure _
  split
  · exact (reporting_pure _).bind fun _ => updated _
  · rename_i o ho
    obtain ⟨l, rfl, -⟩ := h.objective o ho
    exact (reporting_ofContained (contained_termsOf p.index l)).bind fun _ =>
      (reporting_tell _).bind fun _ => (reporting_pure _).bind fun _ => updated _

/-! ## Opening and closing -/

omit [Numeric K] in
theorem Reporting.closing {α : Type} {a : Action (Session (Call K)) α} (ha : Reporting a)
    (x : Call K) :
    Reporting (Gurobi.closing a (tell x)) := by
  intro s before
  rw [runOn_closing]
  exact ha s before

omit [Numeric K] in
/-- A fault of the engine's own is reported as a failure, and no other is. -/
theorem Reporting.handled {α : Type} {a : Action (Session (Call K)) α} (ha : Reporting a)
    (name : Value) : Reporting (tryCatch a fun f =>
      if isOwn f then fail name (.gurobiRun f) else throw f) := by
  refine ha.tryCatch fun f s told => ?_
  split
  · exact failureReported_error.mpr ⟨fun _ => rfl, fun _ => rfl⟩
  · exact failureReported_error.mpr told

omit [Numeric K] in
theorem Concludes.closing {d : Declarations}
    {a : Action (Session (Call K)) (Option (Solution K))} (ha : Concludes d a) (x : Call K) :
    Concludes d (Gurobi.closing a (tell x)) := by
  intro s answer s' h
  rw [runOn_closing] at h
  obtain ⟨ended, rfl⟩ := Prod.mk.inj h
  exact ha s answer (a.runOn s).2 (Prod.ext ended rfl)

/-! ## Replies -/

theorem covers_of_readSolution {s : Solution K} (h : readSolution p reply = .ok s) :
    s.Covers p.toDeclarations := by
  unfold readSolution at h
  dsimp only at h
  split at h
  · exact Solution.covers_of_extract_enterDuals h
  · obtain ⟨_, -, h⟩ := bind_eq_ok.mp h
    exact Solution.covers_of_extract_enterDuals h

theorem contained_readSolution [Numeric.Contained K] : Contained (readSolution p reply) := by
  have duals : Contained (duals p p.index reply) := by simp [Gurobi.duals]
  unfold readSolution
  dsimp only
  split <;> simp [duals]

/-- Reading a reply fails, or sets the status with the solution that is read. -/
theorem readReply_eq (name : Value) : readReply name p p.index reply = (do
    match ← .ofExcept reply.status? with
    | none => fail name (.gurobiCode reply.code)
    | some status =>
      answer status (.engine .gurobi) ("Gurobi finished with status " ++ status.word)
        (readSolution p reply)) := by
  refine funext fun s => ?_
  change (readReply name p p.index reply).runOn s = Action.runOn _ s
  rw [runOn_bind, runOn_ofExcept]
  rcases hs : reply.status? with f | _ | status
  · unfold readReply
    rw [runOn_bind, runOn_ofExcept, hs]
  · unfold readReply
    rw [runOn_bind, runOn_ofExcept, hs]
  · rw [runOn_readReply name hs]
    exact (runOn_answer _ _ _ _ s).symm

theorem reporting_readReply [Numeric.Contained K] (name : Value) :
    Reporting (readReply name p p.index reply) := by
  rw [readReply_eq]
  refine (reporting_ofContained contained_status?).bind_of_ok fun status? s s' hs => ?_
  split
  · exact reporting_fail _ _
  · rename_i status
    have known : status ≠ .error := by
      rintro rfl
      exact status?_ne_error (congrArg Prod.fst hs)
    exact reporting_answer known contained_readSolution

theorem concludes_readReply (name : Value) :
    Concludes p.toDeclarations (readReply name p p.index reply) := by
  rw [readReply_eq]
  refine Concludes.bind_of_ok fun status? s s' hs => ?_
  split
  · exact concludes_fail _ _
  · rename_i status
    have known : status ≠ .error := by
      rintro rfl
      exact status?_ne_error (congrArg Prod.fst hs)
    exact concludes_answer known fun _ => covers_of_readSolution

/-! ## Solves -/

/-- The answer of `Gurobi.solve` and its status are `Coherent`. -/
theorem coherent_solve [Numeric.Contained K] (h : p.WellFormed) (harmless : engine.Harmless)
    (quiet : Session.Harmless hooks) (fresh : solver.lastStatus = .none) :
    Coherent p.toDeclarations ((solve engine hooks solver p).perform (.start solver)) := by
  rw [solve_eq]
  refine coherent_perform ?_ ?_ fresh
  · refine (reporting_freeze _ _).bind fun settings =>
      (reporting_setStatus (by simp)).bind fun _ => ?_
    have opened : Reporting (openBoth engine settings) :=
      (reporting_setParameter harmless _ _ _).bind fun _ =>
        (reporting_stage harmless _).bind fun _ => reporting_stage harmless _
    have filled : Reporting (fill engine hooks solver settings p) :=
      (reporting_build h harmless).bind fun _ =>
        (reporting_configure harmless settings).bind fun _ =>
        reporting_runHooks quiet _ _ _ _
    have optimized (m : Incremental K) : Reporting (optimize engine solver p m) :=
      (reporting_stage harmless _).bind fun _ => reporting_readReply _
    refine Reporting.handled ((reporting_stage harmless _).bind fun _ => ?_) _
    exact Reporting.closing (opened.bind fun _ => Reporting.closing (filled.bind optimized) _) _
  · refine Concludes.bind fun settings => Concludes.bind fun _ => Concludes.tryCatch ?_ fun f => ?_
    · have optimized (m : Incremental K) :
          Concludes p.toDeclarations (optimize engine solver p m) :=
        Concludes.bind fun _ => concludes_readReply _
      refine Concludes.bind fun _ => Concludes.closing (Concludes.bind fun _ => ?_) _
      exact Concludes.closing (Concludes.bind optimized) _
    · split
      · exact concludes_fail _ _
      · exact concludes_throw _

omit [Numeric K] in
theorem status?_of_limit (limit : outcome? reply.code = some .timeLimit) {found : Bool}
    (count : reply.solutions.isAbove (.int 0) = .ok found) :
    reply.status? = .ok (some (if found then .feasible else .timeLimit)) := by
  have hashable : reply.code.checkKey = .ok () := by
    cases key : reply.code.key with
    | number q => exact checkKey_of_key_number key
    | _ => simp [outcome?, wholeCode?, key] at limit
  refine bind_eq_ok.mpr ⟨(), hashable, ?_⟩
  rw [limit]
  exact bind_eq_ok.mpr ⟨found, count, rfl⟩

/-- A limit is `Limited`: it counts as feasible if and only if Gurobi has found a solution. -/
theorem limited_solve [Numeric.Contained K] (limit : outcome? reply.code = some .timeLimit)
    {found : Bool} (count : reply.solutions.isAbove (.int 0) = .ok found)
    (replied : Replied engine
      ((solve engine hooks solver p).perform (.start solver)).2.state.tellings reply) :
    Limited ((solve engine hooks solver p).perform (.start solver)) (found = true)
      (readSolution p reply) := by
  obtain ⟨m, s, -, course⟩ := exists_of_replied replied
  rw [course, runOn_readReply _ (status?_of_limit limit count)]
  constructor
  · rintro rfl
    cases read : readSolution p reply with
    | ok x => exact ⟨rfl, rfl⟩
    | error f =>
        have foreign : isOwn f = false := by
          have internal : f.Internal := contained_readSolution f read
          cases f with
          | raised => exact internal.elim
          | _ => rfl
        simp [settle, Except.map, Status.hasSolution, foreign, closed]
  · intro none
    obtain rfl : found = false := Bool.not_eq_true _ ▸ none
    exact ⟨rfl, rfl⟩

end Milp.Gurobi
