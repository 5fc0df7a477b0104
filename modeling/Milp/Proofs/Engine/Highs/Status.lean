import Milp.Proofs.Engine.Highs.Course
import Milp.Proofs.Engine.Status
import Milp.Proofs.Fault.Forms

/-!
# The status that HiGHS leaves

The answer of `Highs.solve` and its status are `Coherent`, with any reply of HiGHS. A limit with a
feasible primal solution counts as feasible, and any other limit as one of time.
-/

namespace Milp.Highs

open Milp.Action Milp.Session

variable {K : Type} [Numeric K] {engine : Engine K} {hooks : Hooks (Columnwise K)} {solver : Solver}
  {p : Problem} {reply : Reply K}

/-- `Engine.run` raises nothing that is taken for a failure. -/
def Engine.Harmless (engine : Engine K) : Prop :=
  ∀ m, BreaksBy (fun f => f.cls ≠ .engine) (engine.run m)

omit [Numeric K] in
theorem status?_ne_error : reply.status? ≠ some .error := by
  unfold Reply.status?
  rcases reply with ⟨_, status, _, primal, _, _, _, _, _⟩
  cases status <;> simp [ModelStatus.outcome?]
  all_goals split <;> simp

theorem covers_of_readSolution {s : Solution K} (h : readSolution p p.index reply = .ok s) :
    s.Covers p.toDeclarations := by
  unfold readSolution at h
  obtain ⟨_, -, h⟩ := bind_eq_ok.mp h
  dsimp only at h
  split at h
  · obtain ⟨_, -, h⟩ := bind_eq_ok.mp h
    exact Solution.covers_of_extract_enterDuals h
  · obtain ⟨_, -, h⟩ := bind_eq_ok.mp h
    exact Solution.covers_of_extract_enterDuals h

theorem contained_readSolution [Numeric.Contained K] (h : p.WellFormed) :
    Contained (readSolution p p.index reply) := by
  have constraints : Contained (p.constraints.toList "name") := by
    simp [Series.toList, h.complete]
  have values (xs : List (Reported K)) :
      Contained (p.index.values xs fun _ => .indexOutOfRange "list") :=
    contained_values _ xs fun _ => trivial
  have duals : Contained (duals p p.index reply) := by
    simp [duals, constraints, values]
  simp [readSolution, duals, values]

theorem reporting_takeReply [Numeric.Contained K] (h : p.WellFormed) :
    Reporting (takeReply solver p reply) := by
  unfold takeReply
  refine Reporting.when (reporting_fail _ _) fun _ => ?_
  split
  · exact reporting_fail _ _
  · rename_i status hs
    have known : status ≠ .error := fun he => status?_ne_error (he ▸ hs)
    exact reporting_answer known (contained_readSolution h)

theorem concludes_answered : Concludes p.toDeclarations (match reply.status? with
    | none => fail solver.name (.highsState reply.description)
    | some status => answer status (.engine .highs) ("HiGHS finished with status " ++ status.word)
        (readSolution p p.index reply) : Action (Session (Call K)) (Option (Solution K))) := by
  split
  · exact concludes_fail _ _
  · rename_i status hs
    have known : status ≠ .error := fun he => status?_ne_error (he ▸ hs)
    exact concludes_answer known fun _ => covers_of_readSolution

theorem concludes_takeReply : Concludes p.toDeclarations (takeReply solver p reply) := by
  unfold takeReply
  dsimp only
  split
  · exact Concludes.bind fun _ => concludes_answered
  · exact concludes_answered

omit [Numeric K] in
theorem reporting_setOption (name value : Value) : Reporting (setOption engine name value) := by
  refine (reporting_tell _).bind fun _ => ?_
  split
  · exact reporting_note _ _ _
  · exact reporting_pure _

theorem reporting_present [Numeric.Contained K] (h : p.WellFormed)
    (quiet : Session.Harmless hooks) :
    Reporting (present engine hooks solver p) := by
  unfold present
  refine (reporting_freeze _ _).bind fun settings =>
    (reporting_setStatus (by simp)).bind fun _ => ?_
  refine (reporting_ofContained (contained_columnwise h)).bind fun model => ?_
  refine Reporting.bind ?_ fun _ => (reporting_tell _).bind fun _ => ?_
  · have told (o : String × Value) :
        Reporting (Session.tell (.option o.1 o.2) : Action (Session (Call K)) Unit) :=
      reporting_tell _
    have set (o : Value × Value) : Reporting (setOption engine o.1 o.2) :=
      reporting_setOption o.1 o.2
    refine (reporting_forM told _).bind fun _ => Reporting.when ?_ fun _ => ?_
    · exact reporting_note _ _ _
    · exact reporting_forM set _
  · refine Reporting.when (reporting_fail _ _) fun _ => ?_
    refine (reporting_runHooks quiet _ _ _ _).bind fun model => ?_
    exact (reporting_ofContained (contained_length h)).bind fun _ =>
      (reporting_note _ _ _).bind fun _ => reporting_pure _

/-- The answer of `Highs.solve` and its status are `Coherent`. -/
theorem coherent_solve [Numeric.Contained K] (h : p.WellFormed) (harmless : engine.Harmless)
    (quiet : Session.Harmless hooks) (fresh : solver.lastStatus = .none) :
    Coherent p.toDeclarations ((solve engine hooks solver p).perform (.start solver)) := by
  rw [solve_eq]
  refine coherent_perform ?_ ?_ fresh
  · refine (reporting_present h quiet).bind fun m => (reporting_tell _).bind fun _ => ?_
    exact (reporting_ofExcept (harmless m)).bind fun _ => reporting_takeReply h
  · exact Concludes.bind fun _ => Concludes.bind fun _ => Concludes.bind fun _ =>
      concludes_takeReply

/-- A limit is `Limited`: it counts as feasible if and only if HiGHS has a feasible primal
solution. -/
theorem limited_solve (succeeded : reply.failed = false)
    (limit : reply.modelStatus.outcome? = some .timeLimit)
    (replied : Replied engine
      ((solve engine hooks solver p).perform (.start solver)).2.state.tellings reply) :
    Limited ((solve engine hooks solver p).perform (.start solver))
      (reply.primalStatus.same (.int 2) = true) (readSolution p p.index reply) := by
  obtain ⟨m, s, -, course⟩ := exists_of_replied replied
  rw [course]
  constructor
  · intro incumbent
    have status : reply.status? = some .feasible := by
      simp [Reply.status?, limit, incumbent]
    obtain ⟨log, taken⟩ := runOn_takeReply succeeded status
      ⟨{ s.state with events := s.state.events ++ [.told (.run m)] }, s.log⟩
    rw [taken]
    exact ⟨rfl, rfl⟩
  · intro none
    have status : reply.status? = some .timeLimit := by
      simp [Reply.status?, limit, none]
    obtain ⟨log, taken⟩ := runOn_takeReply succeeded status
      ⟨{ s.state with events := s.state.events ++ [.told (.run m)] }, s.log⟩
    rw [taken]
    exact ⟨rfl, rfl⟩

end Milp.Highs
