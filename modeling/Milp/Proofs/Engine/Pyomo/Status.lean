import Milp.Proofs.Engine.Pyomo.Course
import Milp.Proofs.Engine.Status
import Milp.Proofs.Fault.Forms

/-!
# The status that a plugin leaves

The answer of `Pyomo.solve` and its status are `Coherent`, with any reply of a plugin and wherever
it breaks off. That there is no plugin to use is no failure of one.
-/

namespace Milp.Pyomo

open Milp.Action Milp.Session

variable {K : Type} [Numeric K] {value : K → Value} {env : Environment} {engine : Engine K}
  {hooks : Hooks (Symbolic K)} {solver : Solver} {p : Problem} {reply : Reply K}

/-- A plugin raises nothing that is taken for a failure; one of the program behind it is none yet. -/
structure Engine.Harmless (engine : Engine K) : Prop where
  available : ∀ v, BreaksBy (fun f => f.cls ≠ .engine) (engine.available v)
  solve : ∀ m, BreaksBy (fun f => f.cls ≠ .engine) (engine.solve m)

omit [Numeric K] in
theorem status?_ne_error : reply.status? ≠ some .error := by
  unfold Reply.status?
  rcases reply with ⟨condition, solutions, _, _⟩
  cases condition <;> simp [Condition.outcome?]
  all_goals split <;> simp

/-! ## Finding a plugin -/

section

variable {ν : Type}

theorem reporting_askPlugin (env : Environment) (name : String) :
    Reporting (Discovery.askPlugin env name : Action (Session ν) Bool) := by
  unfold Discovery.askPlugin
  split
  · exact reporting_pure _
  · split
    · exact (reporting_note _ _ _).bind fun _ => reporting_pure _
    · rename_i other
      exact reporting_throw fun engine => other (by simp [engine])

theorem reporting_usable (env : Environment) :
    Reporting (Discovery.usable env : Action (Session ν) (List String)) := by
  refine reporting_foldlM (fun found e => Reporting.bind ?_ fun usable => ?_) _ _
  · unfold Discovery.isUsable
    split
    · exact reporting_pure _
    · split
      · exact reporting_pure _
      · exact reporting_askPlugin _ _
  · split <;> exact reporting_pure _

theorem reporting_pluginName (env : Environment) (name : Value) :
    Reporting (Discovery.pluginName env name : Action (Session ν) Value) := by
  refine (reporting_ofContained (contained_checkKey _)).bind fun _ => ?_
  split
  · exact reporting_pure _
  · refine (reporting_askPlugin _ _).bind fun usable => ?_
    split <;> exact reporting_pure _

end

omit [Numeric K] in
theorem reporting_findPlugin (harmless : engine.Harmless) (name : Value) :
    Reporting (findPlugin env engine name) := by
  have last (asked : Environment) : Reporting (do
      let plugin ← Discovery.pluginName asked name
      Session.tell (.plugin plugin)
      if !(← .ofExcept (engine.available plugin)) then
        let usable ← Discovery.usable env
        throw (.unavailable (.notUsable name usable)) : Action (Session (Call K)) Unit) := by
    refine (reporting_pluginName _ _).bind fun plugin => (reporting_tell _).bind fun _ => ?_
    refine (reporting_ofExcept (harmless.available plugin)).bind fun usable => ?_
    split
    · exact (reporting_usable _).bind fun _ => reporting_unavailable _
    · exact reporting_pure _
  unfold findPlugin
  split
  · exact (reporting_tell _).bind fun _ => last _
  · exact (reporting_pure _).bind fun _ => last _

omit [Numeric K] in
theorem reporting_configure (settings : Settings) :
    Reporting (configure settings : Action (Session (Call K)) Unit) := by
  have told (o : Value × Value) :
      Reporting (Session.tell (.option o.1.asText o.2) : Action (Session (Call K)) Unit) :=
    reporting_tell _
  unfold configure
  refine (reporting_forM told _).bind fun _ => ?_
  split
  · exact reporting_note _ _ _
  · exact reporting_pure _

/-! ## Replies -/

theorem covers_of_readSolution {m : Symbolic K} {read : PluginModel K} {s : Solution K}
    (h : readSolution value p p.index m read reply = .ok s) : s.Covers p.toDeclarations := by
  obtain ⟨_, -, h⟩ := bind_eq_ok.mp h
  obtain ⟨_, -, h⟩ := bind_eq_ok.mp h
  obtain ⟨_, -, h⟩ := bind_eq_ok.mp h
  exact Solution.covers_of_extract_enterDuals h

theorem contained_readSolution [Numeric.Contained K] {m : Symbolic K} {read : PluginModel K} :
    Contained (readSolution value p p.index m read reply) := by
  have given (j : Nat) : Contained (valueOf? reply j) := by
    unfold valueOf?
    split
    · exact breaksBy_ok _
    · split <;> simp [Fault.Internal]
    · exact breaksBy_ok _
  have column (j : Nat) : Contained (columnValue read reply j) := by
    refine (given j).bind fun v => ?_
    split <;> simp [Fault.Internal]
  have duals : Contained (duals p read reply) := by
    unfold Pyomo.duals
    split <;> simp
  have asked : Contained (checkDuals read reply) := by
    unfold checkDuals
    split <;> simp [Fault.Internal]
  simp [readSolution, asked, given, column, duals]

theorem takeReply_eq (name : Value) (m : Symbolic K) (read : PluginModel K) :
    takeReply value name p m read reply =
      match reply.status? with
      | none => fail name (.pluginCondition reply.condition.name)
      | some status => answer status (.engine .pyomo)
          ("Pyomo/" ++ Phrase.plain name ++ " finished with status " ++ status.word)
          (readSolution value p p.index m read reply) := rfl

theorem reporting_takeReply [Numeric.Contained K] (name : Value) (m : Symbolic K)
    (read : PluginModel K) : Reporting (takeReply value name p m read reply) := by
  rw [takeReply_eq]
  split
  · exact reporting_fail _ _
  · rename_i status hs
    have known : status ≠ .error := fun he => status?_ne_error (he ▸ hs)
    exact reporting_answer known contained_readSolution

theorem concludes_takeReply (name : Value) (m : Symbolic K) (read : PluginModel K) :
    Concludes p.toDeclarations (takeReply value name p m read reply) := by
  rw [takeReply_eq]
  split
  · exact concludes_fail _ _
  · rename_i status hs
    have known : status ≠ .error := fun he => status?_ne_error (he ▸ hs)
    exact concludes_answer known fun _ => covers_of_readSolution

/-! ## Solves -/

theorem reporting_present [Numeric.Contained K] (h : p.WellFormed)
    (quiet : Session.Harmless hooks) :
    Reporting (present hooks solver p) := by
  unfold present
  refine (reporting_freeze _ _).bind fun settings =>
    (reporting_setStatus (by simp)).bind fun _ => ?_
  refine (reporting_ofContained (contained_symbolic h)).bind fun model => ?_
  split
  · exact reporting_pure _
  · exact (reporting_tell _).bind fun _ =>
      (reporting_runHooks quiet _ _ _ _).bind fun _ => reporting_pure _

theorem reporting_finish [Numeric.Contained K] (harmless : engine.Harmless) (name : Value)
    (m : Symbolic K) (read : PluginModel K) : Reporting (finish value engine name p m read) := by
  unfold finish
  split
  · exact reporting_takeReply _ _ _
  · rename_i f broken
    split
    · exact reporting_fail _ _
    · exact reporting_throw (harmless.solve _ f broken)

theorem concludes_finish (name : Value) (m : Symbolic K) (read : PluginModel K) :
    Concludes p.toDeclarations (finish value engine name p m read) := by
  unfold finish
  split
  · exact concludes_takeReply _ _ _
  · split
    · exact concludes_fail _ _
    · exact concludes_throw _

theorem reporting_conclude [Numeric.Contained K] (harmless : engine.Harmless) (name : Value)
    (settings : Settings) (model : Option (Symbolic K)) :
    Reporting (conclude value env engine name p settings model) := by
  cases model with
  | none => exact (reporting_setStatus (by simp)).bind fun _ => reporting_pure _
  | some m =>
      rw [conclude]
      split
      · exact (reporting_setStatus (by simp)).bind fun _ =>
          (reporting_ofContained (contained_ofNothing _)).bind fun _ => reporting_pure _
      · have prepared : Reporting (prepare env engine name settings m) :=
          (reporting_findPlugin harmless name).bind fun _ =>
            (reporting_configure settings).bind fun _ =>
            (reporting_tell _).bind fun _ => reporting_ofContained (contained_read m)
        exact prepared.bind fun _ =>
          (reporting_tell _).bind fun _ => reporting_finish harmless _ _ _

theorem concludes_conclude (name : Value) (settings : Settings) (model : Option (Symbolic K)) :
    Concludes p.toDeclarations (conclude value env engine name p settings model) := by
  cases model with
  | none =>
      rintro s answer s' ⟨⟩
      exact .inl rfl
  | some m =>
      rw [conclude]
      split
      · intro s o s' h
        obtain ⟨_, s₁, set, h⟩ := runOn_bind_eq_ok.mp h
        obtain ⟨x, s₂, extracted, h⟩ := runOn_bind_eq_ok.mp h
        obtain ⟨-, rfl⟩ := Prod.mk.inj set
        obtain ⟨read, rfl⟩ := Prod.mk.inj extracted
        obtain ⟨ended, rfl⟩ := Prod.mk.inj h
        obtain rfl := Except.ok.inj ended
        exact ⟨.inl rfl, (Solution.covers_of_extract read).1⟩
      · exact Concludes.bind fun _ => Concludes.bind fun _ => concludes_finish _ _ _

/-- The answer of `Pyomo.solve` and its status are `Coherent`. -/
theorem coherent_solve [Numeric.Contained K] (h : p.WellFormed) (harmless : engine.Harmless)
    (quiet : Session.Harmless hooks) (fresh : solver.lastStatus = .none) :
    Coherent p.toDeclarations ((solve value env engine hooks solver p).perform (.start solver)) := by
  rw [solve_eq]
  refine coherent_perform ?_ ?_ fresh
  · exact (reporting_present h quiet).bind fun m => reporting_conclude harmless _ _ _
  · exact Concludes.bind fun m => concludes_conclude _ _ _

/-- A limit is `Limited`: it counts as feasible if and only if solutions come with the reply. -/
theorem limited_solve (limit : reply.condition.outcome? = some .timeLimit)
    (replied : Replied engine
      ((solve value env engine hooks solver p).perform (.start solver)).2.state.tellings reply) :
    ∃ m read, m.read = .ok read ∧ engine.solve read = .ok reply ∧
      Limited ((solve value env engine hooks solver p).perform (.start solver))
        (0 < reply.solutions) (readSolution value p p.index m read reply) := by
  obtain ⟨_, m, read, _, s, -, hread, answer, course⟩ := exists_of_replied replied
  refine ⟨m, read, hread, answer, ?_⟩
  rw [course, takeReply_eq]
  constructor
  · intro found
    have status : reply.status? = some .feasible := by simp [Reply.status?, limit, found]
    rw [status]
    dsimp only
    rw [runOn_answer]
    exact ⟨rfl, rfl⟩
  · intro none
    have status : reply.status? = some .timeLimit := by simp [Reply.status?, limit, none]
    rw [status]
    dsimp only
    rw [runOn_answer]
    exact ⟨rfl, rfl⟩

end Milp.Pyomo
