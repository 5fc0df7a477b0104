import Milp.Proofs.Engine.Scipy.Replied
import Milp.Proofs.Engine.Scipy.Reply
import Milp.Proofs.Engine.Status
import Milp.Proofs.Fault.Forms

/-!
# The status that SciPy leaves

The answer of `Scipy.solve` and its status are `Coherent`, with any reply of SciPy. A limit with
values counts as feasible, and any other limit as one of time.
-/

namespace Milp.Scipy

open Milp.Action Milp.Session

variable {K : Type} [Numeric K] {engine : Engine K} {hooks : Hooks (Ranged K)} {solver : Solver}
  {p : Problem} {m : Ranged K} {reply : Reply K}

theorem outcome?_ne_error (code : Value) : outcome? code ≠ some .error := by
  unfold outcome?
  split
  · split_ifs <;> simp
  · simp

theorem classify_ne_error (code : Value) (hasValues : Bool) :
    classify code hasValues ≠ .ok .error := by
  intro h
  obtain ⟨_, -, h⟩ := bind_eq_ok.mp h
  split at h
  · cases h
  · cases hasValues <;> cases h
  · rename_i status _ known
    obtain rfl := Except.ok.inj h
    exact outcome?_ne_error code known

theorem covers_of_readSolution {a : Answer K} {s : Solution K}
    (h : readSolution p p.index m a = .ok s) : s.Covers p.toDeclarations := by
  rw [readSolution_eq] at h
  obtain ⟨_, -, h⟩ := bind_eq_ok.mp h
  split at h
  · cases h
  · obtain ⟨_, -, h⟩ := bind_eq_ok.mp h
    obtain ⟨x, hx, h⟩ := bind_eq_ok.mp h
    obtain rfl := Except.ok.inj h
    exact (Solution.covers_of_extract hx).1

theorem contained_readSolution (a : Answer K) : Contained (readSolution p p.index m a) := by
  have objective : Contained (readObjective p m a.reply) := by
    unfold readObjective
    split
    · cases a.reply.objective with
      | none => exact breaksBy_pure _
      | some y => cases m.maximize <;> simp [contained_reported_neg]
    · exact breaksBy_pure _
  rw [readSolution_eq]
  refine objective.bind fun o => ?_
  split
  · exact breaksBy_throw.mpr trivial
  · refine BreaksBy.bind ?_ fun _ => by simp
    exact contained_values _ _ fun _ => trivial

/-! ## Marginals -/

section

omit [Numeric K]

theorem contained_fit (size : Nat) (ys : List K) : Contained (fit size ys) := by
  unfold fit
  split
  · exact breaksBy_ok _
  · split <;> simp [Fault.Internal]

end

omit [Numeric K] in
theorem contained_checkPlaces (size : Nat) (places : List Nat) :
    Contained (Ranged.checkPlaces size places) := by
  unfold Ranged.checkPlaces
  split
  · exact breaksBy_throw.mpr trivial
  · exact breaksBy_ok _

omit [Numeric K] in
theorem contained_checkRows (rows : List Nat) : Contained (m.checkRows rows) := by
  unfold Ranged.checkRows
  split
  · exact breaksBy_throw.mpr trivial
  · exact breaksBy_ok _

omit [Numeric K] in
theorem contained_stretched : Contained m.stretched := by
  unfold Ranged.stretched
  split
  · exact breaksBy_ok _
  · exact breaksBy_ok _
  · split
    · exact breaksBy_ok _
    · exact breaksBy_throw.mpr trivial

/-- Sides that do not match are found out by the library, not by SciPy. -/
theorem contained_matched : Contained (matched m) := by
  unfold matched Ranged.aligned
  split
  · exact breaksBy_ok _
  · refine contained_stretched.bind fun _ => ?_
    refine (contained_checkRows _).bind fun _ => (contained_checkRows _).bind fun _ => ?_
    refine (contained_checkPlaces _ _).bind fun _ => (contained_checkPlaces _ _).bind fun _ => ?_
    refine (contained_checkRows _).bind fun _ => (contained_checkPlaces _ _).bind fun _ => ?_
    exact breaksBy_pure _

theorem contained_addTo (rows : List Nat) (xs ys : List K) : Contained (addTo rows xs ys) :=
  (contained_checkPlaces _ _).bind fun _ => by simp [contained_fit]

theorem contained_addPresent (ys : Option (List K)) (xs : List K) :
    Contained (addPresent ys xs) := by
  cases ys <;> simp [addPresent, contained_fit]

theorem contained_duals (h : p.WellFormed) : Contained (duals p p.index m reply) := by
  have constraints : Contained (p.constraints.toList "name") := by
    simp [Series.toList, h.complete]
  have rows (size : Nat) : Contained (rowDuals size m reply) := by
    unfold rowDuals
    dsimp only
    split <;> split <;> simp [contained_addTo]
  have columns (size : Nat) : Contained (columnDuals size reply) := by
    simp [columnDuals, contained_addPresent]
  refine constraints.bind fun cs => (rows _).bind fun _ => (columns _).bind fun ys => ?_
  refine BreaksBy.bind ?_ fun _ => contained_collect _
  exact contained_values _ _ fun _ => trivial

/-! ## Solves -/

/-- SciPy raises nothing that is taken for a failure. -/
def Harmless (engine : Engine K) : Prop :=
  ∀ c, BreaksBy (fun f => f.cls ≠ .engine) (engine c)

omit [Numeric K] in
/-- Faults that are reported as a failure, or passed on when they are one, are confessed. -/
theorem reporting_guarded {ν α : Type} {name : Value} {a : Action (Session ν) α}
    (same : Keeps SameStatus a) (raises : Raises Fault.Genuine a) :
    Reporting (guarded name a) := by
  refine reporting_tryCatch same raises fun f s sort before => ?_
  split
  · exact failureReported_error.mpr ⟨fun _ => rfl, fun _ => rfl⟩
  · rename_i engine
    exact failureReported_error.mpr ⟨fun _ => sort engine, fun _ => rfl⟩
  · rename_i other
    refine failureReported_error.mpr ⟨fun failed => absurd failed before, fun failure => ?_⟩
    exact absurd failure (Fault.not_isFailure_of_cls other)

omit [Numeric K] in
theorem runOn_of_guarded {ν α : Type} {name : Value} {a : Action (Session ν) α} {x : α}
    {s s' : Logged (Session ν)} (h : (guarded name a).runOn s = (.ok x, s')) :
    a.runOn s = (.ok x, s') := by
  unfold guarded at h
  rw [runOn_tryCatch] at h
  rcases ended : a.runOn s with ⟨f | y, t⟩ <;> rw [ended] at h
  · dsimp only at h
    split at h <;> cases congrArg Prod.fst h
  · exact h

theorem raises_ask (h : p.WellFormed) (harmless : Harmless engine) :
    Raises Fault.Genuine (ask engine p p.index m) := by
  refine (raises_ofExcept (contained_matched.imp fun _ => Fault.Internal.genuine)).bind fun m => ?_
  refine (raises_update _).bind fun _ => ?_
  refine (raises_ofExcept ?_).bind fun r => (raises_ofExcept ?_).bind fun status => ?_
  · exact (harmless _).imp fun _ => Fault.genuine_of_cls
  · refine ((contained_checkKey _).imp fun _ => Fault.Internal.genuine).bind fun _ => ?_
    split
    · exact breaksBy_throw.mpr fun _ => rfl
    · exact breaksBy_pure _
    · exact breaksBy_pure _
  · split
    · exact raises_pure _
    · exact (raises_ofExcept ((contained_duals h).imp fun _ => Fault.Internal.genuine)).bind fun _ =>
        raises_pure _

theorem keeps_ask : Keeps SameStatus (ask engine p p.index m) := by
  refine (keeps_ofExcept _).bind fun m => Keeps.bind (keeps_update fun _ => ?_) fun _ => ?_
  · rfl
  refine (keeps_ofExcept _).bind fun r => (keeps_ofExcept _).bind fun status => ?_
  split
  · exact keeps_pure _
  · exact (keeps_ofExcept _).bind fun _ => keeps_pure _

omit [Numeric K] in
theorem reporting_options (s : Settings) (mixed : Bool) :
    Reporting (options s mixed : Action (Session (Call K)) (Table Value)) := by
  refine reporting_of_keeps (fun t => ?_) fun t => ?_
  · obtain ⟨opts, log, noted⟩ := runOn_options s mixed t
    rw [noted]
    rfl
  · obtain ⟨opts, log, noted⟩ := runOn_options s mixed t
    rw [noted]
    exact breaksBy_ok opts

theorem reporting_present [Numeric.Contained K] (h : p.WellFormed)
    (quiet : Session.Harmless hooks) :
    Reporting (present hooks solver p) := by
  unfold present
  refine (reporting_freeze _ _).bind fun settings =>
    (reporting_setStatus (by simp)).bind fun _ => ?_
  refine (reporting_ofContained (contained_ranged h)).bind fun model => ?_
  exact (reporting_options settings _).bind fun _ => reporting_runHooks quiet _ _ _ _

theorem statusWithoutVariables_ne_error : p.statusWithoutVariables K ≠ .ok .error := by
  intro h
  obtain ⟨hold, -, h⟩ := bind_eq_ok.mp h
  cases hold <;> cases h

theorem solveEmpty_eq :
    (solveEmpty p : Action (Session (Call K)) (Option (Solution K))) = (do
      let status ← .ofExcept (p.statusWithoutVariables K)
      answer status (.engine .scipy) ("Problem has no variables; status " ++ status.word)
        (Solution.ofNothing K p.toDeclarations)) := rfl

theorem conclude_eq (a : Answer K) : conclude p m a =
    answer a.status (.engine .scipy) ("SciPy finished with status " ++ a.status.word)
      (readSolution p p.index m a) := rfl

theorem status_of_ask {a : Answer K} {s s' : Logged (Session (Call K))}
    (h : (guarded solver.name (ask engine p p.index m)).runOn s = (.ok a, s')) :
    a.status ≠ .error := by
  rintro failed
  have asked := runOn_of_guarded h
  obtain ⟨_, _, -, asked⟩ := runOn_bind_eq_ok.mp asked
  obtain ⟨_, _, -, asked⟩ := runOn_bind_eq_ok.mp asked
  obtain ⟨r, _, -, asked⟩ := runOn_bind_eq_ok.mp asked
  obtain ⟨status, _, classified, asked⟩ := runOn_bind_eq_ok.mp asked
  have known : status ≠ .error := by
    rintro rfl
    exact classify_ne_error _ _ (congrArg Prod.fst classified)
  split at asked
  · obtain ⟨ended, -⟩ := Prod.mk.inj asked
    obtain rfl := Except.ok.inj ended
    exact known failed
  · obtain ⟨_, _, -, asked⟩ := runOn_bind_eq_ok.mp asked
    obtain ⟨ended, -⟩ := Prod.mk.inj asked
    obtain rfl := Except.ok.inj ended
    exact known failed

/-- The answer of `Scipy.solve` and its status are `Coherent`. -/
theorem coherent_solve [Numeric.Contained K] (h : p.WellFormed) (harmless : Harmless engine)
    (quiet : Session.Harmless hooks) (fresh : solver.lastStatus = .none) :
    Coherent p.toDeclarations ((solve engine hooks solver p).perform (.start solver)) := by
  have known {status : Status} {s s' : Logged (Session (Call K))}
      (h : (Action.ofExcept (p.statusWithoutVariables K)).runOn s = (.ok status, s')) :
      status ≠ .error := by
    rintro rfl
    exact statusWithoutVariables_ne_error (congrArg Prod.fst h)
  rw [solve_eq]
  refine coherent_perform ((reporting_present h quiet).bind fun m => ?_)
    (Concludes.bind fun m => ?_) fresh
  · split
    · rw [solveEmpty_eq]
      refine (reporting_ofContained (contained_statusWithoutVariables h)).bind_of_ok
        fun status s s' hs => reporting_answer (known hs) (contained_ofNothing _)
    · refine (reporting_guarded keeps_ask (raises_ask h harmless)).bind_of_ok fun a s s' ha => ?_
      exact reporting_answer (status_of_ask ha) (contained_readSolution a)
  · split
    · rw [solveEmpty_eq]
      refine Concludes.bind_of_ok fun status s s' hs => concludes_answer (known hs) fun x hx => ?_
      exact (Solution.covers_of_extract hx).1
    · refine Concludes.bind_of_ok fun a s s' ha => ?_
      exact concludes_answer (status_of_ask ha) fun _ => covers_of_readSolution

/-! ## Limits -/

/-- These are the duals that go with a reply which gives values: none in the mixed form. -/
def Collects (p : Problem) (m : Ranged K) (r : Reply K) (d : Table K) : Prop :=
  (m.isMixed = true ∧ d = .empty) ∨ (m.isMixed = false ∧ duals p p.index m r = .ok d)

omit [Numeric K] in
theorem checkKey_of_outcome? {code : Value} {status : Status} (h : outcome? code = some status) :
    code.checkKey = .ok () := by
  unfold outcome? at h
  split at h
  · rename_i q number
    exact checkKey_of_key_number number
  · cases h

omit [Numeric K] in
theorem classify_of_limit {code : Value} (h : outcome? code = some .timeLimit)
    (hasValues : Bool) :
    classify code hasValues = .ok (if hasValues then .feasible else .timeLimit) := by
  unfold classify
  rw [checkKey_of_outcome? h, h]
  rfl

theorem runOn_takeReply {status : Status} {d : Table K} (replied : engine (callOf m) = .ok reply)
    (classified : classify reply.code reply.values.isSome = .ok status)
    (collects : (status.hasSolution = false ∧ d = .empty) ∨
      (status.hasSolution = true ∧ Collects p m reply d))
    (s : Logged (Session (Call K))) :
    (guarded solver.name (takeReply engine p m)).runOn s = (.ok ⟨status, reply, d⟩, s) := by
  refine runOn_guarded ?_
  unfold takeReply
  rw [runOn_bind, runOn_ofExcept, replied]
  dsimp only
  rw [runOn_bind, runOn_ofExcept, classified]
  dsimp only
  rcases collects with ⟨unsolved, rfl⟩ | ⟨solved, ⟨mixed, rfl⟩ | ⟨linear, made⟩⟩
  · rw [if_pos (by simp [unsolved])]
    rfl
  · rw [if_pos (by simp [mixed])]
    rfl
  · rw [if_neg (by simp [solved, linear]), runOn_bind, runOn_ofExcept, made]
    rfl

/-- A limit is `Limited`: it counts as feasible if and only if SciPy gives values, where the duals
that go with them can be collected (`Collects`). -/
theorem limited_solve (limit : outcome? reply.code = some .timeLimit)
    (replied : Replied engine
      ((solve engine hooks solver p).perform (.start solver)).2.state.tellings reply) :
    ∃ m, callOf m ∈ ((solve engine hooks solver p).perform (.start solver)).2.state.tellings ∧
      engine (callOf m) = .ok reply ∧ ∀ d, (reply.values.isSome = true → Collects p m reply d) →
        Limited ((solve engine hooks solver p).perform (.start solver))
          (reply.values.isSome = true) (readSolution p p.index m ⟨.feasible, reply, d⟩) := by
  obtain ⟨_, m, s, -, -, -, told, course⟩ := exists_of_replied replied
  rw [course]
  refine ⟨m, ?_, told, fun d collects => ?_⟩
  · rw [tellings, keeps_answer engine solver p m _, asked, List.filterMap_append]
    simp
  rw [runOn_bind]
  constructor
  · intro values
    have classified : classify reply.code reply.values.isSome = .ok .feasible := by
      rw [classify_of_limit limit, values]
      rfl
    rw [runOn_takeReply told classified (.inr ⟨rfl, collects values⟩)]
    dsimp only
    rw [conclude_eq, runOn_answer]
    exact ⟨rfl, rfl⟩
  · intro absent
    have classified : classify reply.code reply.values.isSome = .ok .timeLimit := by
      rw [classify_of_limit limit, if_neg absent]
    rw [runOn_takeReply told classified (.inl ⟨rfl, rfl⟩)]
    dsimp only
    rw [conclude_eq, runOn_answer]
    exact ⟨rfl, rfl⟩

end Milp.Scipy
