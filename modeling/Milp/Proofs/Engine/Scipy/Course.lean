import Milp.Engine.Scipy
import Milp.Proofs.Action.Frame
import Milp.Proofs.Encoding.Ranged

/-!
# The course of a solve by SciPy

What a solve without hooks does once the model is made, step by step: SciPy is told, the reply is
classified, its duals are collected, and a solution is read off it.
-/

namespace Milp.Scipy

open Milp.Action

/-! ## Solving step by step -/

section

variable {K : Type} [Numeric K]

/-- What SciPy is told about a model. -/
def callOf (m : Ranged K) : Call K :=
  if m.isMixed then .mixed m else .linear m.split

/-- What `Scipy.solve` does with a reply. -/
def takeReply (engine : Engine K) (p : Problem) (m : Ranged K) :
    Action (Session (Call K)) (Answer K) := do
  let reply ← .ofExcept (engine (callOf m))
  let status ← .ofExcept (classify reply.code reply.values.isSome)
  if m.isMixed || !status.hasSolution then return ⟨status, reply, .empty⟩
  let duals ← .ofExcept (duals p p.index m reply)
  return ⟨status, reply, duals⟩

def conclude (p : Problem) (m : Ranged K) (a : Answer K) :
    Action (Session (Call K)) (Option (Solution K)) := do
  Session.setStatus (some a.status)
  .note .debug (.engine .scipy) ("SciPy finished with status " ++ a.status.word)
  if !a.status.hasSolution then return none
  return some (← .ofExcept (readSolution p p.index m a))

theorem aligned_of_ranged {p : Problem} {index : Index} {m : Ranged K}
    (made : p.ranged index = .ok m) : m.Aligned := by
  obtain ⟨_, -, made⟩ := bind_eq_ok.mp made
  obtain ⟨rows, hrows, made⟩ := bind_eq_ok.mp made
  obtain ⟨_, -, made⟩ := bind_eq_ok.mp made
  obtain rfl := Except.ok.inj made
  obtain ⟨_, -, hrows⟩ := bind_eq_ok.mp hrows
  obtain ⟨_, -, hrows⟩ := bind_eq_ok.mp hrows
  obtain ⟨_, -, hrows⟩ := bind_eq_ok.mp hrows
  obtain ⟨columns, numbers, hrows⟩ := bind_eq_ok.mp hrows
  obtain ⟨_, -, hrows⟩ := bind_eq_ok.mp hrows
  obtain rfl := Except.ok.inj hrows
  have count := (mapM_eq_ok.mp numbers).length_eq
  exact ⟨by simp [count], by simp [count]⟩

theorem matched_eq_ok {m : Ranged K} (h : m.Aligned) : matched m = .ok m := by
  unfold matched
  split
  · rfl
  · exact h.aligned_eq_ok

/-- Whatever is given to SciPy differs from the model in the sides of rows only. -/
theorem exists_of_matched {m m' : Ranged K} (h : matched m = .ok m') :
    ∃ lower upper, m' = { m with rowLower := lower, rowUpper := upper } := by
  unfold matched at h
  split at h
  · exact ⟨_, _, (Except.ok.inj h).symm⟩
  · exact Ranged.exists_of_aligned h

theorem ask_eq (engine : Engine K) (p : Problem) (m : Ranged K) : ask engine p p.index m = (do
    let m ← .ofExcept (matched m)
    Session.tell (callOf m)
    takeReply engine p m) := rfl

theorem runOn_options {ν : Type} (s : Settings) (mixed : Bool) (t : Logged (Session ν)) :
    ∃ opts log, (options s mixed).runOn t = (.ok opts, ⟨t.state, log⟩) := by
  unfold options
  cases s.postsolve <;> cases s.gap <;> cases s.threads <;> cases mixed <;> exact ⟨_, _, rfl⟩

variable (engine : Engine K) (hooks : Hooks (Ranged K)) (solver : Solver) (p : Problem)

variable {solver p} in
/-- A model whose rows have their sides is the one that SciPy is told about. -/
theorem runOn_guarded_ask {m : Ranged K} (h : m.Aligned) (s : Logged (Session (Call K))) :
    (guarded solver.name (ask engine p p.index m)).runOn s =
      (guarded solver.name (takeReply engine p m)).runOn
        ⟨{ s.state with events := s.state.events ++ [.told (callOf m)] }, s.log⟩ := by
  rw [ask_eq, matched_eq_ok h]
  rfl

variable {solver p} in
/-- `Scipy.solve` without hooks tells SciPy about the model, with some options, and goes on with
`takeReply`. -/
theorem perform_solve {settings : Settings} {m : Ranged K} (plain : solver.hooks = [])
    (frozen : (Settings.ofParameters solver.name solver.parameters).1 = .ok settings)
    (model : p.ranged p.index = .ok m) :
    ∃ opts log, (solve engine hooks solver p).perform (.start solver) =
      if p.index.size = 0 then (solveEmpty p).runOn ⟨⟨.none, none, []⟩, log⟩
      else (guarded solver.name (takeReply engine p { m with options := opts }) >>=
        conclude p { m with options := opts }).runOn
          ⟨⟨.none, none, [.told (callOf { m with options := opts })]⟩, log⟩ := by
  have freeze : (Settings.freeze solver.name solver.parameters :
      Action (Session (Call K)) Settings).runOn ⟨.start solver, []⟩ =
        (.ok settings, ⟨.start solver,
          [] ++ (Settings.ofParameters solver.name solver.parameters).2⟩) := by
    rw [← frozen]
    rfl
  have forget (log : List Message) : (Session.setStatus none).runOn ⟨(.start solver :
      Session (Call K)), log⟩ = (.ok (), ⟨⟨.none, none, []⟩, log⟩) := rfl
  obtain ⟨opts, log, noted⟩ := runOn_options settings m.isMixed
    ⟨(⟨.none, none, []⟩ : Session (Call K)),
      [] ++ (Settings.ofParameters solver.name solver.parameters).2⟩
  refine ⟨opts, log, ?_⟩
  have hooked : (Session.runHooks "ScipyModel" hooks p.index solver.hooks
      { m with options := opts } : Action (Session (Call K)) (Ranged K)) =
        pure { m with options := opts } := by
    rw [plain]
    rfl
  unfold solve perform
  rw [runOn_bind, freeze]
  dsimp only
  rw [runOn_bind, forget]
  dsimp only
  rw [runOn_bind, runOn_ofExcept, model]
  dsimp only
  rw [runOn_bind, noted]
  dsimp only
  rw [hooked, pure_bind]
  split
  · rfl
  · rw [runOn_bind, runOn_guarded_ask engine ((aligned_of_ranged model).withOptions opts),
      runOn_bind]
    rfl

def SameEvents {ν : Type} (s s' : Session ν) : Prop :=
  s'.events = s.events

instance {ν : Type} : Std.Refl (SameEvents (ν := ν)) := ⟨fun _ => rfl⟩

instance {ν : Type} : IsTrans (Session ν) SameEvents := ⟨fun _ _ _ h h' => h'.trans h⟩

theorem keeps_setStatus {ν : Type} (status : Option Status) :
    Keeps SameEvents (Session.setStatus status : Action (Session ν) Unit) :=
  keeps_update fun _ => rfl

theorem keeps_guarded {ν α : Type} {name : Value} {a : Action (Session ν) α}
    (h : Keeps SameEvents a) : Keeps SameEvents (guarded name a) := by
  refine h.tryCatch fun f => ?_
  split
  · exact (keeps_setStatus _).bind fun _ => keeps_throw _
  · exact (keeps_setStatus _).bind fun _ => keeps_throw _
  · exact keeps_throw _

theorem keeps_takeReply (m : Ranged K) : Keeps SameEvents (takeReply engine p m) := by
  refine (keeps_ofExcept _).bind fun r => (keeps_ofExcept _).bind fun status => ?_
  split
  · exact keeps_pure _
  · exact (keeps_ofExcept _).bind fun _ => keeps_pure _

omit engine solver in
theorem keeps_conclude (m : Ranged K) (a : Answer K) : Keeps SameEvents (conclude p m a) := by
  refine (keeps_setStatus _).bind fun _ => (keeps_note _ _ _).bind fun _ => ?_
  split
  · exact keeps_pure _
  · exact (keeps_ofExcept _).bind fun _ => keeps_pure _

theorem keeps_answer (m : Ranged K) :
    Keeps SameEvents (guarded solver.name (takeReply engine p m) >>= conclude p m) :=
  (keeps_guarded (keeps_takeReply engine p m)).bind fun a => keeps_conclude p m a

/-- While the reply is taken, SciPy is told nothing more. -/
theorem tellings_answer (m : Ranged K) (told : Call K) (log : List Message) :
    ((guarded solver.name (takeReply engine p m) >>= conclude p m).runOn
      ⟨⟨.none, none, [.told told]⟩, log⟩).2.state.tellings = [told] := by
  rw [Session.tellings, keeps_answer engine solver p m _]
  rfl

/-- SciPy is told about a model once, before it answers. -/
theorem tellings_ask {m : Ranged K} (h : m.Aligned) (s : Logged (Session (Call K))) :
    ((ask engine p p.index m).runOn s).2.state.tellings = s.state.tellings ++ [callOf m] := by
  have told : (ask engine p p.index m).runOn s = (takeReply engine p m).runOn
      ⟨{ s.state with events := s.state.events ++ [.told (callOf m)] }, s.log⟩ := by
    rw [ask_eq, matched_eq_ok h]
    rfl
  rw [told, Session.tellings, keeps_takeReply engine p m _, List.filterMap_append]
  rfl

theorem runOn_guarded {ν α : Type} {name : Value} {a : Action (Session ν) α}
    {s s' : Logged (Session ν)} {x : α} (h : a.runOn s = (.ok x, s')) :
    (guarded name a).runOn s = (.ok x, s') := by
  unfold guarded
  rw [runOn_tryCatch, h]

variable {engine}

variable {p} in
/-- A reply that can be read gives a solution. -/
theorem runOn_of_solved {m : Ranged K} {r : Reply K} {status : Status} {d : Table K}
    {x : Solution K} (reply : engine (callOf m) = .ok r)
    (classified : classify r.code r.values.isSome = .ok status)
    (solution : status.hasSolution = true)
    (dual : (m.isMixed = true ∧ d = .empty) ∨
      (m.isMixed = false ∧ duals p p.index m r = .ok d))
    (read : readSolution p p.index m ⟨status, r, d⟩ = .ok x) (s : Logged (Session (Call K))) :
    ∃ log, (guarded solver.name (takeReply engine p m) >>= conclude p m).runOn s =
      (.ok (some x), ⟨{ s.state with status := .symbol (.status status) }, log⟩) := by
  have taken : (takeReply engine p m).runOn s = (.ok ⟨status, r, d⟩, s) := by
    unfold takeReply
    rw [runOn_bind, runOn_ofExcept, reply]
    dsimp only
    rw [runOn_bind, runOn_ofExcept, classified]
    dsimp only
    rcases dual with ⟨mixed, rfl⟩ | ⟨linear, dual⟩
    · rw [mixed]
      rfl
    · rw [linear, solution, dual]
      rfl
  rw [runOn_bind, runOn_guarded taken]
  dsimp only
  unfold conclude
  rw [read, solution]
  exact ⟨_, rfl⟩

/-- There is no solution where SciPy says that there is none. -/
theorem runOn_of_infeasible {m : Ranged K} {r : Reply K} (reply : engine (callOf m) = .ok r)
    (code : r.code = .int 2) (s : Logged (Session (Call K))) :
    ∃ log, (guarded solver.name (takeReply engine p m) >>= conclude p m).runOn s =
      (.ok none, ⟨{ s.state with status := .symbol (.status .infeasible) }, log⟩) := by
  have status : classify r.code r.values.isSome = .ok .infeasible := by
    rw [code]
    cases r.values.isSome <;> rfl
  have taken : (takeReply engine p m).runOn s = (.ok ⟨.infeasible, r, .empty⟩, s) := by
    unfold takeReply
    rw [runOn_bind, runOn_ofExcept, reply]
    dsimp only
    rw [runOn_bind, runOn_ofExcept, status]
    dsimp only
    rw [show (m.isMixed || !Status.infeasible.hasSolution) = true from Bool.or_true _]
    rfl
  rw [runOn_bind, runOn_guarded taken]
  exact ⟨_, rfl⟩

end

/-! ## Duals -/

section

variable {K : Type} [Numeric K]

omit [Numeric K] in
theorem fit_eq_ok {size : Nat} {ys : List K} (h : ys.length = size) : fit size ys = .ok ys :=
  if_pos h

theorem exists_addPresent (ys : Option (List K)) (xs : List K)
    (h : ∀ zs, ys = some zs → zs.length = xs.length) :
    ∃ zs, addPresent ys xs = .ok zs ∧ zs.length = xs.length := by
  cases ys with
  | none => exact ⟨xs, rfl, rfl⟩
  | some ys =>
      refine ⟨_, bind_eq_ok.mpr ⟨_, fit_eq_ok (h ys rfl), rfl⟩, ?_⟩
      simp [h ys rfl]

@[simp] theorem scatter_nil (xs : List K) (rows : List Nat) : scatter xs rows [] = xs := by
  simp [scatter]

@[simp] theorem length_scatter (xs : List K) (rows : List Nat) (ys : List K) :
    (scatter xs rows ys).length = xs.length := by
  unfold scatter
  induction rows.zip ys generalizing xs with
  | nil => rfl
  | cons e es ih => rw [List.foldl_cons, ih, List.length_modify]

theorem addTo_eq_ok {rows : List Nat} {xs ys : List K} (places : ∀ i ∈ rows, i < xs.length)
    (h : ys.length = rows.length) : addTo rows xs ys = .ok (scatter xs rows ys) :=
  bind_eq_ok.mpr ⟨(), Ranged.checkPlaces_eq_ok places, bind_eq_ok.mpr ⟨ys, fit_eq_ok h, rfl⟩⟩

/-- The marginals of the split rows at the rows that they were split off. -/
def gatherRows (m : Ranged K) (uppers equations : List K) : List K :=
  let count := (m.rowsWhere Ranged.hasUpper).length
  let above := scatter (List.replicate m.matrix.rows.length Numeric.zero)
    (m.rowsWhere Ranged.hasUpper) (uppers.take count)
  let sides := scatter above (m.rowsWhere Ranged.hasLower) ((uppers.drop count).map fun x => -x)
  scatter sides (m.rowsWhere Ranged.isEquation) equations

/-- `rowDuals` takes marginals as many as there are sides of rows. -/
theorem rowDuals_eq_ok {m : Ranged K} {r : Reply K} (aligned : m.Aligned)
    (upper : ∀ ys, r.upperMarginals = some ys →
      ys.length = (m.rowsWhere Ranged.hasUpper).length + (m.rowsWhere Ranged.hasLower).length)
    (equation : ∀ ys, r.equationMarginals = some ys →
      ys.length = (m.rowsWhere Ranged.isEquation).length) :
    rowDuals m.matrix.rows.length m r =
      .ok (gatherRows m (r.upperMarginals.getD []) (r.equationMarginals.getD [])) := by
  have places {xs : List K} (count : xs.length = m.matrix.rows.length)
      (test : Range K → Bool) : ∀ i ∈ m.rowsWhere test, i < xs.length :=
    fun _ hi => count ▸ aligned.lt_of_mem hi
  -- Marginals that are absent add nothing, as those of no rows would.
  have equations {xs : List K} (count : xs.length = m.matrix.rows.length) :
      (if (r.equationMarginals.getD []).isEmpty then pure xs
      else addTo (m.rowsWhere Ranged.isEquation) xs (r.equationMarginals.getD []) :
      Except Fault (List K)) =
        .ok (scatter xs (m.rowsWhere Ranged.isEquation) (r.equationMarginals.getD [])) := by
    split
    · rename_i none
      rw [List.isEmpty_iff.mp none, scatter_nil]
      rfl
    · rename_i marginals
      cases hys : r.equationMarginals with
      | none => simp [hys] at marginals
      | some ys => exact addTo_eq_ok (places count _) (equation ys hys)
  unfold rowDuals gatherRows
  dsimp only
  split
  · rename_i none
    rw [List.isEmpty_iff.mp none]
    simpa using equations List.length_replicate
  · rename_i marginals
    cases hys : r.upperMarginals with
    | none => simp [hys] at marginals
    | some ys =>
        have count := upper ys hys
        refine bind_eq_ok.mpr ⟨_, addTo_eq_ok (places (by simp) _) ?_,
          bind_eq_ok.mpr ⟨_, addTo_eq_ok (places (by simp) _) ?_, equations (by simp)⟩⟩
        · simp [count]
        · simp [count]

/-- `columnDuals` takes marginals as many as there are columns. -/
theorem exists_columnDuals {size : Nat} {r : Reply K}
    (lower : ∀ ys, r.lowerBoundMarginals = some ys → ys.length = size)
    (upper : ∀ ys, r.upperBoundMarginals = some ys → ys.length = size) :
    ∃ ys, columnDuals size r = .ok ys ∧ ys.length = size := by
  obtain ⟨xs, hxs, count⟩ := exists_addPresent r.lowerBoundMarginals
    (List.replicate size (Numeric.zero : K)) (by simpa using lower)
  rw [List.length_replicate] at count
  obtain ⟨ys, hys, count'⟩ := exists_addPresent r.upperBoundMarginals xs
    (by simpa [count] using upper)
  exact ⟨ys, bind_eq_ok.mpr ⟨xs, hxs, hys⟩, count'.trans count⟩

end

end Milp.Scipy
