import Milp.Engine.Gurobi
import Milp.Proofs.Engine.Session

/-!
# The course of a solve by Gurobi

An environment and a model are opened, the model is built and optimised, and the reply is read.
However that ends, what was opened is closed, and a fault of the engine's own becomes its failure.
-/

namespace Milp.Gurobi

open Milp.Action

variable {K : Type} [Numeric K]

/-! ## Parts of a solve -/

/-- An environment and a model are opened. -/
def openBoth (engine : Engine K) (s : Settings) : Action (Session (Call K)) Unit := do
  setParameter engine .environment "OutputFlag" (.int (if 2 ≤ s.verbose then 1 else 0))
  stage engine .start
  stage engine .model

/-- The model is built and made ready. -/
def fill (engine : Engine K) (hooks : Hooks (Incremental K)) (solver : Solver) (s : Settings)
    (p : Problem) : Action (Session (Call K)) (Incremental K) := do
  let model ← build engine p p.index
  configure engine s
  Session.runHooks "Model" hooks p.index solver.hooks model

/-- What happens before hooks run, with the model that they are handed. -/
def handed (engine : Engine K) (solver : Solver) (p : Problem) :
    Action (Session (Call K)) (Incremental K) := do
  let settings ← Settings.freeze solver.name solver.parameters
  Session.setStatus none
  stage engine .environment
  openBoth engine settings
  let model ← build engine p p.index
  configure engine settings
  return model

/-- What happens before Gurobi optimises. -/
def present (engine : Engine K) (hooks : Hooks (Incremental K)) (solver : Solver) (p : Problem) :
    Action (Session (Call K)) (Incremental K) := do
  let settings ← Settings.freeze solver.name solver.parameters
  Session.setStatus none
  stage engine .environment
  openBoth engine settings
  fill engine hooks solver settings p

/-- Gurobi optimises, and its reply is read. -/
def optimize (engine : Engine K) (solver : Solver) (p : Problem) (m : Incremental K) :
    Action (Session (Call K)) (Option (Solution K)) := do
  stage engine .optimize
  readReply solver.name p p.index (engine.optimize m)

/-! ## Closing -/

def closed (told : List (Call K)) (s : Logged (Session (Call K))) : Logged (Session (Call K)) :=
  { s with state := { s.state with events := s.state.events ++ told.map .told } }

def withError (s : Logged (Session (Call K))) : Logged (Session (Call K)) :=
  { s with state := { s.state with status := .symbol (.status .error) } }

/-- How a solve ends when what it opened is closed. -/
def settle {α : Type} (name : Value) (told : List (Call K)) :
    Except Fault α × Logged (Session (Call K)) → Except Fault α × Logged (Session (Call K))
  | (.ok x, s) => (.ok x, closed told s)
  | (.error f, s) =>
    if isOwn f then (.error (.engineFailed (some name) (.gurobiRun f)),
      withError (closed told s))
    else (.error f, closed told s)

omit [Numeric K] in
theorem runOn_closing {α : Type} (a : Action (Session (Call K)) α) (x : Call K)
    (s : Logged (Session (Call K))) :
    (closing a (Session.tell x)).runOn s = ((a.runOn s).1, closed [x] (a.runOn s).2) := by
  unfold closing
  rw [runOn_bind, runOn_tryCatch, runOn_bind]
  rcases a.runOn s with ⟨e | y, t⟩ <;> rfl

omit [Numeric K] in
@[simp] theorem closed_closed (told told' : List (Call K)) (s : Logged (Session (Call K))) :
    closed told' (closed told s) = closed (told ++ told') s := by
  simp [closed]

omit [Numeric K] in
/-- A fault of the engine's own becomes its failure, and any other is passed on. -/
theorem runOn_handled {α : Type} (a : Action (Session (Call K)) α) (name : Value)
    (s : Logged (Session (Call K))) :
    (tryCatch a fun f => if isOwn f then Session.fail name (.gurobiRun f) else throw f).runOn
      s = settle name [] (a.runOn s) := by
  rw [runOn_tryCatch]
  rcases a.runOn s with ⟨f | x, t⟩
  · simp only [settle]
    split <;> simp [closed, withError, Session.fail, Session.setStatus, runOn_bind,
      Value.ofOption]
  · simp [settle, closed]

omit [Numeric K] in
theorem settle_closed {α : Type} (name : Value) (told told' : List (Call K))
    (r : Except Fault α × Logged (Session (Call K))) :
    settle name told' (r.1, closed told r.2) = settle name (told ++ told') r := by
  rcases r with ⟨f | x, t⟩ <;> simp [settle]

section

variable {engine : Engine K} {hooks : Hooks (Incremental K)} {solver : Solver} {p : Problem}

theorem solve_eq (engine : Engine K) (hooks : Hooks (Incremental K)) (solver : Solver)
    (p : Problem) : solve engine hooks solver p = (do
      let settings ← Settings.freeze solver.name solver.parameters
      Session.setStatus none
      tryCatch (do
        stage engine .environment
        closing (do
          openBoth engine settings
          closing (fill engine hooks solver settings p >>= optimize engine solver p)
            (Session.tell .closeModel)) (Session.tell .closeEnvironment))
        fun f => if isOwn f then Session.fail solver.name (.gurobiRun f) else throw f) := by
  simp only [solve, opening, inEnvironment, onModel, openBoth, fill, bind_assoc]
  rfl

/-- A solve that has come to optimise goes on from there, and closes what it opened. -/
theorem runOn_of_present {m : Incremental K} {s s₁ : Logged (Session (Call K))}
    (h : (present engine hooks solver p).runOn s = (.ok m, s₁)) :
    (solve engine hooks solver p).runOn s =
      settle solver.name [.closeModel, .closeEnvironment]
        ((optimize engine solver p m).runOn s₁) := by
  unfold present at h
  obtain ⟨settings, t, frozen, h⟩ := runOn_bind_eq_ok.mp h
  obtain ⟨_, t₁, reset, h⟩ := runOn_bind_eq_ok.mp h
  obtain ⟨_, t₂, started, h⟩ := runOn_bind_eq_ok.mp h
  obtain ⟨_, t₃, opened, filled⟩ := runOn_bind_eq_ok.mp h
  rw [solve_eq, runOn_bind, frozen]
  dsimp only
  rw [runOn_bind, reset]
  dsimp only
  rw [runOn_handled, runOn_bind, started]
  dsimp only
  rw [runOn_closing, settle_closed, runOn_bind, opened]
  dsimp only
  rw [runOn_closing, settle_closed, runOn_bind, filled]
  rfl

/-- A solve that is broken off before it optimises closes what it opened. -/
theorem runOn_of_broken {f : Fault} {s s₁ : Logged (Session (Call K))}
    (h : (present engine hooks solver p).runOn s = (.error f, s₁)) :
    (solve engine hooks solver p).runOn s = (.error f, s₁) ∧
        (Settings.ofParameters solver.name solver.parameters).1 = .error f ∧
        s₁.state = s.state ∨
      ∃ told, told ⊆ [.closeModel, .closeEnvironment] ∧
        (solve engine hooks solver p).runOn s = settle solver.name told (.error f, s₁) := by
  unfold present at h
  rw [solve_eq, runOn_bind]
  rcases runOn_bind_eq_error.mp h with broken | ⟨settings, t, frozen, h⟩
  · rw [Session.runOn_freeze] at broken ⊢
    obtain ⟨frozen, rfl⟩ := Prod.mk.inj broken
    rw [frozen]
    exact .inl ⟨rfl, rfl, rfl⟩
  right
  rw [frozen]
  dsimp only
  rw [runOn_bind]
  rcases runOn_bind_eq_error.mp h with ⟨⟨⟩⟩ | ⟨_, t₁, reset, h⟩
  rw [reset]
  dsimp only
  rw [runOn_handled, runOn_bind]
  rcases runOn_bind_eq_error.mp h with broken | ⟨_, t₂, started, h⟩
  · rw [broken]
    exact ⟨[], by simp, rfl⟩
  rw [started]
  dsimp only
  rw [runOn_closing, settle_closed, runOn_bind]
  rcases runOn_bind_eq_error.mp h with broken | ⟨_, t₃, opened, broken⟩
  · rw [broken]
    exact ⟨[.closeEnvironment], by simp, rfl⟩
  · rw [opened]
    dsimp only
    rw [runOn_closing, settle_closed, runOn_bind, broken]
    exact ⟨[.closeModel, .closeEnvironment], by simp, rfl⟩

/-! ## Replies -/

/-- Gurobi is told to do anything but optimise. -/
def Preparing (c : Call K) : Prop :=
  c ≠ .stage .optimize

omit [Numeric K] in
theorem keeps_stage {P : Call K → Prop} {stg : Stage} (h : P (.stage stg)) :
    Keeps (Session.Only P) (stage engine stg) := by
  unfold stage
  refine (Session.keeps_tell h).bind fun _ => ?_
  split
  · exact keeps_throw _
  · exact keeps_pure _

omit [Numeric K] in
theorem keeps_setParameter (target : Target) (name : String) (value : Value) :
    Keeps (Session.Only Preparing) (setParameter engine target name value) := by
  unfold setParameter
  refine (Session.keeps_tell fun h => by cases h).bind fun _ => ?_
  split
  · exact keeps_throw _
  · exact keeps_pure _

/-- While a model is built, Gurobi is told of its parts and to take them in. -/
theorem keeps_parts {P : Call K → Prop} (columns : ∀ v, P (.addVariable v))
    (rows : ∀ r, P (.addRow r)) (objectives : ∀ o, P (.setObjective o))
    (update : P (.stage .update)) : Keeps (Session.Only P) (build engine p p.index) := by
  unfold build
  refine Keeps.bind (keeps_mapM (fun _ => ?_) _) fun _ => ?_
  · exact (keeps_ofExcept _).bind fun v =>
      (Session.keeps_tell (columns v)).bind fun _ => keeps_pure _
  refine Keeps.bind (keeps_mapM (fun _ => ?_) _) fun _ => (keeps_ofExcept _).bind fun _ => ?_
  · exact (keeps_ofExcept _).bind fun r =>
      (Session.keeps_tell (rows r)).bind fun _ => keeps_pure _
  have updated (m : Incremental K) : Keeps (Session.Only P) (do
      stage engine .update
      return m) := (keeps_stage update).bind fun _ => keeps_pure _
  split
  · exact (keeps_pure _).bind fun _ => updated _
  · refine (keeps_ofExcept _).bind fun _ => Keeps.bind ?_ fun _ => (keeps_pure _).bind fun _ => ?_
    · exact Session.keeps_tell (objectives _)
    · exact updated _

theorem keeps_build : Keeps (Session.Only Preparing) (build engine p p.index) :=
  keeps_parts nofun nofun nofun nofun

omit [Numeric K] in
theorem keeps_configure (settings : Settings) :
    Keeps (Session.Only Preparing) (configure engine settings) := by
  have set (o : String × Value) :
      Keeps (Session.Only Preparing) (setParameter engine .model o.1 o.2) :=
    keeps_setParameter _ _ _
  have own (o : Value × Value) :
      Keeps (Session.Only Preparing) (setParameter engine .model o.1.asText o.2) :=
    keeps_setParameter _ _ _
  unfold configure
  refine (keeps_forM set _).bind fun _ => Keeps.when ?_ fun _ => ?_
  · exact keeps_note _ _ _
  · exact keeps_forM own _

omit [Numeric K] in
theorem keeps_openBoth (settings : Settings) :
    Keeps (Session.Only Preparing) (openBoth engine settings) :=
  (keeps_setParameter _ _ _).bind fun _ => (keeps_stage (by simp [Preparing])).bind fun _ =>
    keeps_stage (by simp [Preparing])

theorem keeps_handed : Keeps (Session.Appends Preparing) (handed engine solver p) := by
  unfold handed
  refine (Session.keeps_freeze _ _).bind fun settings => (Session.keeps_setStatus _).bind fun _ => ?_
  refine Keeps.imp (R := Session.Only Preparing) ?_ fun _ _ h => h.appends
  refine (keeps_stage (by simp [Preparing])).bind fun _ => ?_
  refine (keeps_openBoth settings).bind fun _ => ?_
  exact keeps_build.bind fun _ => (keeps_configure settings).bind fun _ => keeps_pure _

theorem present_eq : present engine hooks solver p = (do
    let model ← handed engine solver p
    Session.runHooks "Model" hooks p.index solver.hooks model) := by
  simp only [present, handed, fill, bind_assoc, pure_bind]

theorem keeps_present : Keeps (Session.Adds Preparing) (present engine hooks solver p) := by
  rw [present_eq]
  exact (keeps_handed.imp fun _ _ h => h.adds).bind fun _ => Session.keeps_runHooks _ _ _ _ _

variable (engine) in
/-- Gurobi optimised, and this is its reply. -/
def Replied (told : List (Call K)) (reply : Reply K) : Prop :=
  .stage .optimize ∈ told ∧ engine.breaksOff .optimize = none ∧ ∀ m, engine.optimize m = reply

omit [Numeric K] in
theorem tellings_closed (told : List (Call K)) (s : Logged (Session (Call K))) :
    (closed told s).state.tellings = s.state.tellings ++ told := by
  simp [closed, Session.tellings, List.filterMap_append, List.filterMap_map]

omit [Numeric K] in
theorem tellings_settle {α : Type} (name : Value) (told : List (Call K))
    (r : Except Fault α × Logged (Session (Call K))) :
    (settle name told r).2.state.tellings = r.2.state.tellings ++ told := by
  rcases r with ⟨f | x, s⟩
  · simp only [settle]
    split <;> exact tellings_closed told s
  · exact tellings_closed told s

/-- A solve in which Gurobi came to optimise went through `present`, and closes what it opened. -/
theorem exists_of_optimized (told : .stage .optimize ∈
      ((solve engine hooks solver p).perform (.start solver)).2.state.tellings) :
    ∃ m s, (present engine hooks solver p).perform (.start solver) = (.ok m, s) ∧
      (solve engine hooks solver p).perform (.start solver) =
        settle solver.name [.closeModel, .closeEnvironment]
          ((optimize engine solver p m).runOn s) ∧ ∀ c ∈ s.state.tellings, Preparing c := by
  rcases presented : (present engine hooks solver p).perform (.start solver) with ⟨f | m, s⟩
  all_goals
    have before : ∀ x ∈ s.state.tellings, Preparing x := fun x hx =>
      ((keeps_present.of_runOn presented).tellings x hx).resolve_left (by simp)
  · exfalso
    rcases runOn_of_broken presented with ⟨course, -, -⟩ | ⟨closing, sub, course⟩
    · rw [perform, course] at told
      exact before _ told rfl
    · rw [perform, course, tellings_settle, List.mem_append] at told
      rcases told with old | new
      · exact before _ old rfl
      · simpa using sub new
  · exact ⟨m, s, rfl, runOn_of_present presented, before⟩

/-- A solve in which Gurobi replied went through `present`, and goes on with the reply. -/
theorem exists_of_replied {reply : Reply K}
    (replied : Replied engine
      ((solve engine hooks solver p).perform (.start solver)).2.state.tellings reply) :
    ∃ m s, (present engine hooks solver p).perform (.start solver) = (.ok m, s) ∧
      (solve engine hooks solver p).perform (.start solver) =
        settle solver.name [.closeModel, .closeEnvironment]
          ((readReply solver.name p p.index reply).runOn (closed [.stage .optimize] s)) := by
  obtain ⟨told, goes, answer⟩ := replied
  obtain ⟨m, s, presented, course, -⟩ := exists_of_optimized told
  refine ⟨m, s, presented, ?_⟩
  rw [course]
  unfold optimize stage
  rw [runOn_bind, goes, answer]
  rfl

/-- `readReply` tells Gurobi nothing. -/
theorem keeps_readReply (name : Value) (reply : Reply K) :
    Keeps (Session.Appends fun _ => False) (readReply name p p.index reply) := by
  unfold readReply
  refine (keeps_ofExcept _).bind fun status => ?_
  split
  · exact Session.keeps_fail _ _
  · refine (Session.keeps_setStatus _).bind fun _ => (keeps_note _ _ _).bind fun _ => ?_
    have last (raw : Value → Except Fault K) (o : Option (Reported K)) (d : Table (Reported K)) :
        Keeps (Session.Appends fun _ => False) (do
          let solution ← .ofExcept (Solution.extract p.toDeclarations raw o)
          return some (← .ofExcept (solution.enterDuals d)) :
            Action (Session (Call K)) (Option (Solution K))) :=
      (keeps_ofExcept _).bind fun _ => (keeps_ofExcept _).bind fun _ => keeps_pure _
    split
    · exact keeps_pure _
    · dsimp only
      split
      · exact (keeps_pure _).bind fun _ => last _ _ _
      · exact (keeps_ofExcept _).bind fun _ => last _ _ _

/-- What is read off a reply, duals first. -/
def readSolution (p : Problem) (reply : Reply K) : Except Fault (Solution K) := do
  let raw (v : Value) : Except Fault K := do (reply.value (← p.index.require v).toNat).read
  let duals ← if reply.mixed then pure .empty else duals p p.index reply
  let solution ← Solution.extract p.toDeclarations raw
    (p.objective.bind fun _ => reply.objective.given)
  solution.enterDuals duals

/-- A reply that says something about the model sets the status, and a solution is read off it where
there is one. -/
theorem runOn_readReply {reply : Reply K} (name : Value) {status : Status}
    (h : reply.status? = .ok (some status)) (s : Logged (Session (Call K))) :
    (readReply name p p.index reply).runOn s =
      (if status.hasSolution then (readSolution p reply).map some else .ok none,
        ⟨{ s.state with status := .symbol (.status status) }, s.log ++
          [⟨.debug, .engine .gurobi, "Gurobi finished with status " ++ status.word⟩]⟩) := by
  have last (raw : Value → Except Fault K) (o : Option (Reported K)) (d : Table (Reported K))
      (t : Logged (Session (Call K))) : (do
        let solution ← .ofExcept (Solution.extract p.toDeclarations raw o)
        return some (← .ofExcept (solution.enterDuals d)) :
          Action (Session (Call K)) (Option (Solution K))).runOn t =
        ((Solution.extract p.toDeclarations raw o >>= (·.enterDuals d)).map some, t) := by
    cases Solution.extract p.toDeclarations raw o with
    | error f => rfl
    | ok x =>
        rw [runOn_bind, runOn_ofExcept]
        dsimp only
        rw [runOn_bind, runOn_ofExcept]
        change _ = ((x.enterDuals d).map some, t)
        cases x.enterDuals d <;> rfl
  unfold readReply
  rw [runOn_bind, runOn_ofExcept, h]
  dsimp only
  rw [runOn_bind, Session.setStatus, runOn_update]
  dsimp only
  rw [runOn_bind, runOn_note]
  cases hs : status.hasSolution with
  | false => rfl
  | true =>
      simp only [Bool.not_true, Bool.false_eq_true, if_false, if_true]
      unfold readSolution
      cases reply.mixed with
      | true =>
          simp only [if_true, pure_bind, last]
          rfl
      | false =>
          simp only [Bool.false_eq_true, if_false]
          cases hd : duals p p.index reply with
          | error f => rfl
          | ok d =>
              rw [runOn_bind, runOn_ofExcept]
              simp only [last]
              rfl

end

end Milp.Gurobi
