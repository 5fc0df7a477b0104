import Milp.Engine.Pyomo
import Milp.Proofs.Engine.Session
import Milp.Proofs.Extraction

/-!
# The course of a solve by a plugin

The problem is stated in symbols and hooks run on the statement. Then a plugin is found and is given
what it reads of the statement, which happens once. All that is left after that is to read its reply.
-/

namespace Milp.Pyomo

open Milp.Action

variable {K : Type} [Numeric K]

/-! ## Parts of a solve -/

/-- What happens before hooks run, with the settings and the statement that hooks are handed. Where
rows without terms do not hold, there is no statement. -/
def handed (K : Type) [Numeric K] (solver : Solver) (p : Problem) :
    Action (Session (Call K)) (Settings × Option (Symbolic K)) := do
  let settings ← Settings.freeze solver.name solver.parameters
  Session.setStatus none
  match ← .ofExcept (p.symbolic p.index) with
  | none => return (settings, none)
  | some model =>
    Session.tell (.build model)
    return (settings, some model)

/-- What happens before a plugin is looked for. Where rows without terms do not hold, there is no
statement. -/
def present (hooks : Hooks (Symbolic K)) (solver : Solver) (p : Problem) :
    Action (Session (Call K)) (Settings × Option (Symbolic K)) := do
  let settings ← Settings.freeze solver.name solver.parameters
  Session.setStatus none
  match ← .ofExcept (p.symbolic p.index) with
  | none => return (settings, none)
  | some model =>
    Session.tell (.build model)
    let model ← Session.runHooks "ConcreteModel" hooks p.index solver.hooks model
    return (settings, some model)

/-- A plugin is found and reads the statement. -/
def prepare (env : Environment) (engine : Engine K) (name : Value) (settings : Settings)
    (m : Symbolic K) : Action (Session (Call K)) (PluginModel K) := do
  findPlugin env engine name
  configure settings
  Session.tell (.solve (2 ≤ settings.verbose))
  .ofExcept m.read

def takeReply (value : K → Value) (name : Value) (p : Problem) (m : Symbolic K)
    (read : PluginModel K) (reply : Reply K) :
    Action (Session (Call K)) (Option (Solution K)) := do
  match reply.status? with
  | none => Session.fail name (.pluginCondition reply.condition.name)
  | some status =>
    Session.setStatus (some status)
    .note .debug (.engine .pyomo) ("Pyomo/" ++ Phrase.plain name ++
      " finished with status " ++ status.word)
    if !status.hasSolution then return none
    return some (← .ofExcept (readSolution value p p.index m read reply))

/-- The plugin solves what it read, and its reply is taken. -/
def finish (value : K → Value) (engine : Engine K) (name : Value) (p : Problem) (m : Symbolic K)
    (read : PluginModel K) : Action (Session (Call K)) (Option (Solution K)) :=
  match engine.solve read with
  | .ok reply => takeReply value name p m read reply
  | .error f => if isProgramFailure f then Session.fail name (.plugin name f) else throw f

/-- What happens once hooks have run. -/
def conclude (value : K → Value) (env : Environment) (engine : Engine K) (name : Value)
    (p : Problem) (settings : Settings) :
    Option (Symbolic K) → Action (Session (Call K)) (Option (Solution K))
  | none => do
    Session.setStatus (some .infeasible)
    return none
  | some m =>
    if p.index.size = 0 then do
      Session.setStatus (some .optimal)
      return some (← .ofExcept (Solution.ofNothing K p.toDeclarations))
    else do
      let read ← prepare env engine name settings m
      Session.tell (.read read)
      finish value engine name p m read

variable (value : K → Value) (env : Environment) (engine : Engine K) (hooks : Hooks (Symbolic K))
  (solver : Solver) (p : Problem)

theorem ask_bind {α : Type} (name : Value) (m : Symbolic K) (output : Bool)
    (f : PluginModel K × Reply K → Action (Session (Call K)) α) :
    ask engine name m output >>= f = (do
      Session.tell (.solve output)
      let read ← .ofExcept m.read
      Session.tell (.read read)
      match engine.solve read with
      | .ok reply => f (read, reply)
      | .error e =>
        if isProgramFailure e then Session.fail name (.plugin name e) else throw e) := by
  unfold ask
  simp only [bind_assoc]
  refine bind_congr fun _ => bind_congr fun read => bind_congr fun _ => ?_
  cases engine.solve read with
  | ok reply => rfl
  | error e =>
      dsimp only
      split <;> rfl

theorem solve_eq : solve value env engine hooks solver p = (do
    let (settings, model) ← present hooks solver p
    conclude value env engine solver.name p settings model) := by
  unfold solve present
  simp only [bind_assoc]
  refine bind_congr fun settings => bind_congr fun _ => bind_congr fun model => ?_
  cases model with
  | none => rfl
  | some m =>
      simp only [bind_assoc, pure_bind, conclude, prepare, ask_bind]
      refine bind_congr fun _ => bind_congr fun m => ?_
      split
      · rfl
      · rfl

theorem present_eq : present hooks solver p = (do
    let (settings, model) ← handed K solver p
    match model with
    | none => return (settings, none)
    | some model =>
      let model ← Session.runHooks "ConcreteModel" hooks p.index solver.hooks model
      return (settings, some model)) := by
  unfold present handed
  simp only [bind_assoc]
  refine bind_congr fun settings => bind_congr fun _ => bind_congr fun model => ?_
  cases model with
  | none => rfl
  | some m => simp only [bind_assoc, pure_bind]

/-! ## Before and after a plugin reads the statement -/

/-- The plugin is told to do anything but read. -/
def Preparing (c : Call K) : Prop :=
  ¬ ∃ m, c = .read m

section

variable {σ : Type} {R : σ → σ → Prop} [Std.Refl R] [IsTrans σ R]

theorem keeps_askPlugin (env : Environment) (name : String) :
    Keeps R (Discovery.askPlugin env name : Action σ Bool) := by
  unfold Discovery.askPlugin
  split
  · exact keeps_pure _
  · split
    · exact (keeps_note _ _ _).bind fun _ => keeps_pure _
    · exact keeps_throw _

theorem keeps_usable (env : Environment) : Keeps R (Discovery.usable env : Action σ _) := by
  refine keeps_foldlM (fun found e => Keeps.bind ?_ fun usable => ?_) _ _
  · unfold Discovery.isUsable
    split
    · exact keeps_pure _
    · split
      · exact keeps_pure _
      · exact keeps_askPlugin _ _
  · split <;> exact keeps_pure _

theorem keeps_pluginName (env : Environment) (name : Value) :
    Keeps R (Discovery.pluginName env name : Action σ Value) := by
  refine (keeps_ofExcept _).bind fun _ => ?_
  split
  · exact keeps_pure _
  · refine (keeps_askPlugin _ _).bind fun usable => ?_
    split <;> exact keeps_pure _

end

omit [Numeric K] in
/-- While a plugin is looked for, it is only named. -/
theorem keeps_findPlugin {P : Call K → Prop} (named : ∀ n, P (.plugin n)) (name : Value) :
    Keeps (Session.Only P) (findPlugin env engine name) := by
  have last (asked : Environment) : Keeps (Session.Only P) (do
      let plugin ← Discovery.pluginName asked name
      Session.tell (.plugin plugin)
      if !(← .ofExcept (engine.available plugin)) then
        let usable ← Discovery.usable env
        throw (.unavailable (.notUsable name usable)) : Action (Session (Call K)) Unit) := by
    refine (keeps_pluginName _ _).bind fun plugin => ?_
    refine (Session.keeps_tell (named plugin)).bind fun _ => (keeps_ofExcept _).bind fun usable => ?_
    split
    · exact (keeps_usable _).bind fun _ => keeps_throw _
    · exact keeps_pure _
  unfold findPlugin
  split
  · exact (Session.keeps_tell (named _)).bind fun _ => last _
  · exact (keeps_pure _).bind fun _ => last _

omit [Numeric K] in
theorem keeps_configure {P : Call K → Prop} (optional : ∀ n v, P (.option n v))
    (settings : Settings) :
    Keeps (Session.Only P) (configure settings : Action (Session (Call K)) Unit) := by
  have told (o : Value × Value) : Keeps (Session.Only P)
      (Session.tell (.option o.1.asText o.2) : Action (Session (Call K)) Unit) :=
    Session.keeps_tell (optional _ _)
  unfold configure
  refine (keeps_forM told _).bind fun _ => ?_
  split
  · exact keeps_note _ _ _
  · exact keeps_pure _

theorem keeps_handed :
    Keeps (Session.Appends fun c => ∃ m, c = .build m) (handed K solver p) := by
  unfold handed
  refine (Session.keeps_freeze _ _).bind fun settings => (Session.keeps_setStatus _).bind fun _ => ?_
  refine (keeps_ofExcept _).bind fun model => ?_
  cases model with
  | none => exact keeps_pure _
  | some m =>
      refine Keeps.bind ?_ fun _ => keeps_pure _
      exact (Session.keeps_tell ⟨m, rfl⟩).imp fun _ _ h => h.appends

theorem keeps_present {P : Call K → Prop} (built : ∀ m, P (.build m)) :
    Keeps (Session.Adds P) (present hooks solver p) := by
  rw [present_eq]
  have made (c : Call K) : (∃ m, c = .build m) → P c := by
    rintro ⟨m, rfl⟩
    exact built m
  refine ((keeps_handed solver p).imp fun _ _ h => (h.imp made).adds).bind
    fun ⟨settings, model⟩ => ?_
  cases model with
  | none => exact keeps_pure _
  | some m => exact (Session.keeps_runHooks _ _ _ _ _).bind fun _ => keeps_pure _

theorem keeps_prepare (name : Value) (settings : Settings) (m : Symbolic K) :
    Keeps (Session.Only Preparing) (prepare env engine name settings m) :=
  (keeps_findPlugin env engine (by rintro n ⟨m, ⟨⟩⟩) name).bind fun _ =>
    (keeps_configure (by rintro n v ⟨m, ⟨⟩⟩) settings).bind fun _ =>
      (Session.keeps_tell (by rintro ⟨m, ⟨⟩⟩)).bind fun _ => keeps_ofExcept _

theorem read_of_prepare {name : Value} {settings : Settings} {m : Symbolic K} {read : PluginModel K}
    {s s' : Logged (Session (Call K))}
    (h : (prepare env engine name settings m).runOn s = (.ok read, s')) : m.read = .ok read := by
  unfold prepare at h
  obtain ⟨_, _, -, h⟩ := runOn_bind_eq_ok.mp h
  obtain ⟨_, _, -, h⟩ := runOn_bind_eq_ok.mp h
  obtain ⟨_, _, -, h⟩ := runOn_bind_eq_ok.mp h
  exact congrArg Prod.fst h

theorem keeps_takeReply (name : Value) (m : Symbolic K) (read : PluginModel K) (reply : Reply K) :
    Keeps (Session.Appends fun _ => False) (takeReply value name p m read reply) := by
  unfold takeReply
  split
  · exact Session.keeps_fail _ _
  · refine (Session.keeps_setStatus _).bind fun _ => (keeps_note _ _ _).bind fun _ => ?_
    split
    · exact keeps_pure _
    · exact (keeps_ofExcept _).bind fun _ => keeps_pure _

theorem keeps_finish (name : Value) (m : Symbolic K) (read : PluginModel K) :
    Keeps (Session.Appends fun _ => False) (finish value engine name p m read) := by
  unfold finish
  split
  · exact keeps_takeReply _ _ _ _ _ _
  · split
    · exact Session.keeps_fail _ _
    · exact keeps_throw _

/-! ## Replies -/

/-- A plugin read the statement, and this is its reply. -/
def Replied (told : List (Call K)) (reply : Reply K) : Prop :=
  ∃ m, .read m ∈ told ∧ engine.solve m = .ok reply

variable {value env engine hooks solver p}

/-- Where a plugin is told in the end something that it is not told while the problem is stated,
there is a statement with variables, and the solve goes on with it. -/
theorem exists_of_told {Q : Call K → Prop} (built : ∀ m, ¬ Q (.build m)) {c : Call K} (hc : Q c)
    (told : c ∈
      ((solve value env engine hooks solver p).perform (.start solver)).2.state.tellings) :
    ∃ settings m s, (present hooks solver p).runOn ⟨.start solver, []⟩ =
        (.ok (settings, some m), s) ∧ p.index.size ≠ 0 ∧
      (solve value env engine hooks solver p).perform (.start solver) =
        (conclude value env engine solver.name p settings (some m)).runOn s ∧
      ∀ x ∈ s.state.tellings, ¬ Q x := by
  rw [solve_eq] at told ⊢
  obtain ⟨⟨settings, model⟩, s, presented, course, before⟩ := Session.exists_of_told
    (keeps_present hooks solver p built) (by simp [Session.tellings_start]) hc told
  rw [perform, course] at told
  have quiet {a : Action (Session (Call K)) (Option (Solution K))}
      (h : Keeps (Session.Appends fun _ => False) a)
      (told : c ∈ (a.runOn s).2.state.tellings) : False := by
    rw [(h s).adds.tellings_eq] at told
    exact before _ told hc
  cases model with
  | none => exact (quiet ((Session.keeps_setStatus _).bind fun _ => keeps_pure _) told).elim
  | some m =>
      refine ⟨settings, m, s, presented, fun empty => ?_, course, before⟩
      have ended : Keeps (Session.Appends fun _ => False)
          (conclude value env engine solver.name p settings (some m)) := by
        rw [conclude, if_pos empty]
        exact (Session.keeps_setStatus _).bind fun _ => (keeps_ofExcept _).bind fun _ =>
          keeps_pure _
      exact quiet ended told

/-- A solve in which a plugin was given what it reads went through `present`, and goes on with
it. -/
theorem exists_of_read {read : PluginModel K} (told : .read read ∈
      ((solve value env engine hooks solver p).perform (.start solver)).2.state.tellings) :
    ∃ settings m s₀ s, (present hooks solver p).runOn ⟨.start solver, []⟩ =
        (.ok (settings, some m), s₀) ∧
      (prepare env engine solver.name settings m).runOn s₀ = (.ok read, s) ∧
      (solve value env engine hooks solver p).perform (.start solver) =
        (finish value engine solver.name p m read).runOn
          ⟨{ s.state with events := s.state.events ++ [.told (.read read)] }, s.log⟩ := by
  obtain ⟨settings, m, s₀, presented, nonempty, course, before⟩ := exists_of_told
    (Q := fun c => ∃ m, c = .read m) (by rintro m ⟨m', ⟨⟩⟩) ⟨read, rfl⟩ told
  rw [course] at told ⊢
  simp only [conclude, if_neg nonempty] at told ⊢
  obtain ⟨read', s, prepared, course', before'⟩ := Session.exists_of_told
    ((keeps_prepare env engine solver.name settings m).imp fun _ _ h => h.appends.adds) before
    ⟨read, rfl⟩ told
  rw [course', runOn_bind, Session.tell, runOn_update] at told
  rw [course', runOn_bind, Session.tell, runOn_update]
  -- After what it reads, the plugin is told nothing.
  rw [(keeps_finish value engine p solver.name m read' _).adds.tellings_eq,
    Session.tellings_told, List.mem_append] at told
  obtain rfl : read = read' := by
    rcases told with old | new
    · exact absurd ⟨read, rfl⟩ (before' _ old)
    · simpa using new
  exact ⟨settings, m, s₀, s, presented, prepared, rfl⟩

/-- A solve in which a plugin replied went through `present`, and goes on with the reply. -/
theorem exists_of_replied {reply : Reply K}
    (replied : Replied engine
      ((solve value env engine hooks solver p).perform (.start solver)).2.state.tellings reply) :
    ∃ settings m read s₀ s, (present hooks solver p).runOn ⟨.start solver, []⟩ =
        (.ok (settings, some m), s₀) ∧
      m.read = .ok read ∧ engine.solve read = .ok reply ∧
      (solve value env engine hooks solver p).perform (.start solver) =
        (takeReply value solver.name p m read reply).runOn s := by
  obtain ⟨read, told, answer⟩ := replied
  obtain ⟨settings, m, s₀, s, presented, prepared, course⟩ := exists_of_read told
  rw [finish, answer] at course
  exact ⟨settings, m, read, s₀, _, presented, read_of_prepare _ _ prepared, answer, course⟩

end Milp.Pyomo
