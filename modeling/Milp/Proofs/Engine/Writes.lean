import Milp.Proofs.Engine.CpSat.Status
import Milp.Proofs.Engine.Gurobi.Course
import Milp.Proofs.Engine.Highs.Course
import Milp.Proofs.Engine.Options
import Milp.Proofs.Engine.Pyomo.Course
import Milp.Proofs.Engine.Scipy.Replied

/-!
# Options that engines are told

Every engine is told of options in its own way: HiGHS and Gurobi one by one, SciPy and a plugin by a
dictionary, and CP-SAT anew with every question. What each of them has been told when it is run is
what the settings ask for and after that the options of the caller.
-/

namespace Milp

open Milp.Action
open Session (Makes makes_tell makes_forM makes_nothing makes_freeze keeps_tell_other)

/-! ## HiGHS

When HiGHS is run it has been told what the settings ask for and then the options of the caller.
Those that it refuses are noted, and the others are set all the same.
-/

namespace Highs

variable {K : Type}

/-- What is passed on to HiGHS for the settings. Output is switched off or on in any case. -/
def mapping (s : Settings) : Mapping :=
  [("output_flag", some (.bool (2 ≤ s.verbose))),
    ("log_dev_level", if 3 ≤ s.verbose then some (.int 1) else none),
    ("time_limit", s.timeLimit.map .real), ("mip_rel_gap", s.gap.map .real),
    ("threads", s.threads.map .int)]

theorem nodup_mapping (s : Settings) : ((mapping s).map (·.1)).Nodup := by
  simp [mapping]

theorem writes_mapping (s : Settings) : (mapping s).writes = generalOptions s := by
  unfold mapping generalOptions
  cases s.timeLimit <;> cases s.gap <;> cases s.threads <;> split <;> rfl

def option? : Call K → Option (String × Value)
  | .option name value => some (name, value)
  | _ => none

section

variable {engine : Engine K}

theorem makes_setOption (name v : Value) :
    Makes option? [(name.asText, v)] (setOption engine name v) := by
  unfold setOption
  refine (makes_tell option? rfl).before fun _ => ?_
  split
  · exact keeps_note _ _ _
  · exact keeps_pure _

theorem makes_configure (s : Settings) :
    Makes option? ((mapping s).writes ++ ownWrites s.options) (configure engine s) := by
  have told (o : String × Value) : Makes option? [o]
      (Session.tell (.option o.1 o.2) : Action (Session (Call K)) PUnit) :=
    makes_tell option? rfl
  have set (o : Value × Value) : Makes option? [(o.1.asText, o.2)] (setOption engine o.1 o.2) :=
    makes_setOption o.1 o.2
  have general := makes_forM told (generalOptions s)
  have own : Makes option? (ownWrites s.options) _ := makes_forM set s.options.entries
  rw [List.map_id'] at general
  unfold configure
  rw [writes_mapping]
  refine general.bind fun _ => ?_
  split
  · exact Makes.after (keeps_note _ _ _) fun _ => own
  · exact own

/-- Setting options is never broken off. -/
theorem raises_configure (s : Settings) : Raises (fun _ => False) (configure engine s) := by
  have told (o : String × Value) : Raises (fun _ => False)
      (Session.tell (.option o.1 o.2) : Action (Session (Call K)) PUnit) :=
    raises_update _
  have set (o : Value × Value) : Raises (fun _ => False) (setOption engine o.1 o.2) := by
    refine (raises_update _).bind fun _ => ?_
    split
    · exact raises_note _ _ _
    · exact raises_pure _
  unfold configure
  exact (raises_forM told _).bind fun _ => (raises_note _ _ _).when fun _ => raises_forM set _

end

variable [Numeric K] {engine : Engine K} {hooks : Hooks (Columnwise K)} {solver : Solver}
  {p : Problem} {settings : Settings} {notes : List Message}

/-- In `Highs.present` the engine is told what the settings ask for and then the options of the
caller. -/
theorem makes_present
    (frozen : Settings.ofParameters solver.name solver.parameters = (.ok settings, notes)) :
    Makes option? ((mapping settings).writes ++ ownWrites settings.options)
      (present engine hooks solver p) := by
  have failed {α : Type} : Keeps (Session.Adds fun c : Call K => option? c = none)
      (Session.fail solver.name .highsModel : Action (Session (Call K)) α) :=
    (Session.keeps_fail _ _).imp fun _ _ h => h.adds
  unfold present
  refine makes_freeze frozen (Makes.after ?_ fun _ =>
    Makes.after (keeps_ofExcept _) fun model => ?_)
  · exact (Session.keeps_setStatus _).imp fun _ _ h => h.adds
  · refine (makes_configure settings).before fun _ => (keeps_tell_other rfl).bind fun _ => ?_
    refine Keeps.when failed fun _ => (Session.keeps_runHooks _ _ _ _ _).bind fun _ => ?_
    exact (keeps_ofExcept _).bind fun _ => (keeps_note _ _ _).bind fun _ => keeps_pure _

/-- Whenever HiGHS is run, the options that it was told before that are what the settings ask for
and the options of the caller, in this order. -/
theorem optionsOf_before
    (frozen : Settings.ofParameters solver.name solver.parameters = (.ok settings, notes))
    {before after : List (Call K)} {m : Columnwise K}
    (told : ((solve engine hooks solver p).perform (.start solver)).2.state.tellings =
      before ++ .run m :: after) :
    optionsOf before = (mapping settings).writes ++ ownWrites settings.options := by
  have ran : .run m ∈
      ((solve engine hooks solver p).perform (.start solver)).2.state.tellings := by
    rw [told]
    exact List.mem_append_cons_self
  obtain ⟨s, presented, -, tellings, quiet⟩ := exists_of_ran ran
  obtain rfl : before = s.state.tellings :=
    eq_of_append_cons ⟨m, rfl⟩ quiet (by simp) (told.symm.trans tellings)
  exact makes_present frozen _ _ _ presented

end Highs

/-! ## SciPy

SciPy is given a dictionary: what the settings ask for, overwritten by the options of the caller.
The gap is for problems with integral columns alone, and is struck out of any other dictionary.
-/

namespace Scipy

/-- What is passed on to SciPy for the settings. Output is switched off or on in any case. -/
def mapping (s : Settings) (mixed : Bool) : Mapping :=
  [("disp", some (.bool (2 ≤ s.verbose))), ("time_limit", s.timeLimit.map .real),
    ("mip_rel_gap", if mixed then s.gap.map .real else none)]

theorem nodup_mapping (s : Settings) (mixed : Bool) : ((mapping s mixed).map (·.1)).Nodup := by
  simp [mapping]

/-- The dictionary that SciPy is given by `mapping` and the caller, before the gap is struck out. -/
def dictionary (s : Settings) (mixed : Bool) : Table Value :=
  (Table.ofList (mapping s mixed).entries).insertAll s.options.entries

theorem eq_dictionary {ν : Type} {s : Settings} {mixed : Bool} {opts : Table Value}
    {t t' : Logged (Session ν)} (h : (options s mixed).runOn t = (.ok opts, t')) :
    opts = dictionary s mixed := by
  have given : ((options s mixed : Action (Session ν) (Table Value)).runOn t).1 =
      .ok (dictionary s mixed) := by
    unfold options dictionary mapping
    cases s.postsolve <;> cases s.gap <;> cases s.threads <;> cases s.timeLimit <;> cases mixed <;>
      rfl
  rw [h] at given
  exact Except.ok.inj given

/-- The dictionary that SciPy is given with a question. -/
def Call.options {K : Type} : Call K → Table Value
  | .mixed m => m.options
  | .linear m => m.options

/-- The question is about a model with integral columns. -/
def Call.isMixed {K : Type} : Call K → Bool
  | .mixed _ => true
  | .linear _ => false

variable {K : Type} [Numeric K] {engine : Engine K} {hooks : Hooks (Ranged K)} {solver : Solver}
  {p : Problem} {settings : Settings} {notes : List Message}

/-- Without hooks, the model that SciPy is asked about has the dictionary for the settings. -/
theorem options_of_present (plain : solver.hooks = [])
    (frozen : Settings.ofParameters solver.name solver.parameters = (.ok settings, notes))
    {m : Ranged K} {s s' : Logged (Session (Call K))}
    (h : (present hooks solver p).runOn s = (.ok m, s')) :
    m.options = dictionary settings m.isMixed := by
  unfold present at h
  rw [runOn_bind, Session.runOn_freeze, frozen] at h
  obtain ⟨_, _, -, h⟩ := runOn_bind_eq_ok.mp h
  obtain ⟨m₀, _, -, h⟩ := runOn_bind_eq_ok.mp h
  obtain ⟨opts, s₁, given, h⟩ := runOn_bind_eq_ok.mp h
  rw [plain] at h
  obtain rfl := Except.ok.inj (congrArg Prod.fst h)
  exact eq_dictionary given

/-- Whatever SciPy is asked, the dictionary is the one for the settings, without the gap where no
column is integral. -/
theorem options_of_told (plain : solver.hooks = [])
    (frozen : Settings.ofParameters solver.name solver.parameters = (.ok settings, notes))
    {c : Call K}
    (told : c ∈ ((solve engine hooks solver p).perform (.start solver)).2.state.tellings) :
    c.options = if c.isMixed then dictionary settings true
      else (dictionary settings false).erase (.text "mip_rel_gap") := by
  obtain ⟨m₀, m, s, presented, matched, -, asked, -⟩ := exists_of_asked told
  have given := options_of_present plain frozen presented
  obtain ⟨_, _, same⟩ := exists_of_matched matched
  have mixed' : m.isMixed = m₀.isMixed := by rw [same]; rfl
  have given : m.options = dictionary settings m.isMixed := by rw [mixed', same]; exact given
  subst asked
  unfold callOf
  cases mixed : m.isMixed with
  | true =>
      rw [mixed] at given
      exact given
  | false =>
      rw [mixed] at given
      exact congrArg (·.erase (.text "mip_rel_gap")) given

/-- Every dictionary that SciPy is given holds what should be in force, but no gap where no column
is integral. -/
theorem get?_options (plain : solver.hooks = [])
    (frozen : Settings.ofParameters solver.name solver.parameters = (.ok settings, notes))
    (apart : solver.parameters.keys.Pairwise fun k k' => k.key ≠ k'.key) {c : Call K}
    (told : c ∈ ((solve engine hooks solver p).perform (.start solver)).2.state.tellings)
    (name : String) :
    c.options.get? (.text name) =
      if c.isMixed = false ∧ name = "mip_rel_gap" then none
      else preferred anything solver.parameters (mapping settings c.isMixed) name := by
  have held (mixed : Bool) : (dictionary settings mixed).get? (.text name) =
      preferred anything solver.parameters (mapping settings mixed) name :=
    get?_overwritten (Settings.reads_of_ofParameters apart frozen) apart
      (nodup_mapping settings mixed)
  rw [options_of_told plain frozen told]
  cases mixed : c.isMixed with
  | true => simpa using held true
  | false =>
      by_cases struck : name = "mip_rel_gap"
      · subst struck
        simp
      · have other : (Value.text "mip_rel_gap").key ≠ (Value.text name).key :=
          fun same => struck (Key.text.inj same).symm
        rw [if_neg Bool.false_ne_true, Table.get?_erase_of_ne other, held]
        simp [struck]

end Scipy

/-! ## Plugins

A plugin is given a dictionary: what the settings ask for under the names of the plugin, overwritten
by the options of the caller.
-/

namespace Pyomo

/-- What is passed on to a plugin for the settings. -/
def mapping (s : Settings) : Mapping :=
  let names := Settings.pluginNames s.name
  (names.timeLimit.map fun n => (n, s.timeLimit.map Value.real)).toList ++
    (names.gap.map fun n => (n, s.gap.map Value.real)).toList ++
    (names.threads.map fun n => (n, s.threads.map Value.int)).toList

theorem nodup_mapping (s : Settings) : ((mapping s).map (·.1)).Nodup := by
  unfold mapping Settings.pluginNames
  split <;> simp

theorem pluginOptions_eq (s : Settings) :
    s.pluginOptions = (Table.ofList (mapping s).entries).insertAll s.options.entries := by
  unfold Settings.pluginOptions Settings.optionsFor mapping
  generalize Settings.pluginNames s.name = names
  obtain ⟨_ | _, _ | _, _ | _⟩ := names <;> cases s.timeLimit <;> cases s.gap <;>
    cases s.threads <;> rfl

def option? {K : Type} : Call K → Option (String × Value)
  | .option name value => some (name, value)
  | _ => none

variable {K : Type}

theorem makes_configure (s : Settings) :
    Makes option? (ownWrites s.pluginOptions) (configure s : Action (Session (Call K)) Unit) := by
  have told (o : Value × Value) : Makes option? [(o.1.asText, o.2)]
      (Session.tell (.option o.1.asText o.2) : Action (Session (Call K)) PUnit) :=
    makes_tell option? rfl
  unfold configure
  refine Makes.before (makes_forM told _) fun _ => ?_
  split
  · exact keeps_note _ _ _
  · exact keeps_pure _

/-- What a plugin is told puts in force what should be. -/
theorem inForce_pluginOptions {s : Settings} {n : Value} {t : Table Value} (reads : s.Reads n t)
    (apart : t.keys.Pairwise fun k k' => k.key ≠ k'.key) (name : String) :
    inForce anything (ownWrites s.pluginOptions) name = preferred anything t (mapping s) name := by
  have general : Table.ofList (mapping s).entries = ⟨(mapping s).entries⟩ :=
    Table.ofList_of_pairwise ((mapping s).ofOptions (nodup_mapping s)).apart
  have options : OfOptions s.pluginOptions := by
    rw [pluginOptions_eq, general]
    exact ((mapping s).ofOptions (nodup_mapping s)).insertAll (reads.ofOptions apart)
  have taken (x : Option Value) : x.filter (anything name) = x := by cases x <;> rfl
  rw [options.inForce anything, taken, pluginOptions_eq]
  exact get?_overwritten reads apart (nodup_mapping s)

variable [Numeric K] {value : K → Value} {env : Environment} {engine : Engine K}
  {hooks : Hooks (Symbolic K)} {solver : Solver} {p : Problem} {settings : Settings}
  {notes : List Message}

theorem settings_of_present
    (frozen : Settings.ofParameters solver.name solver.parameters = (.ok settings, notes))
    {g : Settings × Option (Symbolic K)} {s s' : Logged (Session (Call K))}
    (h : (present hooks solver p).runOn s = (.ok g, s')) : g.1 = settings := by
  unfold present at h
  rw [runOn_bind, Session.runOn_freeze, frozen] at h
  obtain ⟨_, _, -, h⟩ := runOn_bind_eq_ok.mp h
  obtain ⟨model, _, -, h⟩ := runOn_bind_eq_ok.mp h
  cases model with
  | none =>
      obtain rfl := Except.ok.inj (congrArg Prod.fst h)
      rfl
  | some m =>
      obtain ⟨_, _, -, h⟩ := runOn_bind_eq_ok.mp h
      obtain ⟨_, _, -, h⟩ := runOn_bind_eq_ok.mp h
      obtain rfl := Except.ok.inj (congrArg Prod.fst h)
      rfl

/-- The plugin is told to do anything but solve. -/
def Arranging (c : Call K) : Prop :=
  ¬ ∃ output, c = .solve output

/-- What happens between the search for a plugin and its start. -/
def arrange (env : Environment) (engine : Engine K) (name : Value) (settings : Settings) :
    Action (Session (Call K)) Unit := do
  findPlugin env engine name
  configure settings

omit [Numeric K] in
theorem keeps_arrange (name : Value) :
    Keeps (Session.Adds Arranging) (arrange env engine name settings) := by
  refine Keeps.imp (R := Session.Only Arranging) ?_ fun _ _ h => h.appends.adds
  exact (keeps_findPlugin env engine (by rintro n ⟨_, ⟨⟩⟩) name).bind fun _ =>
    keeps_configure (by rintro n v ⟨_, ⟨⟩⟩) settings

omit [Numeric K] in
theorem makes_arrange (name : Value) :
    Makes option? (ownWrites settings.pluginOptions) (arrange env engine name settings) :=
  Makes.after ((keeps_findPlugin env engine (fun _ => rfl) name).imp fun _ _ h => h.appends.adds)
    fun _ => makes_configure settings

/-- What happens once a plugin has been told to solve. -/
def proceed (value : K → Value) (engine : Engine K) (name : Value) (p : Problem) (m : Symbolic K) :
    Action (Session (Call K)) (Option (Solution K)) := do
  let read ← .ofExcept m.read
  Session.tell (.read read)
  finish value engine name p m read

theorem conclude_eq {name : Value} {m : Symbolic K} (nonempty : p.index.size ≠ 0) :
    conclude value env engine name p settings (some m) = (do
      arrange env engine name settings
      Session.tell (.solve (2 ≤ settings.verbose))
      proceed value engine name p m) := by
  simp only [conclude, prepare, arrange, proceed, if_neg nonempty, bind_assoc]

theorem keeps_proceed (name : Value) (m : Symbolic K) :
    Keeps (Session.Appends Arranging) (proceed value engine name p m) := by
  have given (read : PluginModel K) : Keeps (Session.Appends Arranging)
      (Session.tell (.read read) : Action (Session (Call K)) Unit) :=
    (Session.keeps_tell (by rintro ⟨_, ⟨⟩⟩)).imp fun _ _ h => h.appends
  refine (keeps_ofExcept _).bind fun read => (given read).bind fun _ => ?_
  exact (keeps_finish value engine p name m read).imp fun _ _ h => h.imp fun _ => False.elim

/-- Whenever a plugin is set off, the options that it was told before that are those of the
dictionary. -/
theorem optionsOf_before
    (frozen : Settings.ofParameters solver.name solver.parameters = (.ok settings, notes))
    {before after : List (Call K)} {output : Bool}
    (told : ((solve value env engine hooks solver p).perform (.start solver)).2.state.tellings =
      before ++ .solve output :: after) :
    optionsOf before = ownWrites settings.pluginOptions := by
  have started : .solve output ∈
      ((solve value env engine hooks solver p).perform (.start solver)).2.state.tellings := by
    rw [told]
    exact List.mem_append_cons_self
  obtain ⟨settings', m, s, presented, nonempty, course, quiet⟩ := exists_of_told
    (Q := fun c => ∃ output, c = .solve output) (by rintro m ⟨_, ⟨⟩⟩) ⟨output, rfl⟩ started
  obtain rfl : settings' = settings := settings_of_present frozen presented
  have nothing : Makes option? [] (present hooks solver p) :=
    makes_nothing (keeps_present hooks solver p fun _ => rfl)
  rw [course, conclude_eq nonempty] at told started
  obtain ⟨_, s₁, arranged, course', quiet'⟩ := Session.exists_of_told
    (keeps_arrange solver.name) quiet ⟨output, rfl⟩ started
  rw [course', runOn_bind, Session.tell, runOn_update] at told
  have proceeds : Keeps (Session.Appends Arranging) (proceed value engine solver.name p m) :=
    keeps_proceed solver.name m
  obtain ⟨rest, tellings, later⟩ := (proceeds _).exists_tellings
  rw [tellings, Session.tellings_told, List.append_assoc] at told
  obtain rfl : before = s₁.state.tellings := by
    refine eq_of_append_cons ⟨output, rfl⟩ quiet' ?_ told.symm
    exact later
  have written := makes_arrange solver.name _ _ _ arranged
  exact written.trans (congrArg (· ++ _) (nothing _ _ _ presented))

end Pyomo

/-! ## Gurobi

When Gurobi optimises it has been told what the settings ask for, of which the output is set on the
environment and the rest on the model, and then the options of the caller. A parameter that it
refuses breaks the solve off.
-/

namespace Gurobi

/-- What is passed on to Gurobi for the settings. Output is switched off or on in any case. -/
def mapping (s : Settings) : Mapping :=
  [("OutputFlag", some (.int (if 2 ≤ s.verbose then 1 else 0))),
    ("TimeLimit", s.timeLimit.map .real), ("MIPGap", s.gap.map .real),
    ("Threads", s.threads.map .int),
    ("DisplayInterval", if 3 ≤ s.verbose then some (.int 1) else none)]

theorem nodup_mapping (s : Settings) : ((mapping s).map (·.1)).Nodup := by
  simp [mapping]

variable {K : Type}

/-- The parameter that Gurobi is told to set, if it is told that. -/
def setting? : Call K → Option (String × Value)
  | .set _ name value => some (name, value)
  | _ => none

def Engine.takes (engine : Engine K) (name : String) (_ : Value) : Bool :=
  (engine.breaksOff (.parameter name)).isNone

variable {engine : Engine K}

theorem makes_setParameter (target : Target) (name : String) (v : Value) :
    Makes setting? [(name, v)] (setParameter engine target name v) := by
  unfold setParameter
  refine (makes_tell setting? rfl).before fun _ => ?_
  split
  · exact keeps_throw _
  · exact keeps_pure _

theorem takes_of_setParameter {target : Target} {name : String} {v : Value}
    {s s' : Logged (Session (Call K))} {u : Unit}
    (h : (setParameter engine target name v).runOn s = (.ok u, s')) :
    engine.takes name v = true := by
  obtain ⟨_, s₁, -, h⟩ := runOn_bind_eq_ok.mp h
  cases broken : engine.breaksOff (.parameter name) with
  | none => simp [Engine.takes, broken]
  | some f =>
      rw [broken] at h
      cases h

/-- What is set on the model before the options of the caller. -/
def modelSettings (s : Settings) : List (String × Value) :=
  (s.timeLimit.map fun x => ("TimeLimit", Value.real x)).toList ++
    (s.gap.map fun x => ("MIPGap", Value.real x)).toList ++
    (s.threads.map fun n => ("Threads", Value.int n)).toList ++
    (if 3 ≤ s.verbose then [("DisplayInterval", Value.int 1)] else [])

theorem writes_mapping (s : Settings) : (mapping s).writes =
    ("OutputFlag", .int (if 2 ≤ s.verbose then 1 else 0)) :: modelSettings s := by
  unfold mapping modelSettings
  generalize (if 2 ≤ s.verbose then (1 : Int) else 0) = output
  cases s.timeLimit <;> cases s.gap <;> cases s.threads <;> split <;> rfl

theorem configure_eq (s : Settings) : configure engine s = (do
    (modelSettings s).forM fun o => setParameter engine .model o.1 o.2
    if s.postsolve.isSome then
      .note .debug (.engine .gurobi) "POSTSOLVE has no Gurobi counterpart (ignored)"
    s.options.entries.forM fun o => setParameter engine .model o.1.asText o.2) := rfl

theorem makes_configure (s : Settings) :
    Makes setting? (modelSettings s ++ ownWrites s.options) (configure engine s) := by
  have set (o : String × Value) : Makes setting? [o] (setParameter engine .model o.1 o.2) :=
    makes_setParameter _ _ _
  have setOwn (o : Value × Value) : Makes setting? [(o.1.asText, o.2)]
      (setParameter engine .model o.1.asText o.2) := makes_setParameter _ _ _
  have general := makes_forM set (modelSettings s)
  have own : Makes setting? (ownWrites s.options) _ := makes_forM setOwn s.options.entries
  rw [List.map_id'] at general
  rw [configure_eq]
  refine general.bind fun _ => ?_
  split
  · exact Makes.after (keeps_note _ _ _) fun _ => own
  · exact own

theorem takes_of_configure {settings : Settings} {s s' : Logged (Session (Call K))} {u : Unit}
    (h : (configure engine settings).runOn s = (.ok u, s')) :
    ∀ w ∈ modelSettings settings ++ ownWrites settings.options, engine.takes w.1 w.2 = true := by
  rw [configure_eq] at h
  obtain ⟨_, s₁, general, h⟩ := runOn_bind_eq_ok.mp h
  have own : ∃ t t', (settings.options.entries.forM fun o =>
      setParameter engine .model o.1.asText o.2).runOn t = (.ok u, t') := by
    split at h
    · obtain ⟨_, s₂, -, h⟩ := runOn_bind_eq_ok.mp h
      exact ⟨_, _, h⟩
    · exact ⟨_, _, h⟩
  obtain ⟨t, t', own⟩ := own
  intro w hw
  rcases List.mem_append.mp hw with hw | hw
  · obtain ⟨_, _, set⟩ := exists_of_forM general w hw
    exact takes_of_setParameter set
  · obtain ⟨o, ho, rfl⟩ := List.mem_map.mp hw
    obtain ⟨_, _, set⟩ := exists_of_forM own o ho
    exact takes_of_setParameter set

variable [Numeric K] {hooks : Hooks (Incremental K)} {solver : Solver} {p : Problem}
  {settings : Settings} {notes : List Message}

omit [Numeric K] in
theorem keeps_stage_quiet (stg : Stage) :
    Keeps (Session.Adds fun c => setting? c = none) (stage engine stg) := by
  have quiet : Keeps (Session.Only fun c => setting? c = none) (stage engine stg) := keeps_stage rfl
  exact quiet.imp fun _ _ only => only.appends.adds

theorem makes_fill (s : Settings) : Makes setting? (modelSettings s ++ ownWrites s.options)
    (fill engine hooks solver s p) := by
  have built : Keeps (Session.Only fun c => setting? c = none) (build engine p p.index) :=
    keeps_parts (fun _ => rfl) (fun _ => rfl) (fun _ => rfl) rfl
  unfold fill
  refine Makes.after (built.imp fun _ _ only => only.appends.adds) fun _ => ?_
  exact (makes_configure s).before fun _ => Session.keeps_runHooks _ _ _ _ _

theorem makes_present
    (frozen : Settings.ofParameters solver.name solver.parameters = (.ok settings, notes)) :
    Makes setting? ((mapping settings).writes ++ ownWrites settings.options)
      (present engine hooks solver p) := by
  have opened : Makes setting? [("OutputFlag", .int (if 2 ≤ settings.verbose then 1 else 0))]
      (openBoth engine settings) :=
    (makes_setParameter _ _ _).before fun _ => (keeps_stage_quiet _).bind fun _ =>
      keeps_stage_quiet _
  rw [writes_mapping]
  unfold present
  refine makes_freeze frozen (Makes.after ?_ fun _ => Makes.after (keeps_stage_quiet _) fun _ => ?_)
  · exact (Session.keeps_setStatus _).imp fun _ _ h => h.adds
  · exact opened.bind fun _ => makes_fill settings

/-- Where Gurobi is ready to optimise, it has taken all that it was told to set. -/
theorem takes_of_present
    (frozen : Settings.ofParameters solver.name solver.parameters = (.ok settings, notes))
    {m : Incremental K} {s s' : Logged (Session (Call K))}
    (h : (present engine hooks solver p).runOn s = (.ok m, s')) :
    ∀ w ∈ (mapping settings).writes ++ ownWrites settings.options,
      engine.takes w.1 w.2 = true := by
  unfold present at h
  rw [runOn_bind, Session.runOn_freeze, frozen] at h
  obtain ⟨_, _, -, h⟩ := runOn_bind_eq_ok.mp h
  obtain ⟨_, _, -, h⟩ := runOn_bind_eq_ok.mp h
  obtain ⟨_, _, opened, filled⟩ := runOn_bind_eq_ok.mp h
  obtain ⟨_, _, output, -⟩ := runOn_bind_eq_ok.mp opened
  obtain ⟨_, _, -, h⟩ := runOn_bind_eq_ok.mp filled
  obtain ⟨_, _, configured, -⟩ := runOn_bind_eq_ok.mp h
  rw [writes_mapping, List.cons_append]
  exact List.forall_mem_cons.mpr ⟨takes_of_setParameter output, takes_of_configure configured⟩

/-- All that Gurobi is told from then on is to optimise. -/
theorem tellings_optimize (m : Incremental K) (s : Logged (Session (Call K))) :
    ((optimize engine solver p m).runOn s).2.state.tellings =
      s.state.tellings ++ [.stage .optimize] := by
  unfold optimize stage
  rw [bind_assoc, runOn_bind, Session.tell, runOn_update]
  refine (Keeps.bind (R := Session.Appends fun _ => False) ?_ (fun _ => keeps_readReply _ _)
    ⟨{ s.state with events := s.state.events ++ [.told (.stage .optimize)] }, s.log⟩
    ).adds.tellings_eq.trans (Session.tellings_told s.state (.stage .optimize))
  split
  · exact keeps_throw _
  · exact keeps_pure _

/-- Whenever Gurobi optimises, what it was told to set before that is what the settings ask for and
the options of the caller, in this order, and it has taken all of it. -/
theorem settings_before
    (frozen : Settings.ofParameters solver.name solver.parameters = (.ok settings, notes))
    {before after : List (Call K)}
    (told : ((solve engine hooks solver p).perform (.start solver)).2.state.tellings =
      before ++ .stage .optimize :: after) :
    before.filterMap setting? = (mapping settings).writes ++ ownWrites settings.options ∧
      ∀ w ∈ before.filterMap setting?, engine.takes w.1 w.2 = true := by
  have optimized : .stage .optimize ∈
      ((solve engine hooks solver p).perform (.start solver)).2.state.tellings := by
    rw [told]
    exact List.mem_append_cons_self
  obtain ⟨m, s, presented, course, quiet⟩ := exists_of_optimized optimized
  rw [course, tellings_settle, tellings_optimize, List.append_assoc] at told
  obtain rfl : before = s.state.tellings := by
    refine eq_of_append_cons (Q := fun c : Call K => c = .stage .optimize) rfl quiet ?_ told.symm
    simp
  have written : s.state.tellings.filterMap setting? = _ := makes_present frozen _ _ _ presented
  rw [Session.tellings_start, List.filterMap_nil, List.nil_append] at written
  rw [written]
  exact ⟨rfl, takes_of_present frozen presented⟩

end Gurobi

/-! ## CP-SAT

Every question comes with options of its own: what the settings ask for, with the time that is left
at that question, and then those options of the caller that are taken.
-/

namespace CpSat

open CutLoop (Task)

/-- What is passed on to CP-SAT for the settings, with the time that is left. The log is switched
off or on in any case. -/
def mapping (s : Settings) (remaining : Option Float) : Mapping :=
  [("max_time_in_seconds", remaining.map .real), ("num_search_workers", s.threads.map .int),
    ("log_search_progress", some (.bool (2 ≤ s.verbose)))]

theorem nodup_mapping (s : Settings) (remaining : Option Float) :
    ((mapping s remaining).map (·.1)).Nodup := by
  simp [mapping]

theorem writes_mapping (s : Settings) (remaining : Option Float) :
    (mapping s remaining).writes = generalOptions s remaining := by
  unfold mapping generalOptions
  cases remaining <;> cases s.threads <;> rfl

variable {engine : Engine} {s : Settings} {index : Index} {objective : WholeSum}

def Engine.takes (engine : Engine) (name : String) (v : Value) : Bool :=
  (engine.setOption name v).isOk

theorem Engine.takes_of_ok {name : String} {v : Value} {u : Unit}
    (h : engine.setOption name v = .ok u) : engine.takes name v = true := by
  rw [takes, h]
  rfl

/-- What the settings ask for is taken as a whole, or the question is not asked. -/
theorem foldlM_setGeneralOption {ws taken result : List (String × Value)}
    (h : ws.foldlM (setGeneralOption engine) taken = .ok result) :
    result = taken ++ ws ∧ ∀ w ∈ ws, engine.takes w.1 w.2 = true := by
  induction ws generalizing taken with
  | nil => exact ⟨(Except.ok.inj h).symm.trans (List.append_nil _).symm, by simp⟩
  | cons w ws ih =>
      rw [List.foldlM_cons] at h
      obtain ⟨next, first, rest⟩ := bind_eq_ok.mp h
      obtain ⟨u, took, hnext⟩ := bind_eq_ok.mp first
      obtain rfl := Except.ok.inj hnext
      obtain ⟨result, each⟩ := ih rest
      refine ⟨by rw [result, List.append_assoc, List.singleton_append], ?_⟩
      exact List.forall_mem_cons.mpr ⟨Engine.takes_of_ok took, each⟩

/-- An option of the caller is added if it is taken, and left out if it is refused. -/
theorem runOn_setOption {o : Value × Value} {taken next : List (String × Value)}
    {st st' : Logged State} (h : (setOption engine taken o).runOn st = (.ok next, st')) :
    next = taken ++ [(o.1.asText, o.2)].filter fun w => engine.takes w.1 w.2 := by
  unfold setOption at h
  rw [List.filter_singleton]
  cases took : engine.setOption o.1.asText o.2 with
  | ok u =>
      rw [Engine.takes_of_ok took]
      simp only [took] at h
      exact (Except.ok.inj (congrArg Prod.fst h)).symm
  | error f =>
      have refused : engine.takes o.1.asText o.2 = false := by
        rw [Engine.takes, took]
        rfl
      rw [refused]
      simp only [took] at h
      split at h
      · obtain ⟨_, _, -, h⟩ := runOn_bind_eq_ok.mp h
        rw [← Except.ok.inj (congrArg Prod.fst h)]
        exact (List.append_nil taken).symm
      · cases h

theorem foldlM_setOption {es : List (Value × Value)} {taken result : List (String × Value)}
    {st st' : Logged State}
    (h : (es.foldlM (setOption engine) taken).runOn st = (.ok result, st')) :
    result = taken ++ (ownWrites ⟨es⟩).filter fun w => engine.takes w.1 w.2 := by
  induction es generalizing taken st with
  | nil => exact (Except.ok.inj (congrArg Prod.fst h)).symm.trans (List.append_nil taken).symm
  | cons e es ih =>
      rw [List.foldlM_cons] at h
      obtain ⟨next, st₁, first, rest⟩ := runOn_bind_eq_ok.mp h
      rw [ih rest, runOn_setOption first, List.append_assoc, ← List.filter_append]
      rfl

/-- A question comes with what the settings ask for, all of it taken, and the options of the caller
that are taken. -/
structure Optioned (engine : Engine) (s : Settings) (remaining : Option Float) (q : Question) :
    Prop where
  options : q.options = (mapping s remaining).writes ++
    (ownWrites s.options).filter fun w => engine.takes w.1 w.2
  taken : ∀ w ∈ (mapping s remaining).writes, engine.takes w.1 w.2 = true

theorem Optioned.takes {remaining : Option Float} {q : Question}
    (optioned : Optioned engine s remaining q) : ∀ w ∈ q.options, engine.takes w.1 w.2 = true := by
  rw [optioned.options]
  intro w hw
  rcases List.mem_append.mp hw with general | own
  · exact optioned.taken w general
  · exact (List.mem_filter.mp own).2

theorem Optioned.inForce_options {remaining : Option Float} {q : Question}
    (optioned : Optioned engine s remaining q) {n : Value} {t : Table Value} (reads : s.Reads n t)
    (apart : t.keys.Pairwise fun k k' => k.key ≠ k'.key) (name : String) :
    inForce engine.takes q.options name = preferred engine.takes t (mapping s remaining) name := by
  rw [optioned.options, inForce_append, inForce_filter, ← inForce_append]
  exact inForce_written engine.takes reads apart (nodup_mapping s remaining)

/-- Setting the options of the caller is broken off only by a fault that is no refusal. -/
theorem raises_foldlM_setOption {σ : Type} (taken : List (String × Value))
    (es : List (Value × Value)) :
    Raises (fun f => ∃ name v, engine.setOption name v = .error f ∧ isRefusal f = false)
      (es.foldlM (setOption engine) taken : Action σ (List (String × Value))) := by
  refine raises_foldlM (fun taken o => ?_) taken es
  unfold setOption
  dsimp only
  split
  · exact raises_pure _
  · rename_i f refused
    split
    · exact (raises_note _ _ _).bind fun _ => raises_pure _
    · rename_i other
      exact raises_throw ⟨_, _, refused, Bool.not_eq_true _ ▸ other⟩

/-- More has happened in the session, and whatever the engine was asked meanwhile has a property. -/
def Asks (P : Question → Prop) (st st' : State) : Prop :=
  Session.Appends P st.session st'.session

instance {P : Question → Prop} : Std.Refl (Asks P) := ⟨fun st => Std.Refl.refl st.session⟩

instance {P : Question → Prop} : IsTrans State (Asks P) :=
  ⟨fun _ _ _ h h' => IsTrans.trans _ _ _ (r := Session.Appends P) h h'⟩

theorem keeps_decide_options (remaining : Option Float) :
    Keeps (Asks (Optioned engine s remaining)) (decide engine s index remaining) := by
  intro st
  unfold decide
  refine rel_bind (keeps_ofExcept _ st) fun general st₁ passed => ?_
  refine rel_bind (keeps_foldlM (keeps_setOption engine) _ _ st₁) fun options st₂ written => ?_
  obtain ⟨rfl, taken⟩ := foldlM_setGeneralOption (congrArg Prod.fst passed)
  have optioned : Optioned engine s remaining ⟨options, st₂.state.model⟩ := by
    rw [← writes_mapping] at taken written
    exact ⟨foldlM_setOption written, taken⟩
  rw [runOn_bind, runOn_read]
  refine rel_bind ⟨[_], rfl, by simpa using optioned⟩ fun _ st₃ _ => ?_
  refine (keeps_ofExcept _).bind (fun reply => ?_) st₃
  cases reply.answer <;> first | exact keeps_pure _ | exact keeps_throw _

variable {hooks : Hooks PseudoBoolean} {clock : Nat → Float} {questions : Nat} {solver : Solver}
  {p : Problem} {notes : List Message}

/-- A question comes with the options for the time that is left at some reading of the clock. -/
def Timed (engine : Engine) (t : Task Float (Table Int) (Table Int)) (s : Settings)
    (q : Question) : Prop :=
  ∃ n remaining, t.budget n = some remaining ∧ Optioned engine s remaining q

theorem keeps_optimize_options (model : PseudoBoolean) :
    Keeps (Session.Appends (Timed engine (task p s clock) s))
      (optimize engine s p index objective model clock questions) := by
  have run : Keeps (Asks (Timed engine (task p s clock) s)) ((task p s clock).optimize
      (oracle engine s index objective (p.sense == .max)) questions) := by
    refine CutLoop.keeps_optimize_of_budget (fun n remaining left => ?_) (fun bound => ?_) _
    · exact (keeps_decide_options remaining).imp fun _ _ h => h.imp fun _ optioned =>
        ⟨n, remaining, left, optioned⟩
    · exact (keeps_ofExcept _).bind fun _ => keeps_update fun st => Std.Refl.refl st.session
  unfold optimize
  refine Keeps.tryCatch (run.onPart fun _ _ asks => asks) fun f => ?_
  split
  · exact (Session.keeps_setStatus _).bind fun _ => keeps_throw _
  · exact keeps_throw _

theorem keeps_solve_options
    (frozen : Settings.ofParameters solver.name solver.parameters = (.ok s, notes)) :
    Keeps (Session.Adds (Timed engine (task p s clock) s))
      (solve engine hooks clock questions solver p) := by
  rw [solve_eq]
  refine (keeps_ofExcept _).bind fun _ => (keeps_ofExcept _).bind fun _ => ?_
  refine Session.keeps_frozen frozen ?_
  refine ((Session.keeps_setStatus _).imp fun _ _ h => h.adds).bind fun _ => ?_
  refine ((Session.keeps_setHistory _).imp fun _ _ h => h.adds).bind fun _ => ?_
  refine (keeps_ofExcept _).bind fun _ => (Session.keeps_runHooks _ _ _ _ _).bind fun model => ?_
  refine (keeps_ofExcept _).bind fun objective => ?_
  refine ((keeps_optimize_options model).imp fun _ _ h => h.adds).bind fun outcome => ?_
  exact (keeps_conclude p outcome).imp fun _ _ h => h.adds.imp fun _ => False.elim

end CpSat

end Milp
