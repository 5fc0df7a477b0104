import Milp.Proofs.Engine.Hooks

/-!
# Where hooks stand

The `HookStage` of each engine: HiGHS has accepted the model, SciPy has not been looked past for
want of variables, a plugin has not been looked for, Gurobi has opened what it will close, and
CP-SAT has not been asked the first question.
-/

namespace Milp

open Milp.Action Milp.Session

variable {K : Type} [Numeric K] {x : Solver} {p : Problem}

/-! ## HiGHS -/

namespace Highs

/-- Hooks are handed a model that HiGHS has accepted, and it is run on what they leave. -/
def hookStage (engine : Engine K) (hooks : Hooks (Columnwise K)) :
    HookStage (Call K) (Columnwise K) where
  native := "Highs"
  hooks := hooks
  hands x p m := ((handed engine x p).perform (.start x)).1 = .ok m
  asks c := ∃ m, c = .run m
  about m c := c = .run m
  own _ := false

variable {engine : Engine K} {hooks : Hooks (Columnwise K)}

theorem status_of_handed {m : Columnwise K} {s s' : Logged (Session (Call K))}
    (h : (handed engine x p).runOn s = (.ok m, s')) : s'.state.status = .none := by
  unfold handed at h
  obtain ⟨settings, _, -, h⟩ := runOn_bind_eq_ok.mp h
  obtain ⟨_, t, ⟨⟩, h⟩ := runOn_bind_eq_ok.mp h
  obtain ⟨model, t₁, made, h⟩ := runOn_bind_eq_ok.mp h
  obtain ⟨_, t₂, configured, h⟩ := runOn_bind_eq_ok.mp h
  obtain ⟨_, t₃, ⟨⟩, h⟩ := runOn_bind_eq_ok.mp h
  have same : t₂.state.status = .none :=
    ((keeps_configure engine settings).of_runOn configured).status.trans
      ((keeps_ofExcept (R := SameStatus) _).of_runOn made)
  split at h
  · obtain ⟨_, _, ⟨⟩, -⟩ := runOn_bind_eq_ok.mp h
  · cases h
    exact same

/-- HiGHS is run on the model that hooks leave, and its reply is taken. -/
def finish (engine : Engine K) (x : Solver) (p : Problem) (m : Columnwise K) :
    Action (Session (Call K)) (Option (Solution K)) := do
  let count ← .ofExcept p.constraints.length
  .note .debug (.engine .highs) ("Solving with HiGHS: " ++ Nat.repr p.index.size ++ " columns, " ++
    Nat.repr count ++ " rows")
  Session.tell (.run m)
  let reply ← .ofExcept (engine.run m)
  takeReply x p reply

theorem keeps_finish (m : Columnwise K) :
    Keeps (Appends fun c => c = .run m) (finish engine x p m) := by
  have told : Keeps (Appends fun c => c = .run m)
      (Session.tell (.run m) : Action (Session (Call K)) Unit) :=
    (Session.keeps_tell (P := fun c => c = .run m) rfl).imp fun _ _ h => h.appends
  refine (keeps_ofExcept _).bind fun _ => (keeps_note _ _ _).bind fun _ => ?_
  exact told.bind fun _ => (keeps_ofExcept _).bind fun reply =>
    (keeps_takeReply x p reply).imp fun _ _ h => h.imp fun _ => False.elim

theorem hookCourse_solve (x : Solver) (p : Problem) :
    (hookStage engine hooks).HookCourse x p ((solve engine hooks x p).perform (.start x)) := by
  have course : solve engine hooks x p = handed engine x p >>= fun m =>
      runHooks "Highs" hooks p.index x.hooks m >>= finish engine x p := by
    simp only [solve_eq, present_eq, bind_assoc, pure_bind]
    rfl
  rw [course]
  exact HookStage.hookCourse_perform some (fun _ => finish engine x p) (by simp [hookStage])
    ((keeps_handed engine x p).imp fun _ _ h => h) (fun _ _ => status_of_handed) nofun
    (by rintro g m ⟨⟩; rfl)
    fun _ m => (keeps_finish m).imp fun _ _ h => h.imp fun _ same _ => same

end Highs

/-! ## SciPy -/

namespace Scipy

/-- Hooks are handed the ranged form with the options, also when there are no variables. Whatever
SciPy is told makes it solve, and is about what they leave with the sides it must have. -/
def hookStage (hooks : Hooks (Ranged K)) : HookStage (Call K) (Ranged K) where
  native := "ScipyModel"
  hooks := hooks
  hands x p m := ((handed K x p).perform (.start x)).1 = .ok m
  asks _ := True
  about m c := ∃ m', matched m = .ok m' ∧ c = callOf m'
  own _ := false

variable {engine : Engine K} {hooks : Hooks (Ranged K)}

theorem status_of_handed {m : Ranged K} {s s' : Logged (Session (Call K))}
    (h : (handed K x p).runOn s = (.ok m, s')) : s'.state.status = .none := by
  unfold handed at h
  obtain ⟨settings, _, -, h⟩ := runOn_bind_eq_ok.mp h
  obtain ⟨_, t, ⟨⟩, h⟩ := runOn_bind_eq_ok.mp h
  obtain ⟨model, t₁, made, h⟩ := runOn_bind_eq_ok.mp h
  obtain ⟨_, t₂, noted, ⟨⟩⟩ := runOn_bind_eq_ok.mp h
  exact ((keeps_options settings _).of_runOn noted).status.trans
    ((keeps_ofExcept (R := SameStatus) _).of_runOn made)

/-- SciPy is asked about the model that hooks leave, unless there are no variables. -/
def finish (engine : Engine K) (x : Solver) (p : Problem) (m : Ranged K) :
    Action (Session (Call K)) (Option (Solution K)) :=
  if p.index.size = 0 then solveEmpty p
  else guarded x.name (ask engine p p.index m) >>= conclude p m

theorem appends_guarded {ν α : Type} {P : ν → Prop} {name : Value} {a : Action (Session ν) α}
    (h : Keeps (Appends P) a) : Keeps (Appends P) (guarded name a) := by
  refine h.tryCatch fun f => ?_
  split
  · exact Session.keeps_fail _ _
  · exact (Session.keeps_setStatus _).bind fun _ => keeps_throw _
  · exact keeps_throw _

theorem appends_ask (m : Ranged K) :
    Keeps (Appends fun c => ∃ m', matched m = .ok m' ∧ c = callOf m') (ask engine p p.index m) := by
  rw [ask_eq]
  rcases given : matched m with f | m'
  · exact keeps_throw f
  have told : Keeps (Appends fun c => ∃ m'', (.ok m' : Except Fault _) = .ok m'' ∧ c = callOf m'')
      (Session.tell (callOf m') : Action (Session (Call K)) Unit) :=
    (Session.keeps_tell ⟨m', rfl, rfl⟩).imp fun _ _ h => h.appends
  change Keeps _ (Session.tell (callOf m') >>= fun _ => takeReply engine p m')
  refine told.bind fun _ => ?_
  unfold takeReply
  refine (keeps_ofExcept _).bind fun reply => (keeps_ofExcept _).bind fun _ => ?_
  split
  · exact keeps_pure _
  · exact (keeps_ofExcept _).bind fun _ => keeps_pure _

theorem keeps_finish (m : Ranged K) :
    Keeps (Appends fun c => ∃ m', matched m = .ok m' ∧ c = callOf m') (finish engine x p m) := by
  unfold finish
  split
  · exact (keeps_solveEmpty p).imp fun _ _ h => h.imp fun _ => False.elim
  · refine (appends_guarded (appends_ask m)).bind fun a => ?_
    refine (Session.keeps_setStatus _).bind fun _ => (keeps_note _ _ _).bind fun _ => ?_
    split
    · exact keeps_pure _
    · exact (keeps_ofExcept _).bind fun _ => keeps_pure _

theorem hookCourse_solve (x : Solver) (p : Problem) :
    (hookStage hooks).HookCourse x p ((solve engine hooks x p).perform (.start x)) := by
  have course : solve engine hooks x p = handed K x p >>= fun m =>
      runHooks "ScipyModel" hooks p.index x.hooks m >>= finish engine x p := by
    simp only [solve_eq, present_eq, bind_assoc]
    rfl
  rw [course]
  exact HookStage.hookCourse_perform some (fun _ => finish engine x p) (by simp [hookStage])
    ((keeps_handed x p).imp fun _ _ h => h.imp fun _ => False.elim) (fun _ _ => status_of_handed)
    nofun (by rintro g m ⟨⟩; rfl)
    fun _ m => (keeps_finish m).imp fun _ _ h => h.imp fun _ same _ => same

end Scipy

/-! ## Plugins -/

namespace Pyomo

/-- Hooks are handed the statement that was built, if there is one. The plugin reads the one that
they leave. -/
def hookStage (hooks : Hooks (Symbolic K)) : HookStage (Call K) (Symbolic K) where
  native := "ConcreteModel"
  hooks := hooks
  hands x p m := ∃ settings, ((handed K x p).perform (.start x)).1 = .ok (settings, some m)
  asks c := (∃ output, c = .solve output) ∨ ∃ read, c = .read read
  about m c := ∀ read, c = .read read → m.read = .ok read
  own _ := false

variable {value : K → Value} {env : Environment} {engine : Engine K} {hooks : Hooks (Symbolic K)}

theorem status_of_handed {g : Settings × Option (Symbolic K)} {s s' : Logged (Session (Call K))}
    (h : (handed K x p).runOn s = (.ok g, s')) : s'.state.status = .none := by
  unfold handed at h
  obtain ⟨settings, _, -, h⟩ := runOn_bind_eq_ok.mp h
  obtain ⟨_, t, ⟨⟩, h⟩ := runOn_bind_eq_ok.mp h
  obtain ⟨model, t₁, made, h⟩ := runOn_bind_eq_ok.mp h
  have same : t₁.state.status = .none := (keeps_ofExcept (R := SameStatus) _).of_runOn made
  cases model with
  | none =>
      cases h
      exact same
  | some m =>
      obtain ⟨_, t₂, ⟨⟩, ⟨⟩⟩ := runOn_bind_eq_ok.mp h
      exact same

theorem keeps_conclude (name : Value) (settings : Settings) (m : Symbolic K) :
    Keeps (Appends fun c => ∀ read, c = .read read → m.read = .ok read)
      (conclude value env engine name p settings (some m)) := by
  simp only [conclude]
  split
  · exact (Session.keeps_setStatus _).bind fun _ => (keeps_ofExcept _).bind fun _ => keeps_pure _
  · intro s
    have quiet : Keeps (Appends fun c => ∀ read, c = .read read → m.read = .ok read)
        (prepare env engine name settings m) :=
      (keeps_prepare env engine name settings m).imp fun _ _ h =>
        h.appends.imp fun c silent read same => absurd ⟨read, same⟩ silent
    refine rel_bind (quiet s) fun read s₁ prepared => ?_
    have known := read_of_prepare _ _ prepared
    have told : Keeps (Appends fun c => ∀ read, c = .read read → m.read = .ok read)
        (Session.tell (.read read) : Action (Session (Call K)) Unit) := by
      refine (Session.keeps_tell ?_).imp fun _ _ h => h.appends
      rintro _ ⟨⟩
      exact known
    refine (told.bind fun _ => ?_) s₁
    exact (keeps_finish value engine p name m read).imp fun _ _ h => h.imp fun _ => False.elim

/-- Hooks are called with the statement that was built, if there is one, and the solve ends with
what they leave. -/
def goOn (value : K → Value) (env : Environment) (engine : Engine K) (hooks : Hooks (Symbolic K))
    (x : Solver) (p : Problem) (g : Settings × Option (Symbolic K)) :
    Action (Session (Call K)) (Option (Solution K)) :=
  match g.2 with
  | none => conclude value env engine x.name p g.1 none
  | some m => runHooks "ConcreteModel" hooks p.index x.hooks m >>= fun m =>
    conclude value env engine x.name p g.1 (some m)

theorem solve_eq_goOn : solve value env engine hooks x p =
    handed K x p >>= goOn value env engine hooks x p := by
  rw [solve_eq, present_eq, bind_assoc]
  refine bind_congr fun g => ?_
  obtain ⟨settings, model⟩ := g
  cases model with
  | none => rfl
  | some m => simp only [goOn, bind_assoc, pure_bind]

theorem hookCourse_solve (x : Solver) (p : Problem) :
    (hookStage hooks).HookCourse x p ((solve value env engine hooks x p).perform (.start x)) := by
  rw [solve_eq_goOn]
  refine HookStage.hookCourse_perform Prod.snd
    (fun g m => conclude value env engine x.name p g.1 (some m)) ?_ ?_
    (fun _ _ => status_of_handed) ?_ ?_ ?_
  · intro m
    constructor
    · rintro ⟨settings, h⟩
      exact ⟨_, h, rfl⟩
    · rintro ⟨⟨settings, _⟩, h, rfl⟩
      exact ⟨settings, h⟩
  · refine (keeps_handed x p).imp fun _ _ h => h.imp ?_
    rintro _ ⟨m, rfl⟩ (⟨_, ⟨⟩⟩ | ⟨_, ⟨⟩⟩)
  · rintro ⟨settings, _⟩ rfl
    exact (Session.keeps_setStatus _).bind fun _ => keeps_pure _
  · rintro ⟨settings, _⟩ m rfl
    rfl
  · exact fun g m => (keeps_conclude x.name g.1 m).imp fun _ _ h => h.imp fun _ known _ => known

end Pyomo

/-! ## Gurobi -/

namespace Gurobi

/-- Hooks are handed the model that was built in an open environment. What a hook breaks off with is
taken for the engine's failure if it is of the engine's own class. -/
def hookStage (engine : Engine K) (hooks : Hooks (Incremental K)) :
    HookStage (Call K) (Incremental K) where
  native := "Model"
  hooks := hooks
  hands x p m := ((handed engine x p).perform (.start x)).1 = .ok m
  asks c := c = .stage .optimize
  about _ _ := True
  own := isOwn

variable {engine : Engine K} {hooks : Hooks (Incremental K)}

theorem status_of_handed {m : Incremental K} {s s' : Logged (Session (Call K))}
    (h : (handed engine x p).runOn s = (.ok m, s')) : s'.state.status = .none := by
  unfold handed at h
  obtain ⟨settings, _, -, h⟩ := runOn_bind_eq_ok.mp h
  obtain ⟨_, t, ⟨⟩, h⟩ := runOn_bind_eq_ok.mp h
  have built : Keeps (Only Preparing) (do
      stage engine .environment
      openBoth engine settings
      let model ← build engine p p.index
      configure engine settings
      return model) :=
    (keeps_stage (by simp [Preparing])).bind fun _ => (keeps_openBoth settings).bind fun _ =>
      keeps_build.bind fun _ => (keeps_configure settings).bind fun _ => keeps_pure _
  exact (built.of_runOn h).status

theorem keeps_optimize (m : Incremental K) :
    Keeps (Appends fun _ => True) (optimize engine x p m) := by
  have read : Keeps (Appends fun _ => True) (readReply x.name p p.index (engine.optimize m)) :=
    (keeps_readReply _ _).imp fun _ _ h => h.imp fun _ _ => trivial
  refine Keeps.bind ?_ fun _ => read
  refine ((Session.keeps_tell trivial).imp fun _ _ h => h.appends).bind fun _ => ?_
  split
  · exact keeps_throw _
  · exact keeps_pure _

omit [Numeric K] in
theorem events_settle {α : Type} (name : Value) (told : List (Call K))
    (r : Except Fault α × Logged (Session (Call K))) :
    (settle name told r).2.state.events = r.2.state.events ++ told.map .told := by
  rcases r with ⟨f | y, s⟩
  · simp only [settle]
    split <;> rfl
  · rfl

omit [Numeric K] in
/-- `settle` passes on a hook's fault that is not of the engine's own class. -/
theorem settle_of_foreign {α : Type} (name : Value) (told : List (Call K)) {f : Fault}
    (foreign : isOwn f = false) (s : Logged (Session (Call K))) :
    settle name told ((.error f : Except Fault α), s) = (.error f, closed told s) := by
  simp [settle, foreign]

omit [Numeric K] in
theorem preparing_of_closing {told : List (Call K)} (sub : told ⊆ [.closeModel, .closeEnvironment]) :
    ∀ c ∈ told, c ≠ .stage .optimize := by
  rintro c hc rfl
  simpa using sub hc

omit [Numeric K] in
theorem keeps_closing {α : Type} {a : Action (Session (Call K)) α} (h : Keeps (Appends Preparing) a)
    {last : Call K} (quiet : Preparing last) :
    Keeps (Appends Preparing) (closing a (Session.tell last)) := by
  intro s
  rw [runOn_closing]
  exact IsTrans.trans _ _ _ (h s) ⟨[last], rfl, by simpa using quiet⟩

omit [Numeric K] in
/-- What is opened for work that does not optimise does not optimise. -/
theorem keeps_opening {α : Type} {work : Settings → Action (Session (Call K)) α}
    (h : ∀ settings, Keeps (Appends Preparing) (work settings)) :
    Keeps (Appends Preparing) (opening engine x work) := by
  have started : Keeps (Appends Preparing) (stage engine .environment) :=
    (keeps_stage (by simp [Preparing])).imp fun _ _ h => h.appends
  have within (settings : Settings) :
      Keeps (Appends Preparing) (inEnvironment engine settings (work settings)) := by
    have opened : Keeps (Appends Preparing) (openBoth engine settings) :=
      (keeps_openBoth settings).imp fun _ _ h => h.appends
    have course : inEnvironment engine settings (work settings) = openBoth engine settings >>=
        fun _ => closing (work settings) (Session.tell .closeModel) := by
      simp only [inEnvironment, openBoth, bind_assoc]
    rw [course]
    exact opened.bind fun _ => keeps_closing (h settings) (by simp [Preparing])
  unfold opening
  refine (Session.keeps_freeze _ _).bind fun settings => (Session.keeps_setStatus _).bind fun _ => ?_
  refine Keeps.tryCatch ?_ fun f => ?_
  · exact started.bind fun _ => keeps_closing (within settings) (by simp [Preparing])
  · split
    · exact Session.keeps_fail _ _
    · exact keeps_throw f

theorem hookCourse_solve (x : Solver) (p : Problem) :
    (hookStage engine hooks).HookCourse x p ((solve engine hooks x p).perform (.start x)) := by
  have told : Appends Preparing (.start x) ((handed engine x p).runOn ⟨.start x, []⟩).2.state :=
    keeps_handed _
  have presented := runOn_bind (handed engine x p)
    (fun m => runHooks "Model" hooks p.index x.hooks m) ⟨.start x, []⟩
  rw [← present_eq] at presented
  rw [perform]
  rcases h : (handed engine x p).runOn ⟨.start x, []⟩ with ⟨f | m, s⟩ <;> rw [h] at told presented
  · refine HookStage.hookCourse_of_stopped (fun m hands => ?_) ?_
    · have hands : ((handed engine x p).runOn ⟨.start x, []⟩).1 = .ok m := hands
      rw [h] at hands
      cases hands
    · have told : Appends (fun c => ¬ c = .stage .optimize) (.start x) s.state := told
      rcases runOn_of_broken presented with ⟨course, -, -⟩ | ⟨closing, sub, course⟩
      · rw [course]
        exact told
      · rw [course]
        exact IsTrans.trans _ _ _ told ⟨closing, events_settle _ _ _, preparing_of_closing sub⟩
  · dsimp only at presented
    refine HookStage.hookCourse_of_hands (m := m) (congrArg Prod.fst h) told ?_ ?_
    · intro before hook after m' f called order passes breaks
      rw [order] at presented
      have presented := presented.trans (runOn_runHooks_of_breaksOff passes breaks s)
      have status : s.state.status = .none := status_of_handed h
      rcases runOn_of_broken presented with ⟨course, -, -⟩ | ⟨closing, sub, course⟩
      · rw [course]
        exact ⟨Std.Refl.refl _, fun _ => ⟨rfl, status⟩⟩
      · rw [course]
        refine ⟨⟨closing, events_settle _ _ _, preparing_of_closing sub⟩, fun foreign => ?_⟩
        rw [settle_of_foreign _ _ foreign]
        exact ⟨rfl, status⟩
    · intro m' passes
      rw [runOn_of_present (presented.trans (runOn_runHooks_of_passes passes s))]
      refine IsTrans.trans _ _ _ ?_ ⟨_, events_settle _ _ _, fun _ _ _ => trivial⟩
      exact Appends.imp (keeps_optimize m' _) fun _ _ _ => trivial

end Gurobi

/-! ## CP-SAT -/

namespace CpSat

/-- A model has the columns of another, and all its rows first. -/
def Extends (m m' : PseudoBoolean) : Prop :=
  m'.columns = m.columns ∧ m.rows <+: m'.rows

/-- Hooks are handed the model without cuts. Whatever CP-SAT is told is a question, and extends the
model that they leave. -/
def hookStage (engine : Engine) (hooks : Hooks PseudoBoolean) :
    HookStage Question PseudoBoolean where
  native := "CpSatModel"
  hooks := hooks
  hands x p m := ∃ settings, ((handed engine x p).perform (.start x)).1 = .ok (settings, m)
  asks _ := True
  about m q := Extends m q.model
  own _ := false

variable {engine : Engine} {hooks : Hooks PseudoBoolean} {clock : Nat → Float} {questions : Nat}
  {m : PseudoBoolean}

theorem status_of_handed {g : Settings × PseudoBoolean} {s s' : Logged (Session Question)}
    (h : (handed engine x p).runOn s = (.ok g, s')) : s'.state.status = .none := by
  unfold handed at h
  obtain ⟨_, _, -, h⟩ := runOn_bind_eq_ok.mp h
  obtain ⟨_, _, -, h⟩ := runOn_bind_eq_ok.mp h
  obtain ⟨settings, _, -, h⟩ := runOn_bind_eq_ok.mp h
  obtain ⟨_, t, ⟨⟩, h⟩ := runOn_bind_eq_ok.mp h
  obtain ⟨_, t₁, ⟨⟩, h⟩ := runOn_bind_eq_ok.mp h
  obtain ⟨model, t₂, made, ⟨⟩⟩ := runOn_bind_eq_ok.mp h
  exact (keeps_ofExcept (R := SameStatus) _).of_runOn made

/-- Once a model has been extended, it stays so, and every question is about one that extends it. -/
def Builds (m : PseudoBoolean) (st st' : State) : Prop :=
  Extends m st.model →
    Extends m st'.model ∧ Appends (fun q => Extends m q.model) st.session st'.session

instance : Std.Refl (Builds m) :=
  ⟨fun _ h => ⟨h, Std.Refl.refl _⟩⟩

instance : IsTrans State (Builds m) where
  trans _ _ _ h h' extended :=
    have first := h extended
    have second := h' first.1
    ⟨second.1, IsTrans.trans _ _ _ first.2 second.2⟩

theorem Extends.add (h : Extends m m') (r : WholeRow) : Extends m (m'.add r) :=
  ⟨h.1, h.2.trans (List.prefix_append _ _)⟩

/-- `CpSat.optimize` takes nothing away from a model (`Builds`). -/
theorem appends_optimize (settings : Settings) (index : Index) (objective : WholeSum) :
    Keeps (Appends fun q => Extends m q.model)
      (optimize engine settings p index objective m clock questions) := by
  have run : Keeps (Builds m) ((task p settings clock).optimize
      (oracle engine settings index objective (p.sense == .max)) questions) := by
    refine CutLoop.keeps_optimize (keeps_decide (fun st options extended => ?_) engine settings
      index) (fun bound => ?_) _
    · exact ⟨extended, ⟨[_], rfl, by simpa using extended⟩⟩
    · exact (keeps_ofExcept _).bind fun _ => keeps_update fun st extended =>
        ⟨extended.add _, Std.Refl.refl _⟩
  unfold optimize
  refine Keeps.tryCatch (run.onPart fun s t built => ?_) fun f => ?_
  · exact (built ⟨rfl, List.prefix_refl _⟩).2
  · split
    · exact (Session.keeps_setStatus _).bind fun _ => keeps_throw _
    · exact keeps_throw _

/-- The cuts are run on the model that hooks leave. -/
def finish (engine : Engine) (clock : Nat → Float) (questions : Nat) (x : Solver) (p : Problem)
    (settings : Settings) (m : PseudoBoolean) :
    Action (Session Question) (Option (Solution Float)) := do
  let objective ← .ofExcept (cutSum p x.name)
  let outcome ← optimize engine settings p p.index objective m clock questions
  conclude p outcome

theorem keeps_finish (settings : Settings) (m : PseudoBoolean) :
    Keeps (Appends fun q => Extends m q.model) (finish engine clock questions x p settings m) :=
  (keeps_ofExcept _).bind fun _ => (appends_optimize _ _ _).bind fun o =>
    (keeps_conclude p o).imp fun _ _ h => h.imp fun _ => False.elim

theorem hookCourse_solve (x : Solver) (p : Problem) :
    (hookStage engine hooks).HookCourse x p
      ((solve engine hooks clock questions x p).perform (.start x)) := by
  have course : solve engine hooks clock questions x p = handed engine x p >>= fun g =>
      runHooks "CpSatModel" hooks p.index x.hooks g.2 >>=
        finish engine clock questions x p g.1 := by
    simp only [solve_eq, handed, bind_assoc, pure_bind]
    rfl
  rw [course]
  refine HookStage.hookCourse_perform (fun g => some g.2)
    (fun g => finish engine clock questions x p g.1) ?_ ?_ (fun _ _ => status_of_handed)
    (by rintro _ ⟨⟩) ?_ ?_
  · intro m
    constructor
    · rintro ⟨settings, h⟩
      exact ⟨_, h, rfl⟩
    · rintro ⟨⟨settings, _⟩, h, ⟨⟩⟩
      exact ⟨settings, h⟩
  · exact (keeps_handed engine x p).imp fun _ _ h => h.imp fun _ => False.elim
  · rintro g m ⟨⟩
    rfl
  · exact fun g m => (keeps_finish g.1 m).imp fun _ _ h => h.imp fun _ extended _ => extended

end CpSat

/-! ## All engines -/

/-- The ways in which solvers use their engines (`Way`), with the `HookStage` of each. -/
inductive Staged : {K ν μ : Type} → Backend → Store.Way K ν → HookStage ν μ → Prop
  | highs {K : Type} [Numeric K] (value : K → Value) (engine : Highs.Engine K)
      (hooks : Hooks (Columnwise K)) :
      Staged .highs (.atOnce value (Highs.solve engine hooks)) (Highs.hookStage engine hooks)
  | scipy {K : Type} [Numeric K] (value : K → Value) (engine : Scipy.Engine K)
      (hooks : Hooks (Ranged K)) :
      Staged .scipy (.atOnce value (Scipy.solve engine hooks)) (Scipy.hookStage hooks)
  | cpsat (value : Float → Value) (engine : CpSat.Engine) (hooks : Hooks PseudoBoolean)
      (clock : Nat → Float) (questions : Nat) :
      Staged .cpsat (.atOnce value (CpSat.solve engine hooks clock questions))
        (CpSat.hookStage engine hooks)
  | pyomo {K : Type} [Numeric K] (value : K → Value) (env : Environment) (engine : Pyomo.Engine K)
      (hooks : Hooks (Symbolic K)) :
      Staged .pyomo (.atOnce value (Pyomo.solve value env engine hooks)) (Pyomo.hookStage hooks)
  | gurobi {K : Type} [Numeric K] (value : K → Value) (engine : Gurobi.Engine K)
      (hooks : Hooks (Incremental K)) :
      Staged .gurobi ⟨value, Gurobi.solve engine hooks, fun x f =>
        Gurobi.opening engine x fun _ => throw f⟩ (Gurobi.hookStage engine hooks)

section

variable {ν μ : Type} {b : Backend} {way : Store.Way K ν} {stage : HookStage ν μ}

omit [Numeric K] in
theorem Staged.hookCourse_solve (h : Staged b way stage) (x : Solver) (p : Problem) :
    stage.HookCourse x p ((way.solve x p).perform (.start x)) := by
  cases h with
  | highs => exact Highs.hookCourse_solve x p
  | scipy => exact Scipy.hookCourse_solve x p
  | cpsat => exact CpSat.hookCourse_solve x p
  | pyomo => exact Pyomo.hookCourse_solve x p
  | gurobi => exact Gurobi.hookCourse_solve x p

omit [Numeric K] in
theorem appends_breakOffAtOnce {P : ν → Prop} (x : Solver) (f : Fault) :
    Keeps (Appends P) (Store.breakOffAtOnce x f : Action (Session ν) (Option (Solution K))) := by
  refine (Session.keeps_freeze _ _).bind fun _ => (Session.keeps_setStatus _).bind fun _ => ?_
  exact Keeps.when (Session.keeps_setHistory _) fun _ => keeps_throw f

omit [Numeric K] in
/-- A solve that breaks off when variables are looked at calls no hooks and does not ask the
engine. -/
theorem Staged.appends_breakOff (h : Staged b way stage) (x : Solver) (f : Fault) :
    Appends (fun c => ¬ stage.asks c) (.start x)
      ((way.breakOff x f).perform (.start x)).2.state := by
  cases h with
  | gurobi value engine hooks => exact Gurobi.keeps_opening (fun _ => keeps_throw f) _
  | _ => exact appends_breakOffAtOnce x f _

end

end Milp
