import Milp.Proofs.Engine.HookStages
import Milp.Proofs.Engine.Coherence

/-!
# Engines that break off

An engine may break off while it solves, and then a solve gives no answer. SciPy, the plugins and
Gurobi each know a sort of fault as their own: it is reported as the failure of the engine, with the
fault as its cause (`Session.Surfaces`). What else they raise, and whatever HiGHS and CP-SAT raise,
leaves the solve as it is (`Session.Fails`). `failures_surface` puts the five together.
-/

namespace Milp

open Milp.Action Milp.Session

section

variable {ν α β : Type}

/-- A solve is broken off by a fault, and leaves a status. -/
structure Session.Fails (f : Fault) (status : Value)
    (run : Except Fault α × Logged (Session ν)) : Prop where
  fault : run.1 = .error f
  status : run.2.state.status = status

/-- What broke a solve off is reported as the failure of its engine, and the status says so. -/
def Session.Surfaces (name : Value) (cause : Fault)
    (run : Except Fault α × Logged (Session ν)) : Prop :=
  ∃ failure : EngineFailure, failure.cause? = some cause ∧
    Fails (.engineFailed (some name) failure) (.symbol (.status .error)) run

theorem Session.Fails.bind {f : Fault} {status : Value} {a : Action (Session ν) α}
    {s : Logged (Session ν)} (h : Fails f status (a.runOn s)) (g : α → Action (Session ν) β) :
    Fails f status ((a >>= g).runOn s) := by
  rw [runOn_bind]
  rcases ran : a.runOn s with ⟨e | y, t⟩ <;> rw [ran] at h
  · obtain rfl := Except.error.inj h.fault
    exact ⟨rfl, h.status⟩
  · cases h.fault

theorem Session.Surfaces.bind {name : Value} {cause : Fault} {a : Action (Session ν) α}
    {s : Logged (Session ν)} (h : Surfaces name cause (a.runOn s))
    (g : α → Action (Session ν) β) : Surfaces name cause ((a >>= g).runOn s) := by
  obtain ⟨failure, known, fails⟩ := h
  exact ⟨failure, known, fails.bind g⟩

theorem Session.status_of_runHooks {μ : Type} {native : String} {hooks : Hooks μ} {index : Index}
    {list : List Value} {m m' : μ} {s s' : Logged (Session ν)}
    (h : (runHooks native hooks index list m).runOn s = (.ok m', s')) :
    s'.state.status = s.state.status :=
  (keeps_hooks (R := SameStatus) (fun _ _ _ => rfl) _ _ _ _ _).of_runOn h

end

variable {K : Type} [Numeric K] {x : Solver} {p : Problem} {f : Fault}

/-! ## HiGHS -/

namespace Highs

variable {engine : Engine K} {hooks : Hooks (Columnwise K)}

theorem status_of_present {m : Columnwise K} {s s' : Logged (Session (Call K))}
    (h : (present engine hooks x p).runOn s = (.ok m, s')) : s'.state.status = .none := by
  rw [present_eq] at h
  obtain ⟨m', _, handed, h⟩ := runOn_bind_eq_ok.mp h
  obtain ⟨_, t, hooked, h⟩ := runOn_bind_eq_ok.mp h
  have before : t.state.status = .none := (status_of_runHooks hooked).trans (status_of_handed handed)
  obtain ⟨_, _, counted, h⟩ := runOn_bind_eq_ok.mp h
  have same := (keeps_ofExcept (R := SameStatus) _).of_runOn counted
  cases h
  exact same.trans before

/-- What HiGHS raises when it is run leaves the solve as it is, and no status is left. -/
theorem fails_of_raised {m : Columnwise K}
    (told : .run m ∈ ((solve engine hooks x p).perform (.start x)).2.state.tellings)
    (raised : engine.run m = .error f) :
    Fails f .none ((solve engine hooks x p).perform (.start x)) := by
  obtain ⟨s, presented, course, -⟩ := exists_of_ran told
  have before : s.state.status = .none := status_of_present presented
  rw [course, raised]
  exact ⟨rfl, before⟩

end Highs

/-! ## SciPy -/

namespace Scipy

variable {engine : Engine K} {hooks : Hooks (Ranged K)}

theorem status_of_present {m : Ranged K} {s s' : Logged (Session (Call K))}
    (h : (present hooks x p).runOn s = (.ok m, s')) : s'.state.status = .none := by
  rw [present_eq] at h
  obtain ⟨_, _, handed, hooked⟩ := runOn_bind_eq_ok.mp h
  exact (status_of_runHooks hooked).trans (status_of_handed handed)

/-- How a fault that `Scipy.ask` raised ends a solve: arrays that SciPy does not take are reported,
and other faults are passed on. -/
structure Settles (name : Value) (f : Fault)
    {α : Type} (run : Except Fault α × Logged (Session (Call K))) : Prop where
  value : f.cls = .value → Surfaces name f run
  failure : f.cls = .engine → Fails f (.symbol (.status .error)) run
  other : f.cls ≠ .value → f.cls ≠ .engine → Fails f .none run

omit [Numeric K] in
theorem settles_guarded {α : Type} {a : Action (Session (Call K)) α}
    {s s' : Logged (Session (Call K))} (broken : a.runOn s = (.error f, s'))
    (before : s'.state.status = .none) (name : Value) :
    Settles name f ((guarded name a).runOn s) := by
  unfold guarded
  rw [runOn_tryCatch, broken]
  dsimp only
  refine ⟨fun value => ?_, fun failure => ?_, fun value failure => ?_⟩
  · rw [value]
    exact ⟨_, rfl, rfl, rfl⟩
  · rw [failure]
    exact ⟨rfl, rfl⟩
  · split
    · contradiction
    · contradiction
    · exact ⟨rfl, before⟩

/-- What SciPy raises `Settles` the solve: it is reported where it is about values, and is passed on
otherwise. -/
theorem settles_of_raised {c : Call K}
    (told : c ∈ ((solve engine hooks x p).perform (.start x)).2.state.tellings)
    (raised : engine c = .error f) :
    Settles x.name f ((solve engine hooks x p).perform (.start x)) := by
  obtain ⟨_, m, s, presented, -, -, rfl, course⟩ := exists_of_asked told
  have broken : (takeReply engine p m).runOn (asked m s) = (.error f, asked m s) := by
    unfold takeReply
    rw [runOn_bind, runOn_ofExcept, raised]
  have before : s.state.status = .none := status_of_present presented
  have settles := settles_guarded broken before x.name
  rw [course]
  exact ⟨fun h => (settles.value h).bind _, fun h => (settles.failure h).bind _,
    fun h h' => (settles.other h h').bind _⟩

end Scipy

/-! ## Plugins -/

namespace Pyomo

variable {value : K → Value} {env : Environment} {engine : Engine K} {hooks : Hooks (Symbolic K)}

theorem status_of_prepare {settings : Settings} {m : Symbolic K} {read : PluginModel K}
    {s s₀ s' : Logged (Session (Call K))}
    (presented : (present hooks x p).runOn s = (.ok (settings, some m), s₀))
    (prepared : (prepare env engine x.name settings m).runOn s₀ = (.ok read, s')) :
    s'.state.status = .none := by
  have same := ((keeps_prepare env engine x.name settings m).of_runOn prepared).status
  rw [same]
  rw [present_eq] at presented
  obtain ⟨⟨_, model⟩, _, handed, hooked⟩ := runOn_bind_eq_ok.mp presented
  have status := status_of_handed handed
  cases model with
  | none => cases hooked
  | some m' =>
      obtain ⟨_, _, hooked, ⟨⟩⟩ := runOn_bind_eq_ok.mp hooked
      exact (status_of_runHooks hooked).trans status

/-- What a plugin raises is reported where the program behind it failed, and is passed on
otherwise. -/
theorem fails_of_raised {read : PluginModel K} (told : .read read ∈
      ((solve value env engine hooks x p).perform (.start x)).2.state.tellings)
    (raised : engine.solve read = .error f) :
    (isProgramFailure f = true →
      Surfaces x.name f ((solve value env engine hooks x p).perform (.start x))) ∧
    (isProgramFailure f = false →
      Fails f .none ((solve value env engine hooks x p).perform (.start x))) := by
  obtain ⟨settings, m, s₀, s, presented, prepared, course⟩ := exists_of_read told
  have before : s.state.status = .none := status_of_prepare presented prepared
  rw [course, finish, raised]
  refine ⟨fun own => ?_, fun foreign => ?_⟩
  · simp only [own, if_true]
    exact ⟨_, rfl, rfl, rfl⟩
  · simp only [foreign, Bool.false_eq_true, if_false]
    exact ⟨rfl, before⟩

/-- A plugin that was set off and could not read the statement (`Symbolic.read`) gives no answer. -/
theorem exists_error_of_unread {output : Bool} (started : .solve output ∈
      ((solve value env engine hooks x p).perform (.start x)).2.state.tellings)
    (unread : ∀ read, .read read ∉
      ((solve value env engine hooks x p).perform (.start x)).2.state.tellings) :
    ∃ g, ((solve value env engine hooks x p).perform (.start x)).1 = .error g := by
  obtain ⟨settings, m, s, -, nonempty, course, -⟩ := exists_of_told
    (Q := fun c => ∃ output, c = .solve output) (by rintro m ⟨_, ⟨⟩⟩) ⟨output, rfl⟩ started
  rw [course] at unread ⊢
  simp only [conclude, if_neg nonempty] at unread ⊢
  rcases prepared : (prepare env engine x.name settings m).runOn s with ⟨g | read, s₁⟩
  · exact ⟨g, by rw [runOn_bind, prepared]⟩
  · refine absurd ?_ (unread read)
    rw [runOn_bind, prepared]
    dsimp only
    rw [runOn_bind, Session.tell, runOn_update]
    dsimp only
    rw [(keeps_finish value engine p x.name m read _).adds.tellings_eq, Session.tellings_told]
    exact List.mem_append_right _ List.mem_cons_self

end Pyomo

/-! ## Gurobi -/

namespace Gurobi

variable {engine : Engine K} {hooks : Hooks (Incremental K)}

theorem status_of_present {m : Incremental K} {s s' : Logged (Session (Call K))}
    (h : (present engine hooks x p).runOn s = (.ok m, s')) : s'.state.status = .none := by
  rw [present_eq] at h
  obtain ⟨_, _, handed, hooked⟩ := runOn_bind_eq_ok.mp h
  exact (status_of_runHooks hooked).trans (status_of_handed handed)

/-- What Gurobi raises while it optimises is reported where it is the engine's own, and is passed on
otherwise. What was opened is closed either way. -/
theorem fails_of_raised (told : .stage .optimize ∈
      ((solve engine hooks x p).perform (.start x)).2.state.tellings)
    (raised : engine.breaksOff .optimize = some f) :
    (isOwn f = true → Surfaces x.name f ((solve engine hooks x p).perform (.start x))) ∧
    (isOwn f = false → Fails f .none ((solve engine hooks x p).perform (.start x))) := by
  obtain ⟨m, s, presented, course, -⟩ := exists_of_optimized told
  have broken : (optimize engine x p m).runOn s = (.error f, closed [.stage .optimize] s) := by
    unfold optimize stage
    rw [runOn_bind, raised]
    rfl
  have before : s.state.status = .none := status_of_present presented
  rw [course, broken]
  refine ⟨fun own => ?_, fun foreign => ?_⟩
  · simp only [settle, own, if_true]
    exact ⟨_, rfl, rfl, rfl⟩
  · rw [settle_of_foreign _ _ foreign]
    exact ⟨rfl, before⟩

end Gurobi

/-! ## CP-SAT -/

namespace CpSat

open CutLoop

variable {engine : Engine} {hooks : Hooks PseudoBoolean} {clock : Nat → Float} {questions : Nat}
  {s : Settings} {index : Index} {objective : WholeSum} {maximize : Bool}

/-- A question was asked that CP-SAT broke off. -/
def Engine.Raised (engine : Engine) (told : List Question) (f : Fault) : Prop :=
  ∃ i q, told[i]? = some q ∧ engine.answer i q = .error f

theorem Engine.raised_concat {told : List Question} {q : Question} :
    engine.Raised (told ++ [q]) f ↔
      engine.Raised told f ∨ engine.answer told.length q = .error f := by
  constructor
  · rintro ⟨i, q', asked, broken⟩
    rcases Nat.lt_trichotomy i told.length with before | rfl | after
    · rw [List.getElem?_append_left before] at asked
      exact .inl ⟨i, q', asked, broken⟩
    · obtain rfl : q = q' := by simpa using asked
      exact .inr broken
    · rw [List.getElem?_eq_none (by simpa using after)] at asked
      cases asked
  · rintro (⟨i, q', asked, broken⟩ | broken)
    · have before : i < told.length := (List.getElem?_eq_some_iff.mp asked).1
      exact ⟨i, q', (List.getElem?_append_left before).trans asked, broken⟩
    · exact ⟨told.length, q, by simp, broken⟩

/-- No question was broken off by CP-SAT. -/
def Unraised (engine : Engine) (st : State) : Prop :=
  Counted st ∧ ∀ f, ¬ engine.Raised st.session.tellings f

/-- If CP-SAT broke a question off, it did so with this fault. -/
def RaisedOnly (engine : Engine) (f : Fault) (st : State) : Prop :=
  ∀ g, engine.Raised st.session.tellings g → g = f

theorem Unraised.raisedOnly {st : State} (h : Unraised engine st) (f : Fault) :
    RaisedOnly engine f st :=
  fun g raised => absurd raised (h.2 g)

theorem Unraised.of_same {st st' : State} (same : SameQuestions st st') (h : Unraised engine st) :
    Unraised engine st' := by
  obtain ⟨counted, unraised⟩ := h
  exact ⟨by rw [Counted, same.1, same.2, counted], by rwa [same.1]⟩

/-- `decide` is broken off by CP-SAT only with what CP-SAT raised (`RaisedOnly`). -/
theorem tied_decide (remaining : Option Float) :
    Tied (Unraised engine) (RaisedOnly engine) (decide engine s index remaining) := by
  intro st h
  rcases ran : (decide engine s index remaining).runOn st with ⟨r, st'⟩
  rcases asks_decide ran with ⟨⟨f, rfl⟩, same⟩ | ⟨q, rfl, told, count⟩
  · exact (h.of_same same).raisedOnly f
  have raised (g : Fault) : engine.Raised st'.state.session.tellings g ↔
      engine.answer st.state.asked q = .error g := by
    rw [told, Engine.raised_concat, or_iff_right (h.2 g), h.1]
  cases answer : engine.answer st.state.asked q with
  | error f =>
      intro g hg
      have := (raised g).mp hg
      rw [answer] at this
      exact (Except.error.inj this).symm
  | ok reply =>
      have unraised : Unraised engine st'.state :=
        ⟨by rw [Counted, told, count, h.1, List.length_append]; rfl, fun g hg => by
          have := (raised g).mp hg
          rw [answer] at this
          cases this⟩
      rcases meaning s.name index (.ok reply) with f | said
      · exact unraised.raisedOnly f
      · exact unraised

theorem tied_addCut (bound : Int) :
    Tied (Unraised engine) (RaisedOnly engine)
      ((oracle engine s index objective maximize).addCut bound) := by
  have same : Keeps SameQuestions ((oracle engine s index objective maximize).addCut bound) :=
    (keeps_ofExcept _).bind fun _ => keeps_update fun _ => ⟨rfl, rfl⟩
  exact same.tied (fun _ _ => Unraised.of_same) fun f _ h => h.raisedOnly f

theorem Engine.not_raised_nil : ¬ engine.Raised [] f := by
  rintro ⟨i, q, asked, -⟩
  simp at asked

theorem status_of_present {r : Settings × PseudoBoolean × WholeSum}
    {st st' : Logged (Session Question)}
    (h : (present engine hooks x p).runOn st = (.ok r, st')) : st'.state.status = .none := by
  rw [present_eq] at h
  obtain ⟨⟨settings, model⟩, _, handed, h⟩ := runOn_bind_eq_ok.mp h
  obtain ⟨_, t, hooked, h⟩ := runOn_bind_eq_ok.mp h
  have before : t.state.status = .none := (status_of_runHooks hooked).trans (status_of_handed handed)
  obtain ⟨_, _, summed, h⟩ := runOn_bind_eq_ok.mp h
  have same := (keeps_ofExcept (R := SameStatus) _).of_runOn summed
  cases h
  exact same.trans before

/-- How a solve ends that CP-SAT broke off: with what it raised, which shows in the status where it
is a failure of an engine. -/
structure Settles (f : Fault) {α : Type} (run : Except Fault α × Logged (Session Question)) :
    Prop where
  failure : f.cls = .engine → Fails f (.symbol (.status .error)) run
  other : f.cls ≠ .engine → Fails f .none run

theorem Settles.bind {α β : Type} {a : Action (Session Question) α} {s : Logged (Session Question)}
    (h : Settles f (a.runOn s)) (g : α → Action (Session Question) β) :
    Settles f ((a >>= g).runOn s) :=
  ⟨fun failure => (h.failure failure).bind g, fun other => (h.other other).bind g⟩

/-- A `search` in which CP-SAT broke a question off (`Engine.Raised`) ends with what it raised. -/
theorem settles_search (raised : engine.Raised
      ((search engine hooks clock questions x p).perform (.start x)).2.state.tellings f) :
    Settles f ((search engine hooks clock questions x p).perform (.start x)) := by
  unfold search at raised ⊢
  rw [perform, runOn_bind] at raised ⊢
  rcases presented : (present engine hooks x p).runOn ⟨.start x, []⟩ with
    ⟨g | ⟨settings, model, objective⟩, s⟩ <;>
    have new : s.state.tellings = [] := (keeps_present.of_runOn presented).tellings_eq <;>
    rw [presented] at raised
  · rw [new] at raised
    exact absurd raised Engine.not_raised_nil
  have before : s.state.status = .none := status_of_present presented
  have unraised : Unraised engine ⟨s.state, model, 0⟩ :=
    ⟨by rw [Counted, new]; rfl, fun f => by rw [new]; exact Engine.not_raised_nil⟩
  have tied : Tied (Unraised engine) (RaisedOnly engine) ((task p settings clock).optimize
      (oracle engine settings p.index objective (p.sense == .max)) questions) :=
    tied_optimize tied_decide tied_addCut (fun f _ h => h.raisedOnly f) questions
  have ended := tied ⟨⟨s.state, model, 0⟩, s.log⟩ unraised
  have same := keepsStatus_optimize engine settings p p.index objective clock questions
    ⟨⟨s.state, model, 0⟩, s.log⟩
  dsimp only at raised ⊢
  rw [runOn_optimize] at raised ⊢
  generalize ((task p settings clock).optimize _ questions).runOn _ = run at ended same raised ⊢
  rcases run with ⟨g | o, st⟩
  · dsimp only at raised ⊢
    by_cases failure : g.cls = .engine
    · rw [if_pos failure] at raised ⊢
      obtain rfl : f = g := ended f raised
      exact ⟨fun _ => ⟨rfl, rfl⟩, fun other => absurd failure other⟩
    · rw [if_neg failure] at raised ⊢
      obtain rfl : f = g := ended f raised
      exact ⟨fun failed => absurd failed failure, fun _ => ⟨rfl, same.trans before⟩⟩
  · exact absurd raised (ended.2 f)

/-- A solve in which CP-SAT broke a question off ends with what it raised. -/
theorem settles_of_raised (raised : engine.Raised
      ((solve engine hooks clock questions x p).perform (.start x)).2.state.tellings f) :
    Settles f ((solve engine hooks clock questions x p).perform (.start x)) := by
  rw [solve_eq_search] at raised ⊢
  refine Settles.bind (settles_search ?_) _
  rw [perform, runOn_bind] at raised
  rw [perform]
  rcases searched : (search engine hooks clock questions x p).runOn ⟨.start x, []⟩ with
    ⟨g | o, t⟩ <;> rw [searched] at raised
  · exact raised
  · rwa [(keeps_conclude p o t).adds.tellings_eq] at raised

end CpSat

/-! ## All engines -/

/-- What an engine raises while it solves ends `solve` without an answer. Bad values are reported as
a failure of SciPy, a failed program as one of the plugin, and Gurobi's own faults as one of Gurobi,
each with its cause (`Session.Surfaces`); what else these three raise, and all that HiGHS and CP-SAT
raise, is what the solve ends with (`Session.Fails`). -/
theorem failures_surface (x : Solver) (p : Problem) :
    (∀ (engine : Scipy.Engine K) (hooks : Hooks (Ranged K)) (c : Scipy.Call K) (f : Fault),
      let run := (Scipy.solve engine hooks x p).perform (.start x)
      c ∈ run.2.state.tellings → engine c = .error f →
        (f.cls = .value → Surfaces x.name f run) ∧
        (f.cls = .engine → Fails f (.symbol (.status .error)) run) ∧
        (f.cls ≠ .value → f.cls ≠ .engine → Fails f .none run)) ∧
    (∀ (value : K → Value) (env : Environment) (engine : Pyomo.Engine K)
        (hooks : Hooks (Symbolic K)),
      let run := (Pyomo.solve value env engine hooks x p).perform (.start x)
      (∀ read f, .read read ∈ run.2.state.tellings → engine.solve read = .error f →
        (Pyomo.isProgramFailure f = true → Surfaces x.name f run) ∧
        (Pyomo.isProgramFailure f = false → Fails f .none run)) ∧
      (∀ output, .solve output ∈ run.2.state.tellings → (∀ read, .read read ∉ run.2.state.tellings) →
        ∃ g, run.1 = .error g)) ∧
    (∀ (engine : Gurobi.Engine K) (hooks : Hooks (Incremental K)) (f : Fault),
      let run := (Gurobi.solve engine hooks x p).perform (.start x)
      .stage .optimize ∈ run.2.state.tellings → engine.breaksOff .optimize = some f →
        (Gurobi.isOwn f = true → Surfaces x.name f run) ∧
        (Gurobi.isOwn f = false → Fails f .none run)) ∧
    (∀ (engine : Highs.Engine K) (hooks : Hooks (Columnwise K)) (m : Columnwise K) (f : Fault),
      let run := (Highs.solve engine hooks x p).perform (.start x)
      .run m ∈ run.2.state.tellings → engine.run m = .error f → Fails f .none run) ∧
    (∀ (engine : CpSat.Engine) (hooks : Hooks PseudoBoolean) (clock : Nat → Float)
        (questions : Nat) (f : Fault),
      let run := (CpSat.solve engine hooks clock questions x p).perform (.start x)
      engine.Raised run.2.state.tellings f →
        (f.cls = .engine → Fails f (.symbol (.status .error)) run) ∧
        (f.cls ≠ .engine → Fails f .none run)) := by
  refine ⟨?_, ?_, ?_, ?_, ?_⟩
  · intro engine hooks c f run told raised
    obtain ⟨value, failure, other⟩ := Scipy.settles_of_raised told raised
    exact ⟨value, failure, other⟩
  · intro value env engine hooks run
    exact ⟨fun read f => Pyomo.fails_of_raised, fun output => Pyomo.exists_error_of_unread⟩
  · intro engine hooks f run told raised
    exact Gurobi.fails_of_raised told raised
  · intro engine hooks m f run told raised
    exact Highs.fails_of_raised told raised
  · intro engine hooks clock questions f run raised
    obtain ⟨failure, other⟩ := CpSat.settles_of_raised raised
    exact ⟨failure, other⟩

section

def brokenHighs (f : Fault) : Highs.Engine Float :=
  ⟨fun _ _ => true, fun _ => true, fun _ => .error f⟩

def brokenScipy (f : Fault) : Scipy.Engine Float :=
  fun _ => .error f

def brokenPlugin (f : Fault) : Pyomo.Engine Float :=
  ⟨fun _ => .ok true, fun _ => .error f⟩

def brokenGurobi (f : Fault) : Gurobi.Engine Float :=
  ⟨fun s => if s matches .optimize then some f else none, fun _ => stoppedGurobi⟩

/-- CP-SAT finds an assignment, and breaks off when it is asked for a better one. -/
def brokenCpSat (f : Fault) : CpSat.Engine where
  setOption _ _ := .ok ()
  fits _ := .ok ()
  answer asked _ := if asked = 0 then .ok ⟨.feasible, [true], ""⟩ else .error f

theorem raised_brokenCpSat {told : List CpSat.Question} (twice : told.length = 2) (f : Fault) :
    (brokenCpSat f).Raised told f := by
  obtain ⟨q, q', rfl⟩ := List.length_eq_two.mp twice
  exact ⟨1, q', rfl, rfl⟩

/-- A decision that would have to be infinite, which no plugin can read. -/
def endlessPick : Problem :=
  { pickProblem with
    domains := .empty, lowers := ⟨[(.text "x", .real Binary64.infinity)]⟩ }

theorem exists_mem_solve {told : List (Pyomo.Call Float)}
    (started : (told.any fun c => c matches .solve _) = true) : ∃ output, .solve output ∈ told := by
  obtain ⟨_ | _ | _ | output | _, started, last⟩ := List.any_eq_true.mp started
  · cases last
  · cases last
  · cases last
  · exact ⟨output, started⟩
  · cases last

theorem not_mem_read {told : List (Pyomo.Call Float)}
    (unread : (told.any fun c => c matches .read _) = false) (read : PluginModel Float) :
    .read read ∉ told :=
  fun mem => by simpa using List.any_eq_false.mp unread _ mem

/-- Each engine breaks off with a fault that it knows as its own, or with any, Gurobi also with one
that is not its own, and a plugin breaks off before it has read what it is given. -/
theorem failures_surface_pick :
    let scipy := Solver.fresh .scipy "scipy"
    let plugin := Solver.fresh .pyomo "cbc"
    let gurobi := Solver.fresh .gurobi "gurobi"
    let highs := Solver.fresh .highs "highs"
    let cpsat := Solver.fresh .cpsat "cpsat"
    let values := Fault.raised "ValueError" "bad arrays"
    let program := Fault.raised "ApplicationError" "lost"
    let own := Fault.raised "GurobiError" "lost"
    let foreign := Fault.raised "RuntimeError" "lost"
    let memory := Fault.raised "MemoryError" "lost"
    Surfaces scipy.name values
      ((Scipy.solve (brokenScipy values) idle scipy pickProblem).perform (.start scipy)) ∧
    Surfaces plugin.name program
      ((Pyomo.solve .real anywhere (brokenPlugin program) idle plugin pickProblem).perform
        (.start plugin)) ∧
    (∃ g, ((Pyomo.solve .real anywhere (brokenPlugin program) idle plugin endlessPick).perform
      (.start plugin)).1 = .error g) ∧
    Surfaces gurobi.name own
      ((Gurobi.solve (brokenGurobi own) idle gurobi pickProblem).perform (.start gurobi)) ∧
    Fails foreign .none
      ((Gurobi.solve (brokenGurobi foreign) idle gurobi pickProblem).perform (.start gurobi)) ∧
    Fails memory .none
      ((Highs.solve (brokenHighs memory) idle highs pickProblem).perform (.start highs)) ∧
    Fails memory .none
      ((CpSat.solve (brokenCpSat memory) idle (fun _ => 0.0) 3 cpsat pickProblem).perform
        (.start cpsat)) := by
  intro scipy plugin gurobi highs cpsat values program own foreign memory
  refine ⟨?_, ?_, ?_, ?_, ?_, ?_, ?_⟩
  · have asked : ((Scipy.solve (brokenScipy values) idle scipy pickProblem).perform
        (.start scipy)).2.state.tellings ≠ [] := by
      rw [ne_eq, ← List.isEmpty_iff]
      decide +kernel
    obtain ⟨c, told⟩ := List.exists_mem_of_ne_nil _ asked
    exact ((failures_surface scipy pickProblem).1 _ _ c values told rfl).1 rfl
  · have ran : ∃ read, .read read ∈ ((Pyomo.solve .real anywhere (brokenPlugin program) idle plugin
        pickProblem).perform (.start plugin)).2.state.tellings := exists_mem_read (by decide +kernel)
    obtain ⟨read, told⟩ := ran
    exact (((failures_surface plugin pickProblem).2.1 _ _ _ _).1 read program told rfl).1 rfl
  · have started : ∃ output, .solve output ∈ ((Pyomo.solve .real anywhere (brokenPlugin program)
        idle plugin endlessPick).perform (.start plugin)).2.state.tellings :=
      exists_mem_solve (by decide +kernel)
    obtain ⟨output, told⟩ := started
    exact ((failures_surface plugin endlessPick).2.1 _ _ _ _).2 output told
      (not_mem_read (by decide +kernel))
  · have told : .stage .optimize ∈ ((Gurobi.solve (brokenGurobi own) idle gurobi
        pickProblem).perform (.start gurobi)).2.state.tellings := mem_optimize (by decide +kernel)
    exact ((failures_surface gurobi pickProblem).2.2.1 _ _ own told rfl).1 rfl
  · have told : .stage .optimize ∈ ((Gurobi.solve (brokenGurobi foreign) idle gurobi
        pickProblem).perform (.start gurobi)).2.state.tellings := mem_optimize (by decide +kernel)
    exact ((failures_surface gurobi pickProblem).2.2.1 _ _ foreign told rfl).2 rfl
  · have ran : ∃ m, .run m ∈ ((Highs.solve (brokenHighs memory) idle highs pickProblem).perform
        (.start highs)).2.state.tellings := exists_mem_run (by decide +kernel)
    obtain ⟨m, told⟩ := ran
    exact (failures_surface highs pickProblem).2.2.2.1 _ _ m memory told rfl
  · have raised : (brokenCpSat memory).Raised ((CpSat.solve (brokenCpSat memory) idle
        (fun _ => 0.0) 3 cpsat pickProblem).perform (.start cpsat)).2.state.tellings memory :=
      raised_brokenCpSat (by decide +kernel) memory
    exact ((failures_surface (K := Float) cpsat pickProblem).2.2.2.2 _ _ _ _ memory raised).2
      (by decide)

end

end Milp
