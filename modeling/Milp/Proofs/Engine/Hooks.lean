import Milp.Proofs.Engine.CpSat.Status
import Milp.Proofs.Engine.Forgetting
import Milp.Proofs.Engine.Gurobi.Course
import Milp.Proofs.Engine.Highs.Course
import Milp.Proofs.Engine.Pyomo.Course
import Milp.Proofs.Engine.Scipy.Replied

/-!
# Hooks in a solve

Every solve comes to its hooks at one place (`HookStage`), if it gets that far: once the native
model is there, and before the engine is asked anything about it. `runHooks` then takes the model
from one hook to the next, and the engine is asked about what they leave.
-/

namespace Milp

namespace Session

open Milp.Action

variable {ν μ α β : Type} {native : String} {hooks : Hooks μ} {index : Index}

/-! ## Calling hooks -/

/-- Hooks leave a model each, and the next one is called with the model that the last one left. -/
inductive Passes (native : String) (hooks : Hooks μ) (index : Index) : List Value → μ → μ → Prop
  | nil {m : μ} : Passes native hooks index [] m m
  | cons {hook : Value} {rest : List Value} {m m₁ m₂ : μ} (callable : checkHook native hook = .ok ())
      (left : hooks hook index m = (m₁, none)) (later : Passes native hooks index rest m₁ m₂) :
      Passes native hooks index (hook :: rest) m m₂

/-- `f` is what `hook` breaks off with. What cannot be called with a model and columns is not among
what was `called`. -/
inductive BreaksOff (native : String) (hooks : Hooks μ) (index : Index) (hook : Value) (m : μ)
    (f : Fault) : List Value → Prop
  | refused (h : checkHook native hook = .error f) : BreaksOff native hooks index hook m f []
  | raised (callable : checkHook native hook = .ok ()) (h : (hooks hook index m).2 = some f) :
      BreaksOff native hooks index hook m f [hook]

/-- Hooks all leave a model (`Passes`), or there is a first one that `BreaksOff`. -/
theorem passes_or_breaksOff (native : String) (hooks : Hooks μ) (index : Index) (list : List Value)
    (m : μ) :
    (∃ m', Passes native hooks index list m m') ∨
      ∃ before hook after m' f called, list = before ++ hook :: after ∧
        Passes native hooks index before m m' ∧ BreaksOff native hooks index hook m' f called := by
  induction list generalizing m with
  | nil => exact .inl ⟨m, .nil⟩
  | cons hook rest ih =>
      cases callable : checkHook native hook with
      | error f => exact .inr ⟨[], hook, rest, m, f, [], rfl, .nil, .refused callable⟩
      | ok u =>
          rcases left : hooks hook index m with ⟨m₁, _ | f⟩
          · rcases ih m₁ with ⟨m', passes⟩ | ⟨before, stop, after, m', f, called, rfl, passes, breaks⟩
            · exact .inl ⟨m', .cons callable left passes⟩
            · exact .inr ⟨hook :: before, stop, after, m', f, called, rfl,
                .cons callable left passes, breaks⟩
          · exact .inr ⟨[], hook, rest, m, f, [hook], rfl, .nil, .raised callable (by rw [left])⟩

/-- The session in which hooks have been called. -/
def withCalls (called : List Value) (index : Index) (s : Logged (Session ν)) :
    Logged (Session ν) :=
  { s with state := { s.state with
    events := s.state.events ++ called.map fun hook => .hook hook index } }

theorem withCalls_append (called later : List Value) (s : Logged (Session ν)) :
    withCalls later index (withCalls called index s) = withCalls (called ++ later) index s := by
  simp [withCalls]

theorem runOn_runHooks_cons {hook : Value} (callable : checkHook native hook = .ok ())
    (rest : List Value) (m : μ) (s : Logged (Session ν)) :
    (runHooks native hooks index (hook :: rest) m).runOn s =
      (match hooks hook index m with
        | (m, none) => runHooks native hooks index rest m
        | (_, some f) => throw f).runOn (withCalls [hook] index s) := by
  rw [runHooks, runOn_bind, runOn_ofExcept, callable]
  rfl

/-- Hooks that leave a model have each been called once, in order. -/
theorem runOn_runHooks_append {before : List Value} {m m' : μ}
    (passes : Passes native hooks index before m m') (rest : List Value)
    (s : Logged (Session ν)) :
    (runHooks native hooks index (before ++ rest) m).runOn s =
      (runHooks native hooks index rest m').runOn (withCalls before index s) := by
  induction passes generalizing s with
  | nil => simp [withCalls]
  | cons callable left _ ih =>
      rw [List.cons_append, runOn_runHooks_cons callable, left]
      dsimp only
      rw [ih, withCalls_append]
      rfl

theorem runOn_runHooks_of_passes {list : List Value} {m m' : μ}
    (passes : Passes native hooks index list m m') (s : Logged (Session ν)) :
    (runHooks native hooks index list m).runOn s = (.ok m', withCalls list index s) := by
  simpa [runHooks] using runOn_runHooks_append passes [] s

/-- A hook that breaks off is the last one that has been called. -/
theorem runOn_runHooks_of_breaksOff {before after called : List Value} {hook : Value} {m m' : μ}
    {f : Fault} (passes : Passes native hooks index before m m')
    (breaks : BreaksOff native hooks index hook m' f called) (s : Logged (Session ν)) :
    (runHooks native hooks index (before ++ hook :: after) m).runOn s =
      (.error f, withCalls (before ++ called) index s) := by
  rw [runOn_runHooks_append passes, ← withCalls_append]
  cases breaks with
  | refused h =>
      rw [runHooks, runOn_bind, runOn_ofExcept, h]
      simp [withCalls]
  | raised callable h =>
      rw [runOn_runHooks_cons callable]
      rcases left : hooks hook index m' with ⟨m₁, _ | g⟩ <;> rw [left] at h
      · cases h
      · cases h
        rfl

end Session

open Milp.Action Milp.Session

/-! ## The place of hooks -/

/-- Where hooks stand in a solve: the model that they are handed, and what the engine is told about
it. -/
structure HookStage (ν μ : Type) where
  /-- The kind of the model that hooks are called with. -/
  native : String
  hooks : Hooks μ
  /-- A solve comes to its hooks, and hands them a model. -/
  hands : Solver → Problem → μ → Prop
  /-- What the engine is told makes it solve something. -/
  asks : ν → Prop
  /-- What the engine is told is about a model. -/
  about : μ → ν → Prop
  /-- What a hook breaks off with is taken for a fault of the engine. -/
  own : Fault → Bool

namespace HookStage

variable {ν μ α : Type}

/-- How far the hooks of a solve came: to none, to one that breaks off, or to the end. -/
inductive HookCourse (stage : HookStage ν μ) (x : Solver) (p : Problem)
    (run : Except Fault α × Logged (Session ν)) : Prop
  /-- A solve that does not come to its hooks calls none, and does not ask the engine. -/
  | stopped {told : List ν} (early : ∀ m, ¬ stage.hands x p m)
      (events : run.2.state.events = told.map .told) (unasked : ∀ c ∈ told, ¬ stage.asks c)
  /-- A hook that breaks off is the last one that is called, and the engine is not asked. -/
  | broken {m m' : μ} {before after called : List Value} {hook : Value} {f : Fault}
      {told closing : List ν} (handed : stage.hands x p m)
      (order : x.hooks = before ++ hook :: after)
      (passes : Passes stage.native stage.hooks p.index before m m')
      (breaks : BreaksOff stage.native stage.hooks p.index hook m' f called)
      (events : run.2.state.events = told.map .told ++
        ((before ++ called).map fun hook => .hook hook p.index) ++ closing.map .told)
      (unasked : ∀ c ∈ told ++ closing, ¬ stage.asks c)
      (unchanged : stage.own f = false → run.1 = .error f ∧ run.2.state.status = .none)
  /-- Otherwise all hooks are called once and in order, and whatever the engine is asked after that
  is about the model that they leave. -/
  | ran {m m' : μ} {told later : List ν} (handed : stage.hands x p m)
      (passes : Passes stage.native stage.hooks p.index x.hooks m m')
      (events : run.2.state.events = told.map .told ++
        (x.hooks.map fun hook => .hook hook p.index) ++ later.map .told)
      (unasked : ∀ c ∈ told, ¬ stage.asks c)
      (about : ∀ c ∈ later, stage.asks c → stage.about m' c)

variable {stage : HookStage ν μ} {x : Solver} {p : Problem} {m : μ} {s : Logged (Session ν)}
  {run : Except Fault α × Logged (Session ν)}

theorem hookCourse_of_stopped (early : ∀ m, ¬ stage.hands x p m)
    (told : Appends (fun c => ¬ stage.asks c) (.start x) run.2.state) : stage.HookCourse x p run := by
  obtain ⟨told, events, unasked⟩ := told
  exact .stopped early events unasked

/-- A solve that has come to its hooks has a `HookCourse` if it goes on as it should from where they
end. -/
theorem hookCourse_of_hands (hands : stage.hands x p m)
    (told : Appends (fun c => ¬ stage.asks c) (.start x) s.state)
    (broken : ∀ before hook after m' f called, x.hooks = before ++ hook :: after →
      Passes stage.native stage.hooks p.index before m m' →
      BreaksOff stage.native stage.hooks p.index hook m' f called →
        Appends (fun c => ¬ stage.asks c) (withCalls (before ++ called) p.index s).state
          run.2.state ∧
        (stage.own f = false → run.1 = .error f ∧ run.2.state.status = .none))
    (ran : ∀ m', Passes stage.native stage.hooks p.index x.hooks m m' →
      Appends (fun c => stage.asks c → stage.about m' c) (withCalls x.hooks p.index s).state
        run.2.state) : stage.HookCourse x p run := by
  obtain ⟨told, events, unasked⟩ := told
  have events : s.state.events = told.map .told := events
  rcases passes_or_breaksOff stage.native stage.hooks p.index x.hooks m with
    ⟨m', passes⟩ | ⟨before, hook, after, m', f, called, order, passes, breaks⟩
  · obtain ⟨later, more, about⟩ := ran m' passes
    rw [withCalls, events] at more
    exact .ran hands passes more unasked about
  · obtain ⟨⟨closing, more, quiet⟩, unchanged⟩ :=
      broken before hook after m' f called order passes breaks
    rw [withCalls, events] at more
    exact .broken hands order passes breaks more
      (fun c hc => (List.mem_append.mp hc).elim (unasked c) (quiet c)) unchanged

/-- A solve whose first part makes the model that hooks are handed, if it gets so far, and that goes
on at once with the model that they leave. -/
theorem hookCourse_perform {γ : Type} {first : Action (Session ν) γ} (model? : γ → Option μ)
    {next : γ → Action (Session ν) α} (rest : γ → μ → Action (Session ν) α)
    (hands : ∀ m, stage.hands x p m ↔
      ∃ g, (first.perform (.start x)).1 = .ok g ∧ model? g = some m)
    (told : Keeps (Appends fun c => ¬ stage.asks c) first)
    (status : ∀ g s, first.runOn ⟨.start x, []⟩ = (.ok g, s) → s.state.status = .none)
    (without : ∀ g, model? g = none → Keeps (Appends fun c => ¬ stage.asks c) (next g))
    (course : ∀ g m, model? g = some m →
      next g = runHooks stage.native stage.hooks p.index x.hooks m >>= rest g)
    (appends : ∀ g m, Keeps (Appends fun c => stage.asks c → stage.about m c) (rest g m)) :
    stage.HookCourse x p ((first >>= next).perform (.start x)) := by
  have told := told ⟨.start x, []⟩
  rw [perform] at hands ⊢
  rw [runOn_bind]
  rcases h : first.runOn ⟨.start x, []⟩ with ⟨f | g, s⟩ <;> rw [h] at hands told
  · refine hookCourse_of_stopped (fun m handed => ?_) told
    obtain ⟨g, ended, -⟩ := (hands m).mp handed
    cases ended
  · dsimp only at hands told ⊢
    cases hm : model? g with
    | none =>
        refine hookCourse_of_stopped (fun m handed => ?_)
          (IsTrans.trans _ _ _ told (without g hm s))
        obtain ⟨_, ⟨⟩, found⟩ := (hands m).mp handed
        cases hm.symm.trans found
    | some m =>
        rw [course g m hm, runOn_bind]
        refine hookCourse_of_hands ((hands m).mpr ⟨g, rfl, hm⟩) told ?_ ?_
        · intro before hook after m' f called order passes breaks
          rw [order, runOn_runHooks_of_breaksOff passes breaks]
          exact ⟨Std.Refl.refl _, fun _ => ⟨rfl, status g s h⟩⟩
        · intro m' passes
          rw [runOn_runHooks_of_passes passes]
          exact appends g m' _

end HookStage

end Milp
