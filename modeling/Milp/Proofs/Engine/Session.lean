import Milp.Engine.Session
import Milp.Proofs.Action.Frame

/-!
# What happens in a session

What happens in a session only adds to what happened before. So a session in which the engine was
told something that only one of its parts tells has got to that part.
-/

namespace Milp.Session

open Milp.Action

variable {ν μ α β : Type} {P : ν → Prop}

/-- More has happened, and whatever the engine was told meanwhile has a property. -/
def Adds (P : ν → Prop) (s s' : Session ν) : Prop :=
  ∃ es, s'.events = s.events ++ es ∧ ∀ x, Event.told x ∈ es → P x

instance : Std.Refl (Adds P) :=
  ⟨fun _ => ⟨[], (List.append_nil _).symm, fun _ h => absurd h List.not_mem_nil⟩⟩

instance : IsTrans (Session ν) (Adds P) where
  trans s t u := by
    rintro ⟨es, hes, each⟩ ⟨es', hes', each'⟩
    refine ⟨es ++ es', by rw [hes', hes, List.append_assoc], fun x hx => ?_⟩
    rcases List.mem_append.mp hx with hx | hx
    · exact each x hx
    · exact each' x hx

theorem Adds.imp {Q : ν → Prop} {s s' : Session ν} (h : Adds P s s') (sub : ∀ x, P x → Q x) :
    Adds Q s s' := by
  obtain ⟨es, hes, each⟩ := h
  exact ⟨es, hes, fun x hx => sub x (each x hx)⟩

/-- What the engine is told in the end, it was told before or has the property. -/
theorem Adds.tellings {s s' : Session ν} (h : Adds P s s') :
    ∀ x ∈ s'.tellings, x ∈ s.tellings ∨ P x := by
  obtain ⟨es, hes, each⟩ := h
  intro x hx
  rw [Session.tellings, hes, List.filterMap_append, List.mem_append] at hx
  refine hx.imp id fun hx => ?_
  obtain ⟨e, he, found⟩ := List.mem_filterMap.mp hx
  cases e with
  | hook _ _ => cases found
  | told y =>
      obtain rfl := Option.some.inj found
      exact each y he

/-- What happens while the engine is told nothing leaves what it was told as it was. -/
theorem Adds.tellings_eq {s s' : Session ν} (h : Adds (fun _ => False) s s') :
    s'.tellings = s.tellings := by
  obtain ⟨es, hes, each⟩ := h
  rw [Session.tellings, hes, List.filterMap_append]
  refine (congrArg _ (List.filterMap_eq_nil_iff.mpr fun e he => ?_)).trans (List.append_nil _)
  cases e with
  | hook _ _ => rfl
  | told x => exact (each x he).elim

/-- The engine was told some things with a property, and no hook ran. -/
def Appends (P : ν → Prop) (s s' : Session ν) : Prop :=
  ∃ told : List ν, s'.events = s.events ++ told.map .told ∧ ∀ x ∈ told, P x

instance : Std.Refl (Appends P) :=
  ⟨fun _ => ⟨[], (List.append_nil _).symm, fun _ h => absurd h List.not_mem_nil⟩⟩

instance : IsTrans (Session ν) (Appends P) where
  trans s t u := by
    rintro ⟨told, h, each⟩ ⟨told', h', each'⟩
    exact ⟨told ++ told', by rw [h', h, List.append_assoc, List.map_append],
      fun x hx => (List.mem_append.mp hx).elim (each x) (each' x)⟩

theorem appends_of_events_eq {s s' : Session ν} (h : s'.events = s.events) : Appends P s s' :=
  ⟨[], by rw [h]; exact (List.append_nil _).symm, fun _ h => absurd h List.not_mem_nil⟩

theorem Appends.imp {Q : ν → Prop} {s s' : Session ν} (h : Appends P s s') (sub : ∀ x, P x → Q x) :
    Appends Q s s' := by
  obtain ⟨told, events, each⟩ := h
  exact ⟨told, events, fun x hx => sub x (each x hx)⟩

/-- What happens while the engine is told things leaves the calls of hooks as they were. -/
theorem Appends.hookCalls_eq {s s' : Session ν} (h : Appends P s s') :
    s'.hookCalls = s.hookCalls := by
  obtain ⟨told, events, -⟩ := h
  rw [Session.hookCalls, events, List.filterMap_append]
  refine (congrArg _ (List.filterMap_eq_nil_iff.mpr fun e he => ?_)).trans (List.append_nil _)
  obtain ⟨x, -, rfl⟩ := List.mem_map.mp he
  rfl

theorem Appends.adds {s s' : Session ν} (h : Appends P s s') : Adds P s s' := by
  obtain ⟨told, events, each⟩ := h
  refine ⟨_, events, fun x hx => ?_⟩
  obtain ⟨y, hy, same⟩ := List.mem_map.mp hx
  exact Event.told.inj same ▸ each y hy

/-- What the engine was told meanwhile comes after what it was told before. -/
theorem Appends.exists_tellings {s s' : Session ν} (h : Appends P s s') :
    ∃ told, s'.tellings = s.tellings ++ told ∧ ∀ x ∈ told, P x := by
  obtain ⟨told, events, each⟩ := h
  refine ⟨told, ?_, each⟩
  rw [Session.tellings, events, List.filterMap_append, List.filterMap_map]
  exact congrArg _ List.filterMap_some

/-- The engine was told some things with a property, and nothing else has become of the solver. -/
structure Only (P : ν → Prop) (s s' : Session ν) : Prop where
  appends : Appends P s s'
  status : s'.status = s.status

instance : Std.Refl (Only P) :=
  ⟨fun s => ⟨Std.Refl.refl s, rfl⟩⟩

instance : IsTrans (Session ν) (Only P) where
  trans _ _ _ h h' := ⟨IsTrans.trans _ _ _ h.appends h'.appends, h'.status.trans h.status⟩

theorem tellings_told (s : Session ν) (x : ν) :
    ({ s with events := s.events ++ [.told x] } : Session ν).tellings = s.tellings ++ [x] :=
  List.filterMap_append

@[simp] theorem tellings_start (solver : Solver) : (start solver : Session ν).tellings = [] := rfl

/-! ## Parts of a solve -/

theorem keeps_tell {x : ν} (h : P x) : Keeps (Only P) (tell x) :=
  keeps_update fun _ => ⟨⟨[x], rfl, by simpa using h⟩, rfl⟩

theorem keeps_setStatus (status : Option Status) :
    Keeps (Appends P) (setStatus status : Action (Session ν) Unit) :=
  keeps_update fun _ => appends_of_events_eq rfl

theorem keeps_setHistory (history : List Int) :
    Keeps (Appends P) (setHistory history : Action (Session ν) Unit) :=
  keeps_update fun _ => appends_of_events_eq rfl

theorem keeps_fail (engine : Value) (failure : EngineFailure) :
    Keeps (Appends P) (fail engine failure : Action (Session ν) α) :=
  (keeps_setStatus _).bind fun _ => keeps_throw _

theorem runOn_freeze {σ : Type} (name : Value) (parameters : Table Value) (s : Logged σ) :
    (Settings.freeze name parameters : Action σ Settings).runOn s =
      ((Settings.ofParameters name parameters).1,
        { s with log := s.log ++ (Settings.ofParameters name parameters).2 }) := rfl

theorem keeps_freeze (name : Value) (parameters : Table Value) :
    Keeps (Appends P) (Settings.freeze name parameters : Action (Session ν) Settings) :=
  fun _ => appends_of_events_eq rfl

/-- Hooks leave nothing in a session but that they ran. -/
theorem keeps_hooks {R : Session ν → Session ν → Prop} [Std.Refl R] [IsTrans (Session ν) R]
    (ran : ∀ s hook index, R s { s with events := s.events ++ [.hook hook index] }) (native : String)
    (hooks : Hooks μ) (index : Index) (list : List Value) (m : μ) :
    Keeps R (runHooks native hooks index list m) := by
  induction list generalizing m with
  | nil => exact keeps_pure m
  | cons hook rest ih =>
      refine (keeps_ofExcept _).bind fun _ => (keeps_update fun s => ran s hook index).bind fun _ => ?_
      rcases hooks hook index m with ⟨m', _ | f⟩
      · exact ih m'
      · exact keeps_throw f

/-- `runHooks` tells the engine nothing. -/
theorem keeps_runHooks (native : String) (hooks : Hooks μ) (index : Index) (list : List Value)
    (m : μ) : Keeps (Adds P) (runHooks native hooks index list m : Action (Session ν) μ) :=
  keeps_hooks (fun _ hook index => ⟨[.hook hook index], rfl, by simp⟩) native hooks index list m

/-! ## Getting to a part -/

/-- Where the engine is told in the end what the first part of an action does not tell it, that part
gave a result, and the other part went on from there. -/
theorem exists_of_told {Q : ν → Prop} {a : Action (Session ν) α} {f : α → Action (Session ν) β}
    (quiet : Keeps (Adds fun x => ¬ Q x) a) {s : Logged (Session ν)}
    (before : ∀ x ∈ s.state.tellings, ¬ Q x) {x : ν} (hx : Q x)
    (told : x ∈ ((a >>= f).runOn s).2.state.tellings) :
    ∃ y s₁, a.runOn s = (.ok y, s₁) ∧ (a >>= f).runOn s = (f y).runOn s₁ ∧
      ∀ x ∈ s₁.state.tellings, ¬ Q x := by
  rcases ha : a.runOn s with ⟨e | y, s₁⟩
  · have ended : (a >>= f).runOn s = (.error e, s₁) := by rw [runOn_bind, ha]
    rw [ended] at told
    rcases (quiet.of_runOn ha).tellings x told with old | new
    · exact absurd hx (before x old)
    · exact absurd hx new
  · refine ⟨y, s₁, rfl, by rw [runOn_bind, ha], fun x hx => ?_⟩
    exact ((quiet.of_runOn ha).tellings x hx).elim (before x) id

end Milp.Session
