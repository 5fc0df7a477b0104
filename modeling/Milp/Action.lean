import Milp.Fault

/-!
# Actions

A call on something that changes: it may be broken off by a fault, and whatever it changed or noted
up to that point stays. An action is a function of the state, so what it does to the state can be
stated as an equation.
-/

namespace Milp

/-- How grave a note is. -/
inductive Level where
  | debug
  | info
  | warning
  deriving Repr, DecidableEq

def Level.name : Level → String
  | debug => "DEBUG"
  | info => "INFO"
  | warning => "WARNING"

/-- The part of the library that takes a note. -/
inductive Channel where
  | problem
  | parameters
  | factory
  | cuts
  | engine (backend : Backend)
  deriving Repr, DecidableEq

/-- A note for whoever runs a program. -/
structure Message where
  level : Level
  channel : Channel
  text : Phrase
  deriving Repr

/-- A state with the notes taken so far. -/
structure Logged (σ : Type) where
  state : σ
  log : List Message
  deriving Repr

/-- A call on a state. -/
abbrev Action (σ α : Type) := ExceptT Fault (StateM (Logged σ)) α

namespace Action

variable {σ τ α β : Type}

/-- The state. -/
def read : Action σ σ := do return (← get).state

/-- Changes the state. -/
def update (f : σ → σ) : Action σ Unit :=
  modify fun s => { s with state := f s.state }

def note (level : Level) (channel : Channel) (text : Phrase) : Action σ Unit :=
  modify fun s => { s with log := s.log ++ [⟨level, channel, text⟩] }

/-- Takes notes that were taken elsewhere. -/
def noteAll (notes : List Message) : Action σ Unit :=
  modify fun s => { s with log := s.log ++ notes }

def ofExcept (e : Except Fault α) : Action σ α :=
  ExceptT.mk (pure e)

/-- Carries an action out on a state with the notes taken before. -/
def runOn (a : Action σ α) (s : Logged σ) : Except Fault α × Logged σ :=
  (ExceptT.run a).run s

def perform (a : Action σ α) (s : σ) : Except Fault α × Logged σ :=
  a.runOn ⟨s, []⟩

def onPart (part : σ → τ) (put : τ → σ → σ) (a : Action τ α) : Action σ α :=
  ExceptT.mk fun s =>
    let (r, t) := a.runOn ⟨part s.state, s.log⟩
    (r, ⟨put t.state s.state, t.log⟩)

/-! ## Equations -/

@[simp] theorem runOn_pure (x : α) (s : Logged σ) :
    (pure x : Action σ α).runOn s = (.ok x, s) := rfl

@[simp] theorem runOn_throw (f : Fault) (s : Logged σ) :
    (throw f : Action σ α).runOn s = (.error f, s) := rfl

/-- The second action runs where the first one ended, unless that was broken off. -/
theorem runOn_bind (a : Action σ α) (f : α → Action σ β) (s : Logged σ) :
    (a >>= f).runOn s =
      match a.runOn s with
      | (.ok x, t) => (f x).runOn t
      | (.error e, t) => (.error e, t) := by
  change (ExceptT.run a >>= ExceptT.bindCont f).run s = _
  rw [StateT.run_bind]
  change (match (ExceptT.run a).run s with | (r, t) => (ExceptT.bindCont f r).run t) = _
  unfold runOn
  rcases (ExceptT.run a).run s with ⟨r, t⟩
  cases r <;> rfl

@[simp] theorem runOn_read (s : Logged σ) :
    (read : Action σ σ).runOn s = (.ok s.state, s) := rfl

@[simp] theorem runOn_update (f : σ → σ) (s : Logged σ) :
    (update f).runOn s = (.ok (), { s with state := f s.state }) := rfl

@[simp] theorem runOn_note (level : Level) (channel : Channel) (text : Phrase) (s : Logged σ) :
    (note level channel text).runOn s =
      (.ok (), { s with log := s.log ++ [⟨level, channel, text⟩] }) := rfl

@[simp] theorem runOn_noteAll (notes : List Message) (s : Logged σ) :
    (noteAll notes).runOn s = (.ok (), { s with log := s.log ++ notes }) := rfl

@[simp] theorem runOn_ofExcept (e : Except Fault α) (s : Logged σ) :
    (ofExcept e : Action σ α).runOn s = (e, s) := rfl

@[simp] theorem runOn_onPart (part : σ → τ) (put : τ → σ → σ) (a : Action τ α) (s : Logged σ) :
    (onPart part put a).runOn s =
      ((a.runOn ⟨part s.state, s.log⟩).1,
        ⟨put (a.runOn ⟨part s.state, s.log⟩).2.state s.state,
          (a.runOn ⟨part s.state, s.log⟩).2.log⟩) := rfl

end Action

end Milp
