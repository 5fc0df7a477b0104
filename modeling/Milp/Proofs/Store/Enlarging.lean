import Milp.Proofs.Engine.Session
import Milp.Proofs.Store.Dictionaries
import Milp.Proofs.Store.Independence

/-!
# What only adds to the store

A solve, a record of settings that is made, and a solver that a factory makes leave the dictionaries
there were as they are, and those of factories and solvers with them. A solver that is made has a
dictionary of its own, with the entries of that of the factory.
-/

namespace Milp.Store

open Milp.Action

section

variable {f d : Nat} {s t : Store}

/-- Dictionaries, and solvers with dictionaries of theirs, were only added. -/
structure Enlarges (s t : Store) : Prop where
  dicts : s.dicts <+: t.dicts
  factories : t.factories = s.factories
  solvers : s.solvers.length ≤ t.solvers.length
  parameters : ∀ i < s.solvers.length, (t.solver i).parameters = (s.solver i).parameters

theorem Enlarges.of_eq (dicts : s.dicts <+: t.dicts) (factories : t.factories = s.factories)
    (solvers : t.solvers = s.solvers) : Enlarges s t :=
  ⟨dicts, factories, by simp [solvers], fun i _ => by simp [solver, solvers]⟩

instance : Std.Refl Enlarges := ⟨fun _ => .of_eq (List.prefix_refl _) rfl rfl⟩

instance : IsTrans Store Enlarges where
  trans s t u h h' := by
    have count := h.solvers
    refine ⟨h.dicts.trans h'.dicts, h'.factories.trans h.factories,
      Nat.le_trans count h'.solvers, ?_⟩
    intro i hi
    rw [h'.parameters i (by omega), h.parameters i hi]

theorem growing_enlarges : Growing Enlarges where
  apart _ _ := .of_eq (List.prefix_refl _) rfl rfl
  results _ _ := .of_eq (List.prefix_refl _) rfl rfl
  lists _ _ := .of_eq (List.prefix_refl _) rfl rfl
  dicts _ _ := .of_eq (List.prefix_append _ _) rfl rfl

/-- What a solver remembers of a solve is beside its parameters. -/
theorem keeps_changeSolver (i : Nat) {g : SolverObject → SolverObject}
    (same : ∀ x, (g x).parameters = x.parameters) : Keeps Enlarges (changeSolver i g) := by
  refine keeps_update fun s => ⟨List.prefix_refl _, rfl, by simp, ?_⟩
  intro k hk
  by_cases own : i = k
  · subst own
    simp [solver, hk, same]
  · simp [solver, own]

theorem keeps_leaveSession {ν : Type} (i : Nat) (session : Session ν) :
    Keeps Enlarges (leaveSession i session) := by
  rw [leaveSession_eq]
  refine Keeps.bind (keeps_changeSolver i ?_) fun _ => ?_
  · intro x
    rfl
  have recorded : Keeps Enlarges (session.hookCalls.forM recordHook) := by
    refine keeps_forM (fun call => ?_) _
    unfold recordHook
    split
    · exact keeps_read.bind fun _ => keeps_update fun _ => .of_eq (List.prefix_refl _) rfl rfl
    · exact keeps_pure _
  cases session.history with
  | none => exact recorded
  | some history =>
      refine (growing_enlarges.keeps_newList _).bind fun _ =>
        Keeps.bind (keeps_changeSolver i ?_) fun _ => recorded
      intro x
      rfl

/-- `solve` leaves all parameters as they are, however it ends (`Enlarges`). -/
theorem keeps_solve {K ν : Type} (way : Way K ν) (r : Ref) (problem : Value) :
    Keeps Enlarges (solve way r problem) := by
  have ran (x : Solver) (act : Action (Session ν) (Option (Solution K))) :
      Keeps Enlarges (runSession r x problem way.value act) := by
    refine (keeps_leaveSession _ _).bind fun _ => (keeps_noteAll _).bind fun _ =>
      Keeps.bind ?_ fun _ => keeps_pure _
    exact keeps_attempt (keeps_makeResult way.value problem _ growing_enlarges)
  refine keeps_read.bind fun s => ?_
  split
  · exact (keeps_attempt (growing_enlarges.keeps_callValue _ _)).bind fun _ => keeps_pure _
  · refine keeps_read.bind fun s => (keeps_attempt (growing_enlarges.keeps_prepare _ _ _)).bind ?_
    intro prepared
    cases prepared with
    | error f => exact keeps_pure _
    | ok u =>
        refine (keeps_attempt (growing_enlarges.keeps_checkProblem _ _)).bind fun checked => ?_
        cases checked with
        | error f => exact ran _ _
        | ok u => exact keeps_read.bind fun _ => ran _ _

/-! ## Making solvers -/

/-- `setParameter` writes an entry of the dictionary of the object. -/
theorem runOn_setParameter {r : Ref} {s : Logged Store} (held : s.state.parametersOf? r = some d)
    (k v : Value) :
    (setParameter r k v).runOn s =
      (k.checkKey, { s with state := s.state.editing d (Edit.write k v) }) := by
  have found : s.state.parametersHeld r "set_parameter" = .ok d := by rw [parametersHeld, held]
  unfold setParameter
  rw [runOn_bind, runOn_read]
  dsimp only
  rw [runOn_bind, runOn_ofExcept, found]
  exact runOn_write k v s

/-- The parameters of a solver are set one after the other, as far as that goes. -/
theorem runOn_giveParameters {r : Ref} {s : Logged Store}
    (held : s.state.parametersOf? r = some d) (entries : List (Value × Value)) :
    ∃ es result, (giveParameters (.object r) ⟨entries⟩).runOn s =
        (result, { s with state := s.state.editing d es }) ∧
      (result = .ok () → es = Edit.puts entries) := by
  induction entries generalizing s with
  | nil => exact ⟨[], .ok (), by rw [editing_nil]; rfl, fun _ => rfl⟩
  | cons e entries ih =>
      change ∃ es result, (setParameter r e.1 e.2 >>= fun _ =>
        giveParameters (.object r) ⟨entries⟩).runOn s = _ ∧ _
      rw [runOn_bind, runOn_setParameter held]
      cases key : e.1.checkKey with
      | error g => exact ⟨Edit.write e.1 e.2, .error g, rfl, nofun⟩
      | ok u =>
          obtain ⟨es, result, run, whole⟩ :=
            ih (s := { s with state := s.state.editing d (Edit.write e.1 e.2) }) held
          refine ⟨Edit.write e.1 e.2 ++ es, result, ?_, ?_⟩
          · dsimp only
            rw [run]
            dsimp only
            rw [editing_editing]
          · intro ended
            rw [whole ended, Edit.write, key]
            rfl

theorem modify_concat {α : Type} (xs : List α) (x : α) (g : α → α) :
    (xs ++ [x]).modify xs.length g = xs ++ [g x] := by
  induction xs with
  | nil => rfl
  | cons y xs ih => simp [ih]

/-- The store with one more solver, which has a dictionary of its own. -/
def withSolver (s : Store) (b : Backend) (name : Value) (t : Table Value) : Store :=
  { s with
    dicts := s.dicts ++ [t]
    lists := s.lists ++ [[]]
    solvers := s.solvers ++
      [⟨b, name, s.dicts.length, [], .none, .object ⟨.list, s.lists.length⟩⟩] }

section

variable {b : Backend} {name : Value} {u : Table Value}

theorem solver_withSolver : ((s.withSolver b name u).solver s.solvers.length).parameters =
    s.dicts.length := by
  simp [withSolver, solver]

theorem editing_withSolver (es : List Edit) :
    (s.withSolver b name u).editing s.dicts.length es = s.withSolver b name (u.edited es) := by
  have changed : (s.withSolver b name u).dicts.modify s.dicts.length (fun t => t.edited es) =
      s.dicts ++ [u.edited es] :=
    modify_concat s.dicts u _
  rw [editing, changed]
  rfl

theorem enlarges_withSolver : Enlarges s (s.withSolver b name u) := by
  refine ⟨List.prefix_append _ _, rfl, by simp [withSolver], ?_⟩
  intro i hi
  simp [withSolver, solver, List.getElem?_append_left hi]

end

theorem runOn_makeSolver (env : Environment) (name : Value) (s : Logged Store) :
    (makeSolver env name).runOn s =
      match Solver.create env name with
      | .error g => (.error g, s)
      | .ok x => (.ok (.object ⟨.solver x.backend, s.state.solvers.length⟩),
          { s with state := s.state.withSolver x.backend x.name .empty }) := by
  rw [makeSolver, runOn_bind, runOn_ofExcept]
  cases Solver.create env name <;> rfl

/-- `solverOfFactory` makes a solver with a dictionary of its own (`withSolver`), in which the
entries of that of the factory have been written. If that is broken off there is no solver, and in
no case is anything else changed. -/
theorem runOn_solverOfFactory (env : Environment) {s : Logged Store}
    (placed : (s.state.factory f).parameters < s.state.dicts.length) :
    let made := (solverOfFactory env f).runOn s
    ((∃ g, made.1 = .error g) ∧ Enlarges s.state made.2.state) ∨
      ∃ b name, made.1 = .ok (.object ⟨.solver b, s.state.solvers.length⟩) ∧
        made.2.state = s.state.withSolver b name
          (Table.empty.insertAll (s.state.dict (s.state.factory f).parameters).entries) := by
  dsimp only
  unfold solverOfFactory
  rw [runOn_bind, runOn_read]
  dsimp only
  rw [runOn_bind, runOn_makeSolver]
  cases Solver.create env (s.state.factory f).name with
  | error g => exact .inl ⟨⟨g, rfl⟩, Std.Refl.refl _⟩
  | ok x =>
      have same : (s.state.withSolver x.backend x.name .empty).dict (s.state.factory f).parameters =
          s.state.dict (s.state.factory f).parameters := by
        simp [withSolver, dict, List.getElem?_append_left placed]
      have held : (s.state.withSolver x.backend x.name .empty).parametersOf?
          ⟨.solver x.backend, s.state.solvers.length⟩ = some s.state.dicts.length :=
        congrArg some solver_withSolver
      obtain ⟨es, result, given, whole⟩ := runOn_giveParameters
        (s := { s with state := s.state.withSolver x.backend x.name .empty }) held
        (s.state.dict (s.state.factory f).parameters).entries
      dsimp only at given ⊢
      rw [editing_withSolver] at given
      rw [runOn_bind, runOn_read]
      dsimp only
      rw [same, runOn_bind, given]
      cases result with
      | error g => exact .inl ⟨⟨g, rfl⟩, enlarges_withSolver⟩
      | ok u =>
          refine .inr ⟨x.backend, x.name, rfl, ?_⟩
          rw [whole rfl, Table.edited_puts]
          rfl

/-! ## Making records of settings -/

theorem keeps_recordOf (x : Settings) : Keeps Enlarges (recordOf x) :=
  (growing_enlarges.keeps_newDict _).bind fun _ => keeps_pure _

theorem keeps_settings (name : Value) (parameters : Table Value) :
    Keeps Enlarges (Settings.freeze name parameters : Action Store Settings) := by
  intro s
  rw [Session.runOn_freeze]
  exact Std.Refl.refl _

/-- `freeze` leaves parameters as they are, however it ends. -/
theorem keeps_freeze (r : Ref) (name : Value) : Keeps Enlarges (freeze r name) :=
  keeps_read.bind fun _ => (keeps_ofExcept _).bind fun _ => (keeps_settings _ _).bind fun _ =>
    keeps_recordOf _

/-- The options of a record of settings are a new dictionary. -/
theorem number_of_recordOf {x : Settings} {v : Value} {s t : Logged Store}
    (run : (recordOf x).runOn s = (.ok v, t)) :
    (∃ timeLimit gap threads verbose postsolve, v = .config x.name timeLimit gap threads verbose
      postsolve (.object ⟨.dict, s.state.dicts.length⟩)) ∧
      s.state.dicts.length < t.state.dicts.length := by
  unfold recordOf at run
  obtain ⟨options, s₁, added, run⟩ := runOn_bind_eq_ok.mp run
  unfold newDict at added
  obtain ⟨d, s₂, added, stored⟩ := runOn_bind_eq_ok.mp added
  obtain ⟨number, keys, values, -, -, -, -, dicts⟩ := exists_of_addDict added
  cases stored
  cases run
  subst number
  exact ⟨⟨_, _, _, _, _, rfl⟩, by simp [dicts]⟩

theorem number_of_freeze {r : Ref} {name v : Value} {s t : Logged Store}
    (run : (freeze r name).runOn s = (.ok v, t)) :
    (∃ n timeLimit gap threads verbose postsolve, v = .config n timeLimit gap threads verbose
      postsolve (.object ⟨.dict, s.state.dicts.length⟩)) ∧
      s.state.dicts.length < t.state.dicts.length := by
  unfold freeze at run
  obtain ⟨_, _, ⟨⟩, run⟩ := runOn_bind_eq_ok.mp run
  obtain ⟨d, s₁, held, run⟩ := runOn_bind_eq_ok.mp run
  obtain rfl : s = s₁ := congrArg Prod.snd held
  obtain ⟨x, s₁, frozen, run⟩ := runOn_bind_eq_ok.mp run
  rw [Session.runOn_freeze] at frozen
  obtain ⟨-, rfl⟩ := Prod.mk.inj frozen
  obtain ⟨⟨timeLimit, gap, threads, verbose, postsolve, rfl⟩, more⟩ := number_of_recordOf run
  exact ⟨⟨_, timeLimit, gap, threads, verbose, postsolve, rfl⟩, more⟩

end

end Milp.Store
