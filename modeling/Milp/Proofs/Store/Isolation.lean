import Milp.Proofs.Store.Enlarging

/-!
# Parameters of a factory and its solvers

`solverOfFactory` makes a solver with the parameters that the factory has then, and the solver goes
on by itself: what is written to one dictionary of parameters is seen in no other one, and in no
record of settings (`Isolated`).
-/

namespace Milp.Store

open Milp.Action

/-! ## Holders -/

/-- What has a dictionary of its own: a factory, a solver that it made, or a record of settings,
whose options are one. -/
inductive Holder
  | factory
  | solver (i : Nat)
  | record (o : Nat)
  deriving DecidableEq

namespace Holder

/-- The dictionary of a holder, by its number. -/
def dictIn (f : Nat) (s : Store) : Holder → Nat
  | factory => (s.factory f).parameters
  | solver i => (s.solver i).parameters
  | record o => o

/-- The holder is an object on which parameters can be set. -/
inductive Is (f : Nat) : Holder → Ref → Prop
  | factory : Is f .factory ⟨.factory, f⟩
  | solver (b : Backend) (i : Nat) : Is f (.solver i) ⟨.solver b, i⟩

theorem Is.parametersOf? {f : Nat} {h : Holder} {r : Ref} (is : h.Is f r) (s : Store) :
    s.parametersOf? r = some (h.dictIn f s) := by
  cases is with
  | factory => rfl
  | solver b i => rfl

end Holder

/-! ## Steps -/

/-- What was done: edits of the dictionary of a holder, a solver that was made, or a record of
settings, with the options that it had then. -/
inductive Step
  | write (h : Holder) (es : List Edit)
  | make (i : Nat)
  | freeze (o : Nat) (options : Table Value)

namespace Step

/-- The holder that there is since a step. -/
def holder? : Step → Option Holder
  | write .. => none
  | make i => some (.solver i)
  | freeze o _ => some (.record o)

/-- The dictionaries of holders after a step. -/
def change (T : Holder → Table Value) : Step → Holder → Table Value
  | write h es => Function.update T h ((T h).edited es)
  | make i => Function.update T (.solver i) (T .factory)
  | freeze o options => Function.update T (.record o) options

/-- The edits that a step makes of the dictionary of a holder. -/
def editsOf (h : Holder) : Step → List Edit
  | write h' es => if h' = h then es else []
  | _ => []

theorem change_of_ne {T : Holder → Table Value} {d : Step} {h : Holder}
    (other : d.holder? ≠ some h) :
    change T d h = (T h).edited (d.editsOf h) := by
  cases d with
  | write h' es =>
      by_cases same : h' = h
      · subst same
        simp [change, editsOf]
      · simp [change, editsOf, same, Ne.symm same]
  | make i =>
      have other : h ≠ .solver i := fun same => other (by rw [same]; rfl)
      simp [change, editsOf, other]
  | freeze o options =>
      have other : h ≠ .record o := fun same => other (by rw [same]; rfl)
      simp [change, editsOf, other]

end Step

/-- The factory, and the holders that steps have made, in order. -/
def holders (steps : List Step) : List Holder :=
  .factory :: steps.filterMap Step.holder?

/-- The dictionaries of holders after steps, where the factory started with a dictionary. -/
def tables (start : Table Value) (steps : List Step) : Holder → Table Value :=
  steps.foldl Step.change fun _ => start

/-- The edits of the dictionary of a holder among steps. -/
def editsOf (h : Holder) (steps : List Step) : List Edit :=
  steps.flatMap (Step.editsOf h)

section

variable {f d : Nat} {s t : Store} {h : Holder} {steps before later : List Step} {step : Step}
  {start : Table Value}

theorem holders_concat (steps : List Step) (step : Step) :
    holders (steps ++ [step]) = holders steps ++ step.holder?.toList := by
  cases hd : step.holder? <;> simp [holders, hd]

@[simp] theorem tables_concat (start : Table Value) (steps : List Step) (step : Step) :
    tables start (steps ++ [step]) = step.change (tables start steps) := by
  simp [tables]

/-- Since it is there, the dictionary of a holder is changed by its own edits and nothing else. -/
theorem foldl_change (once : ∀ step ∈ later, step.holder? ≠ some h) (T : Holder → Table Value) :
    later.foldl Step.change T h = (T h).edited (editsOf h later) := by
  induction later generalizing T with
  | nil => rfl
  | cons step later ih =>
      obtain ⟨head, tail⟩ := List.forall_mem_cons.mp once
      rw [List.foldl_cons, ih tail, Step.change_of_ne head, ← Table.edited_append]
      simp [editsOf]

theorem tables_cons (start : Table Value) (before : List Step) (step : Step) (later : List Step) :
    tables start (before ++ step :: later) =
      later.foldl Step.change (step.change (tables start before)) := by
  simp [tables]

theorem tables_factory (start : Table Value) (steps : List Step) :
    tables start steps .factory = start.edited (editsOf .factory steps) := by
  have never : ∀ step ∈ steps, step.holder? ≠ some .factory := by
    intro step _
    cases step <;> simp [Step.holder?]
  exact foldl_change never _

theorem holder?_of_nodup (once : (holders (before ++ step :: later)).Nodup)
    (hd : step.holder? = some h) : ∀ step' ∈ later, step'.holder? ≠ some h := by
  intro step' mem same
  have twice : (before.filterMap Step.holder? ++ h :: later.filterMap Step.holder?).Nodup := by
    simpa [holders, hd] using (List.nodup_cons.mp once).2
  have again : h ∈ later.filterMap Step.holder? := List.mem_filterMap.mpr ⟨step', mem, same⟩
  exact (List.nodup_cons.mp (List.nodup_append.mp twice).2.1).1 again

/-- A solver has the parameters that the factory had when it was made, and its own edits. -/
theorem tables_solver {i : Nat} (once : (holders (before ++ .make i :: later)).Nodup) :
    tables start (before ++ .make i :: later) (.solver i) =
      (start.edited (editsOf .factory before)).edited (editsOf (.solver i) later) := by
  rw [tables_cons, foldl_change (holder?_of_nodup once rfl), ← tables_factory]
  simp [Step.change]

/-- The options of a record of settings are those that it was made with, and its own edits. -/
theorem tables_record {o : Nat} {options : Table Value}
    (once : (holders (before ++ .freeze o options :: later)).Nodup) :
    tables start (before ++ .freeze o options :: later) (.record o) =
      options.edited (editsOf (.record o) later) := by
  rw [tables_cons, foldl_change (holder?_of_nodup once rfl)]
  simp [Step.change]

/-! ## Histories -/

/-- The options that a factory is made with, under their names. -/
def namedOptions (options : List (String × Value)) : Table Value :=
  .ofList (options.map fun e => (.text e.1, e.2))

/-- A write to the dictionary of a holder, with the edits that it should make: `setParameter`,
setting or deleting an item, `updateFrom` (`|=`), or a call on the dictionary. -/
inductive Writes (f : Nat) (h : Holder) (s : Store) : List Edit → Store → Prop
  | set {r : Ref} (is : h.Is f r) (k v : Value) :
      Writes f h s (Edit.write k v) ((setParameter r k v).perform s).2.state
  | item (k v : Value) :
      Writes f h s (Edit.write k v)
        ((setItem (.object ⟨.dict, h.dictIn f s⟩) k v).perform s).2.state
  | delete (k : Value) :
      Writes f h s ((s.dict (h.dictIn f s)).editsOfRemoval k)
        ((deleteEntry (h.dictIn f s) k).perform s).2.state
  | merge (v : Value) :
      Writes f h s (updating (h.dictIn f s) s v).1
        ((updateFrom (h.dictIn f s) v).perform s).2.state
  | call {method : String} {a : Arguments} {act : Action Store Value}
      (known : callDict? (h.dictIn f s) method a = some act) :
      Writes f h s (editsOfCall (h.dictIn f s) s method a) (act.perform s).2.state

/-- Holders have the dictionaries that they had, and these are as they were. -/
structure Unaffected (f : Nat) (hs : List Holder) (s t : Store) : Prop where
  dicts : s.dicts.length ≤ t.dicts.length
  solvers : s.solvers.length ≤ t.solvers.length
  dictIn : ∀ h ∈ hs, h.dictIn f t = h.dictIn f s
  dict : ∀ h ∈ hs, t.dict (h.dictIn f s) = s.dict (h.dictIn f s)

/-- The step that having a solver made is; none, if there is no solver. -/
def made : Except Fault Value → List Step
  | .ok (.object ⟨.solver _, i⟩) => [.make i]
  | _ => []

/-- The step that freezing parameters is; none, if there is no record. -/
def frozen (s : Store) : Except Fault Value → List Step
  | .ok (.config _ _ _ _ _ _ (.object ⟨.dict, o⟩)) => [.freeze o (s.dict o)]
  | _ => []

/-- What was done with the parameters of a factory, of the solvers that it made, and of the records
that were made of them, in any order. Solves come in between, and whatever leaves them alone. -/
inductive History (f : Nat) (options : List (String × Value)) : List Step → Store → Prop
  | start {s : Store} {env : Environment} {name : Value}
      (new : ((makeFactory env name (namedOptions options)).perform s).1 =
        .ok (.object ⟨.factory, f⟩)) :
      History f options [] ((makeFactory env name (namedOptions options)).perform s).2.state
  | write {s t : Store} {steps : List Step} {h : Holder} {es : List Edit}
      (history : History f options steps s) (there : h ∈ holders steps)
      (writes : Writes f h s es t) : History f options (steps ++ [.write h es]) t
  | get {s : Store} {steps : List Step} (history : History f options steps s) (env : Environment) :
      History f options (steps ++ made ((solverOfFactory env f).perform s).1)
        ((solverOfFactory env f).perform s).2.state
  | freeze {s : Store} {steps : List Step} {h : Holder} {r : Ref}
      (history : History f options steps s) (there : h ∈ holders steps) (is : h.Is f r)
      (name : Value) :
      History f options
        (steps ++ frozen ((Store.freeze r name).perform s).2.state
          ((Store.freeze r name).perform s).1)
        ((Store.freeze r name).perform s).2.state
  | solve {s : Store} {steps : List Step} {i : Nat} {K ν : Type}
      (history : History f options steps s) (there : .solver i ∈ holders steps) (b : Backend)
      (way : Way K ν) (problem : Value) :
      History f options steps ((Store.solve way ⟨.solver b, i⟩ problem).perform s).2.state
  | meanwhile {s t : Store} {steps : List Step} (history : History f options steps s)
      (unaffected : Unaffected f (holders steps) s t) : History f options steps t

/-! ## What a write changes -/

/-- A write `Changes` its dictionary by the edits that it should make. -/
theorem Writes.changes {es : List Edit} (writes : Writes f h s es t) :
    Changes es (h.dictIn f s) s t := by
  cases writes with
  | set is k v =>
      rw [perform, runOn_setParameter (is.parametersOf? s)]
      exact changes_editing s _ _
  | item k v =>
      rw [perform, runOn_setItem_dict]
      exact changes_editing s _ _
  | delete k => exact (edits_deleteEntry k ⟨s, []⟩).changes
  | merge v => exact (edits_updateFrom v ⟨s, []⟩).changes
  | call known => exact changes_callDict known ⟨s, []⟩

theorem Holder.dictIn_congr (factories : t.factories = s.factories)
    (solvers : t.solvers = s.solvers) (h : Holder) : h.dictIn f t = h.dictIn f s := by
  cases h <;> simp [dictIn, Store.factory, Store.solver, factories, solvers]

/-! ## What is kept of a history -/

/-- Each holder has a dictionary of its own, which is as `tables` says. -/
structure Tracks (f : Nat) (start : Table Value) (steps : List Step) (s : Store) : Prop where
  solvers : ∀ i, .solver i ∈ holders steps → i < s.solvers.length
  placed : ∀ h ∈ holders steps, h.dictIn f s < s.dicts.length
  apart : ((holders steps).map (Holder.dictIn f s)).Nodup
  dict : ∀ h ∈ holders steps, s.dict (h.dictIn f s) = tables start steps h

namespace Tracks

theorem nodup (tracks : Tracks f start steps s) : (holders steps).Nodup :=
  tracks.apart.of_map _

theorem apart_of_ne (tracks : Tracks f start steps s) {h' : Holder} (there : h ∈ holders steps)
    (there' : h' ∈ holders steps) (other : h' ≠ h) : h'.dictIn f s ≠ h.dictIn f s := by
  intro same
  exact other (List.inj_on_of_nodup_map tracks.apart there' there same)

theorem unaffected (tracks : Tracks f start steps s)
    (unaffected : Unaffected f (holders steps) s t) : Tracks f start steps t := by
  refine ⟨?_, ?_, ?_, ?_⟩
  · intro i there
    exact (tracks.solvers i there).trans_le unaffected.solvers
  · intro h there
    rw [unaffected.dictIn h there]
    exact (tracks.placed h there).trans_le unaffected.dicts
  · rw [List.map_congr_left unaffected.dictIn]
    exact tracks.apart
  · intro h there
    rw [unaffected.dictIn h there, unaffected.dict h there, tracks.dict h there]

theorem unaffected_of_enlarges (tracks : Tracks f start steps s) (enlarges : Enlarges s t) :
    Unaffected f (holders steps) s t := by
  refine ⟨enlarges.dicts.length_le, enlarges.solvers, ?_, ?_⟩
  · intro h there
    cases h with
    | factory => simp [Holder.dictIn, factory, enlarges.factories]
    | solver i => exact enlarges.parameters i (tracks.solvers i there)
    | record o => rfl
  · intro h there
    exact dict_eq_of_prefix enlarges.dicts (tracks.placed h there)

/-- A write changes the dictionary of one holder and leaves those of the others alone. -/
theorem write {es : List Edit} (tracks : Tracks f start steps s) (there : h ∈ holders steps)
    (writes : Writes f h s es t) : Tracks f start (steps ++ [.write h es]) t := by
  have changes := writes.changes
  have same : Holder.dictIn f t = Holder.dictIn f s :=
    funext (Holder.dictIn_congr changes.factories changes.solvers)
  have holders_eq : holders (steps ++ [.write h es]) = holders steps := by
    simp [holders_concat, Step.holder?]
  refine ⟨?_, ?_, ?_, ?_⟩
  · intro i hi
    rw [holders_eq] at hi
    rw [changes.solvers]
    exact tracks.solvers i hi
  · intro h' there'
    rw [holders_eq] at there'
    rw [same]
    exact (tracks.placed h' there').trans_le changes.count
  · rw [holders_eq, same]
    exact tracks.apart
  · intro h' there'
    rw [holders_eq] at there'
    rw [same, tables_concat, Step.change]
    by_cases own : h' = h
    · subst own
      rw [changes.own (tracks.placed h' there'), tracks.dict h' there']
      simp
    · rw [changes.others _ (tracks.placed h' there') (tracks.apart_of_ne there there' own),
        tracks.dict h' there', Function.update_of_ne own]

/-- A holder that is new has a dictionary that is new. -/
theorem enter {step : Step} (tracks : Tracks f start steps s) (new : Holder)
    (enlarges : Enlarges s t) (enters : step.holder? = some new)
    (solver : ∀ i, new = .solver i → i < t.solvers.length)
    (fresh : s.dicts.length ≤ new.dictIn f t) (placed : new.dictIn f t < t.dicts.length)
    (own : t.dict (new.dictIn f t) = step.change (tables start steps) new) :
    Tracks f start (steps ++ [step]) t := by
  have old := tracks.unaffected (tracks.unaffected_of_enlarges enlarges)
  have below : ∀ h ∈ holders steps, h.dictIn f t < s.dicts.length := by
    intro h there
    rw [(tracks.unaffected_of_enlarges enlarges).dictIn h there]
    exact tracks.placed h there
  have mem_iff {h : Holder} :
      h ∈ holders (steps ++ [step]) ↔ h ∈ holders steps ∨ h = new := by
    simp [holders_concat, enters, eq_comm]
  refine ⟨?_, ?_, ?_, ?_⟩
  · intro i there
    rcases mem_iff.mp there with there | same
    · exact old.solvers i there
    · exact solver i same.symm
  · intro h there
    rcases mem_iff.mp there with there | rfl
    · exact old.placed h there
    · exact placed
  · have once : new.dictIn f t ∉ (holders steps).map (Holder.dictIn f t) := by
      intro there
      obtain ⟨h, there, same⟩ := List.mem_map.mp there
      have low := below h there
      omega
    rw [holders_concat, enters, Option.toList_some, List.map_append, List.map_singleton]
    exact List.nodup_append.mpr ⟨old.apart, List.nodup_singleton _, by simpa using once⟩
  · intro h there
    rw [tables_concat]
    rcases mem_iff.mp there with there | rfl
    · have low := below h there
      have other : h ≠ new := by
        rintro rfl
        omega
      have elsewhere : step.holder? ≠ some h := by simpa [enters] using Ne.symm other
      have untouched : step.editsOf h = [] := by
        cases step <;> simp_all [Step.holder?, Step.editsOf]
      rw [old.dict h there, Step.change_of_ne elsewhere, untouched, Table.edited_nil]
    · exact own

end Tracks

/-! ## Isolation -/

theorem keys_namedOptions {options : List (String × Value)} {k : Value}
    (there : k ∈ (namedOptions options).keys) : ∃ x, k = .text x := by
  rcases Table.mem_keys_insertAll there with old | ⟨e, he, rfl⟩
  · cases old
  · obtain ⟨e, -, rfl⟩ := List.mem_map.mp he
    exact ⟨e.1, rfl⟩

/-- A factory has its options as parameters when it is made. -/
theorem tracks_start {options : List (String × Value)} {env : Environment} {name : Value}
    {s t : Logged Store}
    (run : (makeFactory env name (namedOptions options)).runOn s =
      (.ok (.object ⟨.factory, f⟩), t)) :
    ∃ start, KeptAs (namedOptions options) start ∧ Tracks f start [] t.state := by
  unfold makeFactory at run
  obtain ⟨text, s₁, -, run⟩ := runOn_bind_eq_ok.mp run
  unfold newFactory at run
  obtain ⟨d, s₂, added, run⟩ := runOn_bind_eq_ok.mp run
  obtain ⟨placed, kept⟩ := keptAs_of_addDict (fun _ => keys_namedOptions) added
  cases run
  refine ⟨_, kept, ?_, ?_, ?_, ?_⟩
  · intro i there
    simp [holders] at there
  · intro h there
    obtain rfl : h = .factory := by simpa [holders] using there
    simpa [Holder.dictIn, factory] using placed
  · simp [holders]
  · intro h there
    obtain rfl : h = .factory := by simpa [holders] using there
    simp [Holder.dictIn, factory, tables, dict]

/-- `solverOfFactory` makes a solver that starts with the parameters of its factory. -/
theorem Tracks.get (tracks : Tracks f start steps s)
    (apart : start.keys.Pairwise fun k k' => k.key ≠ k'.key) (env : Environment) :
    Tracks f start (steps ++ made ((solverOfFactory env f).perform s).1)
      ((solverOfFactory env f).perform s).2.state := by
  have placed : (s.factory f).parameters < s.dicts.length :=
    tracks.placed .factory List.mem_cons_self
  rcases runOn_solverOfFactory env (s := ⟨s, []⟩) placed with
    ⟨⟨g, broken⟩, enlarges⟩ | ⟨b, name, given, state⟩
  · rw [perform, broken]
    simpa [made] using tracks.unaffected (tracks.unaffected_of_enlarges enlarges)
  · rw [perform, given, state]
    have own : s.dict (s.factory f).parameters = tables start steps .factory :=
      tracks.dict .factory List.mem_cons_self
    have copied : Table.empty.insertAll (s.dict (s.factory f).parameters).entries =
        tables start steps .factory := by
      have apart := Table.pairwise_keys_edited apart (editsOf .factory steps)
      rw [← tables_factory] at apart
      rw [own]
      exact Table.ofList_of_pairwise apart
    refine tracks.enter (.solver s.solvers.length) enlarges_withSolver rfl ?_ ?_ ?_ ?_
    · rintro _ ⟨⟩
      simp [withSolver]
    · exact solver_withSolver.ge
    · simp only [Holder.dictIn, solver_withSolver]
      simp [withSolver]
    · simp only [Holder.dictIn, solver_withSolver]
      rw [copied]
      simp [withSolver, Store.dict, Step.change]

/-- The record that `freeze` makes has options of its own. -/
theorem Tracks.freeze (tracks : Tracks f start steps s) (r : Ref) (name : Value) :
    Tracks f start
      (steps ++ frozen ((Store.freeze r name).perform s).2.state ((Store.freeze r name).perform s).1)
      ((Store.freeze r name).perform s).2.state := by
  have enlarges : Enlarges s ((Store.freeze r name).perform s).2.state :=
    keeps_freeze r name ⟨s, []⟩
  rcases run : (Store.freeze r name).perform s with ⟨g | v, t⟩
  · rw [run] at enlarges
    simpa [frozen] using tracks.unaffected (tracks.unaffected_of_enlarges enlarges)
  · rw [run] at enlarges
    obtain ⟨⟨n, a, b, c, d, e, rfl⟩, more⟩ := number_of_freeze run
    refine tracks.enter (.record s.dicts.length) enlarges rfl nofun le_rfl more ?_
    simp [Step.change, Holder.dictIn]

theorem History.tracks {options : List (String × Value)} (history : History f options steps s) :
    ∃ start, KeptAs (namedOptions options) start ∧ Tracks f start steps s := by
  induction history with
  | start new => exact tracks_start (Prod.ext new rfl)
  | write _ there writes ih =>
      obtain ⟨start, kept, tracks⟩ := ih
      exact ⟨start, kept, tracks.write there writes⟩
  | get _ env ih =>
      obtain ⟨start, kept, tracks⟩ := ih
      have apart : start.keys.Pairwise fun k k' => k.key ≠ k'.key := by
        rw [kept.keys]
        exact Table.pairwise_keys_insertAll List.Pairwise.nil
      exact ⟨start, kept, tracks.get apart env⟩
  | freeze _ _ _ name ih =>
      obtain ⟨start, kept, tracks⟩ := ih
      exact ⟨start, kept, tracks.freeze _ name⟩
  | solve _ _ b way problem ih =>
      obtain ⟨start, kept, tracks⟩ := ih
      refine ⟨start, kept, tracks.unaffected (tracks.unaffected_of_enlarges ?_)⟩
      exact keeps_solve way _ problem ⟨_, []⟩
  | meanwhile _ unaffected ih =>
      obtain ⟨start, kept, tracks⟩ := ih
      exact ⟨start, kept, tracks.unaffected unaffected⟩

/-- Parameters are isolated. A factory has those that it was made with after its own edits; a solver
those that the factory had when the solver was made after its own edits; and the options of a record
of settings are as they were when it was made after edits of their own. A write to the dictionary of
one of them makes its edits there, and changes the dictionary of no other. -/
structure Isolated (f : Nat) (start : Table Value) (steps : List Step) (s : Store) : Prop where
  factory : s.dict (s.factory f).parameters = start.edited (editsOf .factory steps)
  solver : ∀ before i later, steps = before ++ .make i :: later →
    (s.viewSolver i).parameters =
      (start.edited (editsOf .factory before)).edited (editsOf (.solver i) later)
  record : ∀ before o options later, steps = before ++ .freeze o options :: later →
    s.dict o = options.edited (editsOf (.record o) later)
  own : ∀ h ∈ holders steps, ∀ es t, Writes f h s es t →
    h.dictIn f t = h.dictIn f s ∧ t.dict (h.dictIn f t) = (s.dict (h.dictIn f s)).edited es
  others : ∀ h ∈ holders steps, ∀ es t, Writes f h s es t → ∀ h' ∈ holders steps, h' ≠ h →
    h'.dictIn f t = h'.dictIn f s ∧ t.dict (h'.dictIn f t) = s.dict (h'.dictIn f s)

/-- Through every `History`, the parameters of a factory, of its solvers and of the records that
were made of them are `Isolated` from each other. -/
theorem History.isolated {options : List (String × Value)} (history : History f options steps s) :
    ∃ start, KeptAs (namedOptions options) start ∧ Isolated f start steps s := by
  obtain ⟨start, kept, tracks⟩ := history.tracks
  refine ⟨start, kept, ?_, ?_, ?_, ?_, ?_⟩
  · rw [← tables_factory]
    exact tracks.dict .factory List.mem_cons_self
  · rintro before i later rfl
    rw [← tables_solver tracks.nodup]
    exact tracks.dict (.solver i) (by simp [holders, Step.holder?])
  · rintro before o options later rfl
    rw [← tables_record tracks.nodup]
    exact tracks.dict (.record o) (by simp [holders, Step.holder?])
  · intro h there es t writes
    have changes := writes.changes
    have same : h.dictIn f t = h.dictIn f s := h.dictIn_congr changes.factories changes.solvers
    refine ⟨same, ?_⟩
    rw [same]
    exact changes.own (tracks.placed h there)
  · intro h there es t writes h' there' other
    have changes := writes.changes
    have same : h'.dictIn f t = h'.dictIn f s :=
      h'.dictIn_congr changes.factories changes.solvers
    refine ⟨same, ?_⟩
    rw [same]
    exact changes.others _ (tracks.placed h' there') (tracks.apart_of_ne there there' other)

end

/-! ## A factory and two solvers -/

/-- A place in which every engine can be used. -/
def equippedPlace : Environment :=
  ⟨fun _ => true, fun _ => true, fun _ => .ok true, fun _ => none⟩

/-- A factory of solvers that presolve. -/
def foundry : Store :=
  ((makeFactory equippedPlace (.text "highs") (namedOptions [("presolve", .text "on")])).perform
    .empty).2.state

/-- It has made a solver and then been given a seed. -/
def seeded : Store :=
  ((setParameter ⟨.factory, 0⟩ (.text "seed") (.int 7)).perform
    ((solverOfFactory equippedPlace 0).perform foundry).2.state).2.state

/-- It has made another solver, and the settings of the first one have been written down. -/
def staffed : Store :=
  ((freeze ⟨.solver .highs, 0⟩ (.text "highs")).perform
    ((solverOfFactory equippedPlace 0).perform seeded).2.state).2.state

def clearing : Action Store Value :=
  (callDict? 1 "clear" ⟨[], []⟩).getD (pure .none)

/-- The parameters of the first solver have been cleared, and the other one does not presolve. -/
def rearranged : Store :=
  ((setParameter ⟨.solver .highs, 1⟩ (.text "presolve") (.text "off")).perform
    (clearing.perform staffed).2.state).2.state

def rearrangement : List Step :=
  [.make 0, .write .factory [.put (.text "seed") (.int 7)], .make 1,
    .freeze 3 ⟨[(.text "presolve", .text "on")]⟩, .write (.solver 0) [.clear],
    .write (.solver 1) [.put (.text "presolve") (.text "off")]]

theorem history_rearranged : History 0 [("presolve", .text "on")] rearrangement rearranged := by
  have new : History 0 [("presolve", .text "on")] [] foundry := .start (by with_unfolding_all rfl)
  have first : made ((solverOfFactory equippedPlace 0).perform foundry).1 = [.make 0] := by
    with_unfolding_all rfl
  have one := new.get equippedPlace
  rw [first] at one
  have seed : History 0 _ _ seeded :=
    one.write (by simp [holders]) (.set .factory (.text "seed") (.int 7))
  have second : made ((solverOfFactory equippedPlace 0).perform seeded).1 = [.make 1] := by
    with_unfolding_all rfl
  have two := seed.get equippedPlace
  rw [second] at two
  have written : frozen staffed ((freeze ⟨.solver .highs, 0⟩ (.text "highs")).perform
      ((solverOfFactory equippedPlace 0).perform seeded).2.state).1 =
      [.freeze 3 ⟨[(.text "presolve", .text "on")]⟩] := by
    with_unfolding_all rfl
  have record := two.freeze (by simp [holders, Step.holder?]) (.solver .highs 0) (.text "highs")
  change History 0 _ (_ ++ frozen staffed _) staffed at record
  rw [written] at record
  have known :
      callDict? (Holder.dictIn 0 staffed (.solver 0)) "clear" ⟨[], []⟩ = some clearing := by
    with_unfolding_all rfl
  have clears : Writes 0 (.solver 0) staffed [.clear] (clearing.perform staffed).2.state :=
    .call known
  have cleared := record.write (by simp [holders, Step.holder?]) clears
  exact cleared.write (by simp [holders, Step.holder?])
    (.set (.solver .highs 1) (.text "presolve") (.text "off"))

/-- What the factory, its solvers and the record have in the end is what was written to each. -/
theorem isolated_rearranged :
    History 0 [("presolve", .text "on")] rearrangement rearranged ∧
      Isolated 0 ⟨[(.text "presolve", .text "on")]⟩ rearrangement rearranged ∧
      rearranged.dict (rearranged.factory 0).parameters =
        ⟨[(.text "presolve", .text "on"), (.text "seed", .int 7)]⟩ ∧
      (rearranged.viewSolver 0).parameters = .empty ∧
      (rearranged.viewSolver 1).parameters =
        ⟨[(.text "presolve", .text "off"), (.text "seed", .int 7)]⟩ ∧
      rearranged.dict 3 = ⟨[(.text "presolve", .text "on")]⟩ := by
  obtain ⟨start, kept, isolated⟩ := history_rearranged.isolated
  have same : start = ⟨[(.text "presolve", .text "on")]⟩ := kept.eq (by intro s; rfl)
  subst same
  refine ⟨history_rearranged, isolated, ?_, ?_, ?_, ?_⟩
  · exact isolated.factory.trans (by with_unfolding_all rfl)
  · exact (isolated.solver [] 0 _ rfl).trans (by with_unfolding_all rfl)
  · exact (isolated.solver [.make 0, .write .factory [.put (.text "seed") (.int 7)]] 1 _ rfl).trans
      (by with_unfolding_all rfl)
  · exact (isolated.record [.make 0, .write .factory [.put (.text "seed") (.int 7)], .make 1] 3 _ _
      rfl).trans (by with_unfolding_all rfl)

end Milp.Store
