import Milp.Proofs.Engine.HookStages
import Milp.Proofs.Store.Independence
import Mathlib.Order.Bounds.Basic

/-!
# Hooks of solvers

The hooks of a solver are those that `addHook` added and `removeHook` has not removed since, each
once, in the order in which they were first added after that (`Lists`). `solve` calls them in this
order before the engine is asked, and leaves them as they are.
-/

namespace Milp

/-- A value that can be called. -/
inductive Value.Callable : Value → Prop
  | hook (id : Nat) : Callable (.object ⟨.hook, id⟩)
  | type (t : TypeName) : Callable (.type t)

namespace Store

open Milp.Action Milp.Session

variable {s : Store} {v w : Value} {hooks : List Value}

/-! ## Telling hooks apart -/

/-- A value that is `Callable` is the same as no other. -/
theorem same_of_callable (s : Store) (hv : v.Callable) (hw : w.Callable) :
    (v = w ∧ s.same v w = .ok true) ∨ (v ≠ w ∧ s.same v w = .ok false) := by
  have compared : s.compare v w = s.compareWithin (999 + 1) v w := rfl
  unfold same
  cases hv with
  | hook i =>
      cases hw with
      | hook j =>
          by_cases h : i = j
          · subst h
            exact .inl ⟨rfl, by simp [identical]; rfl⟩
          · have apart : identical (.object ⟨.hook, i⟩) (.object ⟨.hook, j⟩) = false := by
              simp [identical, h]
            refine .inr ⟨by simpa using h, ?_⟩
            rw [apart, compared]
            change answerHolds (.bool (identical (.object ⟨.hook, i⟩) (.object ⟨.hook, j⟩))) = _
            rw [apart]
            rfl
      | type t =>
          refine .inr ⟨nofun, ?_⟩
          rw [compared]
          rfl
  | type t =>
      cases hw with
      | hook j =>
          refine .inr ⟨nofun, ?_⟩
          rw [compared]
          rfl
      | type u =>
          rw [compared]
          cases t <;> cases u <;> first | exact .inl ⟨rfl, rfl⟩ | exact .inr ⟨nofun, rfl⟩

theorem anySame_of_callable (s : Store) (all : ∀ h ∈ hooks, h.Callable) (hv : v.Callable) :
    (v ∈ hooks ∧ s.anySame hooks v = .ok true) ∨ (v ∉ hooks ∧ s.anySame hooks v = .ok false) := by
  induction hooks with
  | nil => exact .inr ⟨List.not_mem_nil, rfl⟩
  | cons h hs ih =>
      obtain ⟨head, tail⟩ := List.forall_mem_cons.mp all
      rcases same_of_callable s head hv with ⟨rfl, equal⟩ | ⟨apart, equal⟩
      · refine .inl ⟨List.mem_cons_self, ?_⟩
        rw [anySame, equal]
        rfl
      · have step : s.anySame (h :: hs) v = s.anySame hs v := by
          rw [anySame, equal]
          rfl
        rw [step]
        refine (ih tail).imp (fun found => ⟨List.mem_cons_of_mem _ found.1, found.2⟩) fun none => ?_
        exact ⟨fun found => (List.mem_cons.mp found).elim (fun same => apart same.symm) none.1,
          none.2⟩

theorem without_of_callable (s : Store) (all : ∀ h ∈ hooks, h.Callable) (once : hooks.Nodup)
    (hv : v.Callable) :
    ∃ left, s.without hooks v = .ok left ∧ left.Sublist hooks ∧
      ∀ h, h ∈ left ↔ h ∈ hooks ∧ h ≠ v := by
  induction hooks with
  | nil => exact ⟨[], rfl, List.Sublist.refl _, by simp⟩
  | cons h hs ih =>
      obtain ⟨head, tail⟩ := List.forall_mem_cons.mp all
      obtain ⟨new, rest⟩ := List.nodup_cons.mp once
      rcases same_of_callable s head hv with ⟨rfl, equal⟩ | ⟨apart, equal⟩
      · refine ⟨hs, by rw [without, equal]; rfl, List.sublist_cons_self _ _, fun x => ?_⟩
        constructor
        · exact fun hx => ⟨List.mem_cons_of_mem _ hx, fun same => new (same ▸ hx)⟩
        · exact fun hx => (List.mem_cons.mp hx.1).resolve_left hx.2
      · obtain ⟨left, hleft, sublist, mem⟩ := ih tail rest
        refine ⟨h :: left, ?_, sublist.cons_cons _, fun x => ?_⟩
        · rw [without, equal]
          change (s.without hs v >>= fun left => pure (h :: left)) = _
          rw [hleft]
          rfl
        · rw [List.mem_cons, List.mem_cons, mem, or_and_right]
          refine or_congr_left ⟨fun same => ⟨same, same ▸ apart⟩, And.left⟩

/-! ## Histories of changes -/

/-- A change of the hooks of a solver. -/
inductive HookChange where
  | add (hook : Value)
  | remove (hook : Value)

/-- A change adds a hook, and no later one removes it. -/
def Stays (cs : List HookChange) (hook : Value) (n : Nat) : Prop :=
  cs[n]? = some (.add hook) ∧ ∀ k, n < k → cs[k]? ≠ some (.remove hook)

/-- `hooks` are those that `Stays`, each once, in the order in which they were first added since
they were last removed. -/
structure Lists (cs : List HookChange) (hooks : List Value) : Prop where
  mem : ∀ h, h ∈ hooks ↔ ∃ n, Stays cs h n
  once : hooks.Nodup
  order : hooks.Pairwise fun h h' =>
    ∀ n n', IsLeast {k | Stays cs h k} n → IsLeast {k | Stays cs h' k} n' → n < n'

section

variable {cs : List HookChange} {h : Value} {n : Nat}

theorem Stays.lt (stays : Stays cs h n) : n < cs.length :=
  (List.getElem?_eq_some_iff.mp stays.1).1

/-- What `Stays` after one more change: what that does not remove, and what it adds. -/
theorem stays_concat {c : HookChange} : Stays (cs ++ [c]) h n ↔
    c ≠ .remove h ∧ (Stays cs h n ∨ n = cs.length ∧ c = .add h) := by
  have early {k : Nat} (lt : k < cs.length) : (cs ++ [c])[k]? = cs[k]? :=
    List.getElem?_append_left lt
  have late {k : Nat} {c' : HookChange} (hk : (cs ++ [c])[k]? = some c') : k ≤ cs.length := by
    simpa using (List.getElem?_eq_some_iff.mp hk).1
  constructor
  · rintro ⟨added, kept⟩
    rcases (late added).lt_or_eq with lt | rfl
    · rw [early lt] at added
      have other : c ≠ .remove h := fun removes => kept cs.length lt (by simp [removes])
      refine ⟨other, .inl ⟨added, fun k hk found => ?_⟩⟩
      have lt : k < cs.length := (List.getElem?_eq_some_iff.mp found).1
      exact kept k hk (by rw [early lt, found])
    · obtain rfl : c = .add h := by simpa using added
      exact ⟨nofun, .inr ⟨rfl, rfl⟩⟩
  · rintro ⟨other, stays | ⟨rfl, rfl⟩⟩
    · refine ⟨by rw [early stays.lt, stays.1], fun k hk found => ?_⟩
      rcases (late found).lt_or_eq with lt | rfl
      · exact stays.2 k hk (by rw [← early lt, found])
      · exact other (by simpa using found)
    · refine ⟨by simp, fun k hk found => ?_⟩
      exact absurd (late found) (Nat.not_le.mpr hk)

theorem lists_nil : Lists [] [] :=
  ⟨by simp [Stays], List.nodup_nil, List.Pairwise.nil⟩

/-- What is there already has stayed since before a change that does not remove it. -/
theorem since_of_concat {c : HookChange} {k : Nat} (present : Stays cs h k)
    (least : IsLeast {k | Stays (cs ++ [c]) h k} n) : IsLeast {k | Stays cs h k} n := by
  obtain ⟨keeps, -⟩ := stays_concat.mp least.1
  have still {k : Nat} (stays : Stays cs h k) : Stays (cs ++ [c]) h k :=
    stays_concat.mpr ⟨keeps, .inl stays⟩
  have early : n < cs.length := (least.2 (still present)).trans_lt present.lt
  refine ⟨?_, fun k stays => least.2 (still stays)⟩
  exact (stays_concat.mp least.1).2.resolve_right fun late => early.ne late.1

namespace Lists

theorem order_concat (lists : Lists cs hooks) (c : HookChange) :
    hooks.Pairwise fun h h' => ∀ n n', IsLeast {k | Stays (cs ++ [c]) h k} n →
      IsLeast {k | Stays (cs ++ [c]) h' k} n' → n < n' := by
  refine lists.order.imp_of_mem fun hh hh' before n n' least least' => ?_
  obtain ⟨_, present⟩ := (lists.mem _).mp hh
  obtain ⟨_, present'⟩ := (lists.mem _).mp hh'
  exact before n n' (since_of_concat present least) (since_of_concat present' least')

/-- Adding a hook that is there changes nothing. -/
theorem add_of_mem (lists : Lists cs hooks) (old : v ∈ hooks) :
    Lists (cs ++ [.add v]) hooks := by
  refine ⟨fun h => ?_, lists.once, lists.order_concat _⟩
  rw [lists.mem]
  constructor
  · rintro ⟨n, stays⟩
    exact ⟨n, stays_concat.mpr ⟨nofun, .inl stays⟩⟩
  · rintro ⟨n, stays⟩
    rcases (stays_concat.mp stays).2 with stays | ⟨-, ⟨⟩⟩
    · exact ⟨n, stays⟩
    · exact (lists.mem v).mp old

/-- A hook that is added anew comes last. -/
theorem add_of_not_mem (lists : Lists cs hooks) (new : v ∉ hooks) :
    Lists (cs ++ [.add v]) (hooks ++ [v]) := by
  refine ⟨fun h => ?_, ?_, ?_⟩
  · rw [List.mem_append, List.mem_singleton, lists.mem]
    constructor
    · rintro (⟨n, stays⟩ | rfl)
      · exact ⟨n, stays_concat.mpr ⟨nofun, .inl stays⟩⟩
      · exact ⟨cs.length, stays_concat.mpr ⟨nofun, .inr ⟨rfl, rfl⟩⟩⟩
    · rintro ⟨n, stays⟩
      rcases (stays_concat.mp stays).2 with stays | ⟨-, ⟨⟩⟩
      · exact .inl ⟨n, stays⟩
      · exact .inr rfl
  · refine List.nodup_append.mpr ⟨lists.once, List.nodup_singleton v, fun h hh h' hh' same => ?_⟩
    exact new (List.mem_singleton.mp hh' ▸ same ▸ hh)
  · refine List.pairwise_append.mpr ⟨lists.order_concat _, List.pairwise_singleton _ _, ?_⟩
    rintro h hh h' hh' n n' least least'
    obtain rfl := List.mem_singleton.mp hh'
    obtain ⟨_, present⟩ := (lists.mem h).mp hh
    have early : n < cs.length := (since_of_concat present least).1.lt
    rcases (stays_concat.mp least'.1).2 with stays | ⟨rfl, -⟩
    · exact absurd ((lists.mem h').mpr ⟨n', stays⟩) new
    · exact early

/-- A hook that is removed is not there any more, and the others are as they were. -/
theorem remove (lists : Lists cs hooks) {left : List Value} (sublist : left.Sublist hooks)
    (mem : ∀ h, h ∈ left ↔ h ∈ hooks ∧ h ≠ v) : Lists (cs ++ [.remove v]) left := by
  refine ⟨fun h => ?_, lists.once.sublist sublist, (lists.order_concat _).sublist sublist⟩
  rw [mem, lists.mem]
  constructor
  · rintro ⟨⟨n, stays⟩, apart⟩
    exact ⟨n, stays_concat.mpr ⟨fun same => apart (HookChange.remove.inj same).symm, .inl stays⟩⟩
  · rintro ⟨n, stays⟩
    obtain ⟨apart, stays | ⟨-, ⟨⟩⟩⟩ := stays_concat.mp stays
    exact ⟨⟨n, stays⟩, fun same => apart (same ▸ rfl)⟩

end Lists

end

/-! ## Changing hooks -/

section

variable {b : Backend} {i : Nat} {cs : List HookChange} {K ν μ : Type}

/-- The store after the changes `cs` of the hooks of a solver, which had none at first. In between,
anything may happen that leaves its hooks alone. -/
inductive Registers (b : Backend) (i : Nat) : List HookChange → Store → Prop
  | start {s : Store} (present : i < s.solvers.length) (empty : (s.solver i).hooks = []) :
      Registers b i [] s
  | add {s : Store} {cs : List HookChange} {hook : Value} (h : Registers b i cs s)
      (callable : hook.Callable) :
      Registers b i (cs ++ [.add hook]) ((addHook ⟨.solver b, i⟩ hook).perform s).2.state
  | remove {s : Store} {cs : List HookChange} {hook : Value} (h : Registers b i cs s)
      (callable : hook.Callable) :
      Registers b i (cs ++ [.remove hook]) ((removeHook ⟨.solver b, i⟩ hook).perform s).2.state
  | meanwhile {s t : Store} {cs : List HookChange} (h : Registers b i cs s)
      (present : i < t.solvers.length) (same : (t.solver i).hooks = (s.solver i).hooks) :
      Registers b i cs t

/-- The hooks of a solver are as the changes `cs` say (`Lists`). -/
structure Registered (i : Nat) (cs : List HookChange) (s : Store) : Prop where
  present : i < s.solvers.length
  callable : ∀ h ∈ (s.solver i).hooks, h.Callable
  lists : Lists cs (s.solver i).hooks

/-- The store in which the hooks of a solver have been changed. -/
def changingHooks (s : Store) (i : Nat) (f : List Value → List Value) : Store :=
  { s with solvers := s.solvers.modify i fun x => { x with hooks := f x.hooks } }

theorem hooks_changingHooks (present : i < s.solvers.length) (f : List Value → List Value) :
    ((s.changingHooks i f).solver i).hooks = f (s.solver i).hooks := by
  simp [changingHooks, solver, present]

theorem runOn_changeHooks (s : Logged Store) (f : List Value → List Value) :
    (changeHooks ⟨.solver b, i⟩ f).runOn s =
      (.ok (), { s with state := s.state.changingHooks i f }) := rfl

theorem hooksHeld_solver (s : Store) (member : String) :
    s.hooksHeld ⟨.solver b, i⟩ member = .ok (s.solver i).hooks := rfl

theorem state_addHook (s : Store) (v : Value) {found : Bool}
    (h : s.anySame (s.solver i).hooks v = .ok found) :
    ((addHook ⟨.solver b, i⟩ v).perform s).2.state =
      if found then s else s.changingHooks i fun hooks => hooks ++ [v] := by
  unfold addHook
  rw [perform, runOn_bind, runOn_read]
  dsimp only
  rw [runOn_bind, runOn_ofExcept, hooksHeld_solver]
  dsimp only
  rw [runOn_bind, runOn_ofExcept, h]
  cases found with
  | true => rfl
  | false =>
      simp only [Bool.not_false, if_true, runOn_changeHooks]
      rfl

theorem state_removeHook (s : Store) (v : Value) {left : List Value}
    (h : s.without (s.solver i).hooks v = .ok left) :
    ((removeHook ⟨.solver b, i⟩ v).perform s).2.state = s.changingHooks i fun _ => left := by
  unfold removeHook
  rw [perform, runOn_bind, runOn_read]
  dsimp only
  rw [runOn_bind, runOn_ofExcept, hooksHeld_solver]
  dsimp only
  rw [runOn_bind, runOn_ofExcept, h]
  rfl

namespace Registered

theorem changingHooks (h : Registered i cs s) {f : List Value → List Value} {cs' : List HookChange}
    (callable : ∀ v ∈ f (s.solver i).hooks, v.Callable) (lists : Lists cs' (f (s.solver i).hooks)) :
    Registered i cs' (s.changingHooks i f) := by
  have hooks := hooks_changingHooks h.present f
  refine ⟨?_, ?_, ?_⟩
  · exact h.present.trans_eq (List.length_modify ..).symm
  · rwa [hooks]
  · rwa [hooks]

theorem add (h : Registered i cs s) (callable : v.Callable) :
    Registered i (cs ++ [.add v]) ((addHook ⟨.solver b, i⟩ v).perform s).2.state := by
  rcases anySame_of_callable s h.callable callable with ⟨old, found⟩ | ⟨new, found⟩
  · rw [state_addHook s v found, if_pos rfl]
    exact ⟨h.present, h.callable, h.lists.add_of_mem old⟩
  · rw [state_addHook s v found, if_neg Bool.false_ne_true]
    refine h.changingHooks (fun w hw => ?_) (h.lists.add_of_not_mem new)
    rcases List.mem_append.mp hw with hw | hw
    · exact h.callable w hw
    · exact List.mem_singleton.mp hw ▸ callable

theorem remove (h : Registered i cs s) (callable : v.Callable) :
    Registered i (cs ++ [.remove v]) ((removeHook ⟨.solver b, i⟩ v).perform s).2.state := by
  obtain ⟨left, removed, sublist, mem⟩ :=
    without_of_callable s h.callable h.lists.once callable
  rw [state_removeHook s v removed]
  exact h.changingHooks (fun w hw => h.callable w (sublist.subset hw)) (h.lists.remove sublist mem)

end Registered

/-- A solver whose hooks were changed by `cs` is `Registered` with them. -/
theorem Registers.registered (h : Registers b i cs s) : Registered i cs s := by
  induction h with
  | start present empty =>
      exact ⟨present, by simp [empty], empty ▸ lists_nil⟩
  | add _ callable ih => exact ih.add callable
  | remove _ callable ih => exact ih.remove callable
  | meanwhile _ present same ih => exact ⟨present, same ▸ ih.callable, same ▸ ih.lists⟩

/-! ## Solves -/

/-- A solve ended with no hook called, and the engine was told nothing that makes it solve. -/
structure StoppedEarly (asks : ν → Prop) (s : Store)
    (run : Except Fault (Solved ν) × Logged Store) : Prop where
  told : ∃ answer told, run.1 = .ok ⟨answer, told⟩ ∧ ∀ c ∈ told, ¬ asks c
  calls : run.2.state.hookCalls = s.hookCalls

/-- A solve told the engine what its session told it, and left the status and the calls of hooks
that the session left. A fault of the session is the answer, as it is. -/
structure ReportsSession (i : Nat) (s : Store)
    (session : Except Fault (Option (Solution K)) × Logged (Session ν))
    (run : Except Fault (Solved ν) × Logged Store) : Prop where
  told : ∃ answer, run.1 = .ok ⟨answer, session.2.state.tellings⟩ ∧
    ∀ f, session.1 = .error f → answer = .error f
  status : (run.2.state.solver i).lastStatus = session.2.state.status
  calls : run.2.state.hookCalls = s.hookCalls ++ session.2.state.hookCalls.filterMap s.hookRecord?

theorem hookRecord?_eq {t : Store} (h : Uncalled s t) : t.hookRecord? = s.hookRecord? := by
  funext call
  unfold hookRecord? Store.hook
  rw [h.hooks]

theorem reportsSession_runSession {t : Store} (before : Uncalled s t) (present : i < t.solvers.length)
    (x : Solver) (problem : Value) (value : K → Value)
    (act : Action (Session ν) (Option (Solution K))) (log : List Message) :
    ReportsSession i s (act.perform (.start x))
      ((runSession ⟨.solver b, i⟩ x problem value act).runOn ⟨t, log⟩) := by
  rcases h : act.perform (.start x) with ⟨answer, session, notes⟩
  rw [runOn_runSession _ x problem value h]
  have made := keeps_makeResult value problem answer growing_uncalled
    ⟨t.afterSession session.history session.hookCalls, log ++ notes⟩
  refine ⟨⟨_, rfl, ?_⟩, ?_, ?_⟩
  · rintro f rfl
    rw [runOn_makeResult_error]
  · dsimp only
    rw [solver_modify present]
    rfl
  · dsimp only at made ⊢
    rw [made.calls]
    change t.hookCalls ++ session.hookCalls.filterMap t.hookRecord? = _
    rw [before.calls, hookRecord?_eq before]

/-- What `solve` looks at before an engine is given a problem: `prepare`, and `checkProblem`. -/
def lookedOver (solver : Ref) (x : Solver) (problem : Value) : Action Store Unit := do
  prepare solver x problem
  checkProblem x.backend problem

/-- `solve` is no change of hooks. -/
theorem Registers.solve (history : Registers b i cs s) (plain : Unextended b i s) (way : Way K ν)
    (problem : Value) :
    Registers b i cs ((Store.solve way ⟨.solver b, i⟩ problem).perform s).2.state := by
  have remembers := remembers_solve plain way problem
  obtain ⟨status, last, own⟩ := remembers.own
  exact history.meanwhile (remembers.count ▸ plain.present) (by rw [own]; rfl)

/-- A solve that `lookedOver` breaks off is `StoppedEarly`. -/
theorem stoppedEarly_of_lookedOver {way : Way K ν} {stage : HookStage ν μ}
    (plain : Unextended b i s) (staged : Staged b way stage) (problem : Value) {f : Fault}
    (broken : ((lookedOver ⟨.solver b, i⟩ (s.viewSolver i) problem).perform s).1 = .error f) :
    StoppedEarly stage.asks s ((solve way ⟨.solver b, i⟩ problem).perform s) := by
  rw [perform, runOn_solve (plain.extras "solve")]
  rw [perform, lookedOver, runOn_bind] at broken
  dsimp only at broken ⊢
  rcases hp : (prepare ⟨.solver b, i⟩ (s.viewSolver i) problem).runOn ⟨s, []⟩ with ⟨g | u, t⟩
  · exact ⟨⟨_, [], rfl, by simp⟩, ((growing_uncalled.keeps_prepare _ _ _).of_runOn hp).calls⟩
  · rw [hp] at broken
    dsimp only at broken ⊢
    rcases hc : (checkProblem (s.viewSolver i).backend problem).runOn t with ⟨g | u, t'⟩ <;>
      rw [hc] at broken
    · have before : Uncalled s t'.state := growing_uncalled.rel_of_checks hp hc
      have present : i < t'.state.solvers.length :=
        (growing_keepsSolvers.rel_of_checks hp hc).solvers ▸ plain.present
      have quiet := staged.appends_breakOff (s.viewSolver i) g
      have left := reportsSession_runSession (b := b) before present (s.viewSolver i) problem
        way.value (way.breakOff (s.viewSolver i) g) t'.log
      obtain ⟨answer, told, -⟩ := left.told
      refine ⟨⟨answer, _, told, fun c hc => ?_⟩, ?_⟩
      · exact (quiet.adds.tellings c hc).resolve_left (by simp)
      · rw [left.calls, quiet.hookCalls_eq]
        exact List.append_nil _
    · cases broken

/-- A solve that `lookedOver` lets pass `ReportsSession` of the problem that is seen then. -/
theorem reportsSession_of_lookedOver (plain : Unextended b i s) (way : Way K ν) (problem : Value)
    (passed : ((lookedOver ⟨.solver b, i⟩ (s.viewSolver i) problem).perform s).1 = .ok ()) :
    ReportsSession i s
      ((way.solve (s.viewSolver i) (((lookedOver ⟨.solver b, i⟩ (s.viewSolver i)
        problem).perform s).2.state.problemOf problem)).perform (.start (s.viewSolver i)))
      ((solve way ⟨.solver b, i⟩ problem).perform s) := by
  rcases looked : (lookedOver ⟨.solver b, i⟩ (s.viewSolver i) problem).perform s with ⟨r, t'⟩
  rw [looked] at passed
  obtain rfl : r = .ok () := passed
  obtain ⟨u, t, hp, hc⟩ := runOn_bind_eq_ok.mp looked
  have before : Uncalled s t'.state := growing_uncalled.rel_of_checks hp hc
  have present : i < t'.state.solvers.length :=
    (growing_keepsSolvers.rel_of_checks hp hc).solvers ▸ plain.present
  have course : (solve way ⟨.solver b, i⟩ problem).perform s = _ :=
    runOn_solve (plain.extras "solve") problem
  dsimp only at course
  rw [hp] at course
  dsimp only at course
  rw [hc] at course
  rw [course]
  exact reportsSession_runSession before present _ problem way.value _ t'.log

/-- The hooks of a solver are as its history `cs` says (`Lists`), and `solve` leaves them and its
parameters as they are. Where `lookedOver` breaks off, no hook is called and the engine is not asked
(`StoppedEarly`); otherwise the session that it reports has the `HookCourse` of its stage. -/
theorem hooks_solve {way : Way K ν} {stage : HookStage ν μ} (history : Registers b i cs s)
    (plain : Unextended b i s) (staged : Staged b way stage) (problem : Value) :
    let x := s.viewSolver i
    let run := (solve way ⟨.solver b, i⟩ problem).perform s
    let looked := (lookedOver ⟨.solver b, i⟩ x problem).perform s
    let p := looked.2.state.problemOf problem
    let session := (way.solve x p).perform (.start x)
    Lists cs x.hooks ∧
      ((run.2.state.viewSolver i).hooks = x.hooks ∧
        (run.2.state.viewSolver i).parameters = x.parameters) ∧
      (∀ f, looked.1 = .error f → StoppedEarly stage.asks s run) ∧
      (looked.1 = .ok () → ReportsSession i s session run ∧ stage.HookCourse x p session) := by
  intro x run looked p session
  have remembers : Remembers i s run.2.state := remembers_solve plain way problem
  obtain ⟨status, last, own⟩ := remembers.own
  have hooks : (run.2.state.viewSolver i).hooks = x.hooks := by
    change (run.2.state.solver i).hooks = _
    rw [own]
    rfl
  have parameters : (run.2.state.viewSolver i).parameters = x.parameters := by
    change run.2.state.dict (run.2.state.solver i).parameters = _
    rw [own]
    exact dict_eq_of_prefix remembers.dicts plain.parameters
  exact ⟨history.registered.lists, ⟨hooks, parameters⟩,
    fun f => stoppedEarly_of_lookedOver plain staged problem,
    fun passed => ⟨reportsSession_of_lookedOver plain way problem passed,
      staged.hookCourse_solve x p⟩⟩

end

/-! ## A hook that was added again -/

/-- The workshop after two hooks have been made for it. -/
def equipped : Store :=
  ((do let _ ← hookNamed "first"; hookNamed "second").perform workshop).2.state

/-- A hook in the order in which they were made. -/
def hookAt (id : Nat) : Value :=
  .object ⟨.hook, id⟩

theorem callable_hookAt (id : Nat) : (hookAt id).Callable :=
  .hook id

/-- The first solver has been given both hooks. -/
def hooked : Store :=
  ((addHook ⟨.solver .cpsat, 0⟩ (hookAt 1)).perform
    ((addHook ⟨.solver .cpsat, 0⟩ (hookAt 0)).perform equipped).2.state).2.state

/-- It has then taken the decision, and its first hook has been removed and added again. -/
def rehooked : Store :=
  ((addHook ⟨.solver .cpsat, 0⟩ (hookAt 0)).perform
    ((removeHook ⟨.solver .cpsat, 0⟩ (hookAt 0)).perform
      ((solve trade ⟨.solver .cpsat, 0⟩ (.object ⟨.problem, 0⟩)).perform hooked).2.state).2.state
    ).2.state

theorem eq_ok_of_toBool {r : Except Fault Unit} (h : r.toBool) : r = .ok () := by
  cases r with
  | error f => cases h
  | ok u => rfl

theorem eq_hooks_of_matches (h : hooks matches [.object ⟨.hook, 1⟩, .object ⟨.hook, 0⟩]) :
    hooks = [hookAt 1, hookAt 0] := by
  split at h
  · rfl
  · cases h

theorem hooks_rehooked : (rehooked.viewSolver 0).hooks = [hookAt 1, hookAt 0] :=
  eq_hooks_of_matches (by decide +kernel)

theorem registers_rehooked : Registers .cpsat 0
    [.add (hookAt 0), .add (hookAt 1), .remove (hookAt 0), .add (hookAt 0)] rehooked := by
  have start : Registers .cpsat 0 [] equipped := .start (by decide +kernel)
    (List.length_eq_zero_iff.mp (by decide +kernel))
  have both : Registers .cpsat 0 [.add (hookAt 0), .add (hookAt 1)] hooked :=
    (start.add (callable_hookAt 0)).add (callable_hookAt 1)
  have plain : Unextended .cpsat 0 hooked := .of_bare (by decide +kernel) (by decide +kernel)
    (by decide +kernel) (List.length_eq_zero_iff.mp (by decide +kernel))
  have solved := both.solve plain trade (.object ⟨.problem, 0⟩)
  exact (solved.remove (callable_hookAt 0)).add (callable_hookAt 0)

/-- A hook that was removed and added again comes after those that stayed. -/
theorem hooks_solve_rehooked :
    let cs : List HookChange :=
      [.add (hookAt 0), .add (hookAt 1), .remove (hookAt 0), .add (hookAt 0)]
    let x := rehooked.viewSolver 0
    let run := (solve trade ⟨.solver .cpsat, 0⟩ (.object ⟨.problem, 0⟩)).perform rehooked
    let looked := (lookedOver ⟨.solver .cpsat, 0⟩ x (.object ⟨.problem, 0⟩)).perform rehooked
    let p := looked.2.state.problemOf (.object ⟨.problem, 0⟩)
    let session := (trade.solve x p).perform (.start x)
    Registers .cpsat 0 cs rehooked ∧ Unextended .cpsat 0 rehooked ∧ Lists cs x.hooks ∧
      x.hooks = [hookAt 1, hookAt 0] ∧ (run.2.state.viewSolver 0).hooks = x.hooks ∧
      looked.1 = .ok () ∧ ReportsSession 0 rehooked session run ∧
      (∃ stage : HookStage CpSat.Question PseudoBoolean,
        Staged .cpsat trade stage ∧ stage.HookCourse x p session) ∧
      rehooked.hookCalls.map Prod.fst = ["first", "second"] ∧
      run.2.state.hookCalls.map Prod.fst = ["first", "second", "second", "first"] := by
  have plain : Unextended .cpsat 0 rehooked := .of_bare (by decide +kernel) (by decide +kernel)
    (by decide +kernel) (List.length_eq_zero_iff.mp (by decide +kernel))
  have staged : Staged .cpsat trade _ := .cpsat _ _ _ _ _
  have looked : ((lookedOver ⟨.solver .cpsat, 0⟩ (rehooked.viewSolver 0)
      (.object ⟨.problem, 0⟩)).perform rehooked).1 = .ok () := eq_ok_of_toBool (by decide +kernel)
  obtain ⟨lists, kept, -, fared⟩ :=
    hooks_solve registers_rehooked plain staged (.object ⟨.problem, 0⟩)
  obtain ⟨takes, fares⟩ := fared looked
  refine ⟨registers_rehooked, plain, lists, hooks_rehooked, kept.1, looked, takes,
    ⟨_, staged, fares⟩, ?_, ?_⟩
  · decide +kernel
  · decide +kernel

/-- A hook that breaks off is the last one that is called, and CP-SAT is asked nothing. -/
example :
    let refused : Way Float CpSat.Question :=
      .atOnce .real (CpSat.solve (.replaying [] fun _ _ => .ok ())
        (fun _ _ m => (m, some (.raised "ValueError" "closed"))) (fun _ => 0.0) 3)
    let run := (solve refused ⟨.solver .cpsat, 0⟩ (.object ⟨.problem, 0⟩)).perform rehooked
    run.1.toOption.any (fun solved => !solved.answer.toBool && solved.tellings.isEmpty) ∧
      run.2.state.hookCalls.map Prod.fst = ["first", "second", "second"] := by
  decide +kernel

end Store

end Milp
