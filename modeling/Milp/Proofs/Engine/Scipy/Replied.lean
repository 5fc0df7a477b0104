import Milp.Proofs.Engine.Scipy.Course
import Milp.Proofs.Engine.Session

/-!
# Replies to solves with hooks

Hooks see the ranged form before SciPy is asked, which happens once. All that is left after that is
to read the reply.
-/

namespace Milp.Scipy

open Milp.Action

variable {K : Type} [Numeric K]

/-- What happens before hooks run, with the model that they are handed. -/
def handed (K : Type) [Numeric K] (solver : Solver) (p : Problem) :
    Action (Session (Call K)) (Ranged K) := do
  let settings ← Settings.freeze solver.name solver.parameters
  Session.setStatus none
  let model ← .ofExcept (p.ranged p.index)
  let options ← options settings model.isMixed
  return { model with options := options }

/-- What happens before SciPy is asked. -/
def present (hooks : Hooks (Ranged K)) (solver : Solver) (p : Problem) :
    Action (Session (Call K)) (Ranged K) := do
  let settings ← Settings.freeze solver.name solver.parameters
  Session.setStatus none
  let model ← .ofExcept (p.ranged p.index)
  let options ← options settings model.isMixed
  Session.runHooks "ScipyModel" hooks p.index solver.hooks { model with options := options }

section

variable (engine : Engine K) (hooks : Hooks (Ranged K)) (solver : Solver) (p : Problem)

theorem solve_eq : solve engine hooks solver p = (do
    let model ← present hooks solver p
    if p.index.size = 0 then solveEmpty p
    else guarded solver.name (ask engine p p.index model) >>= conclude p model) := by
  simp only [solve, present, bind_assoc]
  rfl

theorem present_eq : present hooks solver p = (do
    let model ← handed K solver p
    Session.runHooks "ScipyModel" hooks p.index solver.hooks model) := by
  simp only [present, handed, bind_assoc, pure_bind]

/-! ## Before and after a reply -/

omit [Numeric K] in
theorem keeps_options (s : Settings) (mixed : Bool) :
    Keeps (Session.Only fun _ => False)
      (options s mixed : Action (Session (Call K)) (Table Value)) := by
  intro t
  obtain ⟨opts, log, noted⟩ := runOn_options s mixed t
  rw [noted]
  exact Std.Refl.refl t.state

theorem keeps_handed : Keeps (Session.Appends fun _ => False) (handed K solver p) := by
  unfold handed
  refine (Session.keeps_freeze _ _).bind fun settings => (Session.keeps_setStatus _).bind fun _ => ?_
  refine (keeps_ofExcept _).bind fun model => ?_
  exact ((keeps_options settings _).imp fun _ _ h => h.appends).bind fun _ => keeps_pure _

theorem keeps_present : Keeps (Session.Adds fun _ => False) (present hooks solver p) := by
  rw [present_eq]
  exact ((keeps_handed solver p).imp fun _ _ h => h.adds).bind fun _ =>
    Session.keeps_runHooks _ _ _ _ _

theorem keeps_solveEmpty :
    Keeps (Session.Appends fun _ => False)
      (solveEmpty p : Action (Session (Call K)) (Option (Solution K))) := by
  unfold solveEmpty
  refine (keeps_ofExcept _).bind fun status => (Session.keeps_setStatus _).bind fun _ => ?_
  refine (keeps_note _ _ _).bind fun _ => ?_
  split
  · exact keeps_pure _
  · exact (keeps_ofExcept _).bind fun _ => keeps_pure _

/-- The session in which SciPy has been asked about a model. -/
def asked (m : Ranged K) (s : Logged (Session (Call K))) : Logged (Session (Call K)) :=
  { s with state := { s.state with events := s.state.events ++ [.told (callOf m)] } }

omit engine solver in
theorem conclude_of_matched {m m' : Ranged K} (h : matched m = .ok m') :
    conclude p m' = conclude p m := by
  obtain ⟨lower, upper, rfl⟩ := exists_of_matched h
  rfl

theorem runOn_asked {m m' : Ranged K} (h : matched m = .ok m') (s : Logged (Session (Call K))) :
    (guarded solver.name (ask engine p p.index m) >>= conclude p m).runOn s =
      (guarded solver.name (takeReply engine p m') >>= conclude p m').runOn (asked m' s) := by
  have told : (guarded solver.name (ask engine p p.index m)).runOn s =
      (guarded solver.name (takeReply engine p m')).runOn (asked m' s) := by
    rw [ask_eq, h]
    rfl
  rw [runOn_bind, told, runOn_bind, conclude_of_matched p h]

/-- A model without the sides that it must have is no model to ask about. -/
theorem tellings_unasked {m : Ranged K} {f : Fault} (h : matched m = .error f)
    (s : Logged (Session (Call K))) :
    ((guarded solver.name (ask engine p p.index m) >>= conclude p m).runOn s).2.state.tellings =
      s.state.tellings := by
  have broken : ask engine p p.index m = throw f := by
    rw [ask_eq, h]
    rfl
  have silent : Keeps SameEvents (guarded solver.name (throw f) >>= conclude p m) :=
    (keeps_guarded (keeps_throw f)).bind fun a => keeps_conclude p m a
  rw [broken, Session.tellings, silent s]
  rfl

/-- SciPy was asked, and this is its reply. -/
def Replied (told : List (Call K)) (reply : Reply K) : Prop :=
  ∃ c ∈ told, engine c = .ok reply

end

variable {engine : Engine K} {hooks : Hooks (Ranged K)} {solver : Solver} {p : Problem}

/-- A solve in which SciPy was asked went through `present`, asked about the model of that with its
sides, and told it nothing more. -/
theorem exists_of_asked {c : Call K}
    (told : c ∈ ((solve engine hooks solver p).perform (.start solver)).2.state.tellings) :
    ∃ m₀ m s, (present hooks solver p).perform (.start solver) = (.ok m₀, s) ∧
      matched m₀ = .ok m ∧ p.index.size ≠ 0 ∧ c = callOf m ∧
      (solve engine hooks solver p).perform (.start solver) =
        (guarded solver.name (takeReply engine p m) >>= conclude p m).runOn (asked m s) := by
  rw [solve_eq] at told ⊢
  obtain ⟨m₀, s, presented, course, before⟩ := Session.exists_of_told (Q := fun _ => True)
    ((keeps_present hooks solver p).imp fun _ _ h => h.imp fun _ => False.elim)
    (by simp) trivial told
  rw [perform, course] at told
  rw [perform, perform, presented, course]
  have new : s.state.tellings = [] :=
    List.eq_nil_iff_forall_not_mem.mpr fun x hx => before x hx trivial
  split at told
  · rw [(keeps_solveEmpty p s).adds.tellings_eq, new] at told
    cases told
  · rename_i nonempty
    rcases given : matched m₀ with f | m
    · rw [tellings_unasked engine solver p given, new] at told
      cases told
    · rw [runOn_asked engine solver p given, Session.tellings, keeps_answer engine solver p m _,
        asked, List.filterMap_append, ← Session.tellings, new] at told
      obtain rfl : c = callOf m := by simpa using told
      rw [if_neg nonempty, runOn_asked engine solver p given]
      exact ⟨m₀, m, s, rfl, given, nonempty, rfl, rfl⟩

/-- A solve in which SciPy replied went through `present`, and goes on with the reply. -/
theorem exists_of_replied {reply : Reply K}
    (replied : Replied engine
      ((solve engine hooks solver p).perform (.start solver)).2.state.tellings reply) :
    ∃ m₀ m s, (present hooks solver p).perform (.start solver) = (.ok m₀, s) ∧
      matched m₀ = .ok m ∧ p.index.size ≠ 0 ∧ engine (callOf m) = .ok reply ∧
      (solve engine hooks solver p).perform (.start solver) =
        (guarded solver.name (takeReply engine p m) >>= conclude p m).runOn (asked m s) := by
  obtain ⟨c, told, answer⟩ := replied
  obtain ⟨m₀, m, s, presented, given, nonempty, rfl, course⟩ := exists_of_asked told
  exact ⟨m₀, m, s, presented, given, nonempty, answer, course⟩

/-! ## Hooks that only set options -/

/-- Hooks leave all of a model but its options as it is. -/
def OnlyOptions (hooks : Hooks (Ranged K)) : Prop :=
  ∀ hook index m, ∃ opts, (hooks hook index m).1 = { m with options := opts }

omit [Numeric K] in
theorem runHooks_onlyOptions (only : OnlyOptions hooks) {native : String} {index : Index}
    {list : List Value} {m m' : Ranged K} {s s' : Logged (Session (Call K))}
    (h : (Session.runHooks native hooks index list m).runOn s = (.ok m', s')) :
    ∃ opts, m' = { m with options := opts } := by
  induction list generalizing m s with
  | nil =>
      obtain ⟨rfl, -⟩ : m = m' ∧ s = s' := by simpa [Session.runHooks] using h
      exact ⟨m.options, rfl⟩
  | cons hook rest ih =>
      obtain ⟨_, _, -, h⟩ := runOn_bind_eq_ok.mp h
      obtain ⟨_, _, -, h⟩ := runOn_bind_eq_ok.mp h
      obtain ⟨opts, hopts⟩ := only hook index m
      rcases hm : hooks hook index m with ⟨m₁, _ | f⟩
      · rw [hm] at h hopts
        obtain ⟨opts', rfl⟩ := ih h
        obtain rfl : m₁ = { m with options := opts } := hopts
        exact ⟨opts', rfl⟩
      · rw [hm] at h
        cases h

/-- Where hooks are `OnlyOptions`, the model that SciPy is asked about is the ranged form with some
options. -/
theorem exists_of_present (only : OnlyOptions hooks) {m : Ranged K}
    {s s' : Logged (Session (Call K))} (h : (present hooks solver p).runOn s = (.ok m, s')) :
    ∃ m₀ opts, p.ranged p.index = .ok m₀ ∧ m = { m₀ with options := opts } := by
  unfold present at h
  obtain ⟨_, _, -, h⟩ := runOn_bind_eq_ok.mp h
  obtain ⟨_, _, -, h⟩ := runOn_bind_eq_ok.mp h
  obtain ⟨m₀, _, made, h⟩ := runOn_bind_eq_ok.mp h
  obtain ⟨_, _, -, h⟩ := runOn_bind_eq_ok.mp h
  obtain ⟨opts, rfl⟩ := runHooks_onlyOptions only h
  exact ⟨m₀, opts, congrArg Prod.fst made, rfl⟩

end Milp.Scipy
