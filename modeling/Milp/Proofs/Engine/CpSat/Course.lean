import Milp.Engine.CpSat
import Milp.Proofs.CutLoop.Termination
import Milp.Proofs.Encoding.Columns
import Milp.Proofs.Encoding.WholeSum
import Milp.Proofs.Engine.Session

/-!
# The course of a solve by CP-SAT

An honest engine keeps to cuts whose values are those of a sum in whole numbers, and such a sum has
finitely many values at points of zeros and ones. So a solve asks finitely many questions.
-/

namespace Milp.CpSat

open CutLoop
open Milp.Action (keeps_pure keeps_throw keeps_ofExcept keeps_note keeps_read keeps_update
  keeps_foldlM)

/-! ## Points and assignments -/

def point (values : List Bool) (j : Nat) : Int :=
  if values.getD j false then 1 else 0

theorem isBinary_point (values : List Bool) : IsBinary (point values) := by
  intro j
  unfold point
  split
  · exact .inr rfl
  · exact .inl rfl

theorem readsPoint_assignment (index : Index) (values : List Bool) :
    ReadsPoint index (point values) (operand? (assignment index values)) := by
  intro v j hj
  obtain ⟨hkey, hj⟩ := Table.require_eq_ok.mp hj
  have entry : (assignment index values).lookup v = .ok (some (point values j.toNat)) := by
    rw [Table.lookup_eq_ok, assignment, Table.get?_map, hj]
    exact ⟨hkey, rfl⟩
  simp only [operand?, entry]
  rfl

/-! ## Honest engines -/

/-- An engine finds only points that satisfy the model that it is asked about. -/
def Engine.Honest (engine : Engine) : Prop :=
  ∀ asked q reply, engine.answer asked q = .ok reply →
    (reply.answer = .optimal ∨ reply.answer = .feasible) → q.model.holds (point reply.values)

def SameModel (st st' : State) : Prop :=
  st'.model = st.model

instance : Std.Refl SameModel := ⟨fun _ => rfl⟩

instance : IsTrans State SameModel := ⟨fun _ _ _ h h' => h'.trans h⟩

section

variable {R : State → State → Prop} [Std.Refl R] [IsTrans State R]

theorem keeps_setOption (engine : Engine) (taken : List (String × Value)) (o : Value × Value) :
    Action.Keeps R (setOption engine taken o) := by
  unfold setOption
  dsimp only
  split
  · exact keeps_pure _
  · split
    · exact (keeps_note _ _ _).bind fun _ => keeps_pure _
    · exact keeps_throw _

/-- `decide` asks about the model as it stands, and changes no more than that it was asked. -/
theorem keeps_decide (asks : ∀ st options, R st { st with
      asked := st.asked + 1
      session := { st.session with
        events := st.session.events ++ [.told ⟨options, st.model⟩] } })
    (engine : Engine) (s : Settings) (index : Index) (remaining : Option Float) :
    Action.Keeps R (decide engine s index remaining) := by
  unfold decide
  refine (keeps_ofExcept _).bind fun general => ?_
  refine (keeps_foldlM (keeps_setOption engine) _ _).bind fun options => ?_
  intro st
  rw [Action.runOn_bind, Action.runOn_read]
  refine Action.rel_bind (asks st.state options) fun _ st' _ => ?_
  refine (keeps_ofExcept _).bind (fun reply => ?_) st'
  cases reply.answer <;> first | exact keeps_pure _ | exact keeps_throw _

end

theorem decide_answer {engine : Engine} {s : Settings} {index : Index} {remaining : Option Float}
    {st st' : Logged State} {status : Status} {a : Table Int}
    (h : (decide engine s index remaining).runOn st = (.ok (status, some a), st')) :
    ∃ asked options reply, engine.answer asked ⟨options, st.state.model⟩ = .ok reply ∧
      (reply.answer = .optimal ∨ reply.answer = .feasible) ∧
      a = assignment index reply.values := by
  unfold decide at h
  obtain ⟨general, st₁, h₁, h⟩ := Action.runOn_bind_eq_ok.mp h
  obtain ⟨options, st₂, h₂, h⟩ := Action.runOn_bind_eq_ok.mp h
  obtain ⟨_, _, ⟨⟩, h⟩ := Action.runOn_bind_eq_ok.mp h
  obtain ⟨_, _, ⟨⟩, h⟩ := Action.runOn_bind_eq_ok.mp h
  obtain ⟨reply, st₃, h₃, h⟩ := Action.runOn_bind_eq_ok.mp h
  have same : st₂.state.model = st.state.model :=
    ((keeps_foldlM (keeps_setOption (R := SameModel) engine) _ _).of_runOn h₂).trans
      ((keeps_ofExcept (R := SameModel) _).of_runOn h₁)
  refine ⟨st₂.state.asked, options, reply, ?_, ?_⟩
  · rw [← same]
    exact congrArg Prod.fst h₃
  · cases hr : reply.answer <;> simp only [hr, Action.runOn_pure, Action.runOn_throw] at h
    · cases h
      exact ⟨.inl rfl, rfl⟩
    · cases h
      exact ⟨.inr rfl, rfl⟩
    all_goals cases h

/-! ## Cuts in the model -/

section

variable {engine : Engine} {s : Settings} {index : Index} {objective : WholeSum} {maximize : Bool}
  {st st' : Logged State}

/-- The cuts passed are the last rows of the model. -/
theorem rows_of_passes {record : List (Exchange Float (Table Int))}
    (h : (oracle engine s index objective maximize).Passes st record st') :
    st'.state.model.rows =
      st.state.model.rows ++ (cutBounds record).map (WholeRow.cut objective maximize) := by
  induction h with
  | nil => simp [cutBounds]
  | question h _ ih =>
      have same := (keeps_decide (R := SameModel) (fun _ _ => rfl) engine s index _).of_runOn h
      rw [ih, same]
      rfl
  | cut h _ ih =>
      obtain ⟨_, _, hfits, h⟩ := Action.runOn_bind_eq_ok.mp h
      obtain rfl := congrArg Prod.snd hfits
      obtain rfl := congrArg Prod.snd h
      rw [ih]
      simp [PseudoBoolean.add, cutBounds]
  | note message _ ih => exact ih

theorem holds_cut (p : Problem) (settings : Settings) (clock : Nat → Float) {bound : Int}
    {x : Nat → Int} :
    (WholeRow.cut objective (p.sense == .max) bound).holds x = true ↔
      (task p settings clock).Within (objective.eval x) bound := by
  unfold WholeRow.cut WholeRow.holds Task.Within task
  cases p.sense <;> simp

/-- The value that cuts use is the one of a whole sum, at every point of zeros and ones. -/
def Agrees (e : Expression) (index : Index) (sum : WholeSum) : Prop :=
  ∀ values, wholeValue Float e (operand? (assignment index values)) =
    .ok (sum.eval (point values))

/-- An `Engine.Honest` engine keeps to the cuts (`Task.Obeys`) of values that agree with the sum
that they are about. -/
theorem obeys_of_agrees {p : Problem} {settings : Settings} {clock : Nat → Float}
    (honest : engine.Honest) {e : Expression} (he : p.objective = some e)
    (agrees : Agrees e index objective) :
    (task p settings clock).Obeys (Set.range (assignment index))
      (oracle engine s index objective (p.sense == .max)) [] st := by
  intro record st₁ remaining status a st₂ hp hd _
  obtain ⟨asked, options, reply, hr, found, rfl⟩ := decide_answer hd
  refine ⟨⟨reply.values, rfl⟩, fun bound hb => ?_⟩
  have value : (task p settings clock).HasValue (assignment index reply.values)
      (objective.eval (point reply.values)) :=
    ⟨fun a => wholeValue Float e (operand? a), by simp [task, he], agrees reply.values⟩
  refine ⟨_, value, (holds_cut p settings clock).mp ?_⟩
  have all := honest asked _ reply hr found
  rw [PseudoBoolean.holds, rows_of_passes hp, List.all_append, Bool.and_eq_true] at all
  exact List.all_eq_true.mp all.2 _ (List.mem_map_of_mem hb)

end

/-! ## The number of values -/

theorem lt_of_index_get? {d : Declarations} {v : Value} {j : Int} (h : d.index.get? v = some j) :
    j.toNat < d.index.size := by
  obtain ⟨i, w, hw, -, rfl⟩ := Declarations.exists_place h
  simpa using (List.getElem?_eq_some_iff.mp hw).1

theorem column_lt {K : Type} [Numeric K] {d : Declarations} {l : Linear} {engine : Value}
    {sum : WholeSum} (h : WholeSum.ofExpression K (.linear l) d.index engine = .ok sum) :
    ∀ e ∈ sum.terms, e.1 < d.index.size := by
  rw [WholeSum.ofExpression_linear] at h
  generalize l.terms = ts, sum.terms = es at h ⊢
  induction h with
  | nil => simp
  | cons ht _ ih =>
      obtain ⟨j, hj, column⟩ := ht.column
      refine List.forall_mem_cons.mpr ⟨?_, ih⟩
      exact column ▸ lt_of_index_get? (Table.require_eq_ok.mp hj).2

/-- The values of a sum at points of zeros and ones on so many columns. -/
def sumValues (sum : WholeSum) (columns : Nat) : Finset Int :=
  Finset.univ.image fun bits : Fin columns → Bool => sum.eval (point (List.ofFn bits))

theorem card_sumValues_le (sum : WholeSum) (columns : Nat) :
    (sumValues sum columns).card ≤ 2 ^ columns := by
  refine Finset.card_image_le.trans ?_
  simp

theorem eval_mem_sumValues {sum : WholeSum} {columns : Nat}
    (h : ∀ e ∈ sum.terms, e.1 < columns) (values : List Bool) :
    sum.eval (point values) ∈ sumValues sum columns := by
  refine Finset.mem_image.mpr
    ⟨fun i => values.getD i false, Finset.mem_univ _, WholeSum.eval_congr fun e he => ?_⟩
  simp [point, List.getD_eq_getElem?_getD, h e he]

/-! ## Agreement -/

section

variable {l : Linear} {name : Value} {native : WholeSum}

/-- Values agree with a sum where nothing is rounded on the way to them. -/
theorem agrees_of_representable {index : Index}
    (h : WholeSum.ofExpression Float (.linear l) index name = .ok native)
    (held : native.Representable) : Agrees (.linear l) index native :=
  fun values => wholeValue_exact h (readsPoint_assignment index values) (isBinary_point values)
    (held.sums _ (isBinary_point values))

/-- Every point of zeros and ones is the point of an answer as far as a sum goes. -/
theorem exists_point (columns : Nat) {x : Nat → Int} (binary : IsBinary x) :
    ∃ values, ∀ j < columns, point values j = x j := by
  refine ⟨List.ofFn fun i : Fin columns => x i == 1, fun j hj => ?_⟩
  simp only [point, List.getD_eq_getElem?_getD, List.getElem?_ofFn, hj, dif_pos,
    Option.getD_some, beq_iff_eq]
  rcases binary j with h | h <;> simp [h]

/-- Where every column occurs once, each part of a sum is the value at some point, so values that
agree with the sum are not rounded on the way. -/
theorem representable_of_agrees {d : Declarations}
    (h : WholeSum.ofExpression Float (.linear l) d.index name = .ok native)
    (once : (native.terms.map (·.1)).Nodup) (agrees : Agrees (.linear l) d.index native) :
    native.Representable := by
  refine ⟨WholeSum.isDouble_coefficient h, fun x binary ts ⟨rest, hts⟩ => ?_⟩
  obtain ⟨values, hvalues⟩ := exists_point d.index.size
    (isBinary_restrict (ts.map (·.1)) binary)
  have value := agrees values
  have same : native.eval (point values) = WholeSum.eval ⟨ts⟩ x := by
    rw [← hts] at once
    rw [← WholeSum.eval_prefix once x, hts]
    exact WholeSum.eval_congr fun e he => hvalues e.1 (column_lt h e he)
  rw [same] at value
  exact isDouble_wholeValue value

end

/-! ## Solves -/

section

variable {engine : Engine} {hooks : Hooks PseudoBoolean} {clock : Nat → Float} {solver : Solver}
  {p : Problem} {settings : Settings} {index : Index} {objective : WholeSum}

/-- The values of the objective, if there is one, agree with a sum. -/
def ObjectiveAgrees (p : Problem) (index : Index) (sum : WholeSum) : Prop :=
  ∀ e, p.objective = some e → Agrees e index sum

/-- The oracle of `CpSat.optimize` obeys its cuts where the engine is honest and
`ObjectiveAgrees`. -/
theorem obeys_task (honest : engine.Honest) (agrees : ObjectiveAgrees p index objective)
    (st : Logged State) (search : (task p settings clock).value? ≠ none) :
    (task p settings clock).Obeys (Set.range (assignment index))
      (oracle engine settings index objective (p.sense == .max)) [] st := by
  cases he : p.objective with
  | none => simp [task, he] at search
  | some e => exact obeys_of_agrees honest he (agrees e he)

theorem runOn_optimize (model : PseudoBoolean) (questions : Nat)
    (s : Logged (Session Question)) :
    (optimize engine settings p index objective model clock questions).runOn s =
      match ((task p settings clock).optimize (oracle engine settings index objective
        (p.sense == .max)) questions).runOn ⟨⟨s.state, model, 0⟩, s.log⟩ with
      | (.ok o, st) => (.ok o, ⟨st.state.session, st.log⟩)
      | (.error f, st) =>
        (if f.cls = .engine then do
          Session.setStatus (some .error)
          throw f
        else throw f : Action (Session Question) (Outcome (Table Int))).runOn
          ⟨st.state.session, st.log⟩ := by
  unfold optimize
  rw [Action.runOn_tryCatch, Action.runOn_onPart]
  generalize ((task p settings clock).optimize _ questions).runOn _ = ended
  rcases ended with ⟨f | o, st⟩
  · rfl
  · rfl

/-- However many more questions than values it may ask, a run of cuts is the same. -/
theorem optimize_congr (settings : Settings) (clock : Nat → Float) (honest : engine.Honest)
    (agrees : ObjectiveAgrees p index objective)
    {columns : Nat} (bounded : p.objective ≠ none → ∀ e ∈ objective.terms, e.1 < columns)
    {q q' : Nat} (hq : 2 ^ columns < q) (hq' : 2 ^ columns < q') (model : PseudoBoolean)
    (s : Logged (Session Question)) :
    (optimize engine settings p index objective model clock q).runOn s =
      (optimize engine settings p index objective model clock q').runOn s := by
  rw [runOn_optimize, runOn_optimize]
  by_cases search : (task p settings clock).value? = none
  · rw [Task.optimize_eq_of_search search _ (Nat.zero_lt_of_lt hq) (Nat.zero_lt_of_lt hq')]
  · have present : p.objective ≠ none := fun h => search (by simp [task, h])
    have few := card_sumValues_le objective columns
    rw [Task.optimize_eq_of_card_lt ?_ (obeys_task honest agrees _ search) (few.trans_lt hq)
      (few.trans_lt hq')]
    rintro _ ⟨values, rfl⟩ v ⟨value, hvalue, hv⟩
    obtain ⟨e, he, rfl⟩ := Option.map_eq_some_iff.mp hvalue
    obtain rfl : _ = v := Except.ok.inj ((agrees e he values).symm.trans hv)
    exact eval_mem_sumValues (bounded present) values

end

/-! ## The parts of a solve -/

/-- The sum that a solve puts into its cuts. -/
def cutSum (p : Problem) (name : Value) : Except Fault WholeSum :=
  match p.objective with
  | some e => WholeSum.ofExpression Float e p.index name
  | none => .ok ⟨[]⟩

def conclude (p : Problem) (outcome : Outcome (Table Int)) :
    Action (Session Question) (Option (Solution Float)) := do
  Session.setStatus (some outcome.status)
  Session.setHistory outcome.history
  match outcome.assignment with
  | none =>
    .note .info (.engine .cpsat) ("No feasible solution found (" ++ outcome.status.word ++ ")")
    return none
  | some a =>
    let raw (v : Value) : Except Fault Float := do Numeric.ofInt (← a.require v)
    let objective := outcome.objectiveValue.map fun n => Reported.number (.whole n)
    return some (← .ofExcept (Solution.extract p.toDeclarations raw objective))

/-- What happens before hooks run, with the settings and the model that hooks are handed. -/
def handed (engine : Engine) (solver : Solver) (p : Problem) :
    Action (Session Question) (Settings × PseudoBoolean) := do
  .ofExcept (p.checkBoolean solver.name)
  .ofExcept (p.checkWhole Float solver.name)
  let settings ← Settings.freeze solver.name solver.parameters
  Session.setStatus none
  Session.setHistory []
  let model ← .ofExcept (p.pseudoBoolean Float engine.fits p.index solver.name)
  return (settings, model)

theorem keeps_handed (engine : Engine) (solver : Solver) (p : Problem) :
    Action.Keeps (Session.Appends fun _ => False) (handed engine solver p) := by
  unfold handed
  refine (keeps_ofExcept _).bind fun _ => (keeps_ofExcept _).bind fun _ => ?_
  refine (Session.keeps_freeze _ _).bind fun _ => (Session.keeps_setStatus _).bind fun _ => ?_
  exact (Session.keeps_setHistory _).bind fun _ => (keeps_ofExcept _).bind fun _ => keeps_pure _

theorem solve_eq (engine : Engine) (hooks : Hooks PseudoBoolean) (clock : Nat → Float)
    (questions : Nat) (solver : Solver) (p : Problem) :
    solve engine hooks clock questions solver p = (do
      .ofExcept (p.checkBoolean solver.name)
      .ofExcept (p.checkWhole Float solver.name)
      let settings ← Settings.freeze solver.name solver.parameters
      Session.setStatus none
      Session.setHistory []
      let model ← .ofExcept (p.pseudoBoolean Float engine.fits p.index solver.name)
      let model ← Session.runHooks "CpSatModel" hooks p.index solver.hooks model
      let objective ← .ofExcept (cutSum p solver.name)
      let outcome ← optimize engine settings p p.index objective model clock questions
      conclude p outcome) := by
  unfold solve cutSum
  cases p.objective <;> rfl

theorem keeps_conclude (p : Problem) (o : Outcome (Table Int)) :
    Action.Keeps (Session.Appends fun _ => False) (conclude p o) := by
  refine (Session.keeps_setStatus _).bind fun _ => (Session.keeps_setHistory _).bind fun _ => ?_
  split
  · exact (keeps_note _ _ _).bind fun _ => keeps_pure _
  · exact (keeps_ofExcept _).bind fun _ => keeps_pure _

theorem history_conclude {p : Problem} {outcome : Outcome (Table Int)}
    {s s' : Logged (Session Question)} {r : Option (Solution Float)}
    (h : (conclude p outcome).runOn s = (.ok r, s')) :
    s'.state.history = some outcome.history := by
  unfold conclude at h
  obtain ⟨_, _, ⟨⟩, h⟩ := Action.runOn_bind_eq_ok.mp h
  obtain ⟨_, _, ⟨⟩, h⟩ := Action.runOn_bind_eq_ok.mp h
  split at h
  · obtain ⟨_, _, ⟨⟩, h⟩ := Action.runOn_bind_eq_ok.mp h
    cases h
    rfl
  · obtain ⟨_, _, hsolution, h⟩ := Action.runOn_bind_eq_ok.mp h
    obtain rfl := congrArg Prod.snd hsolution
    cases h
    rfl

end Milp.CpSat
