import Milp.Engine.Gurobi
import Milp.Proofs.Action.Frame
import Milp.Proofs.Encoding.Incremental
import Milp.Proofs.Problem.Optimum

/-!
# Building a model for Gurobi

Gurobi is told about the variables, the constraints and the objective of a problem one after the
other. What it was told is a form of the problem.
-/

namespace Milp

open Milp.Action

/-! ## Telling an engine -/

namespace Session

variable {ν α β : Type}

/-- The session in which the engine was told more. -/
def telling (s : Session ν) (told : List ν) : Session ν :=
  { s with events := s.events ++ told.map .told }

@[simp] theorem telling_nil (s : Session ν) : s.telling [] = s := by
  simp [telling]

@[simp] theorem telling_telling (s : Session ν) (told told' : List ν) :
    (s.telling told).telling told' = s.telling (told ++ told') := by
  simp [telling]

@[simp] theorem tellings_telling (s : Session ν) (told : List ν) :
    (s.telling told).tellings = s.tellings ++ told := by
  simp [telling, tellings, List.filterMap_append, List.filterMap_map]

/-- `a` ends in the result `r` and tells the engine `told`, and does nothing else. -/
def Tells (a : Action (Session ν) α) (r : Except Fault α) (told : List ν) : Prop :=
  ∀ s, a.runOn s = (r, ⟨s.state.telling told, s.log⟩)

theorem tells_pure (y : α) : Tells (pure y : Action (Session ν) α) (.ok y) [] := by
  intro s
  simp

theorem tells_ofExcept (r : Except Fault α) : Tells (.ofExcept r : Action (Session ν) α) r [] := by
  intro s
  simp

theorem tells_tell (x : ν) : Tells (tell x) (.ok ()) [x] :=
  fun _ => rfl

theorem Tells.bind {a : Action (Session ν) α} {f : α → Action (Session ν) β} {y : α}
    {r : Except Fault β} {told told' : List ν} (ha : Tells a (.ok y) told)
    (hf : Tells (f y) r told') : Tells (a >>= f) r (told ++ told') := by
  intro s
  rw [runOn_bind, ha s]
  simp only
  rw [hf, telling_telling]

/-- Something that can be made is told. -/
theorem tells_made (word : α → ν) {made : Except Fault α} {x : α} (h : made = .ok x) :
    Tells (do let x ← .ofExcept made; tell (word x); return x) (.ok x) [word x] := by
  subst h
  exact (tells_ofExcept (.ok x)).bind ((tells_tell (word x)).bind (tells_pure x))

/-- What each part of a list makes the engine be told is told in order. -/
theorem tells_mapM {f : α → Action (Session ν) β} {word : β → ν} {xs : List α} {ys : List β}
    (h : List.Forall₂ (fun x y => Tells (f x) (.ok y) [word y]) xs ys) :
    Tells (xs.mapM f) (.ok ys) (ys.map word) := by
  induction h with
  | nil => exact tells_pure []
  | @cons x y xs ys hx _ ih =>
      have rest : Tells (do return y :: (← xs.mapM f)) (.ok (y :: ys)) (ys.map word ++ []) :=
        ih.bind (tells_pure (y :: ys))
      rw [List.append_nil] at rest
      rw [List.mapM_cons]
      exact hx.bind rest

end Session

/-! ## The pieces of a problem -/

namespace Gurobi

/-- The pieces are a form of a problem. -/
structure States (free : Extended → Prop) (p : Problem) (m : Incremental Extended) : Prop where
  admits : ∀ x q, p.Reads x q → (m.Admits free q ↔ p.Feasible x)
  cost : ∀ x q, p.Reads x q → m.costAt q = .finite (p.objectiveAt x)
  maximize : (∃ o, m.objective = some o ∧ o.sense = .max) ↔ p.isMaximize = true

/-- What Gurobi is told about pieces. -/
def callsOf (m : Incremental Extended) : List (Call Extended) :=
  m.vars.map .addVariable ++ m.rows.map .addRow ++ (m.objective.map .setObjective).toList

theorem foldl_vars (vs : List (PieceVariable Extended)) (m : Incremental Extended) :
    vs.foldl (fun m v => { m with vars := m.vars ++ [v] }) m = { m with vars := m.vars ++ vs } := by
  induction vs generalizing m with
  | nil => simp
  | cons v vs ih => simp [ih]

theorem foldl_rows (rs : List (PieceRow Extended)) (m : Incremental Extended) :
    rs.foldl (fun m r => { m with rows := m.rows ++ [r] }) m = { m with rows := m.rows ++ rs } := by
  induction rs generalizing m with
  | nil => simp
  | cons r rs ih => simp [ih]

/-- `handedOver` of `callsOf` gives the pieces back. -/
theorem handedOver_callsOf (m : Incremental Extended) :
    handedOver (callsOf m ++ [.stage .update]) = m := by
  unfold handedOver callsOf
  rw [List.foldl_append, List.foldl_append, List.foldl_append, List.foldl_map, List.foldl_map]
  rw [foldl_vars, foldl_rows]
  rcases m with ⟨vars, rows, _ | o⟩
  · rfl
  · rfl

/-- Tells about the objective, if there is one. -/
def tellObjective (p : Problem) (index : Index) :
    Action (Session (Call Extended)) (Option (PieceObjective Extended)) :=
  match p.objective with
  | none => pure none
  | some o => do
    let terms ← .ofExcept (Incremental.termsOf index o)
    Session.tell (.setObjective ⟨terms, p.sense⟩)
    return some ⟨terms, p.sense⟩

theorem build_eq (engine : Engine Extended) (p : Problem) (index : Index) :
    build engine p index = do
      let vars ← index.entries.mapM fun e => do
        let v ← .ofExcept (Incremental.variableOf p e)
        Session.tell (.addVariable v)
        return v
      let rows ← p.constraints.items.zipIdx.mapM fun c => do
        let r ← .ofExcept (Incremental.rowOf index c)
        Session.tell (.addRow r)
        return r
      .ofExcept (p.constraints.finish "lhs")
      let objective ← tellObjective p index
      stage engine .update
      return ⟨vars, rows, objective⟩ := by
  unfold build tellObjective
  cases p.objective <;> simp only [bind_assoc, pure_bind]

section

variable {p : Problem} {free : Extended → Prop}

/-- Every variable can be handed over, with the numbers that it may take. -/
theorem exists_vars (distinct : p.Distinct)
    (finite : ∀ v ∈ p.variableList, p.FiniteBounds v) (frees : Incremental.Frees free)
    (binds : ∀ v ∈ p.variableList, Incremental.Binds free p.toDeclarations v) :
    ∃ vars : List (PieceVariable Extended),
      List.Forall₂ (fun e v => Incremental.variableOf p e = .ok v) p.index.entries vars ∧
      ∀ x q, p.Reads x q → ((∀ (j : Nat) v, vars[j]? = some v → v.Admits free (q j)) ↔
        ∀ v ∈ p.variableList, p.Admits v (x v.key)) := by
  have keys : p.index.entries.map Prod.fst = p.variableList := by
    simp [Declarations.index, Function.comp_def, List.zipIdx_map_fst]
  have each (e : Value × Int) (he : e ∈ p.index.entries) :
      ∃ v, Incremental.variableOf p e = .ok v ∧ ∀ y, v.Admits free y ↔ p.Admits e.1 y := by
    have hv : e.1 ∈ p.variableList := keys ▸ List.mem_map_of_mem he
    obtain ⟨b, bounded⟩ := Declarations.exists_bounded (finite e.1 hv)
    exact Incremental.exists_variableOf frees (binds e.1 hv) bounded e.2
  obtain ⟨vars, hvars⟩ := exists_forall₂ each
  refine ⟨vars, hvars.imp fun _ _ h => h.1, fun x q reads => ?_⟩
  refine Declarations.forall_place_iff distinct ?_ reads
  rw [← keys, List.forall₂_map_left_iff]
  exact hvars.imp fun _ _ h => h.2

/-- Every constraint can be handed over, and says of a point what it said before. -/
theorem exists_rows (wellFormed : p.WellFormed) (finite : p.FiniteData)
    (given : ∀ c ∈ p.constraints.items, ∃ r, c.operator = .symbol (.relation r)) :
    ∃ rows : List (PieceRow Extended),
      List.Forall₂ (fun c r => Incremental.rowOf p.index c = .ok r)
        p.constraints.items.zipIdx rows ∧
      ∀ x q, p.Reads x q →
        ((∀ r ∈ rows, r.relation.HoldsBetween (Incremental.valueAt r.terms q) r.rhs) ↔
          ∀ c ∈ p.constraints.items, Problem.Satisfies c x) := by
  have each (c : Constraint × Nat) (hc : c ∈ p.constraints.items.zipIdx) :
      ∃ r, Incremental.rowOf p.index c = .ok r ∧ ∀ x q, p.Reads x q →
        (r.relation.HoldsBetween (Incremental.valueAt r.terms q) r.rhs ↔
          Problem.Satisfies c.1 x) := by
    have mem : c.1 ∈ p.constraints.items :=
      List.mem_of_getElem? (List.mem_zipIdx_iff_getElem?.mp hc)
    obtain ⟨l, hl, registered⟩ := wellFormed.constraints c.1 mem
    obtain ⟨r, hr⟩ := given c.1 mem
    have coefficients (t : Term) (ht : t ∈ l.terms) : t.coefficient.ReadsFinite :=
      finite.coefficients c.1 mem t (by simpa [hl] using ht)
    exact Incremental.exists_rowOf wellFormed.distinct hl registered coefficients
      (finite.sides c.1 mem) hr c.2
  obtain ⟨rows, hrows⟩ := exists_forall₂ each
  refine ⟨rows, hrows.imp fun _ _ h => h.1, fun x q reads => ?_⟩
  rw [← forall_mem_iff_of_forall₂ hrows fun c _ r h => (h.2 x q reads).symm]
  conv_rhs => rw [← List.zipIdx_map_fst 0 p.constraints.items, List.forall_mem_map]

/-- The last stage of building gives the pieces, unless the engine breaks it off. -/
theorem tells_update (engine : Engine Extended) (m : Incremental Extended) :
    Session.Tells (do stage engine .update; return m)
      ((engine.breaksOff .update).elim (.ok m) .error) [.stage .update] := by
  intro s
  cases h : engine.breaksOff .update with
  | none =>
      simp only [stage, h]
      rfl
  | some f =>
      simp only [stage, h]
      rfl

/-- The objective can be handed over, and says of a point what it said before. -/
theorem exists_objective (wellFormed : p.WellFormed) (finite : p.FiniteData) :
    ∃ o : Option (PieceObjective Extended),
      Session.Tells (tellObjective p p.index) (.ok o) (o.map Call.setObjective).toList ∧
      (∀ vars rows x q, p.Reads x q →
        (⟨vars, rows, o⟩ : Incremental Extended).costAt q = .finite (p.objectiveAt x)) ∧
      ((∃ piece, o = some piece ∧ piece.sense = .max) ↔ p.isMaximize = true) := by
  unfold tellObjective
  cases ho : p.objective with
  | none =>
      refine ⟨none, Session.tells_pure none, fun vars rows x q _ => ?_, ?_⟩
      · simp [Incremental.costAt, Problem.objectiveAt, ho]
      · simp [Problem.isMaximize, ho]
  | some e =>
      obtain ⟨l, rfl, registered⟩ := wellFormed.objective e ho
      have coefficients (t : Term) (ht : t ∈ l.terms) : t.coefficient.ReadsFinite :=
        finite.costs _ ho t (by simpa using ht)
      obtain ⟨es, hes, entries⟩ :=
        Incremental.exists_termsOf wellFormed.distinct registered coefficients
      refine ⟨some ⟨es, p.sense⟩, ?_, fun vars rows x q reads => ?_, ?_⟩
      · simp only [hes]
        exact (Session.tells_ofExcept (.ok es)).bind
          ((Session.tells_tell _).bind (Session.tells_pure _))
      · simp only [Incremental.costAt, Problem.objectiveAt, ho, Option.map_some, Option.getD_some]
        exact Declarations.EntryOf.dot entries coefficients wellFormed.distinct reads
      · simp [Problem.isMaximize, ho]

/-- `build` tells the pieces of a problem one by one, and they state the problem (`States`). -/
theorem exists_build (wellFormed : p.WellFormed) (finite : p.FiniteData)
    (given : ∀ c ∈ p.constraints.items, ∃ r, c.operator = .symbol (.relation r))
    (frees : Incremental.Frees free)
    (binds : ∀ v ∈ p.variableList, Incremental.Binds free p.toDeclarations v)
    (engine : Engine Extended) :
    ∃ m, Session.Tells (build engine p p.index) ((engine.breaksOff .update).elim (.ok m) .error)
      (callsOf m ++ [.stage .update]) ∧ States free p m := by
  obtain ⟨vars, hvars, numbers⟩ := exists_vars wellFormed.distinct finite.bounds frees binds
  obtain ⟨rows, hrows, constraints⟩ := exists_rows wellFormed finite given
  obtain ⟨objective, objectiveTold, cost, maximize⟩ := exists_objective wellFormed finite
  have varsTold := Session.tells_mapM (hvars.imp fun _ _ h => Session.tells_made Call.addVariable h)
  have rowsTold := Session.tells_mapM (hrows.imp fun _ _ h => Session.tells_made Call.addRow h)
  have finished : Session.Tells (.ofExcept (p.constraints.finish "lhs")) (.ok ())
      ([] : List (Call Extended)) := by
    rw [Series.finish, wellFormed.complete]
    exact Session.tells_ofExcept (.ok ())
  have told : callsOf ⟨vars, rows, objective⟩ ++ [.stage .update] =
      vars.map .addVariable ++ (rows.map .addRow ++ ([] ++
        ((objective.map .setObjective).toList ++ [.stage .update]))) := by
    simp [callsOf]
  refine ⟨⟨vars, rows, objective⟩, ?_, fun x q reads => ⟨?_, ?_⟩, cost vars rows, maximize⟩
  · rw [told, build_eq]
    exact varsTold.bind (rowsTold.bind (finished.bind
      (objectiveTold.bind (tells_update engine _))))
  · rintro ⟨hvars, hrows⟩
    exact ⟨(constraints x q reads).mp hrows, (numbers x q reads).mp hvars⟩
  · rintro ⟨satisfied, admitted⟩
    exact ⟨(numbers x q reads).mpr admitted, (constraints x q reads).mpr satisfied⟩

end

end Gurobi

end Milp
