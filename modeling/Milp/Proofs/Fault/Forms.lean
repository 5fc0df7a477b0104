import Milp.Encoding.Columnwise
import Milp.Encoding.Incremental
import Milp.Encoding.PseudoBoolean
import Milp.Encoding.Ranged
import Milp.Encoding.Symbolic
import Milp.Proofs.Extraction
import Milp.Proofs.Fault.Internal
import Milp.Proofs.Problem.Denotation

/-!
# Faults of forms and of solutions

No form of a well-formed problem is broken off by anything but a fault of the library's own, and
neither is the reading of a solution.
-/

namespace Milp

variable {γ K : Type} [Numeric K] [Numeric.Contained K] {p : Problem}

/-! ## Columns and rows -/

@[simp] theorem contained_columnPlace (length : Nat) (j : Int) :
    Contained (columnPlace length j) := by
  unfold columnPlace
  split <;> simp [Fault.Internal]

theorem breaksBy_effectiveBounds (d : Declarations) (v : Value) :
    BreaksBy Fault.OfOrder (d.effectiveBounds v) := by
  unfold Declarations.effectiveBounds
  dsimp only
  split
  · cases d.lowers.get? v <;> cases d.uppers.get? v <;> simp
  · simp

@[simp] theorem contained_effectiveBounds (d : Declarations) (v : Value) :
    Contained (d.effectiveBounds v) :=
  (breaksBy_effectiveBounds d v).imp fun _ => Fault.OfOrder.internal

@[simp] theorem contained_columns (d : Declarations) (index : Index) :
    Contained (d.columns index : Except Fault (Columns K)) := by
  refine breaksBy_foldlM fun cs e => (contained_effectiveBounds d e.1).bind fun b => ?_
  rcases b with ⟨_ | a, _ | b⟩ <;> simp [columnPlaces]

@[simp] theorem contained_range (c : Constraint) : Contained (c.range : Except Fault (Range K)) := by
  simp [Constraint.range]

/-! ## Expressions -/

@[simp] theorem contained_coefficientOf (v : Value) :
    Contained (Symbolic.coefficientOf v : Except Fault (Number K)) := by
  unfold Symbolic.coefficientOf
  split <;> (try split) <;> simp [Fault.Internal]

theorem contained_entries {column : Value → Except Fault γ} (h : ∀ v, Contained (column v))
    (l : Linear) : Contained ((Expression.linear l).entries column : Except Fault (List (γ × K))) := by
  simp [Expression.entries, Term.entry, h]

@[simp] theorem contained_toWhole (v engine : Value) (place : Place) :
    Contained (v.toWhole K engine place) := by
  refine (contained_ofValue v).bind fun x => ?_
  cases Numeric.whole? x <;> simp [Fault.Internal]

@[simp] theorem contained_wholeTerms (l : Linear) (index : Index) (engine : Value) :
    Contained ((Expression.linear l).wholeTerms K index engine) := by
  simp [Expression.wholeTerms]

/-! ## Forms -/

theorem contained_length (h : p.WellFormed) : Contained p.constraints.length := by
  obtain ⟨n, hn⟩ := h.length
  simp [hn]

theorem contained_checkColumns (width : Nat) (columns : List Int) :
    Contained (checkColumns width columns) := by
  simp [checkColumns, Fault.Internal]

theorem contained_matrix (h : p.WellFormed) :
    Contained (p.matrix p.index : Except Fault (RangedRows K)) := by
  refine (contained_length h).bind fun _ => ?_
  refine (breaksBy_series_mapM h.complete fun c hc => ?_).bind fun rows => ?_
  · obtain ⟨l, hl, -⟩ := h.constraints c hc
    rw [Constraint.row, hl]
    exact (contained_entries (contained_require _) l).bind fun _ => by simp
  · simp [contained_checkColumns]

theorem contained_cost (h : p.WellFormed) :
    Contained (p.cost p.index : Except Fault (List K)) := by
  unfold Problem.cost costOf
  split
  · exact breaksBy_ok _
  · rename_i e he
    obtain ⟨l, rfl, -⟩ := h.objective e he
    rw [Expression.terms_linear, Series.foldlM_ofList]
    exact breaksBy_foldlM fun cost t => by simp [addCost, columnPlaces]

theorem contained_columnwise (h : p.WellFormed) :
    Contained (p.columnwise p.index : Except Fault (Columnwise K)) := by
  simp [Problem.columnwise, contained_matrix h, contained_cost h, contained_length h]

theorem contained_ranged (h : p.WellFormed) :
    Contained (p.ranged p.index : Except Fault (Ranged K)) := by
  simp [Problem.ranged, contained_matrix h, contained_cost h]

theorem contained_statusWithoutVariables (h : p.WellFormed) :
    Contained (p.statusWithoutVariables K) := by
  have all (cs : List Constraint) : Contained (allHoldWithoutTerms.go K p.constraints cs) := by
    induction cs with
    | nil => simp [allHoldWithoutTerms.go, h.complete]
    | cons c cs ih => simp [allHoldWithoutTerms.go, Constraint.holdsWithoutTerms, ih]
  simp [Problem.statusWithoutVariables, allHoldWithoutTerms, all]

theorem contained_emptyRowsHold (h : p.WellFormed) :
    Contained (emptyRowsHold K p.constraints) := by
  have all (cs : List Constraint) (hcs : ∀ c ∈ cs, c ∈ p.constraints.items) :
      Contained (emptyRowsHold.go K p.constraints cs) := by
    induction cs with
    | nil => simp [emptyRowsHold.go, h.complete]
    | cons c cs ih =>
        obtain ⟨hc, hcs⟩ := List.forall_mem_cons.mp hcs
        obtain ⟨l, hl, -⟩ := h.constraints c hc
        simp [emptyRowsHold.go, Constraint.holdsWithoutTerms, hl, Expression.isEmpty, ih hcs]
  exact all _ fun _ hc => hc

theorem contained_symbolic (h : p.WellFormed) :
    Contained (p.symbolic p.index : Except Fault (Option (Symbolic K))) := by
  have entries (l : Linear) :
      Contained (Symbolic.entries p.index (.linear l) : Except Fault (List (Nat × Number K))) := by
    simp [Symbolic.entries, Symbolic.entry]
  have row (c : Constraint × Nat) (hc : c ∈ p.constraints.items.zipIdx) :
      Contained (Symbolic.rowOf p.index c : Except Fault (Option (SymbolicRow K))) := by
    obtain ⟨l, hl, -⟩ := h.constraints c.1 (List.fst_mem_of_mem_zipIdx hc)
    simp [Symbolic.rowOf, hl, Expression.isEmpty, entries]
  refine BreaksBy.bind (breaksBy_mapM fun v => by simp [Symbolic.variableOf]) fun vars => ?_
  refine (contained_emptyRowsHold h).bind fun hold => breaksBy_ite.mpr ⟨fun _ => breaksBy_pure _,
    fun _ => ?_⟩
  refine (contained_length h).bind fun _ => (breaksBy_mapM_of_mem row).bind fun rows => ?_
  dsimp only
  split
  · rename_i o ho
    obtain ⟨l, rfl, -⟩ := h.objective o ho
    simp [Expression.isEmpty, entries]
  · simp

/-! ## Forms that are handed over -/

theorem contained_addTerm (j : Nat) (x : Number K) (es : List (Nat × Number K)) :
    Contained (Symbolic.addTerm j x es) := by
  induction es with
  | nil => exact breaksBy_ok _
  | cons e es ih => simp [Symbolic.addTerm, ih]

theorem contained_merged (terms : List (Nat × Number K)) : Contained (Symbolic.merged terms) := by
  simp [Symbolic.merged, contained_addTerm]

omit [Numeric.Contained K] in
theorem contained_sideOf (component : String) (side : Side) (x : K) :
    Contained (Symbolic.sideOf component side x) := by
  unfold Symbolic.sideOf
  split <;> simp [Fault.Internal]

theorem contained_boundOf (v : Value) : Contained (Symbolic.boundOf v : Except Fault K) := by
  unfold Symbolic.boundOf
  split <;> simp [Fault.Internal]

omit [Numeric.Contained K] in
theorem contained_readBounds (component : String) (b : Bounds K) :
    Contained (Symbolic.readBounds component b) := by
  rcases b with ⟨_ | a, _ | b⟩ <;> simp [Symbolic.readBounds, contained_sideOf]

theorem contained_readVariable (v : SymbolicVariable × Nat) :
    Contained (Symbolic.readVariable v : Except Fault (PluginVariable K)) := by
  rcases v with ⟨⟨d, _ | a, _ | b⟩, i⟩ <;>
    simp [Symbolic.readVariable, contained_sideOf, contained_boundOf]

theorem contained_read (m : Symbolic K) : Contained m.read := by
  simp [Symbolic.read, Symbolic.readRow, contained_readVariable, contained_merged,
    contained_readBounds]

theorem contained_variableOf (p : Problem) (e : Value × Int) :
    Contained (Incremental.variableOf p e : Except Fault (PieceVariable K)) := by
  refine (contained_effectiveBounds _ _).bind fun b => ?_
  rcases b with ⟨_ | a, _ | b⟩ <;> simp

theorem contained_termsOf (index : Index) (l : Linear) :
    Contained (Incremental.termsOf index (.linear l) : Except Fault (List (Int × K))) := by
  simp [Incremental.termsOf]

theorem contained_givenRelation (operator : Value) :
    Contained (Incremental.givenRelation operator) := by
  refine (contained_checkKey operator).bind fun _ => ?_
  split <;> simp [Fault.Internal]

theorem contained_rowOf (h : p.WellFormed) {c : Constraint × Nat}
    (hc : c ∈ p.constraints.items.zipIdx) :
    Contained (Incremental.rowOf p.index c : Except Fault (PieceRow K)) := by
  obtain ⟨l, hl, -⟩ := h.constraints c.1 (List.fst_mem_of_mem_zipIdx hc)
  simp [Incremental.rowOf, hl, contained_termsOf, contained_givenRelation]

theorem contained_checkBoolean (d : Declarations) (engine : Value) :
    Contained (d.checkBoolean engine) := by
  refine breaksBy_forM fun v => ?_
  split <;> simp [Fault.Internal]

theorem contained_checkWholeTerms (engine : Value) (place : Place) (l : Linear) :
    Contained (Problem.checkWholeTerms K engine place (.linear l)) := by
  simp [Problem.checkWholeTerms]

theorem contained_checkWhole (h : p.WellFormed) (engine : Value) :
    Contained (p.checkWhole K engine) := by
  refine BreaksBy.bind ?_ fun _ => ?_
  · unfold Problem.checkWholeObjective
    cases ho : p.objective with
    | none => exact breaksBy_pure _
    | some o =>
        obtain ⟨l, rfl, -⟩ := h.objective o ho
        exact contained_checkWholeTerms engine .objective l
  · refine (breaksBy_series_mapM h.complete fun c hc => ?_).bind fun _ => breaksBy_pure _
    obtain ⟨l, hl, -⟩ := h.constraints c hc
    rw [Problem.checkWholeConstraint, hl]
    exact (contained_checkWholeTerms _ _ l).bind fun _ => by simp

theorem contained_ofExpression (l : Linear) (index : Index) (engine : Value) :
    Contained (WholeSum.ofExpression K (.linear l) index engine) := by
  simp [WholeSum.ofExpression]

/-- The pseudo-boolean form breaks off with what the engine has against a row, too. -/
theorem breaksBy_pseudoBoolean {P : Fault → Prop} (internal : ∀ f, f.Internal → P f)
    (h : p.WellFormed) {fits : WholeRow → Except Fault Unit} (hfits : ∀ r, BreaksBy P (fits r))
    (engine : Value) : BreaksBy P (p.pseudoBoolean K fits p.index engine) := by
  have fixing (e : Value × Int) : BreaksBy P (p.fixingRows e) :=
    BreaksBy.imp (by simp [Problem.fixingRows]) internal
  have name (v : Value) : Contained (WholeRow.nameOf v) := by
    unfold WholeRow.nameOf
    split <;> simp [Fault.Internal]
  refine (breaksBy_mapM fixing).bind fun _ => ?_
  refine (breaksBy_series_mapM h.complete fun c hc => ?_).bind fun _ => breaksBy_pure _
  obtain ⟨l, hl, -⟩ := h.constraints c hc
  rw [WholeRow.ofConstraint, hl]
  refine ((contained_ofExpression l _ _).imp internal).bind fun _ => ?_
  refine ((contained_toWhole _ _ _).imp internal).bind fun _ => ?_
  exact (hfits _).bind fun _ => ((name _).imp internal).bind fun _ => breaksBy_pure _

/-! ## Values of expressions -/

section

variable {value? : Value → Except Fault (Option (Operand K))}

theorem contained_operand (v : Value) : Contained (v.operand : Operand K).number :=
  contained_ofValue v

theorem contained_accumulate (looks : ∀ v, Contained (value? v))
    (finds : ∀ v x, value? v = .ok (some x) → Contained x.number) (ignoreMissing : Bool)
    (s : Subtotal K) (ts : List Term) :
    Contained (Linear.accumulate value? ignoreMissing s ts) := by
  induction ts generalizing s with
  | nil => exact breaksBy_ok _
  | cons t ts ih =>
      refine breaksBy_bind.mpr ⟨looks t.var, fun found h => ?_⟩
      cases found with
      | none => simp [ih, Fault.Internal]
      | some x =>
          refine BreaksBy.bind ?_ fun s => ih s
          exact (contained_operand _).bind fun _ => (finds t.var x h).bind fun _ => breaksBy_pure _

theorem contained_evaluate (looks : ∀ v, Contained (value? v))
    (finds : ∀ v x, value? v = .ok (some x) → Contained x.number) (l : Linear)
    (ignoreMissing : Bool) : Contained (l.evaluate value? ignoreMissing) := by
  refine (contained_accumulate looks finds ignoreMissing _ _).bind fun s => ?_
  simp [Subtotal.total]

end

/-! ## Solutions -/

omit [Numeric.Contained K] in
@[simp] theorem contained_extract {raw : Value → Except Fault K} (h : ∀ v, Contained (raw v))
    (d : Declarations) (o : Option (Reported K)) : Contained (Solution.extract d raw o) := by
  unfold Solution.extract
  refine BreaksBy.bind (breaksBy_foldlM fun t v => ?_) fun _ => breaksBy_pure _
  refine (h v).bind fun x => BreaksBy.bind ?_ fun _ => breaksBy_pure _
  simp [Solution.roundValue, Numeric.floor]

omit [Numeric.Contained K] in
theorem contained_ofNothing (d : Declarations) : Contained (Solution.ofNothing K d) := by
  simp [Solution.ofNothing, Fault.Internal]

@[simp] theorem contained_reported_read (r : Reported K) : Contained r.read := by
  cases r <;> simp [Reported.read]

@[simp] theorem contained_enterDuals (s : Solution K) (duals : Table (Reported K)) :
    Contained (s.enterDuals duals) := by
  simp [Solution.enterDuals]

theorem contained_negated (v : Value) : Contained v.negated := by
  have scalar (x : Scalar) : Contained (Value.negatedScalar x) := by
    cases x <;> simp [Value.negatedScalar, Fault.Internal]
  unfold Value.negated
  split
  · exact breaksBy_ok _
  · exact breaksBy_ok _
  · exact breaksBy_map.mpr (scalar _)
  · simp [scalar, Fault.Internal]
  · exact breaksBy_ok _
  · split <;> simp [Fault.Internal]

omit [Numeric.Contained K] in
theorem contained_reported_neg (r : Reported K) : Contained r.neg := by
  cases r <;> simp [Reported.neg, contained_negated]

end Milp
