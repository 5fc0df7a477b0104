import Milp.Proofs.Fault.Internal
import Milp.Proofs.Table
import Milp.Store.Evaluate

/-!
# Variables without a value

A dictionary has a value for some variables and none for others. To pass over those without a value
is to leave their terms out. Otherwise the first of them is a fault, unless there is a number in
front of it that cannot be read.
-/

namespace Milp

/-- A value can be read as a number. -/
def Value.IsNumeral (v : Value) : Prop :=
  ∃ x : Float, Numeric.ofValue v = .ok x

theorem Subtotal.add_eq_ok {K : Type} [Numeric K] {s s' : Subtotal K} {c v : Operand K} :
    s.add c v = .ok s' ↔ ∃ x y, c.number = .ok x ∧ v.number = .ok y ∧
      s' = ⟨s.sum + x * y, s.integral && (c.integral && v.integral)⟩ := by
  simp only [Subtotal.add, bind_eq_ok]
  constructor
  · rintro ⟨x, hx, y, hy, ⟨⟩⟩
    exact ⟨x, y, hx, hy, rfl⟩
  · rintro ⟨x, y, hx, hy, rfl⟩
    exact ⟨x, hx, y, hy, rfl⟩

namespace Linear

/-- The terms whose variables have a value. -/
def assigned (given : Value → Option Value) (l : Linear) : Linear :=
  ⟨l.terms.filter fun t => (given t.var).isSome⟩

/-- A variable is the first one without a value, and the numbers of all terms before it can be
read. -/
def FirstMissing (given : Value → Option Value) (ts : List Term) (v : Value) : Prop :=
  ∃ before t after, ts = before ++ t :: after ∧ t.var = v ∧ given t.var = none ∧
    ∀ u ∈ before, ∃ w, given u.var = some w ∧ u.coefficient.IsNumeral ∧ w.IsNumeral

/-- The numbers of all terms whose variables have a value are of an integral kind. -/
def Integral (given : Value → Option Value) (ts : List Term) : Prop :=
  ∀ t ∈ ts, ∀ w, given t.var = some w → t.coefficient.isIntegral = true ∧ w.isIntegral = true

/-- Looking variables up gives the values that they have. -/
def Answers {K : Type} [Numeric K] (value? : Value → Except Fault (Option (Operand K)))
    (given : Value → Option Value) (ts : List Term) : Prop :=
  ∀ t ∈ ts, value? t.var = .ok ((given t.var).map Value.operand)

/-! ## Adding up -/

section

variable {K : Type} [Numeric K] {value? : Value → Except Fault (Option (Operand K))}
  {given : Value → Option Value} {ignore : Bool} {t : Term} {ts : List Term}

theorem accumulate_cons_some {o : Operand K} (h : value? t.var = .ok (some o)) (s : Subtotal K) :
    accumulate value? ignore s (t :: ts) =
      s.add t.coefficient.operand o >>= fun next => accumulate value? ignore next ts := by
  rw [accumulate, h]
  rfl

theorem accumulate_cons_none (h : value? t.var = .ok none) (s : Subtotal K) :
    accumulate value? ignore s (t :: ts) =
      if ignore then accumulate value? ignore s ts else .error (.unassigned t.var) := by
  rw [accumulate, h]
  rfl

/-- Whether `Linear.accumulate` passes over variables without a value matters only where there is
one. -/
theorem accumulate_passing (s : Subtotal K)
    (h : ∀ v, accumulate value? false s ts ≠ .error (.unassigned v)) :
    accumulate value? true s ts = accumulate value? false s ts := by
  induction ts generalizing s with
  | nil => rfl
  | cons t ts ih =>
      cases hv : value? t.var with
      | error f => simp only [accumulate, hv, bind, Except.bind]
      | ok found =>
          cases found with
          | none => exact absurd (accumulate_cons_none hv s) (h t.var)
          | some o =>
              rw [accumulate_cons_some hv] at h ⊢
              rw [accumulate_cons_some hv]
              cases next : s.add t.coefficient.operand o with
              | error f => rfl
              | ok s' =>
                  rw [next] at h
                  exact ih s' h

/-- To pass over variables without a value is to leave their terms out. -/
theorem accumulate_assigned (h : Answers value? given ts) (s : Subtotal K) :
    accumulate value? true s ts =
      accumulate value? false s (ts.filter fun t => (given t.var).isSome) := by
  induction ts generalizing s with
  | nil => rfl
  | cons t ts ih =>
      obtain ⟨head, tail⟩ := List.forall_mem_cons.mp h
      cases hg : given t.var with
      | none =>
          rw [hg] at head
          rw [accumulate_cons_none head, List.filter_cons_of_neg (by simp [hg])]
          exact ih tail s
      | some w =>
          rw [hg] at head
          rw [accumulate_cons_some head, List.filter_cons_of_pos (by simp [hg]),
            accumulate_cons_some head]
          cases s.add t.coefficient.operand w.operand with
          | error f => rfl
          | ok s' => exact ih tail s'

/-- A sum is of an integral kind if all numbers that entered it are. -/
theorem integral_accumulate (h : Answers value? given ts) {s s' : Subtotal K}
    (sum : accumulate value? ignore s ts = .ok s') :
    s'.integral = true ↔ s.integral = true ∧ Integral given ts := by
  induction ts generalizing s with
  | nil =>
      obtain rfl : s = s' := Except.ok.inj sum
      simp [Integral]
  | cons t ts ih =>
      obtain ⟨head, tail⟩ := List.forall_mem_cons.mp h
      have split : Integral given (t :: ts) ↔ (∀ w, given t.var = some w →
          t.coefficient.isIntegral = true ∧ w.isIntegral = true) ∧ Integral given ts :=
        List.forall_mem_cons
      rw [split]
      cases hg : given t.var with
      | none =>
          rw [hg] at head
          rw [accumulate_cons_none head] at sum
          cases ignore with
          | false => cases sum
          | true => rw [ih tail sum]; simp
      | some w =>
          rw [hg] at head
          rw [accumulate_cons_some head] at sum
          obtain ⟨next, added, sum⟩ := bind_eq_ok.mp sum
          obtain ⟨x, y, -, -, rfl⟩ := Subtotal.add_eq_ok.mp added
          rw [ih tail sum]
          simp [Value.operand, and_assoc]

end

/-! ## Faults -/

section

variable {value? : Value → Except Fault (Option (Operand Float))} {given : Value → Option Value}
  {ts : List Term}

theorem ofValue_ne_unassigned (w v : Value) :
    (Numeric.ofValue w : Except Fault Float) ≠ .error (.unassigned v) := by
  have whole (n : Int) : BreaksBy (· ≠ .unassigned v) (Numeric.ofInt n : Except Fault Float) := by
    simp only [Numeric.ofInt]
    split <;> simp
  have other : BreaksBy (· ≠ .unassigned v) (Numeric.ofValue w : Except Fault Float) := by
    unfold Numeric.ofValue
    split <;> (try split) <;> simp [whole]
  exact fun h => other _ h rfl

theorem add_ne_unassigned (s : Subtotal Float) (c w v : Value) :
    s.add c.operand w.operand ≠ .error (.unassigned v) := by
  have read (u : Value) : BreaksBy (· ≠ .unassigned v) (Numeric.ofValue u : Except Fault Float) :=
    fun f hf => fun same => ofValue_ne_unassigned u v (same ▸ hf)
  have other : BreaksBy (· ≠ .unassigned v) (s.add c.operand w.operand) :=
    (read c).bind fun _ => (read w).bind fun _ => breaksBy_pure _
  exact fun h => other _ h rfl

theorem exists_add_iff (s : Subtotal Float) (c w : Value) :
    (∃ s', s.add c.operand w.operand = .ok s') ↔ c.IsNumeral ∧ w.IsNumeral := by
  simp only [Subtotal.add_eq_ok]
  constructor
  · rintro ⟨_, x, y, hx, hy, -⟩
    exact ⟨⟨x, hx⟩, ⟨y, hy⟩⟩
  · rintro ⟨⟨x, hx⟩, ⟨y, hy⟩⟩
    exact ⟨_, x, y, hx, hy, rfl⟩

/-- The terms in front of the first variable without a value start with those whose numbers can be
read. -/
theorem firstMissing_cons {t : Term} {v : Value} : FirstMissing given (t :: ts) v ↔
    (t.var = v ∧ given t.var = none) ∨
      ((∃ w, given t.var = some w ∧ t.coefficient.IsNumeral ∧ w.IsNumeral) ∧
        FirstMissing given ts v) := by
  constructor
  · rintro ⟨before, u, after, split, same, missing, readable⟩
    cases before with
    | nil =>
        obtain ⟨rfl, rfl⟩ := List.cons.inj split
        exact .inl ⟨same, missing⟩
    | cons u' before =>
        obtain ⟨rfl, rfl⟩ := List.cons.inj split
        obtain ⟨head, tail⟩ := List.forall_mem_cons.mp readable
        exact .inr ⟨head, before, u, after, rfl, same, missing, tail⟩
  · rintro (⟨same, missing⟩ | ⟨head, before, u, after, rfl, same, missing, readable⟩)
    · exact ⟨[], t, ts, rfl, same, missing, by simp⟩
    · exact ⟨t :: before, u, after, rfl, same, missing, List.forall_mem_cons.mpr ⟨head, readable⟩⟩

/-- A sum is broken off for want of a value exactly at the first variable that has none, when the
numbers before it can be read. -/
theorem accumulate_eq_unassigned_iff (h : Answers value? given ts) (s : Subtotal Float)
    {v : Value} :
    accumulate value? false s ts = .error (.unassigned v) ↔ FirstMissing given ts v := by
  induction ts generalizing s with
  | nil => simp [accumulate, FirstMissing]
  | cons t ts ih =>
      obtain ⟨head, tail⟩ := List.forall_mem_cons.mp h
      rw [firstMissing_cons]
      cases hg : given t.var with
      | none =>
          rw [hg] at head
          rw [accumulate_cons_none head]
          simp
      | some w =>
          rw [hg] at head
          rw [accumulate_cons_some head]
          have readable := exists_add_iff s t.coefficient w
          cases added : s.add t.coefficient.operand w.operand with
          | error f =>
              rw [added] at readable
              have other : f ≠ .unassigned v := by
                rintro rfl
                exact add_ne_unassigned s _ _ _ added
              simp_all [bind, Except.bind]
          | ok next =>
              rw [added] at readable
              change accumulate value? false next ts = _ ↔ _
              rw [ih tail next]
              simp_all

theorem total_ne_unassigned (s : Subtotal Float) (v : Value) :
    s.total ≠ .error (.unassigned v) := by
  have other : BreaksBy (· ≠ .unassigned v) s.total := by
    unfold Subtotal.total Numeric.toIntBy
    split <;> (try split) <;> simp
  exact fun h => other _ h rfl

end

/-! ## Values of expressions -/

section

variable {value? : Value → Except Fault (Option (Operand Float))} {given : Value → Option Value}
  {l : Linear}

theorem evaluate_eq_unassigned_iff (h : Answers value? given l.terms) {v : Value} :
    l.evaluate value? false = .error (.unassigned v) ↔ FirstMissing given l.terms v := by
  rw [← accumulate_eq_unassigned_iff h .start, evaluate]
  cases accumulate value? false .start l.terms with
  | error f => simp [bind, Except.bind]
  | ok s => simp [bind, Except.bind, total_ne_unassigned]

theorem evaluate_assigned (h : Answers value? given l.terms) :
    l.evaluate value? true = (l.assigned given).evaluate value? false := by
  rw [evaluate, evaluate, accumulate_assigned h]
  rfl

theorem evaluate_passing (h : ∀ v, l.evaluate value? false ≠ .error (.unassigned v)) :
    l.evaluate value? true = l.evaluate value? false := by
  rw [evaluate, evaluate, accumulate_passing]
  intro v missing
  exact h v (by rw [evaluate, missing]; rfl)

theorem assigned_of_forall (all : ∀ v ∈ l.vars, given v ≠ none) : l.assigned given = l := by
  have kept : l.terms.filter (fun t => (given t.var).isSome) = l.terms :=
    List.filter_eq_self.mpr fun t ht =>
      Option.isSome_iff_ne_none.mpr (all t.var (List.mem_map_of_mem ht))
  rw [assigned, kept]

theorem whole_evaluate_iff (h : Answers value? given l.terms) {ignore : Bool} {n : Number Float}
    (value : l.evaluate value? ignore = .ok n) :
    (∃ k, n = .whole k) ↔ Integral given l.terms := by
  obtain ⟨s, sum, total⟩ := bind_eq_ok.mp value
  have integral := integral_accumulate h sum
  rw [show (Subtotal.start : Subtotal Float).integral = true from rfl] at integral
  rw [← and_iff_right (b := Integral given l.terms) rfl, ← integral]
  unfold Subtotal.total at total
  split at total
  · rename_i whole
    cases hk : Numeric.toIntBy Subtotal.truncate s.sum with
    | error f => rw [hk] at total; cases total
    | ok k =>
        rw [hk] at total
        obtain rfl : Number.whole k = n := Except.ok.inj total
        simp [whole]
  · rename_i real
    obtain rfl : Number.real s.sum = n := Except.ok.inj total
    simp [real]

end

end Linear

/-! ## Expressions under dictionaries -/

namespace Store

variable {s : Store} {i d : Nat}

theorem assigned?_dict {K : Type} [Numeric K] {v : Value} (h : v.checkKey = .ok ()) :
    (s.assigned? (.object ⟨.dict, d⟩) v : Except Fault (Option (Operand K))) =
      .ok (((s.dict d).given? v).map Value.operand) := by
  have item : s.itemAt (.object ⟨.dict, d⟩) v = (s.dict d).require v := rfl
  have found : (s.dict d).lookup v = .ok ((s.dict d).get? v) := Table.lookup_eq_ok.mpr ⟨h, rfl⟩
  unfold assigned? Table.given?
  rw [item, Table.require, found]
  cases (s.dict d).get? v with
  | none => rfl
  | some w => rfl

/-- A call of `evaluate` gives the value of the stored expression. Whether variables are to be
passed over is asked late, but that does not show. -/
theorem evaluate_eq (own : s.extra? (.object ⟨.linear, i⟩) "evaluate" = none) (assignment : Value)
    {passing : Value} {b : Bool} (truth : s.isTrue passing = .ok b) :
    s.evaluate (.object ⟨.linear, i⟩) assignment passing =
      ((s.linear i).evaluate (s.assigned? assignment) b).map (·.toValue .real) := by
  have free : s.refusal? (.object ⟨.linear, i⟩) "evaluate" = none := by rw [refusal?, own]
  unfold evaluate
  rw [free]
  dsimp only
  by_cases missing : ∃ v, (s.linear i).evaluate (s.assigned? (K := Float) assignment) false =
      .error (.unassigned v)
  · obtain ⟨v, missing⟩ := missing
    rw [missing]
    cases b with
    | true =>
        simp only [truth, bind, Except.bind]
        cases (s.linear i).evaluate (s.assigned? (K := Float) assignment) true <;> rfl
    | false =>
        simp only [truth, bind, Except.bind]
        rw [missing]
        rfl
  · have same : (s.linear i).evaluate (s.assigned? (K := Float) assignment) b =
        (s.linear i).evaluate (s.assigned? assignment) false := by
      cases b with
      | true => exact Linear.evaluate_passing fun v h => missing ⟨v, h⟩
      | false => rfl
    rw [same]
    split
    · rename_i v h
      exact absurd ⟨v, h⟩ missing
    · rfl

/-- `Linear.evaluate` under a dictionary that may lack some of the variables: these are passed over,
which leaves their terms out, or the first of them breaks it off (`Linear.FirstMissing`). What comes
of it is whole exactly if the sum is `Linear.Integral`. -/
theorem evaluate_missing (own : s.extra? (.object ⟨.linear, i⟩) "evaluate" = none)
    (hashable : ∀ v ∈ (s.linear i).vars, v.checkKey = .ok ()) :
    let l := s.linear i
    let given := (s.dict d).given?
    let value (l : Linear) (ignore : Bool) : Except Fault (Number Float) :=
      l.evaluate (s.assigned? (.object ⟨.dict, d⟩)) ignore
    (∀ passing b, s.isTrue passing = .ok b →
      s.evaluate (.object ⟨.linear, i⟩) (.object ⟨.dict, d⟩) passing =
        (value l b).map (·.toValue .real)) ∧
    value l true = value (l.assigned given) false ∧
    ((∀ v ∈ l.vars, given v ≠ none) → value l true = value l false) ∧
    (∀ v, value l false = .error (.unassigned v) ↔ Linear.FirstMissing given l.terms v) ∧
    ∀ ignore n, value l ignore = .ok n →
      ((∃ k, n = .whole k) ↔ Linear.Integral given l.terms) := by
  intro l given value
  have answers : Linear.Answers (K := Float) (s.assigned? (.object ⟨.dict, d⟩)) given l.terms :=
    fun t ht => assigned?_dict (hashable t.var (List.mem_map_of_mem ht))
  have left : value l true = value (l.assigned given) false := Linear.evaluate_assigned answers
  refine ⟨fun passing b truth => evaluate_eq own _ truth, left, fun all => ?_,
    fun v => Linear.evaluate_eq_unassigned_iff answers,
    fun ignore n h => Linear.whole_evaluate_iff answers h⟩
  rw [left, Linear.assigned_of_forall all]

/-- An expression in three variables, and a dictionary that has a value for the first, an absent one
for the second and none for the third. -/
private def partlyGiven : Store :=
  { empty with
    linears := [⟨[⟨.text "x", .bool true⟩, ⟨.text "y", .int 3⟩, ⟨.text "z", .text "five"⟩]⟩]
    dicts := [⟨[(.text "x", .int 4), (.text "y", .none)]⟩] }

theorem evaluate_missing_partlyGiven :
    partlyGiven.evaluate (.object ⟨.linear, 0⟩) (.object ⟨.dict, 0⟩) (.bool true) =
      .ok (.int 4) ∧
    partlyGiven.evaluate (.object ⟨.linear, 0⟩) (.object ⟨.dict, 0⟩) (.bool false) =
      .error (.unassigned (.text "y")) := by
  have hashable : ∀ v ∈ [Value.text "x", .text "y", .text "z"], v.checkKey = .ok () := by
    simp only [List.forall_mem_cons, List.not_mem_nil, IsEmpty.forall_iff, implies_true, and_true]
    exact ⟨rfl, rfl, rfl⟩
  obtain ⟨called, left, -, missing, -⟩ := evaluate_missing (s := partlyGiven) (i := 0) (d := 0)
    rfl hashable
  constructor
  · rw [called (.bool true) true rfl, left]
    with_unfolding_all rfl
  · rw [called (.bool false) false rfl, (missing _).mpr]
    · rfl
    · refine ⟨[⟨.text "x", .bool true⟩], _, _, rfl, rfl, rfl, ?_⟩
      simp only [List.mem_singleton, forall_eq]
      exact ⟨.int 4, rfl, ⟨_, rfl⟩, ⟨_, rfl⟩⟩

end Store

end Milp
