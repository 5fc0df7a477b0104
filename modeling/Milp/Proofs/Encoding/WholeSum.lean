import Milp.CutLoop
import Milp.Encoding.PseudoBoolean
import Milp.Proofs.Computation
import Milp.Proofs.Number.Double.Whole

/-!
# Whole sums in doubles

An expression with whole coefficients has two values at a point of zeros and ones: the one of its
whole sum, in whole numbers of any size, and the one that is added up in doubles. They are the same
where no coefficient and no part of the sum falls between two doubles.
-/

namespace Milp

open Binary64

def IsBinary (x : Nat → Int) : Prop :=
  ∀ j, x j = 0 ∨ x j = 1

namespace WholeSum

/-- Doubles hold every coefficient of a sum and, at every point of zeros and ones, whatever the sum
amounts to on the way from left to right. -/
structure Representable (s : WholeSum) : Prop where
  coefficients : ∀ t ∈ s.terms, IsDouble t.2
  sums : ∀ x, IsBinary x → ∀ ts, ts <+: s.terms → IsDouble (eval ⟨ts⟩ x)

@[simp] theorem eval_nil (x : Nat → Int) : eval ⟨[]⟩ x = 0 := rfl

@[simp] theorem eval_cons (t : Nat × Int) (ts : List (Nat × Int)) (x : Nat → Int) :
    eval ⟨t :: ts⟩ x = t.2 * x t.1 + eval ⟨ts⟩ x := rfl

theorem natAbs_eval_le {x : Nat → Int} (h : IsBinary x) (ts : List (Nat × Int)) :
    (eval ⟨ts⟩ x).natAbs ≤ (ts.map fun t => t.2.natAbs).sum := by
  induction ts with
  | nil => simp
  | cons t ts ih =>
      rw [eval_cons, List.map_cons, List.sum_cons]
      have head : (t.2 * x t.1).natAbs ≤ t.2.natAbs := by
        rcases h t.1 with h | h <;> simp [h]
      exact (Int.natAbs_add_le _ _).trans (Nat.add_le_add head ih)

/-- A sum whose coefficients are at most `2^53` together is `Representable`. -/
theorem representable_of_small {s : WholeSum}
    (small : (s.terms.map fun t => t.2.natAbs).sum ≤ 2 ^ 53) : s.Representable := by
  refine ⟨fun t ht => isDouble_intCast ?_, fun x hx ts hts => isDouble_intCast ?_⟩
  · exact (List.single_le_sum (by simp) _ (List.mem_map_of_mem ht)).trans small
  · refine (natAbs_eval_le hx ts).trans (le_trans ?_ small)
    exact (hts.sublist.map _).sum_le_sum (by simp)

/-- One more is too much: `2^53 + 1` falls between two doubles. -/
theorem not_representable_two_pow : ¬ (⟨[(0, 2 ^ 53), (1, 1)]⟩ : WholeSum).Representable := by
  intro h
  have odd := h.sums (fun _ => 1) (fun _ => .inr rfl) _ (List.prefix_refl _)
  have even := IsDouble.even odd (by norm_num)
  revert even
  decide

end WholeSum

/-! ## Encoded terms -/

structure Term.Encoded (K : Type) [Numeric K] (index : Index) (engine : Value) (t : Term)
    (e : Nat × Int) : Prop where
  column : ∃ j, index.require t.var = .ok j ∧ j.toNat = e.1
  coefficient : t.coefficient.toWhole K engine (.named (.text "coefficient")) = .ok e.2

theorem WholeSum.ofExpression_linear {K : Type} [Numeric K] {l : Linear} {index : Index}
    {engine : Value} {s : WholeSum} :
    ofExpression K (.linear l) index engine = .ok s ↔
      List.Forall₂ (Term.Encoded K index engine) l.terms s.terms := by
  have walk (ts : List Term) (es : List (Nat × Int)) :
      (∃ columns coefficients, List.Forall₂ (fun t j => index.require t.var = .ok j) ts columns ∧
        List.Forall₂ (fun t n => t.coefficient.toWhole K engine (.named (.text "coefficient")) =
          .ok n) ts coefficients ∧ (columns.map Int.toNat).zip coefficients = es) ↔
        List.Forall₂ (Term.Encoded K index engine) ts es := by
    induction ts generalizing es with
    | nil =>
        constructor
        · rintro ⟨_, _, ⟨⟩, ⟨⟩, rfl⟩
          exact .nil
        · rintro ⟨⟩
          exact ⟨[], [], .nil, .nil, rfl⟩
    | cons t ts ih =>
        constructor
        · rintro ⟨_, _, _ | ⟨hj, hjs⟩, _ | ⟨hn, hns⟩, rfl⟩
          exact .cons ⟨⟨_, hj, rfl⟩, hn⟩ ((ih _).mp ⟨_, _, hjs, hns, rfl⟩)
        · rintro (_ | ⟨⟨⟨j, hj, he⟩, hn⟩, h⟩)
          obtain ⟨columns, coefficients, hjs, hns, hes⟩ := (ih _).mpr h
          refine ⟨j :: columns, _ :: coefficients, .cons hj hjs, .cons hn hns, ?_⟩
          rw [List.map_cons, List.zip_cons_cons, he, hes]
  rw [← walk]
  simp only [ofExpression, Expression.wholeTerms, Expression.having_linear, Linear.vars,
    Linear.coefficients, bind_eq_ok, mapM_eq_ok, List.forall₂_map_left_iff]
  constructor
  · rintro ⟨_, ⟨_, ⟨⟩, columns, hj, coefficients, hn, ⟨⟩⟩, ⟨⟩⟩
    exact ⟨columns, coefficients, hj, hn, rfl⟩
  · rintro ⟨columns, coefficients, hj, hn, hs⟩
    refine ⟨(columns, coefficients), ⟨l, rfl, columns, hj, coefficients, hn, rfl⟩, ?_⟩
    exact congrArg (fun terms => Except.ok (WholeSum.mk terms)) hs

theorem Numeric.whole?_eq_some {K : Type} [Numeric K] {x : K} {n : Int} :
    whole? x = some n ↔ view x = .finite n := by
  unfold whole?
  cases view x with
  | finite q =>
      have whole : isWhole q = true ↔ (q.num : Rat) = q := by
        rw [← Rat.den_eq_one_iff, isWhole, beq_iff_eq]
      simp only [Extended.finite.injEq]
      split
      · rename_i hq
        rw [← whole.mp hq]
        simp
      · rename_i hq
        refine iff_of_false (by simp) ?_
        rintro rfl
        exact hq (whole.mpr rfl)
  | notANumber => simp
  | negInf => simp
  | posInf => simp

theorem Value.toWhole_eq_ok {K : Type} [Numeric K] {v engine : Value} {place : Place} {n : Int} :
    v.toWhole K engine place = .ok n ↔
      ∃ x : K, Numeric.ofValue v = .ok x ∧ Numeric.view x = .finite n := by
  rw [toWhole, bind_eq_ok]
  refine exists_congr fun x => and_congr_right fun _ => ?_
  rw [← Numeric.whole?_eq_some]
  cases Numeric.whole? x with
  | some m => simp [pure, Except.pure]
  | none => simp [throw, throwThe, MonadExceptOf.throw]

/-! ## Coefficients -/

/-- A number that is that of a double is read as it. -/
theorem Numeric.ofValue_float {v : Value} {q : Rat}
    (h : (Numeric.ofValue v : Except Fault Extended) = .ok (.finite q)) (hq : IsDouble q) :
    ∃ x : Float, Numeric.ofValue v = .ok x ∧ Numeric.view x = .finite q := by
  have whole {n : Int} (h : (.finite n : Extended) = .finite q) :
      ∃ x : Float, Numeric.ofInt n = .ok x ∧ Numeric.view x = .finite q := by
    obtain rfl := Extended.finite.inj h
    obtain ⟨x, hx, value⟩ := ofInt?_exact hq
    exact ⟨x, by simp [Numeric.ofInt, hx], value⟩
  cases v with
  | bool b => exact whole (Except.ok.inj h)
  | int n => exact whole (Except.ok.inj h)
  | real x => exact ⟨x, rfl, Except.ok.inj h⟩
  | text s =>
      simp only [Numeric.ofValue] at h ⊢
      cases hs : Decimal.read? s with
      | some x =>
          rw [hs] at h
          exact ⟨x, rfl, Except.ok.inj h⟩
      | none => simp [hs] at h
  | scalar s =>
      cases s with
      | integer kind n => exact whole (Except.ok.inj h)
      | single x => exact ⟨x, rfl, Except.ok.inj h⟩
      | double x => exact ⟨x, rfl, Except.ok.inj h⟩
      | flag b => exact whole (Except.ok.inj h)
  | symbol s =>
      cases s with
      | parameter p => exact whole (Except.ok.inj h)
      | _ => cases h
  | undefined form id => cases form <;> cases h
  | _ => cases h

/-- What is read as a whole number after it may have been rounded to a double is one. -/
theorem Numeric.ofValue_extended {v : Value} {x : Float} {n : Int}
    (h : Numeric.ofValue v = .ok x) (hx : Numeric.view x = .finite n) :
    ∃ n' : Int, (Numeric.ofValue v : Except Fault Extended) = .ok (.finite n') := by
  have exact {y : Float} (h : (.ok y : Except Fault Float) = .ok x) :
      Extended.ofFloat y = .finite n := by
    rwa [Except.ok.inj h]
  cases v with
  | bool b => exact ⟨_, rfl⟩
  | int n => exact ⟨_, rfl⟩
  | real y => exact ⟨n, congrArg Except.ok (exact h)⟩
  | text s =>
      simp only [Numeric.ofValue] at h ⊢
      cases hs : Decimal.read? s with
      | some y =>
          rw [hs] at h
          exact ⟨n, congrArg Except.ok (exact h)⟩
      | none => simp [hs] at h
  | scalar s =>
      cases s with
      | integer kind n => exact ⟨_, rfl⟩
      | single y => exact ⟨n, congrArg Except.ok (exact h)⟩
      | double y => exact ⟨n, congrArg Except.ok (exact h)⟩
      | flag b => exact ⟨_, rfl⟩
  | symbol s =>
      cases s with
      | parameter p => exact ⟨_, rfl⟩
      | _ => cases h
  | undefined form id =>
      have undefined : Extended.ofFloat notANumber = .notANumber := by decide +kernel
      have refused {y : Float} (hy : y = notANumber) (h : (.ok y : Except Fault Float) = .ok x) :
          False := by
        rw [← Except.ok.inj h, hy] at hx
        simp [Numeric.view, undefined] at hx
      cases form <;> exact (refused rfl h).elim
  | _ => cases h

/-! ## Values -/

/-- Where columns are zeros and ones, doubles take in the numbers of their variables. -/
def ReadsPoint (index : Index) (x : Nat → Int)
    (value? : Value → Except Fault (Option (Operand Float))) : Prop :=
  ∀ v j, index.require v = .ok j → value? v = .ok (some (Number.whole (x j.toNat)).operand)

section

variable {index : Index} {engine : Value} {x : Nat → Int}
  {value? : Value → Except Fault (Option (Operand Float))}

theorem isDouble_mul_binary {q : Rat} (hq : IsDouble q) {b : Int} (hb : b = 0 ∨ b = 1) :
    IsDouble (q * b) := by
  rcases hb with rfl | rfl
  · simpa using isDouble_zero
  · simpa using hq

theorem isDouble_binary {b : Int} (hb : b = 0 ∨ b = 1) : IsDouble b := by
  rcases hb with rfl | rfl <;> exact isDouble_intCast (by decide)

theorem Subtotal.add_exact {s : Subtotal Float} {t : Term} {e : Nat × Int} {total b : Int}
    (encoded : t.Encoded Float index engine e) (hs : Extended.ofFloat s.sum = .finite total)
    (hb : b = 0 ∨ b = 1) (next : IsDouble ((total + e.2 * b : Int) : Rat)) :
    ∃ s', s.add t.coefficient.operand (Number.whole b).operand = .ok s' ∧
      Extended.ofFloat s'.sum = .finite ((total + e.2 * b : Int) : Rat) := by
  obtain ⟨c, hc, value⟩ := Value.toWhole_eq_ok.mp encoded.coefficient
  obtain ⟨y, hy, bit⟩ := ofInt?_exact (isDouble_binary hb)
  have product := ofFloat_mul value bit (isDouble_mul_binary ⟨c, value⟩ hb)
  push_cast at next ⊢
  refine ⟨⟨s.sum + c * y, s.integral && (t.coefficient.isIntegral && true)⟩, ?_,
    ofFloat_add hs product next⟩
  simp only [add, Value.operand, Number.operand, Numeric.ofInt, hc, hy]
  rfl

/-- `Linear.accumulate` adds terms up without rounding where all sums on the way are those of
doubles. -/
theorem Linear.accumulate_exact {ts : List Term} {es : List (Nat × Int)}
    (encoded : List.Forall₂ (Term.Encoded Float index engine) ts es)
    (reads : ReadsPoint index x value?) (binary : IsBinary x) {s : Subtotal Float} {total : Int}
    (hs : Extended.ofFloat s.sum = .finite total)
    (sums : ∀ part, part <+: es → IsDouble ((total + WholeSum.eval ⟨part⟩ x : Int) : Rat)) :
    ∃ s', accumulate value? false s ts = .ok s' ∧
      Extended.ofFloat s'.sum = .finite ((total + WholeSum.eval ⟨es⟩ x : Int) : Rat) := by
  induction encoded generalizing s total with
  | nil => exact ⟨s, rfl, by simpa using hs⟩
  | @cons t e ts es ht _ ih =>
      obtain ⟨j, hj, column⟩ := ht.column
      have next : IsDouble ((total + e.2 * x e.1 : Int) : Rat) := by
        simpa using sums [e] (List.cons_prefix_cons.mpr ⟨rfl, List.nil_prefix⟩)
      obtain ⟨s₁, hadd, hs₁⟩ := Subtotal.add_exact ht hs (binary e.1) next
      obtain ⟨s₂, hacc, hs₂⟩ := ih hs₁ fun part hpart => by
        have := sums (e :: part) (List.cons_prefix_cons.mpr ⟨rfl, hpart⟩)
        rwa [WholeSum.eval_cons, ← Int.add_assoc] at this
      refine ⟨s₂, ?_, by rwa [WholeSum.eval_cons, ← Int.add_assoc]⟩
      rw [accumulate, reads t.var j hj, column]
      simp only [bind, Except.bind, hadd]
      exact hacc

/-- `CutLoop.wholeValue` is the value in whole numbers where no sum on the way is rounded. -/
theorem CutLoop.wholeValue_exact {l : Linear} {s : WholeSum}
    (encoded : WholeSum.ofExpression Float (.linear l) index engine = .ok s)
    (reads : ReadsPoint index x value?) (binary : IsBinary x)
    (sums : ∀ part, part <+: s.terms → IsDouble (WholeSum.eval ⟨part⟩ x)) :
    wholeValue Float (.linear l) value? = .ok (s.eval x) := by
  have start : Extended.ofFloat (Subtotal.start : Subtotal Float).sum =
      .finite ((0 : Int) : Rat) := by
    decide +kernel
  obtain ⟨s', hacc, hs'⟩ := Linear.accumulate_exact (WholeSum.ofExpression_linear.mp encoded)
    reads binary start (by simpa using sums)
  rw [Int.zero_add] at hs'
  have total : s'.total = .ok (.whole (s.eval x)) ∨ s'.total = .ok (.real s'.sum) := by
    unfold Subtotal.total
    split
    · left
      simp [Numeric.toIntBy, Numeric.view, hs', truncate_intCast, Except.map]
    · exact .inr rfl
  simp only [wholeValue, Expression.having_linear, Linear.evaluate, bind, Except.bind, hacc]
  rcases total with h | h
  · rw [h]
    rfl
  · simp [h, Numeric.round, Numeric.toIntBy, Numeric.view, hs', roundEven_intCast]

/-- A whole number found from a double in a way that keeps to numbers of doubles is one. -/
theorem isDouble_toIntBy {f : Rat → Int} (hf : ∀ q, IsDouble q → IsDouble (f q)) {y : Float}
    {n : Int} (h : Numeric.toIntBy f y = .ok n) : IsDouble n := by
  unfold Numeric.toIntBy at h
  cases hy : Numeric.view y with
  | finite q =>
      rw [hy] at h
      obtain rfl := Except.ok.inj h
      exact hf q ⟨y, hy⟩
  | notANumber => simp [hy] at h
  | negInf => simp [hy] at h
  | posInf => simp [hy] at h

/-- `CutLoop.wholeValue` is always a number that a double holds. -/
theorem CutLoop.isDouble_wholeValue {e : Expression} {v : Int}
    (h : wholeValue Float e value? = .ok v) : IsDouble v := by
  obtain ⟨l, -, h⟩ := bind_eq_ok.mp h
  obtain ⟨total, ht, h⟩ := bind_eq_ok.mp h
  obtain ⟨s, -, ht⟩ := bind_eq_ok.mp ht
  unfold Subtotal.total at ht
  split at ht
  · obtain ⟨n, hn, rfl⟩ : ∃ n, Numeric.toIntBy Subtotal.truncate s.sum = .ok n ∧
        Number.whole n = total := by
      cases hn : Numeric.toIntBy Subtotal.truncate s.sum with
      | ok n => exact ⟨n, rfl, by simpa [hn, Except.map] using ht⟩
      | error f => simp [hn, Except.map] at ht
    obtain rfl := Except.ok.inj h
    exact isDouble_toIntBy (fun _ => IsDouble.truncate) hn
  · obtain rfl := Except.ok.inj ht
    exact isDouble_toIntBy (fun _ => IsDouble.roundEven) h

end

/-! ## Own and encoded coefficients -/

section

variable {l : Linear} {index : Index} {engine : Value} {native own : WholeSum}

/-- An expression that is encoded with coefficients read as doubles can be encoded with its own. -/
theorem WholeSum.exists_own (h : ofExpression Float (.linear l) index engine = .ok native) :
    ∃ own, ofExpression Extended (.linear l) index engine = .ok own := by
  have each : ∀ t ∈ l.terms, ∃ e, t.Encoded Extended index engine e := by
    intro t ht
    obtain ⟨i, hi⟩ := List.getElem?_of_mem ht
    obtain ⟨e, -, encoded⟩ := exists_of_forall₂ (ofExpression_linear.mp h) hi
    obtain ⟨x, hx, value⟩ := Value.toWhole_eq_ok.mp encoded.coefficient
    obtain ⟨n, hn⟩ := Numeric.ofValue_extended hx value
    exact ⟨(e.1, n), encoded.column, Value.toWhole_eq_ok.mpr ⟨_, hn, rfl⟩⟩
  obtain ⟨es, hes⟩ := exists_forall₂ each
  exact ⟨⟨es⟩, ofExpression_linear.mpr hes⟩

theorem Term.Encoded.float {t : Term} {e : Nat × Int} (h : t.Encoded Extended index engine e)
    (held : IsDouble e.2) : t.Encoded Float index engine e := by
  obtain ⟨x, hx, value⟩ := Value.toWhole_eq_ok.mp h.coefficient
  obtain rfl : x = .finite e.2 := value
  exact ⟨h.column, Value.toWhole_eq_ok.mpr (Numeric.ofValue_float hx held)⟩

/-- `WholeSum.ofExpression` encodes coefficients that doubles hold as they are. -/
theorem WholeSum.ofExpression_float (h : ofExpression Extended (.linear l) index engine = .ok own)
    (held : ∀ e ∈ own.terms, IsDouble e.2) :
    ofExpression Float (.linear l) index engine = .ok own := by
  rw [ofExpression_linear] at h ⊢
  generalize l.terms = ts, own.terms = es at h held ⊢
  induction h with
  | nil => exact .nil
  | cons ht _ ih =>
      obtain ⟨head, tail⟩ := List.forall_mem_cons.mp held
      exact .cons (ht.float head) (ih tail)

/-- Coefficients that are read as doubles are held by doubles. -/
theorem WholeSum.isDouble_coefficient
    (h : ofExpression Float (.linear l) index engine = .ok native) :
    ∀ e ∈ native.terms, IsDouble e.2 := by
  rw [ofExpression_linear] at h
  generalize l.terms = ts, native.terms = es at h ⊢
  induction h with
  | nil => simp
  | cons ht _ ih =>
      obtain ⟨x, -, value⟩ := Value.toWhole_eq_ok.mp ht.coefficient
      exact List.forall_mem_cons.mpr ⟨⟨x, value⟩, ih⟩

def restrict (columns : List Nat) (x : Nat → Int) (j : Nat) : Int :=
  if j ∈ columns then x j else 0

theorem isBinary_restrict (columns : List Nat) {x : Nat → Int} (h : IsBinary x) :
    IsBinary (restrict columns x) := by
  intro j
  unfold restrict
  split
  · exact h j
  · exact .inl rfl

theorem WholeSum.eval_congr {es : List (Nat × Int)} {x y : Nat → Int}
    (h : ∀ e ∈ es, x e.1 = y e.1) : eval ⟨es⟩ x = eval ⟨es⟩ y := by
  induction es with
  | nil => rfl
  | cons e es ih =>
      obtain ⟨head, tail⟩ := List.forall_mem_cons.mp h
      rw [eval_cons, eval_cons, head, ih tail]

theorem WholeSum.eval_append (es es' : List (Nat × Int)) (x : Nat → Int) :
    eval ⟨es ++ es'⟩ x = eval ⟨es⟩ x + eval ⟨es'⟩ x := by
  induction es with
  | nil => simp
  | cons e es ih => simp [ih, Int.add_assoc]

theorem WholeSum.eval_zero {es : List (Nat × Int)} {x : Nat → Int} (h : ∀ e ∈ es, x e.1 = 0) :
    eval ⟨es⟩ x = 0 := by
  induction es with
  | nil => rfl
  | cons e es ih =>
      obtain ⟨head, tail⟩ := List.forall_mem_cons.mp h
      rw [eval_cons, head, ih tail]
      simp

/-- Where every column occurs once, what a sum amounts to on the way is its value at another
point. -/
theorem WholeSum.eval_prefix {es es' : List (Nat × Int)} (once : ((es ++ es').map (·.1)).Nodup)
    (x : Nat → Int) : eval ⟨es ++ es'⟩ (restrict (es.map (·.1)) x) = eval ⟨es⟩ x := by
  rw [List.map_append] at once
  have early : eval ⟨es⟩ (restrict (es.map (·.1)) x) = eval ⟨es⟩ x := by
    refine eval_congr fun e he => ?_
    exact if_pos (List.mem_map_of_mem he)
  have late : eval ⟨es'⟩ (restrict (es.map (·.1)) x) = 0 := by
    refine eval_zero fun e he => ?_
    refine if_neg fun h => ?_
    exact (List.nodup_append.mp once).2.2 _ h _ (List.mem_map_of_mem he) rfl
  rw [eval_append, early, late, Int.add_zero]

end

end Milp
