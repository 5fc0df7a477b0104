import Milp.Proofs.Encoding.Matrix
import Milp.Linear.Evaluate

/-!
# Exact values of expressions

In exact arithmetic an expression evaluates to the sum of its terms. It is reported as a whole
number only if it is one.
-/

namespace Milp

/-- An operand is a rational number, and a whole one if it is of an integral kind. -/
structure Operand.Stands (o : Operand Extended) (a : Rat) : Prop where
  number : o.number = .ok (.finite a)
  integral : o.integral = true → ∃ n : Int, a = n

def Number.Denotes (n : Number Extended) (a : Rat) : Prop :=
  n.toNumeric = .ok (.finite a)

theorem Value.stands_operand {v : Value} (h : v.ReadsFinite) :
    (v.operand : Operand Extended).Stands v.toRat := by
  refine ⟨h, fun integral => ?_⟩
  have whole : ∃ n : Int, (Numeric.ofValue v : Except Fault Extended) = .ok (.finite n) := by
    change v.isIntegral = true at integral
    cases v with
    | bool b => cases b <;> exact ⟨_, rfl⟩
    | int n => exact ⟨n, rfl⟩
    | symbol s =>
        cases s with
        | parameter p => exact ⟨p.code, rfl⟩
        | _ => cases integral
    | scalar s =>
        cases s with
        | integer kind n => exact ⟨n, rfl⟩
        | _ => cases integral
    | _ => cases integral
  obtain ⟨n, hn⟩ := whole
  exact ⟨n, Extended.finite.inj (Except.ok.inj (h.symm.trans hn))⟩

namespace Subtotal

/-- A subtotal is a rational number, and a whole one if it is taken for one. -/
structure Stands (s : Subtotal Extended) (a : Rat) : Prop where
  sum : s.sum = .finite a
  integral : s.integral = true → ∃ n : Int, a = n

theorem stands_start : (start : Subtotal Extended).Stands 0 :=
  ⟨Extended.numericZero, fun _ => ⟨0, by simp⟩⟩

theorem Stands.add {s : Subtotal Extended} {c v : Operand Extended} {a b x : Rat}
    (hs : s.Stands a) (hc : c.Stands b) (hv : v.Stands x) :
    ∃ s', s.add c v = .ok s' ∧ s'.Stands (a + b * x) := by
  refine ⟨_, bind_eq_ok.mpr ⟨_, hc.number, bind_eq_ok.mpr ⟨_, hv.number, rfl⟩⟩, ?_, ?_⟩
  · dsimp only
    rw [hs.sum, Extended.finite_mul, Extended.finite_add]
  · intro integral
    obtain ⟨ha, integral⟩ := Bool.and_eq_true_iff.mp integral
    obtain ⟨hb, hx⟩ := Bool.and_eq_true_iff.mp integral
    obtain ⟨n, rfl⟩ := hs.integral ha
    obtain ⟨m, rfl⟩ := hc.integral hb
    obtain ⟨k, rfl⟩ := hv.integral hx
    exact ⟨n + m * k, by push_cast; rfl⟩

theorem Stands.total {s : Subtotal Extended} {a : Rat} (h : s.Stands a) :
    ∃ n : Number Extended, s.total = .ok n ∧ n.Denotes a := by
  unfold Subtotal.total
  split
  · rename_i integral
    obtain ⟨n, rfl⟩ := h.integral integral
    refine ⟨.whole n, ?_, rfl⟩
    rw [h.sum]
    simp [Numeric.toIntBy, truncate, Except.map]
  · exact ⟨_, rfl, congrArg Except.ok h.sum⟩

end Subtotal

namespace Linear

variable {value? : Value → Except Fault (Option (Operand Extended))} {x : Key → Rat}

theorem accumulate_eq_ok (ignore : Bool) {ts : List Term}
    (coefficients : ∀ t ∈ ts, t.coefficient.ReadsFinite)
    (values : ∀ t ∈ ts, ∃ o, value? t.var = .ok (some o) ∧ o.Stands (x t.var.key))
    {s : Subtotal Extended} {a : Rat} (hs : s.Stands a) :
    ∃ s', accumulate value? ignore s ts = .ok s' ∧
      s'.Stands (a + (ts.map fun t => t.coefficient.toRat * x t.var.key).sum) := by
  induction ts generalizing s a with
  | nil => exact ⟨s, rfl, by simpa using hs⟩
  | cons t ts ih =>
      obtain ⟨coefficient, coefficients⟩ := List.forall_mem_cons.mp coefficients
      obtain ⟨⟨o, ho, stands⟩, values⟩ := List.forall_mem_cons.mp values
      obtain ⟨next, hnext, standsNext⟩ := hs.add (Value.stands_operand coefficient) stands
      obtain ⟨s', hs', stands'⟩ := ih coefficients values standsNext
      refine ⟨s', ?_, by simpa [add_assoc] using stands'⟩
      simp only [accumulate, ho, hnext, bind, Except.bind, hs']

/-- `Linear.evaluate` gives the sum of the terms where every variable has a value. -/
theorem evaluate_denotes {l : Linear} {ignore : Bool}
    (coefficients : ∀ t ∈ l.terms, t.coefficient.ReadsFinite)
    (values : ∀ t ∈ l.terms, ∃ o, value? t.var = .ok (some o) ∧ o.Stands (x t.var.key)) :
    ∃ n : Number Extended, l.evaluate value? ignore = .ok n ∧
      n.Denotes ((l : Expression).total x) := by
  obtain ⟨s, hs, stands⟩ := accumulate_eq_ok ignore coefficients values
    Subtotal.stands_start
  obtain ⟨n, hn, denotes⟩ := stands.total
  refine ⟨n, bind_eq_ok.mpr ⟨s, hs, hn⟩, ?_⟩
  rw [zero_add] at denotes
  exact denotes

end Linear

end Milp
