import Milp.Encoding.Columns
import Milp.Proofs.Computation
import Milp.Solution

/-!
# Faults of the library's own

A fault may lie in what the library was given, or it may be about an engine: that it failed, that it
is not there, or that it raised something. Computations that ask no engine break off with faults of
the first sort only.
-/

namespace Milp

/-- The fault is not about an engine. -/
def Fault.Internal : Fault → Prop
  | .engineFailed _ _ => False
  | .unavailable _ => False
  | .raised _ _ => False
  | _ => True

theorem Fault.Internal.cls_ne_engine {f : Fault} (h : f.Internal) : f.cls ≠ .engine := by
  cases f with
  | engineFailed => exact h.elim
  | unavailable => exact h.elim
  | raised => exact h.elim
  | collection why => cases why <;> rintro ⟨⟩
  | misfit why => cases why <;> rintro ⟨⟩
  | conversion why => cases why <;> rintro ⟨⟩
  | machine why => cases why <;> rintro ⟨⟩
  | _ => rintro ⟨⟩

/-- The fault is that two values do not compare by their order. -/
def Fault.OfOrder : Fault → Prop
  | .notOrdered _ _ _ => True
  | .noLoop _ _ _ => True
  | .emptyTruth => True
  | .ambiguousTruth => True
  | .tooLarge => True
  | .tooLargeForMachine => True
  | .misfit (.operands _) => True
  | _ => False

theorem Fault.OfOrder.internal {f : Fault} (h : f.OfOrder) : f.Internal := by
  cases f <;> trivial

variable {α β γ : Type}

/-- A computation breaks off only with faults that have the property `P`. -/
def BreaksBy (P : Fault → Prop) (x : Except Fault α) : Prop :=
  ∀ f, x = .error f → P f

/-- A computation breaks off only with faults that are `Fault.Internal`. -/
abbrev Contained (x : Except Fault α) : Prop :=
  BreaksBy Fault.Internal x

/-! ## Combinations -/

section

variable {P : Fault → Prop}

theorem BreaksBy.imp {Q : Fault → Prop} {x : Except Fault α} (h : BreaksBy P x)
    (sub : ∀ f, P f → Q f) : BreaksBy Q x :=
  fun f hf => sub f (h f hf)

@[simp] theorem breaksBy_ok (a : α) : BreaksBy P (.ok a) := by
  rintro f ⟨⟩

@[simp] theorem breaksBy_pure (a : α) : BreaksBy P (pure a) :=
  breaksBy_ok a

@[simp] theorem breaksBy_error {f : Fault} : BreaksBy P (.error f : Except Fault α) ↔ P f :=
  ⟨fun h => h f rfl, fun h _ hf => Except.error.inj hf ▸ h⟩

@[simp] theorem breaksBy_throw {f : Fault} : BreaksBy P (throw f : Except Fault α) ↔ P f :=
  breaksBy_error

/-- What follows a computation matters only for the results that it can have. -/
@[simp] theorem breaksBy_bind {x : Except Fault α} {f : α → Except Fault β} :
    BreaksBy P (x >>= f) ↔ BreaksBy P x ∧ ∀ a, x = .ok a → BreaksBy P (f a) := by
  cases x with
  | error e => simp [bind, Except.bind, BreaksBy]
  | ok a => simp [bind, Except.bind]

theorem BreaksBy.bind {x : Except Fault α} {f : α → Except Fault β} (hx : BreaksBy P x)
    (hf : ∀ a, BreaksBy P (f a)) : BreaksBy P (x >>= f) :=
  breaksBy_bind.mpr ⟨hx, fun a _ => hf a⟩

@[simp] theorem breaksBy_map {x : Except Fault α} {g : α → β} :
    BreaksBy P (x.map g) ↔ BreaksBy P x := by
  cases x <;> simp [BreaksBy, Except.map]

@[simp] theorem breaksBy_functor_map {x : Except Fault α} {g : α → β} :
    BreaksBy P (g <$> x) ↔ BreaksBy P x :=
  breaksBy_map

@[simp] theorem breaksBy_ite {c : Prop} [Decidable c] {x y : Except Fault α} :
    BreaksBy P (if c then x else y) ↔ (c → BreaksBy P x) ∧ (¬c → BreaksBy P y) := by
  split <;> simp [*]

theorem breaksBy_mapM_of_mem {f : α → Except Fault β} {xs : List α}
    (h : ∀ x ∈ xs, BreaksBy P (f x)) : BreaksBy P (xs.mapM f) := by
  induction xs with
  | nil => exact breaksBy_pure _
  | cons x xs ih =>
      obtain ⟨head, tail⟩ := List.forall_mem_cons.mp h
      rw [List.mapM_cons]
      exact head.bind fun _ => (ih tail).bind fun _ => breaksBy_pure _

@[simp] theorem breaksBy_mapM {f : α → Except Fault β} {xs : List α}
    (h : ∀ x, BreaksBy P (f x)) : BreaksBy P (xs.mapM f) :=
  breaksBy_mapM_of_mem fun x _ => h x

@[simp] theorem breaksBy_forM {f : α → Except Fault Unit} {xs : List α}
    (h : ∀ x, BreaksBy P (f x)) : BreaksBy P (forM xs f) := by
  induction xs with
  | nil => exact breaksBy_pure _
  | cons x xs ih => exact (h x).bind fun _ => ih

@[simp] theorem breaksBy_foldlM {f : β → α → Except Fault β} {xs : List α} {b : β}
    (h : ∀ b x, BreaksBy P (f b x)) : BreaksBy P (xs.foldlM f b) := by
  induction xs generalizing b with
  | nil => exact breaksBy_pure _
  | cons x xs ih =>
      rw [List.foldlM_cons]
      exact (h b x).bind fun _ => ih

@[simp] theorem breaksBy_finish {s : Series α} {member : String} (h : s.ending = .complete) :
    BreaksBy P (s.finish member) := by
  simp [Series.finish, h]

theorem breaksBy_series_mapM {s : Series α} {member : String} {f : α → Except Fault β}
    (complete : s.ending = .complete) (h : ∀ x ∈ s.items, BreaksBy P (f x)) :
    BreaksBy P (s.mapM member f) := by
  refine (breaksBy_mapM_of_mem h).bind fun ys => ?_
  simp [complete]

end

/-! ## Lookup -/

@[simp] theorem contained_checkKey (v : Value) : Contained v.checkKey := by
  unfold Value.checkKey
  split <;> simp [Fault.Internal]

/-- What is told by a number can be looked up. -/
theorem checkKey_of_key_number {v : Value} {q : Rat} (h : v.key = .number q) :
    v.checkKey = .ok () := by
  cases v with
  | none | bool | int | real | text | scalar | undefined | symbol | type => rfl
  | tuple items => cases items <;> simp [Value.key, Value.keys] at h
  | term | array | sparse | config | object => simp [Value.key] at h

@[simp] theorem contained_lookup (t : Table α) (k : Value) : Contained (t.lookup k) := by
  simp [Table.lookup]

@[simp] theorem contained_require (t : Table α) (k : Value) : Contained (t.require k) := by
  refine (contained_lookup t k).bind fun o => ?_
  cases o <;> simp [Fault.Internal]

@[simp] theorem contained_collect (es : List (Value × α)) : Contained (Table.collect es) := by
  simp [Table.collect]

@[simp] theorem contained_values (index : Index) (xs : List α) {missing : Nat → Fault}
    (h : ∀ i, (missing i).Internal) : Contained (index.values xs missing) := by
  refine (breaksBy_mapM fun e => ?_).bind fun _ => breaksBy_pure _
  split <;> simp [h]

/-! ## Numbers -/

variable {K : Type} [Numeric K]

variable (K) in
/-- A whole number that is out of range is the only one that cannot be read, and that is a fault of
its own. -/
class Numeric.Contained : Prop where
  ofInt : ∀ n, Milp.Contained (Numeric.ofInt n : Except Fault K)

instance : Numeric.Contained Float where
  ofInt n := by
    simp only [Numeric.ofInt]
    split <;> simp [Fault.Internal]

instance : Numeric.Contained Extended where
  ofInt _ := breaksBy_ok _

@[simp] theorem contained_toIntBy (f : Rat → Int) (a : K) : Contained (Numeric.toIntBy f a) := by
  unfold Numeric.toIntBy
  split <;> simp [Fault.Internal]

section

variable [Numeric.Contained K]

@[simp] theorem contained_ofInt (n : Int) : Contained (Numeric.ofInt n : Except Fault K) :=
  Numeric.Contained.ofInt n

@[simp] theorem contained_ofValue (v : Value) : Contained (Numeric.ofValue v : Except Fault K) := by
  unfold Numeric.ofValue
  split <;> (try split) <;> simp [Fault.Internal]

@[simp] theorem contained_toNumeric (x : Number K) : Contained x.toNumeric := by
  cases x <;> simp [Number.toNumeric]

@[simp] theorem contained_plus (x y : Number K) : Contained (x.plus y) := by
  unfold Number.plus
  split <;> simp

end

/-! ## Order -/

theorem breaksBy_toDouble (c : Comparand) : BreaksBy Fault.OfOrder c.toDouble := by
  have whole (n : Int) : BreaksBy Fault.OfOrder (Numeric.ofInt n : Except Fault Float) := by
    simp only [Numeric.ofInt]
    split <;> simp [Fault.OfOrder]
  cases c <;> simp [Comparand.toDouble, whole]

theorem breaksBy_compareAs (test : Comparison) (single : Bool) (a b : Comparand) :
    BreaksBy Fault.OfOrder (Comparand.compareAs test single a b) := by
  simp [Comparand.compareAs, breaksBy_toDouble]

theorem breaksBy_compare (test : Comparison) (a b : Comparand) :
    BreaksBy Fault.OfOrder (Comparand.compare test a b) := by
  unfold Comparand.compare
  split
  · simp [Fault.OfOrder]
  · split <;> simp [breaksBy_compareAs]

theorem breaksBy_compareSized (test : Comparison) (a b : Comparand) :
    BreaksBy Fault.OfOrder (Comparand.compareSized test a b) := by
  unfold Comparand.compareSized
  split <;> simp [breaksBy_compareAs]

theorem breaksBy_compareNumber (x : Spread) (wholly : Bool) (test : Comparison) (a : Scalar)
    (w : Value) : BreaksBy Fault.OfOrder (x.compareNumber wholly test a w) := by
  unfold Spread.compareNumber
  split <;> simp [breaksBy_compare, breaksBy_compareSized, breaksBy_compareAs]

theorem breaksBy_spread_compare (g : Grid) (x : Spread) (test : Comparison)
    {onTexts : Except Fault Bool} {general : Value → Value → Except Fault Bool}
    (texts : BreaksBy Fault.OfOrder onTexts)
    (others : ∀ v w, BreaksBy Fault.OfOrder (general v w)) :
    BreaksBy Fault.OfOrder (Spread.compare g x test onTexts general) := by
  unfold Spread.compare
  split
  · simp [Fault.OfOrder]
  · simp [texts, others, breaksBy_compareNumber]

namespace Order

theorem breaksBy_plain (o : Order) (v w : Value) : BreaksBy Fault.OfOrder (o.plain v w) := by
  unfold plain
  split <;> simp [Fault.OfOrder]

theorem breaksBy_decided (g : Grid) : BreaksBy Fault.OfOrder (decided g) := by
  unfold decided
  split <;> simp [Fault.OfOrder]

theorem breaksBy_ofGrid (o : Order) (g : Grid) (x : Spread) :
    BreaksBy Fault.OfOrder (o.ofGrid g x) :=
  (breaksBy_spread_compare g x o.test (by simp [refuseTexts, Fault.OfOrder])
    o.breaksBy_plain).bind breaksBy_decided

theorem breaksBy_holdsBy (o : Order) {spread : Value → Except Fault Spread}
    (h : ∀ v, BreaksBy Fault.OfOrder (spread v)) (v w : Value) :
    BreaksBy Fault.OfOrder (o.holdsBy spread v w) := by
  unfold holdsBy
  split <;> simp [h, breaksBy_ofGrid, breaksBy_plain]

end Order

@[simp] theorem breaksBy_isAbove (v w : Value) : BreaksBy Fault.OfOrder (v.isAbove w) :=
  Order.above.breaksBy_holdsBy (fun v => breaksBy_ok (Order.lone v)) v w

@[simp] theorem breaksBy_isBelow (v w : Value) : BreaksBy Fault.OfOrder (v.isBelow w) :=
  Order.below.breaksBy_holdsBy (fun v => breaksBy_ok (Order.lone v)) v w

@[simp] theorem contained_isAbove (v w : Value) : Contained (v.isAbove w) :=
  (breaksBy_isAbove v w).imp fun _ => Fault.OfOrder.internal

end Milp
