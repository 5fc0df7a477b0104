import Milp.Proofs.Encoding.Entries

/-!
# Bounds and terms in exact arithmetic

The forms that take a problem row by row have the same variables and terms as the matrix form: the
bounds that an engine is given leave a variable the numbers that it may take, and the entries of
terms add up to what the terms are worth.
-/

namespace Milp

/-- The numbers of a domain. -/
def Domain.Contains : Domain → Rat → Prop
  | .real, _ => True
  | .int, x => ∃ n : Int, x = n
  | .bool, x => x = 0 ∨ x = 1

/-- A number of a domain lies within bounds. -/
structure Bounds.Admit (b : Bounds Value) (domain : Domain) (x : Rat) : Prop where
  domain : domain.Contains x
  lower : ∀ a, b.lower = some a → a.toRat ≤ x
  upper : ∀ a, b.upper = some a → x ≤ a.toRat

namespace Declarations

variable {d : Declarations} {v : Value}

/-- What an engine is given as bounds is finite, is explicit or else zero and one, and leaves a
variable the numbers that `Admit` allows. -/
structure Bounded (d : Declarations) (v : Value) (b : Bounds Value) : Prop where
  made : d.effectiveBounds v = .ok b
  lower : ∀ a, b.lower = some a →
    a.IsFinite ∧ (d.domainOf v ≠ .bool ∧ d.lowers.get? v = some a ∨ 0 ≤ a.toRat)
  upper : ∀ a, b.upper = some a →
    a.IsFinite ∧ (d.domainOf v ≠ .bool ∧ d.uppers.get? v = some a ∨ a.toRat ≤ 1)
  admits : ∀ x, b.Admit (d.domainOf v) x ↔ d.Admits v x

theorem bounded_of_ne_bool (finite : d.FiniteBounds v) (h : d.domainOf v ≠ .bool) :
    d.Bounded v ⟨d.lowers.get? v, d.uppers.get? v⟩ := by
  refine ⟨?_, fun a ha => ⟨finite.lower a ha, .inl ⟨h, ha⟩⟩,
    fun a ha => ⟨finite.upper a ha, .inl ⟨h, ha⟩⟩, fun x => ?_⟩
  · unfold effectiveBounds
    cases hd : d.domainOf v with
    | bool => exact absurd hd h
    | int => rfl
    | real => rfl
  · unfold Admits
    cases hd : d.domainOf v with
    | bool => exact absurd hd h
    | int => exact ⟨fun ⟨hi, hl, hu⟩ => ⟨hi, hl, hu⟩, fun ⟨hi, hl, hu⟩ => ⟨hi, hl, hu⟩⟩
    | real => exact ⟨fun ⟨_, hl, hu⟩ => ⟨hl, hu⟩, fun ⟨hl, hu⟩ => ⟨trivial, hl, hu⟩⟩

/-- Of zero and one, a side that is moved leaves one number only. -/
theorem forced_iff {x : Rat} (binary : x = 0 ∨ x = 1) (up down : Bool) :
    ((Value.int (if up then 1 else 0)).toRat ≤ x ↔ (up = true → x = 1)) ∧
      (x ≤ (Value.int (if down then 0 else 1)).toRat ↔ (down = true → x = 0)) := by
  have toRat (n : Int) : (Value.int n).toRat = n := rfl
  constructor
  · rcases binary with rfl | rfl <;> cases up <;> simp [toRat]
  · rcases binary with rfl | rfl <;> cases down <;> simp [toRat]

theorem exists_bounded_of_bool (finite : d.FiniteBounds v) (h : d.domainOf v = .bool) :
    ∃ b, d.Bounded v b := by
  obtain ⟨up, hup, raised⟩ := forcedUp finite.lower
  obtain ⟨down, hdown, lowered⟩ := forcedDown finite.upper
  have toRat (n : Int) : (Value.int n).toRat = n := rfl
  refine ⟨⟨some (.int (if up then 1 else 0)), some (.int (if down then 0 else 1))⟩, ?_, ?_, ?_,
    fun x => ?_⟩
  · simp only [effectiveBounds, h, hup, hdown, bind, Except.bind]
    rfl
  · rintro a ha
    obtain rfl := Option.some.inj ha
    exact ⟨rfl, .inr (by cases up <;> simp [toRat])⟩
  · rintro a ha
    obtain rfl := Option.some.inj ha
    exact ⟨rfl, .inr (by cases down <;> simp [toRat])⟩
  · rw [Admits, h]
    simp only
    constructor
    · rintro ⟨binary, lower, upper⟩
      obtain ⟨raise, reduce⟩ := forced_iff binary up down
      exact ⟨binary, fun b hb above => raise.mp (lower _ rfl) (raised.mpr ⟨b, hb, above⟩),
        fun b hb below => reduce.mp (upper _ rfl) (lowered.mpr ⟨b, hb, below⟩)⟩
    · rintro ⟨binary, lower, upper⟩
      obtain ⟨raise, reduce⟩ := forced_iff binary up down
      refine ⟨binary, fun a ha => ?_, fun a ha => ?_⟩
      · obtain rfl := Option.some.inj ha
        refine raise.mpr fun h => ?_
        obtain ⟨b, hb, above⟩ := raised.mp h
        exact lower b hb above
      · obtain rfl := Option.some.inj ha
        refine reduce.mpr fun h => ?_
        obtain ⟨b, hb, below⟩ := lowered.mp h
        exact upper b hb below

theorem exists_bounded (finite : d.FiniteBounds v) : ∃ b, d.Bounded v b := by
  by_cases h : d.domainOf v = .bool
  · exact exists_bounded_of_bool finite h
  · exact ⟨_, bounded_of_ne_bool finite h⟩

/-- Where something in the place of each variable allows the numbers that the variable may take, a
point is allowed everywhere if it holds such numbers. -/
theorem forall_place_iff (distinct : d.Distinct) {β : Type} {allows : β → Rat → Prop} {ws : List β}
    (h : List.Forall₂ (fun v w => ∀ y, allows w y ↔ d.Admits v y) d.variableList ws)
    {x : Key → Rat} {q : Nat → Rat} (reads : d.Reads x q) :
    (∀ (j : Nat) w, ws[j]? = some w → allows w (q j)) ↔
      ∀ v ∈ d.variableList, d.Admits v (x v.key) := by
  constructor
  · intro allowed v hv
    obtain ⟨j, hj⟩ := List.getElem?_of_mem hv
    obtain ⟨w, hw, same⟩ := exists_of_forall₂ h hj
    rw [← reads.at_place distinct hj]
    exact (same _).mp (allowed j w hw)
  · intro admitted j w hw
    obtain ⟨v, hv, same⟩ := exists_of_forall₂ h.flip hw
    rw [reads.at_place distinct hv]
    exact (same _).mpr (admitted v (List.mem_of_getElem? hv))

/-! ## Sums of entries -/

/-- Entries add up to what their terms are worth, at every point that holds the numbers of the
variables. -/
theorem EntryOf.dot {ts : List Term} {es : List (Int × Extended)}
    (h : List.Forall₂ d.EntryOf ts es) (finite : ∀ t ∈ ts, t.coefficient.ReadsFinite)
    (distinct : d.Distinct) {x : Key → Rat} {q : Nat → Rat} (reads : d.Reads x q) :
    SparseRow.dot (es.map fun e => (e.1.toNat, e.2)) q =
      .finite (ts.map fun t => t.coefficient.toRat * x t.var.key).sum := by
  induction h with
  | nil => rfl
  | @cons t e ts es ht _ ih =>
      obtain ⟨here, later⟩ := List.forall_mem_cons.mp finite
      obtain ⟨i, v, hv, same, place⟩ := ht.column
      have coefficient : e.2 = .finite t.coefficient.toRat :=
        Except.ok.inj (ht.value.symm.trans here)
      have number : q e.1.toNat = x t.var.key := by
        rw [place, Int.toNat_natCast, reads.at_place distinct hv, same]
      rw [List.map_cons, SparseRow.dot_cons, ih later, coefficient, number]
      rfl

end Declarations

end Milp
