import Milp.Proofs.Encoding.Bounds
import Milp.Proofs.Encoding.Inversion
import Milp.Proofs.Engine.Coherence
import Milp.Proofs.Number.Double.Rounding

/-!
# Variables that a plugin has no value for

`Pyomo.columnValue` gives such a variable the number nearest to zero within its bounds, which is
rounded like any other value where the variable is integral. Rounding may leave the bounds again:
the number found is one that the variable may take if the bound it came from is not rounded out of
them.
-/

namespace Milp

open Binary64

/-- What a number stands for, whether or not it is known to be whole. -/
def Number.view {K : Type} [Numeric K] : Number K → Extended
  | whole n => .finite n
  | real x => Numeric.view x

/-- The whole number nearest to a number of an integral domain, halves upward; other numbers are
left as they are. -/
def Domain.rounded (d : Domain) (q : Rat) : Rat :=
  if d.isInt then (q + 1 / 2).floor else q

/-- A whole number that is read as a double is rounded to it. -/
theorem Numeric.rounds_of_ofInt {n : Int} {x : Float}
    (h : (Numeric.ofInt n : Except Fault Float) = .ok x) :
    ∃ q q', Extended.finite n = .finite q ∧ Extended.ofFloat x = .finite q' ∧ Rounds q q' := by
  simp only [Numeric.ofInt] at h
  cases hn : ofInt? n with
  | none => simp [hn] at h
  | some y =>
      rw [hn] at h
      obtain rfl := Except.ok.inj h
      obtain ⟨q, rounds, value⟩ := ofInt?_rounds hn
      exact ⟨n, q, rfl, value, rounds⟩

/-- A number that is read as a double is rounded to it, unless it is none or infinite. -/
theorem Value.rounds_of_ofValue {a : Value} {x : Float} {l : Extended} (number : a.number? = some l)
    (h : Numeric.ofValue a = .ok x) :
    Extended.ofFloat x = l ∨
      ∃ q q', l = .finite q ∧ Extended.ofFloat x = .finite q' ∧ Rounds q q' := by
  have exact {y : Float} (h : (.ok y : Except Fault Float) = .ok x) :
      Extended.ofFloat x = .ofFloat y := by
    rw [Except.ok.inj h]
  have bit (b : Bool) : (Extended.finite (if b then 1 else 0)) =
      .finite ((if b then 1 else 0 : Int) : Rat) := by
    cases b <;> simp
  cases a with
  | bool b =>
      obtain rfl := Option.some.inj number
      rw [bit]
      exact .inr (Numeric.rounds_of_ofInt h)
  | int n =>
      obtain rfl := Option.some.inj number
      exact .inr (Numeric.rounds_of_ofInt h)
  | real y =>
      obtain rfl := Option.some.inj number
      exact .inl (exact h)
  | scalar s =>
      cases s with
      | integer kind n =>
          obtain rfl := Option.some.inj number
          exact .inr (Numeric.rounds_of_ofInt h)
      | single y =>
          obtain rfl := Option.some.inj number
          exact .inl (exact h)
      | double y =>
          obtain rfl := Option.some.inj number
          exact .inl (exact h)
      | flag b =>
          obtain rfl := Option.some.inj number
          rw [bit]
          exact .inr (Numeric.rounds_of_ofInt h)
  | symbol s =>
      cases s with
      | parameter p =>
          obtain rfl := Option.some.inj number
          exact .inr (Numeric.rounds_of_ofInt h)
      | _ => cases number
  | undefined form id =>
      obtain rfl := Option.some.inj number
      have undefined : Extended.ofFloat notANumber = .notANumber := by decide +kernel
      cases form <;> exact .inl ((exact h).trans undefined)
  | _ => cases number

/-! ## Bounds as they were written -/

namespace Bounds

/-- A number of a domain lies within bounds, which may be infinite. -/
structure Allow (b : Bounds Value) (domain : Domain) (x : Rat) : Prop where
  domain : domain.Contains x
  lower : ∀ a, b.lower = some a → ∃ l, a.number? = some l ∧ l.le (.finite x) = true
  upper : ∀ a, b.upper = some a → ∃ u, a.number? = some u ∧ (Extended.finite x).le u = true

/-- A number is zero, or the bound that keeps zero out. -/
inductive Nearest (b : Bounds Value) : Rat → Prop where
  | zero : b.Allow .real 0 → Nearest b 0
  | lower {a : Value} {q : Rat} : b.lower = some a → a.number? = some (.finite q) → 0 < q →
      Nearest b q
  | upper {a : Value} {q : Rat} : b.upper = some a → a.number? = some (.finite q) → q < 0 →
      Nearest b q

/-- A double holds the bound that keeps zero out, and one half more for an integral variable. -/
def Representable (b : Bounds Value) (domain : Domain) : Prop :=
  ∀ q, b.Nearest q → IsDouble q ∧ (domain.isInt = true → |q| + 1 ≤ 2 ^ 52)

/-- The bound that keeps zero out is not rounded out of the bounds. -/
def SurvivesRounding (b : Bounds Value) (domain : Domain) : Prop :=
  ∀ q, b.Nearest q → (0 < q → q ≤ domain.rounded q) ∧ (q < 0 → domain.rounded q ≤ q)

/-- A double tells a bound that zero is below, with one half more, from the next whole number. -/
def NextWholeSeparated (b : Bounds Value) : Prop :=
  ∀ q, b.Nearest q → 0 < q → ∃ c, IsDouble c ∧ q + 1 / 2 ≤ c ∧ c < (q + 1 / 2).floor + 1

variable {b : Bounds Value} {domain : Domain} {x q : Rat}

theorem Allow.lower_le (h : b.Allow domain x) {a : Value} (ha : b.lower = some a)
    (number : a.number? = some (.finite q)) : q ≤ x := by
  obtain ⟨l, hl, le⟩ := h.lower a ha
  obtain rfl := Option.some.inj (number.symm.trans hl)
  simpa [Extended.le] using le

theorem Allow.le_upper (h : b.Allow domain x) {a : Value} (ha : b.upper = some a)
    (number : a.number? = some (.finite q)) : x ≤ q := by
  obtain ⟨u, hu, le⟩ := h.upper a ha
  obtain rfl := Option.some.inj (number.symm.trans hu)
  simpa [Extended.le] using le

/-- Down to the lower bound everything is allowed. -/
theorem Allow.of_lower_le (h : b.Allow domain x) {a : Value} (ha : b.lower = some a)
    (number : a.number? = some (.finite q)) {y : Rat} (contains : domain.Contains y) (low : q ≤ y)
    (high : y ≤ x) : b.Allow domain y := by
  refine ⟨contains, fun a' ha' => ?_, fun c hc => ?_⟩
  · obtain rfl := Option.some.inj (ha.symm.trans ha')
    exact ⟨_, number, by simpa [Extended.le] using low⟩
  · obtain ⟨u, hu, le⟩ := h.upper c hc
    refine ⟨u, hu, ?_⟩
    cases u with
    | finite r => simpa [Extended.le] using high.trans (by simpa [Extended.le] using le)
    | _ => exact le

/-- Up to the upper bound everything is allowed. -/
theorem Allow.of_le_upper (h : b.Allow domain x) {a : Value} (ha : b.upper = some a)
    (number : a.number? = some (.finite q)) {y : Rat} (contains : domain.Contains y) (low : x ≤ y)
    (high : y ≤ q) : b.Allow domain y := by
  refine ⟨contains, fun c hc => ?_, fun a' ha' => ?_⟩
  · obtain ⟨l, hl, le⟩ := h.lower c hc
    refine ⟨l, hl, ?_⟩
    cases l with
    | finite r => simpa [Extended.le] using (show r ≤ x by simpa [Extended.le] using le).trans low
    | _ => exact le
  · obtain rfl := Option.some.inj (ha.symm.trans ha')
    exact ⟨_, number, by simpa [Extended.le] using high⟩

/-- Where anything is allowed, there is one number nearest to zero. -/
theorem Nearest.unique (some : b.Allow domain x) {q' : Rat} (h : b.Nearest q) (h' : b.Nearest q') :
    q' = q := by
  have apart {a c : Value} {r r' : Rat} (ha : b.lower = .some a)
      (hr : a.number? = .some (.finite r)) (hc : b.upper = .some c) (hr' : c.number? = .some (.finite r')) :
      r ≤ r' :=
    (some.lower_le ha hr).trans (some.le_upper hc hr')
  cases h with
  | zero h =>
      cases h' with
      | zero => rfl
      | lower ha hq pos => exact absurd (h.lower_le ha hq) pos.not_ge
      | upper ha hq neg => exact absurd (h.le_upper ha hq) neg.not_ge
  | lower ha hq pos =>
      cases h' with
      | zero h => exact absurd (h.lower_le ha hq) pos.not_ge
      | lower ha' hq' =>
          obtain rfl := Option.some.inj (ha.symm.trans ha')
          exact Extended.finite.inj (Option.some.inj (hq'.symm.trans hq))
      | upper ha' hq' neg => exact absurd (apart ha hq ha' hq') (neg.trans pos).not_ge
  | upper ha hq neg =>
      cases h' with
      | zero h => exact absurd (h.le_upper ha hq) neg.not_ge
      | lower ha' hq' pos => exact absurd (apart ha' hq' ha hq) (neg.trans pos).not_ge
      | upper ha' hq' =>
          obtain rfl := Option.some.inj (ha.symm.trans ha')
          exact Extended.finite.inj (Option.some.inj (hq'.symm.trans hq))

end Bounds

theorem Domain.rounded_intCast (d : Domain) (n : Int) : d.rounded n = n := by
  unfold rounded
  split
  · have : ((n : Rat) + 1 / 2).floor = n := by
      refine le_antisymm (Int.lt_add_one_iff.mp (Rat.floor_lt_iff.mpr ?_)) (Rat.le_floor_iff.mpr ?_)
      · push_cast
        linarith
      · linarith
    rw [this]
  · rfl

/-- Zero is kept out of the bounds of a boolean variable by one at most. -/
theorem Declarations.zero_or_one_of_nearest {d : Declarations} {v : Value} {b : Bounds Value}
    {q : Rat} (boolean : d.domainOf v = .bool) (bounds : d.effectiveBounds v = .ok b)
    (h : b.Nearest q) :
    q = 0 ∨ q = 1 := by
  unfold effectiveBounds at bounds
  rw [boolean] at bounds
  obtain ⟨up, -, bounds⟩ := bind_eq_ok.mp bounds
  obtain ⟨down, -, bounds⟩ := bind_eq_ok.mp bounds
  obtain rfl := Except.ok.inj bounds
  have number {n : Int} {a : Value} (ha : some (Value.int n) = some a)
      (hq : a.number? = some (.finite q)) : q = n := by
    obtain rfl := Option.some.inj ha
    exact (Extended.finite.inj (Option.some.inj hq)).symm
  cases h with
  | zero => exact .inl rfl
  | lower ha hq =>
      rw [number ha hq]
      cases up <;> simp
  | upper ha hq =>
      rw [number ha hq]
      cases down <;> simp

/-- The bounds of a boolean variable are `Representable`, and survive rounding. -/
theorem Declarations.held_of_bool {d : Declarations} {v : Value} {b : Bounds Value}
    (boolean : d.domainOf v = .bool) (bounds : d.effectiveBounds v = .ok b) :
    b.Representable .bool ∧ b.SurvivesRounding .bool := by
  have whole (q : Rat) (h : b.Nearest q) : ∃ n : Int, q = n ∧ n.natAbs ≤ 1 := by
    rcases zero_or_one_of_nearest boolean bounds h with rfl | rfl
    · exact ⟨0, by simp⟩
    · exact ⟨1, by simp⟩
  refine ⟨fun q h => ?_, fun q h => ?_⟩
  · obtain ⟨n, rfl, small⟩ := whole q h
    refine ⟨isDouble_intCast (by omega), fun _ => ?_⟩
    have : |n| + 1 ≤ 2 ^ 52 := by
      rw [Int.abs_eq_natAbs]
      omega
    exact_mod_cast this
  · obtain ⟨n, rfl, -⟩ := whole q h
    rw [Domain.rounded_intCast]
    exact ⟨fun _ => le_rfl, fun _ => le_rfl⟩

/-! ## What a plugin reads -/

namespace Symbolic

/-- A side that is read as a bound is a finite number, and none otherwise. -/
theorem sideOf_eq_ok {K : Type} [Numeric K] {component : String} {side : Side} {x : K}
    {o : Option K} (h : sideOf component side x = .ok o) :
    o = some x ∧ (∃ q, Numeric.view x = .finite q) ∨
      o = none ∧ ∀ q, Numeric.view x ≠ .finite q := by
  unfold sideOf at h
  cases hx : Numeric.view x with
  | finite q =>
      rw [hx] at h
      exact .inl ⟨(Except.ok.inj h).symm, q, rfl⟩
  | _ =>
      rw [hx] at h
      cases side <;> cases h <;> exact .inr ⟨rfl, by simp⟩

/-- The bound on a side that a number is within: none that limits it, or one that is rounded. -/
theorem exists_rounds_of_side {component : String} {side : Side} {a : Value} {o : Option Float}
    {l : Extended} (number : a.number? = some l)
    (h : boundOf a >>= sideOf component side = .ok o) :
    o = none ∧ (∀ q, l ≠ .finite q) ∨
      ∃ x q q', o = some x ∧ l = .finite q ∧ Extended.ofFloat x = .finite q' ∧ Rounds q q' := by
  obtain ⟨x, hx, h⟩ := bind_eq_ok.mp h
  have read : Numeric.ofValue a = .ok x := by
    unfold boundOf at hx
    split at hx
    · cases number
    · exact hx
    · rename_i none
      rw [number] at none
      cases none
  rcases Value.rounds_of_ofValue number read with same | ⟨q, q', hq, hq', rounds⟩
  · rcases sideOf_eq_ok h with ⟨rfl, q, hq⟩ | ⟨rfl, infinite⟩
    · exact .inr ⟨x, q, q, rfl, same.symm.trans hq, hq, Rounds.refl q⟩
    · exact .inl ⟨rfl, fun q hq => infinite q (same.trans hq)⟩
  · rcases sideOf_eq_ok h with ⟨rfl, -⟩ | ⟨-, infinite⟩
    · exact .inr ⟨x, q, q', rfl, hq, hq', rounds⟩
    · exact absurd hq' (infinite q')

end Symbolic

namespace Pyomo

theorem lt_eq {x y : Float} {p q : Rat} (hx : Extended.ofFloat x = .finite p)
    (hy : Extended.ofFloat y = .finite q) : Numeric.lt x y = decide (p < q) := by
  change (Extended.ofFloat x).lt (Extended.ofFloat y) = _
  rw [hx, hy]
  rfl

theorem ofFloat_zero : Extended.ofFloat (Numeric.zero : Float) = .finite 0 := by
  decide +kernel

/-- A bound that is read, if there is one. -/
def sideRead (component : String) (side : Side) (a : Option Value) : Except Fault (Option Float) :=
  match a with
  | none => .ok none
  | some a => Symbolic.boundOf a >>= Symbolic.sideOf component side

def raised (z : Float) : Option Float → Float
  | some l => Numeric.max z l
  | none => z

def lowered (z : Float) : Option Float → Float
  | some u => Numeric.min z u
  | none => z

theorem nearestZero_eq (b : Bounds Float) :
    nearestZero b = lowered (raised Numeric.zero b.lower) b.upper := by
  rcases b with ⟨_ | _, _ | _⟩ <;> rfl

/-- Above a bound, the number nearest to zero is zero or the bound. -/
theorem exists_raised {component : String} {a : Option Value} {o : Option Float} {x : Rat}
    (read : sideRead component .lower a = .ok o)
    (allowed : ∀ c, a = some c → ∃ l, c.number? = some l ∧ l.le (.finite x) = true) :
    raised Numeric.zero o = Numeric.zero ∧
        (∀ c, a = some c → ∃ l, c.number? = some l ∧ l.le (.finite 0) = true) ∨
      ∃ c q, a = some c ∧ c.number? = some (.finite q) ∧ 0 < q ∧
        (IsDouble q → Extended.ofFloat (raised Numeric.zero o) = .finite q) := by
  cases a with
  | none =>
      obtain rfl := Except.ok.inj read
      exact .inl ⟨rfl, by simp⟩
  | some c =>
      obtain ⟨l, number, le⟩ := allowed c rfl
      rcases Symbolic.exists_rounds_of_side number read with
        ⟨rfl, infinite⟩ | ⟨y, q, q', rfl, rfl, value, rounds⟩
      · refine .inl ⟨rfl, ?_⟩
        rintro _ ⟨⟩
        refine ⟨l, number, ?_⟩
        cases l with
        | finite q => exact absurd rfl (infinite q)
        | _ => exact le
      · rcases le_or_gt q 0 with hq | hq
        · have below := (rounds 0 isDouble_zero).2 hq
          refine .inl ⟨?_, ?_⟩
          · simp [raised, Numeric.max, lt_eq ofFloat_zero value, below]
          · rintro _ ⟨⟩
            exact ⟨_, number, by simpa [Extended.le] using hq⟩
        · refine .inr ⟨c, q, rfl, number, hq, fun double => ?_⟩
          obtain rfl := rounds.eq_of_isDouble double
          simp [raised, Numeric.max, lt_eq ofFloat_zero value, hq, value]

/-- Below a bound, the number nearest to one of a double is this or the bound. -/
theorem exists_lowered {component : String} {a : Option Value} {o : Option Float} {x : Rat}
    (read : sideRead component .upper a = .ok o)
    (allowed : ∀ c, a = some c → ∃ u, c.number? = some u ∧ (Extended.finite x).le u = true)
    {z : Float} {p : Rat} (hz : Extended.ofFloat z = .finite p) :
    lowered z o = z ∧
        (∀ c, a = some c → ∃ u, c.number? = some u ∧ (Extended.finite p).le u = true) ∨
      ∃ c q, a = some c ∧ c.number? = some (.finite q) ∧ q < p ∧
        (IsDouble q → Extended.ofFloat (lowered z o) = .finite q) := by
  cases a with
  | none =>
      obtain rfl := Except.ok.inj read
      exact .inl ⟨rfl, by simp⟩
  | some c =>
      obtain ⟨u, number, le⟩ := allowed c rfl
      rcases Symbolic.exists_rounds_of_side number read with
        ⟨rfl, infinite⟩ | ⟨y, q, q', rfl, rfl, value, rounds⟩
      · refine .inl ⟨rfl, ?_⟩
        rintro _ ⟨⟩
        refine ⟨u, number, ?_⟩
        cases u with
        | finite q => exact absurd rfl (infinite q)
        | _ => exact le
      · rcases le_or_gt p q with hq | hq
        · have above := (rounds p ⟨z, hz⟩).1 hq
          refine .inl ⟨?_, ?_⟩
          · simp [lowered, Numeric.min, lt_eq value hz, above]
          · rintro _ ⟨⟩
            exact ⟨_, number, by simpa [Extended.le] using hq⟩
        · refine .inr ⟨c, q, rfl, number, hq, fun double => ?_⟩
          obtain rfl := rounds.eq_of_isDouble double
          simp [lowered, Numeric.min, lt_eq value hz, hq, value]

/-- The value within bounds that were read is the number nearest to zero, if a double holds it. -/
theorem exists_nearest {v : SymbolicVariable × Nat} {w : PluginVariable Float} {x : Rat}
    (read : Symbolic.readVariable v = .ok w) (some : v.1.bounds.Allow v.1.domain x) :
    ∃ q, v.1.bounds.Nearest q ∧
      (IsDouble q → Extended.ofFloat (nearestZero w.bounds) = .finite q) := by
  obtain ⟨lower, hlower, read⟩ := bind_eq_ok.mp read
  obtain ⟨upper, hupper, read⟩ := bind_eq_ok.mp read
  obtain rfl := Except.ok.inj read
  have hlower : sideRead _ .lower v.1.bounds.lower = .ok lower := hlower
  have hupper : sideRead _ .upper v.1.bounds.upper = .ok upper := hupper
  rw [nearestZero_eq]
  rcases exists_raised hlower some.lower with ⟨stays, below⟩ | ⟨a, q, ha, hq, positive, taken⟩
  · rw [stays]
    rcases exists_lowered hupper some.upper ofFloat_zero with
      ⟨stays, above⟩ | ⟨a, q, ha, hq, negative, taken⟩
    · exact ⟨0, .zero ⟨trivial, below, above⟩, fun _ => by rw [stays, ofFloat_zero]⟩
    · exact ⟨q, .upper ha hq negative, taken⟩
  · refine ⟨q, .lower ha hq positive, fun double => ?_⟩
    rcases exists_lowered hupper some.upper (taken double) with
      ⟨stays, -⟩ | ⟨a', q', ha', hq', under, -⟩
    · rw [stays, taken double]
    · exact absurd ((some.lower_le ha hq).trans (some.le_upper ha' hq')) under.not_ge

/-! ## Rounding -/

theorem ofFloat_half : Extended.ofFloat (Numeric.half : Float) = .finite (1 / 2) := by
  decide +kernel

/-- A value of an integral variable is rounded once before halves are rounded upward. -/
theorem exists_rounded {domain : Domain} {z : Float} {q : Rat} {n : Number Float}
    (hz : Extended.ofFloat z = .finite q) (room : |q| + 1 ≤ 2 ^ 52) (integral : domain.isInt = true)
    (h : Solution.roundValue domain z = .ok n) :
    ∃ w, Rounds (q + 1 / 2) w ∧ n = .whole w.floor := by
  have moderate : |q + 1 / 2| < 2 ^ (1000 : Int) := by
    have half : |(1 / 2 : Rat)| ≤ 1 := by norm_num
    calc |q + 1 / 2| ≤ |q| + |1 / 2| := abs_add_le q (1 / 2)
      _ ≤ |q| + 1 := by linarith
      _ ≤ 2 ^ 52 := room
      _ = 2 ^ (52 : Int) := (zpow_natCast 2 52).symm
      _ < 2 ^ (1000 : Int) := zpow_lt_zpow_right₀ (by norm_num) (by norm_num)
  obtain ⟨w, rounds, sum⟩ := ofFloat_add_rounds hz ofFloat_half moderate
  refine ⟨w, rounds, ?_⟩
  rw [Solution.roundValue, if_pos integral, Numeric.floor, Numeric.toIntBy,
    show Numeric.view (z + Numeric.half) = .finite w from sum] at h
  exact (Except.ok.inj h).symm

theorem exists_int_of_contains {domain : Domain} {x : Rat} (integral : domain.isInt = true)
    (h : domain.Contains x) : ∃ m : Int, x = m := by
  cases domain with
  | real => cases integral
  | int => exact h
  | bool =>
      rcases h with rfl | rfl
      · exact ⟨0, by simp⟩
      · exact ⟨1, by simp⟩

theorem rounded_le {domain : Domain} {x q : Rat} (h : domain.Contains x) (le : q ≤ x) :
    domain.rounded q ≤ x := by
  unfold Domain.rounded
  split
  · rename_i integral
    obtain ⟨m, rfl⟩ := exists_int_of_contains integral h
    have : (q + 1 / 2).floor ≤ m :=
      Int.lt_add_one_iff.mp (Rat.floor_lt_iff.mpr (by push_cast; linarith))
    exact_mod_cast this
  · exact le

theorem le_rounded {domain : Domain} {x q : Rat} (h : domain.Contains x) (le : x ≤ q) :
    x ≤ domain.rounded q := by
  unfold Domain.rounded
  split
  · rename_i integral
    obtain ⟨m, rfl⟩ := exists_int_of_contains integral h
    have : m ≤ (q + 1 / 2).floor := Rat.le_floor_iff.mpr (by linarith)
    exact_mod_cast this
  · exact le

theorem contains_rounded {domain : Domain} (h : domain ≠ .bool) (q : Rat) :
    domain.Contains (domain.rounded q) := by
  cases domain with
  | real => trivial
  | int => exact ⟨_, rfl⟩
  | bool => exact absurd rfl h

/-- The bound that keeps zero out is rounded (`Domain.rounded`) to a number that is allowed, unless
out of the bounds. -/
theorem allow_rounded {b : Bounds Value} {domain : Domain} {x q : Rat}
    (allowed : b.Allow domain x) (nearest : b.Nearest q)
    (stays : (0 < q → q ≤ domain.rounded q) ∧ (q < 0 → domain.rounded q ≤ q)) :
    b.Allow domain (domain.rounded q) := by
  have half : (1 / 2 : Rat).floor = 0 := by decide +kernel
  cases nearest with
  | zero h =>
      have zero : domain.rounded 0 = 0 := by
        unfold Domain.rounded
        split
        · rw [zero_add, half, Int.cast_zero]
        · rfl
      rw [zero]
      refine ⟨?_, h.lower, h.upper⟩
      cases domain with
      | real => trivial
      | int => exact ⟨0, by simp⟩
      | bool => exact .inl rfl
  | lower ha hq positive =>
      have above := stays.1 positive
      have below := rounded_le allowed.domain (allowed.lower_le ha hq)
      refine allowed.of_lower_le ha hq ?_ above below
      by_cases binary : domain = .bool
      · subst binary
        rcases allowed.domain with rfl | rfl
        · linarith
        · -- A whole number above zero and not above one is one.
          refine .inr (le_antisymm below ?_)
          have : (0 : Rat) < (q + 1 / 2).floor := positive.trans_le above
          have : 0 < (q + 1 / 2).floor := by exact_mod_cast this
          change (1 : Rat) ≤ ((q + 1 / 2).floor : Int)
          exact_mod_cast this
      · exact contains_rounded binary q
  | upper ha hq negative =>
      have below := stays.2 negative
      have above := le_rounded allowed.domain (allowed.le_upper ha hq)
      refine allowed.of_le_upper ha hq ?_ above below
      by_cases binary : domain = .bool
      · subst binary
        rcases allowed.domain with rfl | rfl <;> linarith
      · exact contains_rounded binary q

/-- The value that is entered for a variable within bounds that were read. -/
theorem allow_roundValue {v : SymbolicVariable × Nat} {w : PluginVariable Float} {x : Rat}
    {n : Number Float} (read : Symbolic.readVariable v = .ok w)
    (allowed : v.1.bounds.Allow v.1.domain x) (held : v.1.bounds.Representable v.1.domain)
    (h : Solution.roundValue v.1.domain (nearestZero w.bounds) = .ok n) :
    ∃ y, n.view = .finite y ∧
      (v.1.bounds.SurvivesRounding v.1.domain → v.1.bounds.Allow v.1.domain y) ∧
      (v.1.bounds.NextWholeSeparated → v.1.bounds.Allow v.1.domain y →
        v.1.bounds.SurvivesRounding v.1.domain) := by
  obtain ⟨q, nearest, value⟩ := exists_nearest read allowed
  obtain ⟨double, room⟩ := held q nearest
  by_cases integral : v.1.domain.isInt = true
  · have room := room integral
    have units : v.1.domain.rounded q = (q + 1 / 2).floor := if_pos integral
    obtain ⟨y, rounds, rfl⟩ := exists_rounded (value double) room integral h
    refine ⟨y.floor, rfl, fun withstand => ?_, fun told allowed' q' nearest' => ?_⟩
    · have stays := withstand q nearest
      have same : y.floor = (q + 1 / 2).floor := by
        rw [units] at stays
        rcases lt_trichotomy q 0 with negative | rfl | positive
        · exact rounds.floor_of_ge double room negative (stays.2 negative)
        · refine rounds.floor_of_le room ?_
          have : 0 ≤ ((0 : Rat) + 1 / 2).floor := Rat.le_floor_iff.mpr (by norm_num)
          exact_mod_cast this
        · exact rounds.floor_of_le room (stays.1 positive)
      rw [same, ← units]
      exact allow_rounded allowed nearest stays
    · obtain rfl := Bounds.Nearest.unique allowed nearest nearest'
      rw [units]
      cases nearest with
      | zero => exact ⟨fun h => absurd h (lt_irrefl 0), fun h => absurd h (lt_irrefl 0)⟩
      | lower ha hq positive =>
          obtain ⟨c, hc, low, high⟩ := told _ nearest' positive
          have same := rounds.floor_eq room hc low high
          exact ⟨fun _ => same ▸ allowed'.lower_le ha hq, fun h => absurd h positive.not_gt⟩
      | upper ha hq negative =>
          have above : (((q' + 1 / 2).floor : Int) : Rat) ≤ y.floor := by
            exact_mod_cast rounds.floor_le room
          exact ⟨fun h => absurd h negative.not_gt,
            fun _ => above.trans (allowed'.le_upper ha hq)⟩
  · have units (q : Rat) : v.1.domain.rounded q = q := if_neg integral
    rw [Solution.roundValue, if_neg integral] at h
    obtain rfl := Except.ok.inj h
    have withstand : v.1.bounds.SurvivesRounding v.1.domain := fun q _ => by
      rw [units]
      exact ⟨fun _ => le_rfl, fun _ => le_rfl⟩
    refine ⟨q, value double, fun _ => ?_, fun _ _ => withstand⟩
    exact units q ▸ allow_rounded allowed nearest (withstand q nearest)

/-! ## Solves -/

/-- Hooks leave the variables of a statement as they are. -/
def KeepsVariables {K : Type} (hooks : Hooks (Symbolic K)) : Prop :=
  ∀ hook index m, (hooks hook index m).1.vars = m.vars

section

variable {K : Type} [Numeric K] {hooks : Hooks (Symbolic K)} {solver : Solver} {p : Problem}

omit [Numeric K] in
theorem vars_of_runHooks (keeps : KeepsVariables hooks) {native : String} {index : Index}
    {list : List Value} {m m' : Symbolic K} {s s' : Logged (Session (Call K))}
    (h : (Session.runHooks native hooks index list m).runOn s = (.ok m', s')) :
    m'.vars = m.vars := by
  induction list generalizing m s with
  | nil =>
      obtain ⟨rfl, -⟩ : m = m' ∧ s = s' := by simpa [Session.runHooks] using h
      rfl
  | cons hook rest ih =>
      obtain ⟨_, _, -, h⟩ := Action.runOn_bind_eq_ok.mp h
      obtain ⟨_, _, -, h⟩ := Action.runOn_bind_eq_ok.mp h
      have kept := keeps hook index m
      rcases hm : hooks hook index m with ⟨m₁, _ | f⟩
      · rw [hm] at h kept
        exact (ih h).trans kept
      · rw [hm] at h
        cases h

/-- A statement has the variables of the problem, in their order. -/
theorem vars_of_symbolic {m : Symbolic K} (h : p.symbolic p.index = .ok (some m)) :
    p.variableList.mapM (Symbolic.variableOf p) = .ok m.vars := by
  obtain ⟨vars, hvars, h⟩ := bind_eq_ok.mp h
  obtain ⟨hold, -, h⟩ := bind_eq_ok.mp h
  cases hold with
  | false => cases h
  | true =>
      obtain ⟨_, -, h⟩ := bind_eq_ok.mp h
      obtain ⟨_, -, h⟩ := bind_eq_ok.mp h
      -- Whatever the objective is, it is not among the variables.
      have stated {rows objective maximize duals}
          (h : (.ok (some ⟨vars, rows, objective, maximize, duals⟩) : Except Fault _) =
            .ok (some m)) :
          p.variableList.mapM (Symbolic.variableOf p) = .ok m.vars := by
        obtain rfl := Option.some.inj (Except.ok.inj h)
        exact hvars
      split at h
      · obtain ⟨empty, -, h⟩ := bind_eq_ok.mp h
        split at h
        · exact stated h
        · obtain ⟨_, -, h⟩ := bind_eq_ok.mp h
          exact stated h
      · exact stated h

theorem vars_of_present (keeps : KeepsVariables hooks) {settings : Settings} {m : Symbolic K}
    {s s' : Logged (Session (Call K))}
    (h : (present hooks solver p).runOn s = (.ok (settings, some m), s')) :
    p.variableList.mapM (Symbolic.variableOf p) = .ok m.vars := by
  obtain ⟨_, _, -, h⟩ := Action.runOn_bind_eq_ok.mp h
  obtain ⟨_, _, -, h⟩ := Action.runOn_bind_eq_ok.mp h
  obtain ⟨model, _, stated, h⟩ := Action.runOn_bind_eq_ok.mp h
  have stated : p.symbolic p.index = .ok model := congrArg Prod.fst stated
  cases model with
  | none => cases h
  | some model =>
      obtain ⟨_, _, -, h⟩ := Action.runOn_bind_eq_ok.mp h
      obtain ⟨m', _, ran, h⟩ := Action.runOn_bind_eq_ok.mp h
      obtain ⟨ended, -⟩ := Prod.mk.inj h
      obtain rfl := Option.some.inj (Prod.mk.inj (Except.ok.inj ended)).2
      rw [vars_of_runHooks keeps ran]
      exact vars_of_symbolic stated

/-- What a plugin reads of the variable in a column. -/
theorem exists_read {m : Symbolic K} {read : PluginModel K}
    (vars : p.variableList.mapM (Symbolic.variableOf p) = .ok m.vars) (h : m.read = .ok read)
    {j : Nat} {v : Value} (hv : p.variableList[j]? = some v) :
    ∃ b w, p.effectiveBounds v = .ok b ∧ read.vars[j]? = some w ∧
      Symbolic.readVariable (⟨p.domainOf v, b⟩, j) = .ok w := by
  obtain ⟨x, hx, stated⟩ := exists_of_forall₂ (mapM_eq_ok.mp vars) hv
  obtain ⟨b, hb, made⟩ := bind_eq_ok.mp stated
  obtain rfl := Except.ok.inj made
  obtain ⟨ws, hws, h⟩ := bind_eq_ok.mp h
  obtain ⟨_, -, h⟩ := bind_eq_ok.mp h
  obtain ⟨_, -, h⟩ := bind_eq_ok.mp h
  obtain rfl := Except.ok.inj h
  have entry : m.vars.zipIdx[j]? = some (⟨p.domainOf v, b⟩, j) := by
    simp [List.getElem?_zipIdx, hx]
  obtain ⟨w, hw, read⟩ := exists_of_forall₂ (mapM_eq_ok.mp hws) entry
  exact ⟨b, w, hb, hw, read⟩

/-- What is read off a reply is entered for every variable, rounded by its domain. -/
theorem exists_entered (distinct : p.Distinct) {value : K → Value} {m : Symbolic K}
    {read : PluginModel K} {reply : Reply K} {s : Solution K}
    (h : readSolution value p p.index m read reply = .ok s) {j : Nat} {v : Value}
    (hv : p.variableList[j]? = some v) :
    ∃ n, (columnValue read reply j >>= Solution.roundValue (p.domainOf v)) = .ok n ∧
      ∀ u : Value, v.key = u.key → s.primal.get? u = some n := by
  obtain ⟨_, -, h⟩ := bind_eq_ok.mp h
  obtain ⟨_, -, h⟩ := bind_eq_ok.mp h
  obtain ⟨_, -, h⟩ := bind_eq_ok.mp h
  obtain ⟨extracted, read, h⟩ := bind_eq_ok.mp h
  obtain ⟨_, -, h⟩ := bind_eq_ok.mp h
  obtain rfl := Except.ok.inj h
  obtain ⟨number, entered, primal⟩ := Solution.exists_number distinct read
  have mem := List.mem_of_getElem? hv
  have here := entered v mem
  rw [distinct.require_at hv] at here
  exact ⟨number v, here, fun u key => Solution.get?_of_number distinct primal mem key⟩

/-- An answer with a solution was read off the reply. -/
theorem readSolution_of_takeReply {value : K → Value} {name : Value} {m : Symbolic K}
    {read : PluginModel K} {reply : Reply K} {s : Solution K} {t t' : Logged (Session (Call K))}
    (h : (takeReply value name p m read reply).runOn t = (.ok (some s), t')) :
    readSolution value p p.index m read reply = .ok s := by
  unfold takeReply at h
  split at h
  · cases h
  · obtain ⟨_, _, -, h⟩ := Action.runOn_bind_eq_ok.mp h
    obtain ⟨_, _, -, h⟩ := Action.runOn_bind_eq_ok.mp h
    split at h
    · cases h
    · obtain ⟨x, _, read, h⟩ := Action.runOn_bind_eq_ok.mp h
      obtain ⟨ended, -⟩ := Prod.mk.inj h
      obtain rfl := Option.some.inj (Except.ok.inj ended)
      exact congrArg Prod.fst read

end

/-- A variable without a value in the reply is given one by `nearestZero`. The variable may take it,
where it may take any and the bound is `Representable`, unless an integer variable's bound does not
survive the rounding (`SurvivesRounding`). Then it may not, as far as doubles tell
(`NextWholeSeparated`). -/
theorem allow_unseen {value : Float → Value} {env : Environment} {engine : Engine Float}
    {hooks : Hooks (Symbolic Float)} {solver : Solver} {p : Problem} (wellFormed : p.WellFormed)
    (keeps : KeepsVariables hooks) {reply : Reply Float} {s : Solution Float}
    (replied : Replied engine
      ((solve value env engine hooks solver p).perform (.start solver)).2.state.tellings reply)
    (solved : ((solve value env engine hooks solver p).perform (.start solver)).1 = .ok (some s))
    {v : Value} {j : Nat} (column : p.index.get? v = some (j : Int))
    (unseen : ∀ x, reply.values[j]? ≠ some (some x)) {b : Bounds Value}
    (bounds : p.effectiveBounds v = .ok b) (allowed : ∃ x, b.Allow (p.domainOf v) x)
    (held : p.domainOf v ≠ .bool → b.Representable (p.domainOf v)) :
    ∃ n y, s.primal.get? v = some n ∧ n.view = .finite y ∧
      ((p.domainOf v = .int → b.SurvivesRounding .int) → b.Allow (p.domainOf v) y) ∧
      (b.NextWholeSeparated → b.Allow (p.domainOf v) y → b.SurvivesRounding (p.domainOf v)) := by
  obtain ⟨settings, m, read, _, t, presented, hread, -, course⟩ := exists_of_replied replied
  rw [course] at solved
  have taken : readSolution value p p.index m read reply = .ok s :=
    readSolution_of_takeReply (Prod.ext solved rfl)
  obtain ⟨i, u, hu, key, place⟩ := Declarations.exists_place column
  obtain rfl : j = i := Int.ofNat.inj place
  obtain ⟨b', w, hb, hw, within⟩ := exists_read (vars_of_present keeps presented) hread hu
  obtain ⟨n, entered, found⟩ := exists_entered wellFormed.distinct taken hu
  have domain : p.domainOf u = p.domainOf v := by
    rw [Declarations.domainOf, Declarations.domainOf, Table.get?_congr key]
  have same : p.effectiveBounds u = p.effectiveBounds v := by
    simp only [Declarations.effectiveBounds, domain, Table.get?_congr key]
  obtain rfl := Except.ok.inj ((hb.symm.trans same).trans bounds)
  have given : valueOf? reply j = .ok none := by
    unfold valueOf?
    split
    · exact absurd ‹_› (unseen _)
    · exact absurd ‹_› (unseen _)
    · rfl
  have raw : columnValue read reply j = .ok (nearestZero w.bounds) := by
    simp [columnValue, given, hw, pure, Except.pure, bind, Except.bind]
  rw [raw] at entered
  rw [domain] at within entered
  obtain ⟨x, hx⟩ := allowed
  have held : b'.Representable (p.domainOf v) := by
    by_cases boolean : p.domainOf v = .bool
    · exact boolean ▸ (Declarations.held_of_bool boolean bounds).1
    · exact held boolean
  obtain ⟨y, hy, stays, back⟩ := allow_roundValue within hx held entered
  refine ⟨n, y, found v key, hy, fun withstand => stays ?_, back⟩
  cases hd : p.domainOf v with
  | bool => exact (Declarations.held_of_bool hd bounds).2
  | int => exact withstand hd
  | real => exact fun q _ => ⟨fun _ => le_rfl, fun _ => le_rfl⟩

/-- A problem with one variable, of which only bounds are known. -/
def lone (domain : Domain) (lower upper : Value) : Problem :=
  { vars := ⟨[(.text "n", ())]⟩, domains := ⟨[(.text "n", domain)]⟩
    lowers := ⟨[(.text "n", lower)]⟩, uppers := ⟨[(.text "n", upper)]⟩
    objective := none, sense := .min, constraints := .ofList [] }

theorem wellFormed_lone (domain : Domain) (lower upper : Value) :
    (lone domain lower upper).WellFormed where
  distinct := by
    have single : (lone domain lower upper).variableList = [.text "n"] := rfl
    refine ⟨single ▸ List.pairwise_singleton _ _, fun v hv => ?_⟩
    rw [single, List.mem_singleton] at hv
    rw [hv]
    rfl
  complete := rfl
  length := ⟨0, rfl⟩
  constraints := by simp [lone]
  objective := by simp [lone]

/-- A plugin found something, and has no value for the only column. -/
def silentPlugin : Reply Float :=
  { condition := .optimal, solutions := 1, values := [none], duals := [] }

def glpk : Solver :=
  Solver.fresh .pyomo "glpk"

/-- What a solve by a plugin without a value leaves behind. -/
def silentRun (p : Problem) :
    Except Fault (Option (Solution Float)) × Logged (Session (Call Float)) :=
  (solve .real anywhere (pluginReplying silentPlugin) idle glpk p).perform (.start glpk)

theorem keepsVariables_idle {K : Type} : KeepsVariables (idle : Hooks (Symbolic K)) :=
  fun _ _ _ => rfl

/-- An integer variable between 1.5 and 7 is given a number between them. -/
theorem allow_unseen_lone :
    let p := lone .int (.real 1.5) (.int 7)
    let b : Bounds Value := ⟨some (.real 1.5), some (.int 7)⟩
    p.WellFormed ∧ KeepsVariables (idle : Hooks (Symbolic Float)) ∧
      Replied (pluginReplying silentPlugin) (silentRun p).2.state.tellings silentPlugin ∧
      p.index.get? (.text "n") = some 0 ∧ (∀ x, silentPlugin.values[0]? ≠ some (some x)) ∧
      p.effectiveBounds (.text "n") = .ok b ∧ b.Allow .int 2 ∧ b.Representable .int ∧
      b.SurvivesRounding .int ∧
      ∃ s n y, (silentRun p).1 = .ok (some s) ∧ s.primal.get? (.text "n") = some n ∧
        n.view = .finite y ∧ b.Allow .int y := by
  intro p b
  have bound : (Value.real 1.5).number? = some (.finite (3 / 2)) := by decide +kernel
  have allowed : b.Allow .int 2 := by
    refine ⟨⟨2, by norm_num⟩, ?_, ?_⟩
    · rintro _ ⟨⟩
      exact ⟨_, bound, by decide +kernel⟩
    · rintro _ ⟨⟩
      exact ⟨_, rfl, by decide +kernel⟩
  have nearest (q : Rat) (h : b.Nearest q) : q = 3 / 2 :=
    Bounds.Nearest.unique allowed (.lower rfl bound (by norm_num)) h
  have held : b.Representable .int := by
    intro q h
    obtain rfl := nearest q h
    refine ⟨⟨1.5, by decide +kernel⟩, fun _ => ?_⟩
    rw [abs_of_pos (by norm_num)]
    norm_num
  have withstand : b.SurvivesRounding .int := by
    intro q h
    obtain rfl := nearest q h
    have rounded : Domain.int.rounded (3 / 2) = 2 := by decide +kernel
    rw [rounded]
    norm_num
  have replied :
      Replied (pluginReplying silentPlugin) (silentRun p).2.state.tellings silentPlugin :=
    plugin_replied (by decide +kernel)
  have answered : (silentRun p).1.toOption.join.isSome = true := by decide +kernel
  obtain ⟨s, hs⟩ := Option.isSome_iff_exists.mp answered
  have solved := join_toOption_eq_some.mp hs
  have unseen (x : Value) : silentPlugin.values[0]? ≠ some (some x) := by
    rintro ⟨⟩
  obtain ⟨n, y, hn, hy, allow, -⟩ := allow_unseen (p := p) (wellFormed_lone _ _ _)
    keepsVariables_idle replied solved (v := .text "n") (j := 0) rfl unseen rfl ⟨2, allowed⟩
    fun _ => held
  exact ⟨wellFormed_lone _ _ _, keepsVariables_idle, replied, rfl, unseen, rfl, allowed, held,
    withstand, s, n, y, solved, hn, hy, allow fun _ => withstand⟩

/-- One between 0.3 and 1.2 is given zero, although it may be one. -/
theorem zero_of_fraction :
    let p := lone .int (.real 0.3) (.real 1.2)
    let b : Bounds Value := ⟨some (.real 0.3), some (.real 1.2)⟩
    p.effectiveBounds (.text "n") = .ok b ∧ b.Allow .int 1 ∧ ¬ b.Allow .int 0 ∧
      (silentRun p).1.toOption.join.bind (fun s => s.primal.get? (.text "n")) = some (.whole 0) := by
  intro p b
  refine ⟨rfl, ⟨⟨1, by norm_num⟩, ?_, ?_⟩, fun zero => ?_, by decide +kernel⟩
  · rintro _ ⟨⟩
    exact ⟨_, rfl, by decide +kernel⟩
  · rintro _ ⟨⟩
    exact ⟨_, rfl, by decide +kernel⟩
  · obtain ⟨l, hl, le⟩ := zero.lower _ rfl
    obtain rfl := Option.some.inj hl
    exact absurd le (by decide +kernel)

end Pyomo

end Milp
