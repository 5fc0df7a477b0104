import Milp.Encoding.Columns
import Milp.Proofs.Table
import Milp.Proofs.Value.Reading

/-!
# What the columns say

Every registered variable has a column of its own. A point is within the columns exactly if each of
its numbers is one that its variable may take.
-/

namespace Milp

theorem columnPlaces_natCast {n i : Nat} (h : i < n) : columnPlaces n (i : Int) = .ok [i] := by
  simp [columnPlaces, columnPlace, place, h, Except.map]

namespace Declarations

variable {d : Declarations} {v w : Value}

/-! ## Numbers of columns -/

/-- The variables can be looked up and are told apart. -/
structure Distinct (d : Declarations) : Prop where
  keys : d.variableList.Pairwise fun v w => v.key ≠ w.key
  hashable : ∀ v ∈ d.variableList, v.checkKey = .ok ()

/-- A variable can be looked up and is there. -/
structure Registered (d : Declarations) (v : Value) : Prop where
  hashable : v.checkKey = .ok ()
  contains : d.vars.contains v = true

@[simp] theorem size_index (d : Declarations) : d.index.size = d.variableList.length := by
  simp [index, Table.size]

theorem Registered.exists_mem (h : d.Registered v) : ∃ w ∈ d.variableList, w.key = v.key := by
  obtain ⟨e, he, hk⟩ := List.any_eq_true.mp h.contains
  exact ⟨e.1, List.mem_map_of_mem he, beq_iff_eq.mp hk⟩

theorem Distinct.get?_index (h : d.Distinct) {i : Nat} (hi : d.variableList[i]? = some w)
    (hk : w.key = v.key) : d.index.get? v = some (i : Int) := by
  obtain ⟨hlt, rfl⟩ := List.getElem?_eq_some_iff.mp hi
  have found : d.index.entries.find? (fun e => e.1.key == v.key) =
      some (d.variableList[i], (i : Int)) := by
    rw [List.find?_eq_some_iff_getElem]
    refine ⟨by simp [hk], i, by simpa [index] using hlt, by simp [index], fun j hj => ?_⟩
    have apart := List.pairwise_iff_getElem.mp h.keys j i (hj.trans hlt) hlt hj
    simpa [index, ← hk] using apart
  rw [Table.get?, found]
  rfl

theorem Distinct.require_index (h : d.Distinct) (hv : d.Registered v) :
    ∃ (i : Nat) (w : Value), d.variableList[i]? = some w ∧ w.key = v.key ∧
      d.index.require v = .ok (i : Int) := by
  obtain ⟨w, hw, hk⟩ := hv.exists_mem
  obtain ⟨i, hi⟩ := List.getElem?_of_mem hw
  exact ⟨i, w, hi, hk, Table.require_eq_ok.mpr ⟨hv.hashable, h.get?_index hi hk⟩⟩

/-- A point holds, in the column that `p.index` gives a variable, the number of the variable. -/
def Reads (d : Declarations) (x : Key → Rat) (p : Nat → Rat) : Prop :=
  ∀ v j, d.index.get? v = some j → p j.toNat = x v.key

theorem Reads.at_place {x : Key → Rat} {p : Nat → Rat} (reads : d.Reads x p) (h : d.Distinct)
    {i : Nat} (hi : d.variableList[i]? = some v) : p i = x v.key :=
  reads v i (h.get?_index hi rfl)

/-- The numbers that a point gives to variables. -/
def assignmentAt (d : Declarations) (p : Nat → Rat) (k : Key) : Rat :=
  ((d.index.entries.find? fun e => e.1.key == k).map fun e => p e.2.toNat).getD 0

/-- The point that holds the numbers of variables. -/
def pointOf (d : Declarations) (x : Key → Rat) (j : Nat) : Rat :=
  (d.variableList[j]?.map fun v => x v.key).getD 0

theorem reads_assignmentAt (d : Declarations) (p : Nat → Rat) : d.Reads (d.assignmentAt p) p := by
  intro v j h
  obtain ⟨e, he, rfl⟩ := Option.map_eq_some_iff.mp h
  rw [assignmentAt, he]
  rfl

/-- The column of a variable is the place of one with the same key. -/
theorem exists_place {j : Int} (h : d.index.get? v = some j) :
    ∃ (i : Nat) (w : Value), d.variableList[i]? = some w ∧ w.key = v.key ∧ j = i := by
  obtain ⟨e, he, rfl⟩ := Option.map_eq_some_iff.mp h
  obtain ⟨⟨w, i⟩, hw, rfl⟩ := List.mem_map.mp (List.mem_of_find?_eq_some he)
  exact ⟨i, w, List.mem_zipIdx_iff_getElem?.mp hw, by simpa using List.find?_some he, rfl⟩

theorem reads_pointOf (d : Declarations) (x : Key → Rat) : d.Reads x (d.pointOf x) := by
  intro v j h
  obtain ⟨i, w, hw, same, rfl⟩ := exists_place h
  rw [pointOf, Int.toNat_natCast, hw, Option.map_some, Option.getD_some, same]

/-! ## Columns one by one -/

section

variable {K : Type} [Numeric K]

/-- One side of a column, which is another number where there is no bound. -/
def side (absent : K) : Option Value → Except Fault K
  | none => .ok absent
  | some b => Numeric.ofValue b

/-- The column of a variable: its sides, and whether it is integral. -/
def column (K : Type) [Numeric K] (d : Declarations) (v : Value) : Except Fault (K × K × Bool) := do
  let bounds ← d.effectiveBounds v
  let lower ← side Numeric.negInf bounds.lower
  let upper ← side Numeric.posInf bounds.upper
  return (lower, upper, (d.domainOf v).isInt)

theorem enterColumn_eq_ok {n : Nat} {lower upper : List K} {integral : List Bool}
    (hupper : upper.length = lower.length) (hintegral : integral.length = lower.length)
    (hn : lower.length < n) {m : Nat} {lo up : K} {int : Bool}
    (h : d.column K v = .ok (lo, up, int)) :
    d.enterColumn (columnPlaces n)
      ⟨lower ++ List.replicate (m + 1) Numeric.negInf,
        upper ++ List.replicate (m + 1) Numeric.posInf,
        integral ++ List.replicate (m + 1) false⟩ (v, (lower.length : Int)) =
      .ok ⟨lower ++ [lo] ++ List.replicate m Numeric.negInf,
        upper ++ [up] ++ List.replicate m Numeric.posInf,
        integral ++ [int] ++ List.replicate m false⟩ := by
  obtain ⟨bounds, hbounds, h⟩ := bind_eq_ok.mp h
  obtain ⟨lo', hlo, h⟩ := bind_eq_ok.mp h
  obtain ⟨up', hup, h⟩ := bind_eq_ok.mp h
  obtain ⟨rfl, rfl, rfl⟩ : lo' = lo ∧ up' = up ∧ (d.domainOf v).isInt = int := by
    simpa [pure, Except.pure] using h
  have entered {α : Type} (xs ys : List α) (x y : α) (hxs : xs.length = lower.length) :
      setPlaces (xs ++ x :: ys) [lower.length] y = xs ++ y :: ys := by
    simp [setPlaces, ← hxs]
  unfold enterColumn
  simp only [hbounds, List.replicate_succ, List.append_assoc, List.singleton_append,
    columnPlaces_natCast hn, bind, Except.bind, pure, Except.pure, entered]
  rcases bounds with ⟨_ | a, _ | b⟩ <;> simp only [side, Except.ok.injEq] at hlo hup <;>
    cases (d.domainOf v).isInt <;> simp [hlo, hup, entered, hupper, hintegral]

theorem foldlM_enterColumn {n : Nat} {vs : List Value} {cols : List (K × K × Bool)}
    (h : vs.mapM (d.column K) = .ok cols) (lower upper : List K) (integral : List Bool)
    (hupper : upper.length = lower.length) (hintegral : integral.length = lower.length)
    (hn : lower.length + vs.length = n) :
    ((vs.zipIdx lower.length).map fun e => (e.1, (e.2 : Int))).foldlM
      (d.enterColumn (columnPlaces n))
      ⟨lower ++ List.replicate vs.length Numeric.negInf,
        upper ++ List.replicate vs.length Numeric.posInf,
        integral ++ List.replicate vs.length false⟩ =
      .ok ⟨lower ++ cols.map (·.1), upper ++ cols.map (·.2.1), integral ++ cols.map (·.2.2)⟩ := by
  -- The columns entered before stand in front of those that are left.
  rw [mapM_eq_ok] at h
  induction h generalizing lower upper integral with
  | nil => simp [pure, Except.pure]
  | @cons v c vs cols hv _ ih =>
      obtain ⟨lo, up, int⟩ := c
      have here := enterColumn_eq_ok (m := vs.length) hupper hintegral
        (by simp at hn; omega : lower.length < n) hv
      have later := ih (lower ++ [lo]) (upper ++ [up]) (integral ++ [int])
        (by simpa using hupper) (by simpa using hintegral)
        (by simp at hn ⊢; omega)
      rw [List.length_append, List.length_singleton] at later
      rw [List.zipIdx_cons, List.map_cons, List.foldlM_cons, List.length_cons, here]
      simpa [bind, Except.bind] using later

theorem columns_index {cols : List (K × K × Bool)}
    (h : d.variableList.mapM (d.column K) = .ok cols) :
    d.columns d.index = .ok ⟨cols.map (·.1), cols.map (·.2.1), cols.map (·.2.2)⟩ := by
  have folded := foldlM_enterColumn h [] [] [] rfl rfl (Nat.zero_add d.variableList.length)
  rw [columns, columnsAt, size_index]
  exact folded

end

/-! ## Numbers of variables -/

/-- The numbers that a variable may take: those of its domain within its bounds. A boolean one is
forced by a lower bound above zero and by an upper bound below one. -/
def Admits (d : Declarations) (v : Value) (q : Rat) : Prop :=
  match d.domainOf v with
  | .bool => (q = 0 ∨ q = 1) ∧ (∀ b, d.lowers.get? v = some b → 0 < b.toRat → q = 1) ∧
    (∀ b, d.uppers.get? v = some b → b.toRat < 1 → q = 0)
  | .int => (∃ n : Int, q = n) ∧ (∀ b, d.lowers.get? v = some b → b.toRat ≤ q) ∧
    (∀ b, d.uppers.get? v = some b → q ≤ b.toRat)
  | .real => (∀ b, d.lowers.get? v = some b → b.toRat ≤ q) ∧
    (∀ b, d.uppers.get? v = some b → q ≤ b.toRat)

/-- The bounds of a variable are finite numbers where there are any. -/
structure FiniteBounds (d : Declarations) (v : Value) : Prop where
  lower : ∀ b, d.lowers.get? v = some b → b.IsFinite
  upper : ∀ b, d.uppers.get? v = some b → b.IsFinite

/-- A number lies between the sides of a column, and is whole if the column is integral. -/
structure Within (c : Extended × Extended × Bool) (q : Rat) : Prop where
  lower : Numeric.le c.1 (.finite q) = true
  upper : Numeric.le (.finite q) c.2.1 = true
  integral : c.2.2 = true → ∃ n : Int, q = n

theorem side_lower {b : Option Value} (h : ∀ v, b = some v → v.IsFinite) :
    ∃ lo : Extended, side Numeric.negInf b = .ok lo ∧ lo.IsLowerSide ∧
      ∀ q, Numeric.le lo (.finite q) = true ↔ ∀ v, b = some v → v.toRat ≤ q := by
  cases b with
  | none => exact ⟨_, rfl, .inl Extended.numericNegInf, by simp⟩
  | some v => exact ⟨_, (h v rfl).readsFinite, .inr ⟨_, rfl⟩, by simp⟩

theorem side_upper {b : Option Value} (h : ∀ v, b = some v → v.IsFinite) :
    ∃ up : Extended, side Numeric.posInf b = .ok up ∧ up.IsUpperSide ∧
      ∀ q, Numeric.le (.finite q) up = true ↔ ∀ v, b = some v → q ≤ v.toRat := by
  cases b with
  | none => exact ⟨_, rfl, .inl Extended.numericPosInf, by simp⟩
  | some v => exact ⟨_, (h v rfl).readsFinite, .inr ⟨_, rfl⟩, by simp⟩

/-- The column of a variable is there, and the numbers within it are those that it may take. -/
structure Fits (d : Declarations) (v : Value) (c : Extended × Extended × Bool) : Prop where
  column : d.column Extended v = .ok c
  lower : c.1.IsLowerSide
  upper : c.2.1.IsUpperSide
  integral : c.2.2 = (d.domainOf v).isInt
  within : ∀ q, Within c q ↔ d.Admits v q

theorem fits_of_ne_bool (finite : d.FiniteBounds v) (h : d.domainOf v ≠ .bool) :
    ∃ c, d.Fits v c := by
  obtain ⟨lo, hlo, isLower, lower⟩ := side_lower finite.lower
  obtain ⟨up, hup, isUpper, upper⟩ := side_upper finite.upper
  refine ⟨(lo, up, (d.domainOf v).isInt), ?_, isLower, isUpper, rfl, fun q => ?_⟩
  · have bounds : d.effectiveBounds v = .ok ⟨d.lowers.get? v, d.uppers.get? v⟩ := by
      unfold effectiveBounds
      cases hd : d.domainOf v with
      | bool => exact absurd hd h
      | int => rfl
      | real => rfl
    rw [column, bounds]
    simp only [bind, Except.bind, hlo, hup]
    rfl
  · rw [Admits]
    cases hd : d.domainOf v with
    | bool => exact absurd hd h
    | int =>
        constructor
        · rintro ⟨hl, hu, hi⟩
          exact ⟨hi rfl, (lower q).mp hl, (upper q).mp hu⟩
        · rintro ⟨hi, hl, hu⟩
          exact ⟨(lower q).mpr hl, (upper q).mpr hu, fun _ => hi⟩
    | real =>
        constructor
        · rintro ⟨hl, hu, -⟩
          exact ⟨(lower q).mp hl, (upper q).mp hu⟩
        · rintro ⟨hl, hu⟩
          exact ⟨(lower q).mpr hl, (upper q).mpr hu, fun hi => by cases hi⟩

theorem forcedUp {b : Option Value} (h : ∀ v, b = some v → v.IsFinite) :
    ∃ forced, (b.map (·.isAbove (.int 0))).getD (pure false) = .ok forced ∧
      (forced = true ↔ ∃ v, b = some v ∧ 0 < v.toRat) := by
  cases b with
  | none => exact ⟨false, rfl, by simp⟩
  | some v => exact ⟨_, Value.isAbove_zero (h v rfl), by simp⟩

theorem forcedDown {b : Option Value} (h : ∀ v, b = some v → v.IsFinite) :
    ∃ forced, (b.map (·.isBelow (.int 1))).getD (pure false) = .ok forced ∧
      (forced = true ↔ ∃ v, b = some v ∧ v.toRat < 1) := by
  cases b with
  | none => exact ⟨false, rfl, by simp⟩
  | some v => exact ⟨_, Value.isBelow_one (h v rfl), by simp⟩

/-- Between sides that are zero and one there are two whole numbers, unless a side is moved. -/
theorem within_binary (up down : Bool) (q : Rat) :
    Within (.finite (if up then 1 else 0), .finite (if down then 0 else 1), true) q ↔
      (q = 0 ∨ q = 1) ∧ (up = true → q = 1) ∧ (down = true → q = 0) := by
  constructor
  · rintro ⟨hl, hu, hi⟩
    obtain ⟨n, rfl⟩ := hi rfl
    simp only [Extended.le_finite] at hl hu
    have lower : (if up then 1 else 0 : Int) ≤ n := by
      cases up <;> simp at hl ⊢ <;> exact_mod_cast hl
    have upper : n ≤ (if down then 0 else 1 : Int) := by
      cases down <;> simp at hu ⊢ <;> exact_mod_cast hu
    have binary : (n = 0 ∨ n = 1) ∧ (up = true → n = 1) ∧ (down = true → n = 0) := by
      cases up <;> cases down <;> simp at lower upper ⊢ <;> omega
    exact_mod_cast binary
  · rintro ⟨hq, hup, hdown⟩
    refine ⟨?_, ?_, fun _ => ?_⟩
    · rw [Extended.le_finite]
      cases up with
      | true => simp [hup rfl]
      | false => rcases hq with rfl | rfl <;> simp
    · rw [Extended.le_finite]
      cases down with
      | true => simp [hdown rfl]
      | false => rcases hq with rfl | rfl <;> simp
    · rcases hq with rfl | rfl
      · exact ⟨0, by simp⟩
      · exact ⟨1, by simp⟩

theorem fits_of_bool (finite : d.FiniteBounds v) (h : d.domainOf v = .bool) : ∃ c, d.Fits v c := by
  obtain ⟨up, hup, raised⟩ := forcedUp finite.lower
  obtain ⟨down, hdown, lowered⟩ := forcedDown finite.upper
  have bounds : d.effectiveBounds v =
      .ok ⟨some (.int (if up then 1 else 0)), some (.int (if down then 0 else 1))⟩ := by
    simp only [effectiveBounds, h, hup, hdown, bind, Except.bind]
    rfl
  refine ⟨(.finite (if up then 1 else 0), .finite (if down then 0 else 1), true), ?_,
    .inr ⟨_, rfl⟩, .inr ⟨_, rfl⟩, by rw [h]; rfl, fun q => (within_binary up down q).trans ?_⟩
  · rw [column, bounds, h]
    cases up <;> cases down <;>
      simp [side, Numeric.ofValue, bind, Except.bind, Domain.isInt] <;> rfl
  · rw [Admits, h, raised, lowered]
    simp only [forall_exists_index, and_imp]

theorem exists_fits (finite : d.FiniteBounds v) : ∃ c, d.Fits v c := by
  by_cases h : d.domainOf v = .bool
  · exact fits_of_bool finite h
  · exact fits_of_ne_bool finite h

end Declarations

/-! ## All columns -/

/-- A point lies within columns, and is whole where they are integral. -/
structure Columns.Admits (cs : Columns Extended) (p : Nat → Rat) : Prop where
  lower : ∀ (j : Nat) (lo : Extended), cs.lower[j]? = some lo → Numeric.le lo (.finite (p j)) = true
  upper : ∀ (j : Nat) (up : Extended), cs.upper[j]? = some up → Numeric.le (.finite (p j)) up = true
  integral : ∀ j : Nat, cs.integral[j]? = some true → ∃ n : Int, p j = n

namespace Declarations

variable {d : Declarations}

theorem admits_columns {cols : List (Extended × Extended × Bool)} {p : Nat → Rat} :
    Columns.Admits ⟨cols.map (·.1), cols.map (·.2.1), cols.map (·.2.2)⟩ p ↔
      ∀ (j : Nat) (c : Extended × Extended × Bool), cols[j]? = some c → Within c (p j) := by
  constructor
  · rintro ⟨hl, hu, hi⟩ j c hc
    exact ⟨hl j _ (by simp [hc]), hu j _ (by simp [hc]), fun h => hi j (by simp [hc, h])⟩
  · intro h
    refine ⟨fun j lo hlo => ?_, fun j up hup => ?_, fun j hint => ?_⟩
    · obtain ⟨c, hc, rfl⟩ := Option.map_eq_some_iff.mp (List.getElem?_map.symm.trans hlo)
      exact (h j c hc).lower
    · obtain ⟨c, hc, rfl⟩ := Option.map_eq_some_iff.mp (List.getElem?_map.symm.trans hup)
      exact (h j c hc).upper
    · obtain ⟨c, hc, hi⟩ := Option.map_eq_some_iff.mp (List.getElem?_map.symm.trans hint)
      exact (h j c hc).integral hi

/-- Columns say of every point what declarations say of the numbers that it holds. -/
structure Shows (d : Declarations) (cs : Columns Extended) : Prop where
  lowerCount : cs.lower.length = d.index.size
  upperCount : cs.upper.length = d.index.size
  lower : ∀ lo ∈ cs.lower, lo.IsLowerSide
  upper : ∀ up ∈ cs.upper, up.IsUpperSide
  integral : cs.integral = d.variableList.map fun v => (d.domainOf v).isInt
  admits : ∀ x p, d.Reads x p → (cs.Admits p ↔ ∀ v ∈ d.variableList, d.Admits v (x v.key))

/-- `Declarations.columns` gives columns; a point that holds the numbers of an assignment (`Reads`) is
within them exactly if every variable may take its number (`Admits`). -/
theorem exists_columns (distinct : d.Distinct)
    (finite : ∀ v ∈ d.variableList, d.FiniteBounds v) :
    ∃ cs : Columns Extended, d.columns d.index = .ok cs ∧ d.Shows cs := by
  obtain ⟨cols, hcols⟩ := exists_forall₂ fun v hv => exists_fits (finite v hv)
  have length := hcols.length_eq
  have fits : ∀ c ∈ cols, ∃ v, d.Fits v c := by
    intro c hc
    obtain ⟨i, hi⟩ := List.getElem?_of_mem hc
    obtain ⟨v, -, fits⟩ := exists_of_forall₂ hcols.flip hi
    exact ⟨v, fits⟩
  refine ⟨_, columns_index (mapM_eq_ok.mpr (hcols.imp fun _ _ h => h.column)), by simp [length],
    by simp [length], ?_, ?_, ?_, fun x p reads => ?_⟩
  · refine List.forall_mem_map.mpr fun c hc => ?_
    obtain ⟨v, fits⟩ := fits c hc
    exact fits.lower
  · refine List.forall_mem_map.mpr fun c hc => ?_
    obtain ⟨v, fits⟩ := fits c hc
    exact fits.upper
  · refine List.forall₂_eq_eq_eq ▸ ?_
    rw [List.forall₂_map_left_iff, List.forall₂_map_right_iff]
    exact hcols.flip.imp fun _ _ h => h.integral
  rw [admits_columns]
  constructor
  · intro h v hv
    obtain ⟨i, hi⟩ := List.getElem?_of_mem hv
    obtain ⟨c, hc, fits⟩ := exists_of_forall₂ hcols hi
    rw [← reads.at_place distinct hi]
    exact (fits.within _).mp (h i c hc)
  · intro h i c hc
    obtain ⟨v, hi, fits⟩ := exists_of_forall₂ hcols.flip hc
    rw [reads.at_place distinct hi]
    exact (fits.within _).mpr (h v (List.mem_of_getElem? hi))

/-- The sides of the column of a real variable are its bounds, where it has some. -/
theorem exists_sides (finite : ∀ v ∈ d.variableList, d.FiniteBounds v) {cs : Columns Extended}
    (h : d.columns d.index = .ok cs) {j : Nat} {v : Value} (hv : d.variableList[j]? = some v)
    (real : d.domainOf v = .real) :
    ∃ lo up, cs.lower[j]? = some lo ∧ cs.upper[j]? = some up ∧
      side Numeric.negInf (d.lowers.get? v) = .ok lo ∧
      side Numeric.posInf (d.uppers.get? v) = .ok up := by
  obtain ⟨cols, hcols⟩ := exists_forall₂ fun v hv => exists_fits (finite v hv)
  obtain rfl := Except.ok.inj
    (h.symm.trans (columns_index (mapM_eq_ok.mpr (hcols.imp fun _ _ h => h.column))))
  obtain ⟨c, hc, fits⟩ := exists_of_forall₂ hcols hv
  have bounds : d.effectiveBounds v = .ok ⟨d.lowers.get? v, d.uppers.get? v⟩ := by
    rw [effectiveBounds, real]
    rfl
  obtain ⟨b, hb, made⟩ := bind_eq_ok.mp fits.column
  obtain rfl := Except.ok.inj (bounds.symm.trans hb)
  obtain ⟨lo, hlo, rest⟩ := bind_eq_ok.mp made
  obtain ⟨up, hup, last⟩ := bind_eq_ok.mp rest
  obtain rfl := Except.ok.inj last
  exact ⟨lo, up, by simp [hc], by simp [hc], hlo, hup⟩

end Declarations

end Milp
