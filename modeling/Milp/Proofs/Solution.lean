import Mathlib.Algebra.Order.Round
import Milp.Proofs.Linear.Evaluate
import Milp.Solution

/-!
# Values of solutions

Every variable has its value, those of integral variables rounded to the whole number that is less
than one half away. Expressions over the variables can be evaluated at them.
-/

namespace Milp

/-- A rational number as one of a domain. -/
def Domain.number (d : Domain) (a : Rat) : Number Extended :=
  if d.isInt then .whole a.floor else .real (.finite a)

/-- A raw value is close enough to the number of a variable to be taken for it. -/
def Domain.Near (d : Domain) (raw a : Rat) : Prop :=
  if d.isInt then (∃ n : Int, a = n) ∧ |raw - a| < 1 / 2 else raw = a

def Domain.Takes (d : Domain) (a : Rat) : Prop :=
  d.isInt = true → ∃ n : Int, a = n

theorem Domain.Near.takes {d : Domain} {raw a : Rat} (h : d.Near raw a) : d.Takes a := by
  intro integral
  rw [Near, if_pos integral] at h
  exact h.1

/-- A variable that may take a number takes one of its domain. -/
theorem Declarations.Admits.takes {d : Declarations} {v : Value} {a : Rat} (h : d.Admits v a) :
    (d.domainOf v).Takes a := by
  unfold Declarations.Admits at h
  intro integral
  cases hd : d.domainOf v with
  | bool =>
      rw [hd] at h
      rcases h.1 with rfl | rfl
      · exact ⟨0, by simp⟩
      · exact ⟨1, by simp⟩
  | int =>
      rw [hd] at h
      exact h.1
  | real =>
      rw [hd] at integral
      cases integral

theorem Domain.stands_number {d : Domain} {a : Rat} (h : d.Takes a) :
    (d.number a).operand.Stands a := by
  unfold number
  split
  · rename_i integral
    obtain ⟨n, rfl⟩ := h integral
    rw [Rat.floor_intCast]
    exact ⟨rfl, fun _ => ⟨n, rfl⟩⟩
  · exact ⟨rfl, fun h => by cases h⟩

theorem floor_add_half {raw : Rat} {n : Int} (h : |raw - n| < 1 / 2) :
    (raw + 1 / 2).floor = n := by
  obtain ⟨low, high⟩ := abs_lt.mp h
  refine le_antisymm (Int.lt_add_one_iff.mp (Rat.floor_lt_iff.mpr ?_)) (Rat.le_floor_iff.mpr ?_)
  · push_cast
    linarith
  · linarith

/-! ## Values by variable -/

/-- A list with an entry for every column has one for every variable. -/
theorem Index.exists_values {α : Type} (d : Declarations) {xs : List α} (missing : Nat → Fault)
    (h : xs.length = d.index.size) :
    ∃ es, d.index.values xs missing = .ok ⟨es⟩ ∧ es.map (·.1) = d.variableList ∧
      ∀ (i : Nat) v x, d.variableList[i]? = some v → xs[i]? = some x → (v, x) ∈ es := by
  have each : ∀ e ∈ d.index.entries, ∃ y : Value × α, y.1 = e.1 ∧ xs[e.2.toNat]? = some y.2 := by
    rintro e he
    obtain ⟨⟨v, i⟩, hv, rfl⟩ := List.mem_map.mp he
    obtain ⟨hlt, -⟩ := List.getElem?_eq_some_iff.mp (List.mem_zipIdx_iff_getElem?.mp hv)
    rw [Declarations.size_index] at h
    exact ⟨(v, xs[i]), rfl, by simp [h, hlt]⟩
  obtain ⟨es, hes⟩ := exists_forall₂ each
  have keys : es.map (·.1) = d.index.entries.map (·.1) := by
    rw [← List.forall₂_eq_eq_eq, List.forall₂_map_left_iff, List.forall₂_map_right_iff]
    exact hes.flip.imp fun _ _ h => h.1
  refine ⟨es, ?_, keys.trans (by simp [Declarations.index, Function.comp_def]), ?_⟩
  · refine bind_eq_ok.mpr ⟨es, mapM_eq_ok.mpr (hes.imp fun e y h => ?_), rfl⟩
    simp only [h.2, ← h.1]
    rfl
  · intro i v x hv hx
    have entry : d.index.entries[i]? = some (v, (i : Int)) := by
      simp [Declarations.index, List.getElem?_zipIdx, hv]
    obtain ⟨y, hy, key, value⟩ := exists_of_forall₂ hes entry
    obtain rfl := Option.some.inj (hx.symm.trans value)
    obtain rfl : y.1 = v := key
    exact List.mem_of_getElem? hy

theorem Index.require_values {α : Type} {d : Declarations} (distinct : d.Distinct)
    {es : List (Value × α)} (keys : es.map (·.1) = d.variableList) {v : Value} {x : α}
    (h : (v, x) ∈ es) : (⟨es⟩ : Table α).require v = .ok x := by
  have hv : v ∈ d.variableList := keys ▸ List.mem_map_of_mem h
  refine Table.require_eq_ok.mpr ⟨distinct.hashable v hv, ?_⟩
  have apart := distinct.keys
  rw [← keys, List.pairwise_map] at apart
  exact Table.get?_of_pairwise apart h rfl

namespace Solution

theorem roundValue_of_near {d : Domain} {raw a : Rat} (h : d.Near raw a) :
    roundValue d (Extended.finite raw) = .ok (d.number a) := by
  unfold Domain.Near at h
  unfold roundValue Domain.number
  split
  · rename_i integral
    obtain ⟨⟨n, rfl⟩, close⟩ := (if_pos integral ▸ h :)
    rw [Extended.numericHalf, Extended.finite_add, Rat.floor_intCast]
    exact congrArg (fun k => Except.ok (Number.whole k)) (floor_add_half close)
  · rename_i continuous
    obtain rfl : raw = a := (if_neg continuous ▸ h :)
    rfl

theorem foldlM_insert {α : Type} (es : List (Value × α)) {vs : List Value}
    {place : Value → Except Fault α} {number : Value → α}
    (apart : vs.Pairwise fun v w => v.key ≠ w.key)
    (new : ∀ e ∈ es, ∀ v ∈ vs, e.1.key ≠ v.key) (h : ∀ v ∈ vs, place v = .ok (number v)) :
    vs.foldlM (fun t v => do return t.insert v (← place v)) (⟨es⟩ : Table α) =
      .ok ⟨es ++ vs.map fun v => (v, number v)⟩ := by
  induction vs generalizing es with
  | nil => simp [pure, Except.pure]
  | cons v vs ih =>
      obtain ⟨head, tail⟩ := List.pairwise_cons.mp apart
      obtain ⟨here, rest⟩ := List.forall_mem_cons.mp h
      have first : (⟨es⟩ : Table α).insert v (number v) =
          ⟨es ++ [(v, number v)]⟩ :=
        Table.insert_of_forall_ne fun e he => new e he v List.mem_cons_self
      have later := ih (es ++ [(v, number v)]) tail ?_ rest
      · rw [List.foldlM_cons, here]
        simp only [bind, Except.bind, pure, Except.pure] at later ⊢
        rw [first, later, List.append_assoc, List.map_cons, List.singleton_append]
      · intro e he w hw
        rcases List.mem_append.mp he with he | he
        · exact new e he w (List.mem_cons_of_mem v hw)
        · obtain rfl := List.mem_singleton.mp he
          exact head w hw

theorem extract_eq_ok {K : Type} [Numeric K] {d : Declarations} (distinct : d.Distinct)
    {raw : Value → Except Fault K} {number : Value → Number K}
    (h : ∀ v ∈ d.variableList, ∃ x, raw v = .ok x ∧ roundValue (d.domainOf v) x = .ok (number v))
    (objective : Option (Reported K)) :
    extract d raw objective =
      .ok ⟨⟨d.variableList.map fun v => (v, number v)⟩, .empty, objective⟩ := by
  have placed : ∀ v ∈ d.variableList,
      (raw v >>= roundValue (d.domainOf v)) = .ok (number v) := by
    intro v hv
    obtain ⟨x, hx, rounded⟩ := h v hv
    exact bind_eq_ok.mpr ⟨x, hx, rounded⟩
  have entered := foldlM_insert [] distinct.keys (by simp) placed
  simp only [bind_assoc, List.nil_append] at entered
  exact bind_eq_ok.mpr ⟨_, entered, rfl⟩

/-! ## Expressions -/

variable {d : Declarations} {x : Key → Rat}

/-- The values of a solution are the numbers of the variables. -/
structure Holds (s : Solution Extended) (d : Declarations) (x : Key → Rat) : Prop where
  primal : s.primal = ⟨d.variableList.map fun v => (v, (d.domainOf v).number (x v.key))⟩
  takes : ∀ v ∈ d.variableList, (d.domainOf v).Takes (x v.key)

theorem Holds.get? {s : Solution Extended} (h : s.Holds d x) (distinct : d.Distinct) {v w : Value}
    (hw : w ∈ d.variableList) (same : w.key = v.key) :
    s.primal.get? v = some ((d.domainOf w).number (x w.key)) := by
  rw [h.primal]
  refine Table.get?_of_pairwise (e := (w, (d.domainOf w).number (x w.key))) ?_
    (List.mem_map_of_mem hw) same
  exact List.pairwise_map.mpr distinct.keys

/-- An expression over registered variables can be evaluated at a solution. -/
theorem Holds.evaluate {s : Solution Extended} (h : s.Holds d x) (distinct : d.Distinct)
    {l : Linear} (enters : ∀ t ∈ l.terms, d.Enters t) :
    ∃ n, s.evaluate l = .ok n ∧ n.Denotes ((l : Expression).total x) := by
  refine Linear.evaluate_denotes (fun t ht => (enters t ht).finite) fun t ht => ?_
  obtain ⟨w, hw, same⟩ := (enters t ht).registered.exists_mem
  have found : s.primal.lookup t.var = .ok (some ((d.domainOf w).number (x w.key))) :=
    Table.lookup_eq_ok.mpr ⟨(enters t ht).registered.hashable, h.get? distinct hw same⟩
  exact ⟨_, bind_eq_ok.mpr ⟨_, found, rfl⟩, same ▸ Domain.stands_number (h.takes w hw)⟩

end Solution

end Milp
