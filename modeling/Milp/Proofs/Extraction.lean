import Milp.Proofs.Problem.DualTable
import Milp.Proofs.Solution

/-!
# Reading solutions

Values are read variable by variable, whatever the numbers are. What was read has a value for every
variable, and duals are entered into it as they are.
-/

namespace Milp

/-! ## Values by variable -/

/-- A list with an entry for every column gives each variable the entry of its column. -/
theorem Declarations.values_index {α : Type} (d : Declarations) {xs : List α} {missing : Nat → Fault}
    (h : xs.length = d.variableList.length) :
    d.index.values xs missing = .ok ⟨d.variableList.zip xs⟩ := by
  refine bind_eq_ok.mpr ⟨d.variableList.zip xs, mapM_eq_ok.mpr ?_, rfl⟩
  refine List.forall₂_iff_get.mpr ⟨by simp [index, h], fun i hi hi' => ?_⟩
  have here : i < xs.length := by
    simp only [List.length_zip] at hi'
    omega
  simp only [index, List.get_eq_getElem, List.getElem_map, List.getElem_zipIdx, Nat.zero_add,
    Int.toNat_natCast, List.getElem?_eq_getElem here, List.getElem_zip]
  rfl

theorem Declarations.Distinct.require_zip {α : Type} {d : Declarations} (distinct : d.Distinct)
    {xs : List α} (h : xs.length = d.variableList.length) {i : Nat} {v : Value} {x : α}
    (hv : d.variableList[i]? = some v) (hx : xs[i]? = some x) :
    (⟨d.variableList.zip xs⟩ : Table α).require v = .ok x := by
  refine Index.require_values distinct (List.map_fst_zip h.ge) ?_
  exact List.mem_of_getElem? (List.getElem?_zip_eq_some.mpr ⟨hv, hx⟩)

/-- The column of a variable is its place. -/
theorem Declarations.Distinct.require_at {d : Declarations} (distinct : d.Distinct) {i : Nat}
    {v : Value} (hv : d.variableList[i]? = some v) : d.index.require v = .ok (i : Int) :=
  Table.require_eq_ok.mpr
    ⟨distinct.hashable v (List.mem_of_getElem? hv), distinct.get?_index hv rfl⟩

variable {K : Type} [Numeric K]

namespace Solution

variable {d : Declarations} {raw : Value → Except Fault K} {objective : Option (Reported K)}
  {s : Solution K}

/-- There is a value for every variable. -/
def Covers (s : Solution K) (d : Declarations) : Prop :=
  ∀ v ∈ d.variableList, (s.primal.get? v).isSome = true

omit [Numeric K] in
/-- Variables for which values are entered have them, and those that had some keep one. -/
theorem contains_foldlM_insert {vs : List Value} {place : Value → Except Fault (Number K)}
    {t t' : Table (Number K)}
    (h : vs.foldlM (fun t v => do return t.insert v (← place v)) t = .ok t') :
    ∀ w, (t.contains w = true ∨ w ∈ vs) → t'.contains w = true := by
  induction vs generalizing t with
  | nil =>
      obtain rfl := Except.ok.inj h
      exact fun w hw => hw.resolve_right List.not_mem_nil
  | cons v vs ih =>
      rw [List.foldlM_cons] at h
      obtain ⟨t₁, ht₁, h⟩ := bind_eq_ok.mp h
      obtain ⟨n, -, hn⟩ := bind_eq_ok.mp ht₁
      obtain rfl := Except.ok.inj hn
      intro w hw
      refine ih h w ?_
      rw [List.mem_cons] at hw
      rw [Table.contains_insert]
      rcases hw with old | rfl | later
      · exact .inl (.inr old)
      · exact .inl (.inl rfl)
      · exact .inr later

theorem extract_eq (d : Declarations) (raw : Value → Except Fault K)
    (objective : Option (Reported K)) :
    extract d raw objective = (do
      let primal ← d.variableList.foldlM
        (fun t v => do return t.insert v (← raw v >>= roundValue (d.domainOf v))) Table.empty
      return ⟨primal, .empty, objective⟩) := by
  simp only [extract, bind_assoc]

/-- What is read where there is nothing to read from: the solution of a problem without variables. -/
def ofNothing (K : Type) [Numeric K] (d : Declarations) : Except Fault (Solution K) :=
  extract d (fun v => throw (.missingKey v)) none

/-- `Solution.extract` gives a value for every variable, and no duals yet. -/
theorem covers_of_extract (h : extract d raw objective = .ok s) : s.Covers d ∧ s.dual = .empty := by
  rw [extract_eq] at h
  obtain ⟨primal, hprimal, h⟩ := bind_eq_ok.mp h
  obtain rfl := Except.ok.inj h
  refine ⟨fun v hv => ?_, rfl⟩
  rw [Table.isSome_get?]
  exact contains_foldlM_insert hprimal v (.inr hv)

/-- `Solution.extract` gives a solution where a value of each variable can be read. -/
theorem exists_extract (h : ∀ v ∈ d.variableList,
      ∃ x n, raw v = .ok x ∧ roundValue (d.domainOf v) x = .ok n)
    (objective : Option (Reported K)) : ∃ s, extract d raw objective = .ok s := by
  have entered (vs : List Value) (hvs : ∀ v ∈ vs, ∃ x n, raw v = .ok x ∧
      roundValue (d.domainOf v) x = .ok n) (t : Table (Number K)) :
      ∃ t', vs.foldlM (fun t v => do return t.insert v (← raw v >>= roundValue (d.domainOf v))) t =
        .ok t' := by
    induction vs generalizing t with
    | nil => exact ⟨t, rfl⟩
    | cons v vs ih =>
        obtain ⟨⟨x, n, hx, hn⟩, rest⟩ := List.forall_mem_cons.mp hvs
        obtain ⟨t', ht'⟩ := ih rest (t.insert v n)
        refine ⟨t', ?_⟩
        rw [List.foldlM_cons]
        refine bind_eq_ok.mpr ⟨t.insert v n, bind_eq_ok.mpr ⟨n, ?_, rfl⟩, ht'⟩
        exact bind_eq_ok.mpr ⟨x, hx, hn⟩
  obtain ⟨t, ht⟩ := entered d.variableList h .empty
  rw [extract_eq]
  exact ⟨_, bind_eq_ok.mpr ⟨t, ht, rfl⟩⟩

/-- A value of a real variable is taken as it is. -/
theorem exists_extract_of_real (real : ∀ v ∈ d.variableList, d.domainOf v = .real)
    (h : ∀ v ∈ d.variableList, ∃ x, raw v = .ok x) (objective : Option (Reported K)) :
    ∃ s, extract d raw objective = .ok s := by
  refine exists_extract (fun v hv => ?_) objective
  obtain ⟨x, hx⟩ := h v hv
  exact ⟨x, .real x, hx, by rw [real v hv]; rfl⟩

/-- `Solution.extract` gives the rounded value of every variable, and nothing else. -/
theorem exists_number (distinct : d.Distinct) (h : extract d raw objective = .ok s) :
    ∃ number : Value → Number K,
      (∀ v ∈ d.variableList, (raw v >>= roundValue (d.domainOf v)) = .ok (number v)) ∧
        s.primal = ⟨d.variableList.map fun v => (v, number v)⟩ := by
  have each (v : Value) : ∃ n : Number K, v ∈ d.variableList →
      ∃ x, raw v = .ok x ∧ roundValue (d.domainOf v) x = .ok n := by
    by_cases hv : v ∈ d.variableList
    · obtain ⟨_, entered, -⟩ := bind_eq_ok.mp h
      obtain ⟨_, _, read⟩ := foldlM_eq_ok_mem entered v hv
      obtain ⟨x, hx, read⟩ := bind_eq_ok.mp read
      obtain ⟨n, hn, -⟩ := bind_eq_ok.mp read
      exact ⟨n, fun _ => ⟨x, hx, hn⟩⟩
    · exact ⟨.whole 0, fun mem => absurd mem hv⟩
  choose number hnumber using each
  refine ⟨number, fun v hv => bind_eq_ok.mpr (hnumber v hv), ?_⟩
  exact congrArg primal (Except.ok.inj (h.symm.trans (extract_eq_ok distinct hnumber objective)))

omit [Numeric K] in
theorem get?_of_number {number : Value → Number K} (distinct : d.Distinct)
    (primal : s.primal = ⟨d.variableList.map fun v => (v, number v)⟩) {v u : Value}
    (hv : v ∈ d.variableList) (key : v.key = u.key) : s.primal.get? u = some (number v) := by
  rw [primal]
  exact Table.get?_of_pairwise (List.pairwise_map.mpr distinct.keys)
    (List.mem_map_of_mem (f := fun v => (v, number v)) hv) key

/-! ## Duals -/

theorem covers_of_enterDuals {s' : Solution K} {duals : Table (Reported K)}
    (h : s.enterDuals duals = .ok s') (covers : s.Covers d) : s'.Covers d := by
  obtain ⟨read, -, h⟩ := bind_eq_ok.mp h
  obtain rfl := Except.ok.inj h
  exact covers

/-- `enterDuals` leaves a value for every variable. -/
theorem covers_of_extract_enterDuals {duals : Table (Reported K)}
    (h : (do let x ← extract d raw objective; x.enterDuals duals) = .ok s) : s.Covers d := by
  obtain ⟨x, hx, h⟩ := bind_eq_ok.mp h
  exact covers_of_enterDuals h (covers_of_extract hx).1

/-- Duals that were collected and can be read make up the table of the numbers that they are. -/
theorem enterDuals_ofList (new : s.dual = .empty) {es : List (Value × Reported K)}
    {es' : List (Value × K)}
    (h : List.Forall₂ (fun e e' => e.1 = e'.1 ∧ e.2.read = .ok e'.2) es es') :
    s.enterDuals (Table.ofList es) = .ok { s with dual := Table.ofList es' } := by
  have start : List.Forall₂ (fun e e' => e.1 = e'.1 ∧ Reported.read e.2 = .ok e'.2)
      (.empty : Table (Reported K)).entries (.empty : Table K).entries := .nil
  have written : List.Forall₂ (fun e e' => e.1 = e'.1 ∧ Reported.read e.2 = .ok e'.2)
      (Table.ofList es).entries (Table.ofList es').entries :=
    Table.forall₂_insertAll (R := fun r x => Reported.read r = .ok x) start h
  refine bind_eq_ok.mpr ⟨(Table.ofList es').entries, mapM_eq_ok.mpr (written.imp ?_), ?_⟩
  · rintro ⟨k, r⟩ ⟨_, x⟩ ⟨rfl, hx⟩
    rw [hx]
    rfl
  · rw [withDuals, new, Table.insertAll_entries_ofList]
    rfl

end Solution

end Milp
