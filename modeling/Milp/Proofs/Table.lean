import Milp.Proofs.Computation
import Milp.Table

/-!
# Looking up
-/

namespace Milp.Table

variable {α : Type} {t : Table α} {k : Value} {v : α}

theorem lookup_eq_ok {found : Option α} :
    t.lookup k = .ok found ↔ k.checkKey = .ok () ∧ t.get? k = found := by
  rw [lookup, bind_eq_ok]
  constructor
  · rintro ⟨⟨⟩, hkey, h⟩
    exact ⟨hkey, Except.ok.inj h⟩
  · rintro ⟨hkey, rfl⟩
    exact ⟨(), hkey, rfl⟩

/-- What must be there under a key is found if the key can be one and there is an entry. -/
theorem require_eq_ok : t.require k = .ok v ↔ k.checkKey = .ok () ∧ t.get? k = some v := by
  rw [require, bind_eq_ok]
  constructor
  · rintro ⟨found, hfound, h⟩
    obtain ⟨hkey, rfl⟩ := lookup_eq_ok.mp hfound
    cases hk : t.get? k with
    | none => simp [hk] at h
    | some w =>
        rw [hk] at h
        exact ⟨hkey, congrArg some (Except.ok.inj h)⟩
  · rintro ⟨hkey, hk⟩
    exact ⟨some v, lookup_eq_ok.mpr ⟨hkey, hk⟩, rfl⟩

/-- The value that a dictionary has under a key; an absent value counts as none. -/
def given? (t : Table Value) (k : Value) : Option Value :=
  (t.get? k).bind Value.toOption

theorem put_of_forall_ne {es : List (Value × α)} (new : ∀ e ∈ es, e.1.key ≠ k.key) :
    put k.key k v es = es ++ [(k, v)] := by
  induction es with
  | nil => rfl
  | cons e es ih =>
      obtain ⟨head, tail⟩ := List.forall_mem_cons.mp new
      rw [put, if_neg (by simpa using head), ih tail, List.cons_append]

theorem insert_of_forall_ne (new : ∀ e ∈ t.entries, e.1.key ≠ k.key) :
    t.insert k v = ⟨t.entries ++ [(k, v)]⟩ :=
  congrArg Table.mk (put_of_forall_ne new)

/-- `insert` puts one entry under the key, in any spelling, among others that were there. -/
theorem exists_insert (t : Table α) (k : Value) (v : α) : ∃ before k' after,
    (t.insert k v).entries = before ++ (k', v) :: after ∧ k'.key = k.key ∧
      ∀ e ∈ before ++ after, e ∈ t.entries := by
  obtain ⟨es⟩ := t
  change ∃ before k' after, put k.key k v es = before ++ (k', v) :: after ∧ k'.key = k.key ∧
    ∀ e ∈ before ++ after, e ∈ es
  induction es with
  | nil => exact ⟨[], k, [], rfl, rfl, by simp⟩
  | cons e es ih =>
      by_cases same : e.1.key = k.key
      · exact ⟨[], e.1, es, by simp [put, same], same, fun _ => List.mem_cons_of_mem _⟩
      · obtain ⟨before, k', after, written, hk', kept⟩ := ih
        refine ⟨e :: before, k', after, by simp [put, same, written], hk', ?_⟩
        exact List.forall_mem_cons.mpr
          ⟨List.mem_cons_self, fun e' he' => List.mem_cons_of_mem _ (kept e' he')⟩

theorem get?_cons_self {e : Value × α} {es : List (Value × α)} (same : e.1.key = k.key) :
    (⟨e :: es⟩ : Table α).get? k = some e.2 := by
  simp [get?, same]

theorem get?_cons_of_ne {e : Value × α} {es : List (Value × α)} (other : e.1.key ≠ k.key) :
    (⟨e :: es⟩ : Table α).get? k = (⟨es⟩ : Table α).get? k := by
  simp [get?, other]

theorem get?_eq_none {es : List (Value × α)} (others : ∀ e ∈ es, e.1.key ≠ k.key) :
    (⟨es⟩ : Table α).get? k = none := by
  simpa [get?] using others

theorem get?_of_pairwise {es : List (Value × α)}
    (apart : es.Pairwise fun e e' => e.1.key ≠ e'.1.key) {e : Value × α} (he : e ∈ es)
    (same : e.1.key = k.key) : (⟨es⟩ : Table α).get? k = some e.2 := by
  have found : es.find? (fun e => e.1.key == k.key) = some e := by
    induction es with
    | nil => cases he
    | cons e' es ih =>
        obtain ⟨head, tail⟩ := List.pairwise_cons.mp apart
        rcases List.mem_cons.mp he with rfl | he
        · exact List.find?_cons_of_pos (by simpa using same)
        · rw [List.find?_cons_of_neg (by simpa [← same] using head e he)]
          exact ih tail he
  rw [get?, found]
  rfl

/-- Where keys are told apart, the order of the entries does not matter. -/
theorem get?_perm {es es' : List (Value × α)} (apart : es.Pairwise fun e e' => e.1.key ≠ e'.1.key)
    (h : es.Perm es') : (⟨es⟩ : Table α).get? k = (⟨es'⟩ : Table α).get? k := by
  have apart' : es'.Pairwise fun e e' => e.1.key ≠ e'.1.key :=
    (h.pairwise_iff fun hne => hne.symm).mp apart
  by_cases found : ∃ e ∈ es, e.1.key = k.key
  · obtain ⟨e, he, same⟩ := found
    rw [get?_of_pairwise apart he same, get?_of_pairwise apart' (h.mem_iff.mp he) same]
  · have absent : ∀ e ∈ es, e.1.key ≠ k.key := by simpa using found
    rw [get?_eq_none absent, get?_eq_none fun e he => absent e (h.mem_iff.mpr he)]

theorem eq_of_get?_singleton {k' : Value} {w : α}
    (h : (⟨[(k, v)]⟩ : Table α).get? k' = some w) : w = v := by
  simp only [get?, List.find?_singleton] at h
  split at h
  · exact (Option.some.inj h).symm
  · cases h

theorem contains_insert (k' : Value) :
    (t.insert k v).contains k' = true ↔ k.key = k'.key ∨ t.contains k' = true := by
  rw [← isSome_get?, ← isSome_get? t]
  by_cases h : k.key = k'.key
  · rw [← get?_congr h, get?_insert_self]
    simp [h]
  · rw [get?_insert_of_ne h]
    simp [h]

theorem contains_of_contains_erase {k' : Value} (h : (t.erase k).contains k' = true) :
    t.contains k' = true := by
  obtain ⟨e, he, same⟩ := List.any_eq_true.mp h
  exact List.any_eq_true.mpr ⟨e, List.mem_of_mem_filter he, same⟩

theorem insertAll_of_pairwise {es : List (Value × α)}
    (apart : ((t.entries ++ es).map (·.1)).Pairwise fun k k' => k.key ≠ k'.key) :
    t.insertAll es = ⟨t.entries ++ es⟩ := by
  induction es generalizing t with
  | nil => simp [insertAll]
  | cons e es ih =>
      have new : ∀ e' ∈ t.entries, e'.1.key ≠ e.1.key := fun e' he' =>
        (List.pairwise_append.mp (List.pairwise_map.mp apart)).2.2 e' he' e List.mem_cons_self
      have inserted : t.insert e.1 e.2 = ⟨t.entries ++ [e]⟩ := insert_of_forall_ne new
      have later : (t.insert e.1 e.2).insertAll es = ⟨(t.insert e.1 e.2).entries ++ es⟩ :=
        ih (by simpa [inserted] using apart)
      rw [insertAll, List.foldl_cons, ← insertAll, later, inserted, List.append_assoc,
        List.singleton_append]

/-- Entries under keys that are told apart are written one after the other as they are. -/
theorem ofList_of_pairwise {es : List (Value × α)}
    (apart : (es.map (·.1)).Pairwise fun k k' => k.key ≠ k'.key) : ofList es = ⟨es⟩ :=
  insertAll_of_pairwise (t := .empty) apart

theorem insertAll_ofList {es : List (Value × α)}
    (apart : (es.map (·.1)).Pairwise fun k k' => k.key ≠ k'.key) :
    empty.insertAll (ofList es).entries = ⟨es⟩ := by
  rw [ofList_of_pairwise apart]
  exact ofList_of_pairwise apart

theorem collect_eq_ok {es : List (Value × α)} (h : ∀ e ∈ es, e.1.checkKey = .ok ()) :
    collect es = .ok (ofList es) :=
  bind_eq_ok.mpr ⟨(), forM_eq_ok.mpr h, rfl⟩

/-! ## Entries written one after the other -/

theorem get?_insertAll_of_forall_ne {es : List (Value × α)} (h : ∀ e ∈ es, e.1.key ≠ k.key) :
    (t.insertAll es).get? k = t.get? k := by
  induction es generalizing t with
  | nil => rfl
  | cons e es ih =>
      obtain ⟨head, tail⟩ := List.forall_mem_cons.mp h
      rw [insertAll, List.foldl_cons, ← insertAll, ih tail, get?_insert_of_ne head]

/-- What is written after all others of its key is found under it. -/
theorem get?_insertAll_of_last {es : List (Value × α)} {i : Nat} {e : Value × α}
    (h : es[i]? = some e) (last : ∀ j e', i < j → es[j]? = some e' → e'.1.key ≠ e.1.key) :
    (t.insertAll es).get? e.1 = some e.2 := by
  induction es generalizing t i with
  | nil => cases h
  | cons e' es ih =>
      rw [insertAll, List.foldl_cons, ← insertAll]
      cases i with
      | zero =>
          obtain rfl := Option.some.inj h
          rw [get?_insertAll_of_forall_ne, get?_insert_self]
          intro e' he'
          obtain ⟨j, hj⟩ := List.getElem?_of_mem he'
          exact last (j + 1) e' (Nat.succ_pos j) hj
      | succ i => exact ih h fun j e'' hj he'' => last (j + 1) e'' (Nat.succ_lt_succ hj) he''

/-- `insertAll` of entries whose keys are told apart goes before what was there under those keys. -/
theorem get?_insertAll {es : List (Value × α)}
    (apart : es.Pairwise fun e e' => e.1.key ≠ e'.1.key) :
    (t.insertAll es).get? k = ((⟨es⟩ : Table α).get? k).or (t.get? k) := by
  induction es generalizing t with
  | nil => rfl
  | cons e es ih =>
      obtain ⟨head, tail⟩ := List.pairwise_cons.mp apart
      rw [insertAll, List.foldl_cons, ← insertAll, ih tail]
      by_cases same : e.1.key = k.key
      · have later : (⟨es⟩ : Table α).get? k = none :=
          get?_eq_none fun e' he' h => head e' he' (same.trans h.symm)
        rw [later, get?_cons_self same, ← get?_congr same, get?_insert_self]
        rfl
      · rw [get?_cons_of_ne same, get?_insert_of_ne same]

theorem pairwise_keys_insert (h : t.keys.Pairwise fun k k' => k.key ≠ k'.key) :
    (t.insert k v).keys.Pairwise fun k k' => k.key ≠ k'.key := by
  rw [keys_insert]
  split
  · exact h
  · rename_i new
    refine List.pairwise_append.mpr ⟨h, List.pairwise_singleton _ _, fun k' hk' w hw => ?_⟩
    obtain rfl := List.mem_singleton.mp hw
    obtain ⟨e, he, rfl⟩ := List.mem_map.mp hk'
    exact fun same => new (List.any_eq_true.mpr ⟨e, he, by simpa using same⟩)

theorem pairwise_keys_insertAll {es : List (Value × α)}
    (h : t.keys.Pairwise fun k k' => k.key ≠ k'.key) :
    (t.insertAll es).keys.Pairwise fun k k' => k.key ≠ k'.key := by
  induction es generalizing t with
  | nil => exact h
  | cons e es ih => exact ih (pairwise_keys_insert h)

theorem mem_keys_insertAll {es : List (Value × α)} (h : k ∈ (t.insertAll es).keys) :
    k ∈ t.keys ∨ ∃ e ∈ es, e.1 = k := by
  induction es generalizing t with
  | nil => exact .inl h
  | cons e es ih =>
      rcases ih h with old | ⟨e', he', same⟩
      · rw [keys_insert] at old
        split at old
        · exact .inl old
        · rcases List.mem_append.mp old with old | new
          · exact .inl old
          · exact .inr ⟨e, List.mem_cons_self, (List.mem_singleton.mp new).symm⟩
      · exact .inr ⟨e', List.mem_cons_of_mem _ he', same⟩

/-- Writing the entries of a table that was written gives that table again. -/
theorem insertAll_entries_ofList (es : List (Value × α)) :
    empty.insertAll (ofList es).entries = ofList es :=
  ofList_of_pairwise (pairwise_keys_insertAll List.Pairwise.nil)

theorem size_insert : (t.insert k v).size = if t.contains k then t.size else t.size + 1 := by
  rw [← length_keys, keys_insert]
  split <;> simp

/-- Every entry counts if and only if all keys are told apart, from each other and from those that
were there before. -/
theorem size_insertAll_iff {es : List (Value × α)} :
    (t.insertAll es).size ≤ t.size + es.length ∧
      ((t.insertAll es).size = t.size + es.length ↔
        (∀ e ∈ es, t.contains e.1 = false) ∧
          (es.map (·.1)).Pairwise fun k k' => k.key ≠ k'.key) := by
  induction es generalizing t with
  | nil => simp [insertAll]
  | cons e es ih =>
      obtain ⟨most, all⟩ := ih (t := t.insert e.1 e.2)
      rw [insertAll, List.foldl_cons, ← insertAll]
      rw [size_insert] at most all
      rw [List.length_cons, List.forall_mem_cons, List.map_cons, List.pairwise_cons,
        List.forall_mem_map]
      cases new : t.contains e.1 with
      | true =>
          rw [new, if_pos rfl] at most
          refine ⟨by omega, fun h => by omega, fun h => ?_⟩
          simp at h
      | false =>
          rw [new, if_neg Bool.false_ne_true] at most all
          refine ⟨by omega, ?_⟩
          rw [show t.size + (es.length + 1) = t.size + 1 + es.length by omega, all]
          have apart (e' : Value × α) : (t.insert e.1 e.2).contains e'.1 = false ↔
              e.1.key ≠ e'.1.key ∧ t.contains e'.1 = false := by
            rw [← Bool.not_eq_true, contains_insert, not_or, Bool.not_eq_true]
          simp only [apart]
          constructor
          · exact fun ⟨each, rest⟩ =>
              ⟨⟨trivial, fun e' he' => (each e' he').2⟩, fun e' he' => (each e' he').1, rest⟩
          · exact fun ⟨⟨_, old⟩, each, rest⟩ => ⟨fun e' he' => ⟨each e' he', old e' he'⟩, rest⟩

/-- There are as many entries as were written if and only if their keys are told apart. -/
theorem size_ofList_eq_iff {es : List (Value × α)} :
    (ofList es).size = es.length ↔ (es.map (·.1)).Pairwise fun k k' => k.key ≠ k'.key := by
  have counted : ((empty : Table α).insertAll es).size = empty.size + es.length ↔ _ :=
    size_insertAll_iff.2
  rw [show (empty : Table α).size = 0 from rfl, Nat.zero_add] at counted
  rw [ofList, counted]
  exact and_iff_right fun _ _ => rfl

section

variable {β : Type} {R : α → β → Prop}

theorem forall₂_put {es : List (Value × α)} {es' : List (Value × β)} {w : β} (hv : R v w)
    (h : List.Forall₂ (fun e e' => e.1 = e'.1 ∧ R e.2 e'.2) es es') :
    List.Forall₂ (fun e e' => e.1 = e'.1 ∧ R e.2 e'.2) (put k.key k v es) (put k.key k w es') := by
  induction h with
  | nil => exact .cons ⟨rfl, hv⟩ .nil
  | @cons e e' es es' he rest ih =>
      rw [put, put, ← he.1]
      split
      · exact .cons ⟨rfl, hv⟩ rest
      · exact .cons he ih

/-- Entries that stand in a relation one by one still do once they are written. -/
theorem forall₂_insertAll {es : List (Value × α)} {es' : List (Value × β)} {t' : Table β}
    (ht : List.Forall₂ (fun e e' => e.1 = e'.1 ∧ R e.2 e'.2) t.entries t'.entries)
    (h : List.Forall₂ (fun e e' => e.1 = e'.1 ∧ R e.2 e'.2) es es') :
    List.Forall₂ (fun e e' => e.1 = e'.1 ∧ R e.2 e'.2) (t.insertAll es).entries
      (t'.insertAll es').entries := by
  induction h generalizing t t' with
  | nil => exact ht
  | @cons e e' es es' he _ ih =>
      have head := forall₂_put (k := e.1) he.2 ht
      have written : List.Forall₂ (fun e e' => e.1 = e'.1 ∧ R e.2 e'.2) (t.insert e.1 e.2).entries
          (t'.insert e'.1 e'.2).entries := by
        rw [insert, insert, ← he.1]
        exact head
      exact ih written

end

end Milp.Table
