import Milp.Proofs.Problem.Registration

/-!
# The list of variables

A variable is listed at the end when it is first registered, and stays where it is, so that its
column never changes. What is declared of variables is declared of listed ones.
-/

namespace Milp.Declarations

open Milp.Action (runOn_bind)

/-- Values with one more at the end, unless it is the same as one of them. -/
def enlist (vs : List Value) (v : Value) : List Value :=
  if vs.any (·.same v) then vs else vs ++ [v]

/-- A variable is listed, however it is spelled. -/
def Listed (d : Declarations) (v : Value) : Prop :=
  ∃ w ∈ d.variableList, w.same v

/-- What is declared of variables is declared of registered ones. -/
structure Covered (d : Declarations) : Prop where
  domains : ∀ v, d.domains.contains v → d.vars.contains v
  lowers : ∀ v, d.lowers.contains v → d.vars.contains v
  uppers : ∀ v, d.uppers.contains v → d.vars.contains v

section

variable {d d' : Declarations} {v w : Value}

/-! ## Listing one variable after the other -/

theorem prefix_enlist (vs : List Value) (v : Value) : vs <+: enlist vs v := by
  unfold enlist
  split
  · exact List.prefix_refl _
  · exact List.prefix_append _ _

theorem prefix_foldl_enlist (vs us : List Value) : vs <+: us.foldl enlist vs := by
  induction us generalizing vs with
  | nil => exact List.prefix_refl _
  | cons u us ih => exact (prefix_enlist vs u).trans (ih _)

theorem variableList_insertNew (d : Declarations) (v : Value) :
    ({ d with vars := d.vars.insertNew v () } : Declarations).variableList =
      enlist d.variableList v := by
  have listed : d.variableList.any (·.same v) = d.vars.contains v := by
    simp [variableList, Table.keys, Table.contains, Value.same, List.any_map, Function.comp_def]
  rw [enlist, listed]
  exact Table.keys_insertNew d.vars v ()

theorem contains_iff_listed : d.vars.contains v = true ↔ d.Listed v := by
  simp [Listed, variableList, Table.keys, Table.contains]

/-- A variable stays listed for as long as the list only goes on. -/
theorem listed_mono (h : d.variableList <+: d'.variableList) (hv : d.Listed v) :
    d'.Listed v := by
  obtain ⟨w, hw, same⟩ := hv
  exact ⟨w, h.subset hw, same⟩

/-! ## Columns -/

/-- The listed variables are those that have a column. -/
theorem Distinct.listed_iff (h : d.Distinct) :
    d.Listed v ↔ ∃ j < d.variableList.length, d.index.get? v = some (j : Int) := by
  constructor
  · rintro ⟨w, hw, same⟩
    obtain ⟨j, hj, rfl⟩ := List.getElem_of_mem hw
    refine ⟨j, hj, h.get?_index (List.getElem?_eq_getElem hj) ?_⟩
    exact (Value.same_iff _ _).mp same
  · rintro ⟨j, -, hj⟩
    obtain ⟨i, w, hw, same, -⟩ := exists_place hj
    exact ⟨w, List.mem_of_getElem? hw, (Value.same_iff _ _).mpr same⟩

theorem Distinct.exists_of_column (h : d.Distinct) {j : Nat} (hj : j < d.variableList.length) :
    ∃ v ∈ d.variableList, d.index.get? v = some (j : Int) :=
  ⟨_, List.getElem_mem hj, h.get?_index (List.getElem?_eq_getElem hj) rfl⟩

theorem same_of_column {j : Int} (hv : d.index.get? v = some j) (hw : d.index.get? w = some j) :
    v.same w := by
  obtain ⟨i, u, hu, same, rfl⟩ := exists_place hv
  obtain ⟨i', u', hu', same', h⟩ := exists_place hw
  obtain rfl : i = i' := Int.ofNat.inj h
  obtain rfl : u = u' := Option.some.inj (hu.symm.trans hu')
  exact (Value.same_iff _ _).mpr (same.symm.trans same')

/-- A variable keeps its column for as long as the list only goes on. -/
theorem get?_index_mono (h : d'.Distinct) (more : d.variableList <+: d'.variableList) {j : Int}
    (hv : d.index.get? v = some j) : d'.index.get? v = some j := by
  obtain ⟨i, w, hw, same, rfl⟩ := exists_place hv
  obtain ⟨hi, rfl⟩ := List.getElem?_eq_some_iff.mp hw
  exact h.get?_index (List.prefix_iff_getElem?.mp more i hi) same

/-! ## Declarations of listed variables -/

theorem Covered.of_vars_eq (h : d.Covered) (vars : d'.vars = d.vars)
    (domains : ∀ w, d'.domains.contains w → d.domains.contains w ∨ d.vars.contains w)
    (lowers : ∀ w, d'.lowers.contains w → d.lowers.contains w ∨ d.vars.contains w)
    (uppers : ∀ w, d'.uppers.contains w → d.uppers.contains w ∨ d.vars.contains w) :
    d'.Covered := by
  rw [← vars] at domains lowers uppers
  refine ⟨fun w hw => ?_, fun w hw => ?_, fun w hw => ?_⟩
  · exact (domains w hw).elim (fun old => vars ▸ h.domains w old) id
  · exact (lowers w hw).elim (fun old => vars ▸ h.lowers w old) id
  · exact (uppers w hw).elim (fun old => vars ▸ h.uppers w old) id

theorem contains_insert_registered {α : Type} {t : Table α} {x : α} (registered : d.Registered v)
    (h : (t.insert v x).contains w) : t.contains w ∨ d.vars.contains w := by
  rcases (Table.contains_insert w).mp h with same | old
  · exact .inr ((Table.contains_congr same d.vars).symm.trans registered.contains)
  · exact .inl old

end

/-! ## Actions that register variables -/

section

variable {σ α β : Type} {part : σ → Declarations} {s : Logged σ} {vs us : List Value}

/-- An action registers the variables `vs` in order, and nothing else; if it is broken off, then it
has registered the first of them. -/
structure Enlists (part : σ → Declarations) (vs : List Value) (a : Action σ α) (s : Logged σ) :
    Prop where
  covered : (part s.state).Covered → (part (a.runOn s).2.state).Covered
  listed : ∃ ws, ws <+: vs ∧ (∀ x, (a.runOn s).1 = .ok x → ws = vs) ∧
    (part (a.runOn s).2.state).variableList = ws.foldl enlist (part s.state).variableList

theorem Enlists.of_runOn_eq {a b : Action σ α} (h : Enlists part vs a s)
    (run : b.runOn s = a.runOn s) : Enlists part vs b s :=
  ⟨run ▸ h.covered, run ▸ h.listed⟩

/-- An action that leaves alone what is known of variables. -/
theorem enlists_nil {a : Action σ α} (same : part (a.runOn s).2.state = part s.state) :
    Enlists part [] a s := by
  refine ⟨fun h => same ▸ h, [], List.prefix_refl _, fun _ _ => rfl, ?_⟩
  rw [same, List.foldl_nil]

theorem enlists_throw (vs : List Value) (f : Fault) :
    Enlists part vs (throw f : Action σ α) s :=
  ⟨id, [], List.nil_prefix, nofun, rfl⟩

theorem Enlists.bind {a : Action σ α} {f : α → Action σ β} (ha : Enlists part vs a s)
    (hf : ∀ x s₁, a.runOn s = (.ok x, s₁) → Enlists part us (f x) s₁) :
    Enlists part (vs ++ us) (a >>= f) s := by
  obtain ⟨covered, ws, first, all, list⟩ := ha
  rcases h : a.runOn s with ⟨e | x, s₁⟩
  · have run : (a >>= f).runOn s = (.error e, s₁) := by rw [runOn_bind, h]
    rw [h] at covered list
    refine ⟨by rwa [run], ws, first.trans (List.prefix_append _ _), ?_, by rwa [run]⟩
    rw [run]
    nofun
  · have run : (a >>= f).runOn s = (f x).runOn s₁ := by rw [runOn_bind, h]
    rw [h] at covered all list
    obtain ⟨covered', ws', first', all', list'⟩ := hf x s₁ h
    obtain rfl := all x rfl
    refine ⟨by rw [run]; exact covered' ∘ covered, ws ++ ws', ?_, ?_, ?_⟩
    · exact (List.prefix_append_right_inj ws).mpr first'
    · rw [run]
      exact fun y hy => congrArg (ws ++ ·) (all' y hy)
    · rw [run, list', list, List.foldl_append]

/-- An action that goes on after a part that registers nothing. -/
theorem Enlists.nil_bind {a : Action σ α} {f : α → Action σ β} (ha : Enlists part [] a s)
    (hf : ∀ x s₁, a.runOn s = (.ok x, s₁) → Enlists part us (f x) s₁) :
    Enlists part us (a >>= f) s :=
  ha.bind hf

/-- An action that goes on without registering anything more. -/
theorem Enlists.bind_nil {a : Action σ α} {f : α → Action σ β} (ha : Enlists part vs a s)
    (hf : ∀ x s₁, a.runOn s = (.ok x, s₁) → Enlists part [] (f x) s₁) :
    Enlists part vs (a >>= f) s :=
  List.append_nil vs ▸ ha.bind hf

end

/-! ## Calls that declare something of a variable -/

section

variable {s : Logged Declarations}

theorem enlists_register (v : Value) : Enlists id [v] (register v) s := by
  refine Enlists.nil_bind (enlists_nil rfl) fun _ s₁ _ => ⟨fun h => ?_, [v], ?_⟩
  · have more (w : Value) (hw : s₁.state.vars.contains w) :
        (s₁.state.vars.insertNew v ()).contains w := by
      rw [contains_insertNew, hw, Bool.true_or]
    exact ⟨fun w hw => more w (h.domains w hw), fun w hw => more w (h.lowers w hw),
      fun w hw => more w (h.uppers w hw)⟩
  · exact ⟨List.prefix_refl _, fun _ _ => rfl, variableList_insertNew _ _⟩

/-- A change to what is known of variables besides their list. -/
theorem enlists_declare {f : Declarations → Declarations} (vars : ∀ d, (f d).vars = d.vars)
    (covered : s.state.Covered → (f s.state).Covered) : Enlists id [] (.update f) s :=
  ⟨covered, [], List.prefix_refl _, fun _ _ => rfl, congrArg Table.keys (vars _)⟩

theorem enlists_setDomain (v given : Value) :
    Enlists id (if (domainNamed? given).isSome then [v] else []) (setDomain v given) s := by
  refine Enlists.nil_bind (enlists_nil rfl) fun _ s₁ _ => ?_
  cases domainNamed? given with
  | none => exact enlists_nil rfl
  | some k =>
      refine (enlists_register v).bind_nil fun _ s₂ h => ?_
      refine enlists_declare (fun _ => rfl) fun covered => ?_
      exact covered.of_vars_eq rfl
        (fun w => contains_insert_registered (registered_of_register h)) (fun _ => .inl)
        (fun _ => .inl)

/-- Bounds of a registered variable are bounds of registered variables. -/
theorem contains_setBound {d : Declarations} {t : Table Value} {v bound w : Value}
    (registered : d.Registered v)
    (h : (match bound with | .none => t.erase v | _ => t.insert v bound : Table Value).contains w) :
    t.contains w ∨ d.vars.contains w := by
  split at h
  · exact .inl (Table.contains_of_contains_erase h)
  · exact contains_insert_registered registered h

theorem enlists_setLower (v bound : Value) : Enlists id [v] (setLower v bound) s := by
  refine (enlists_register v).bind_nil fun _ s₁ h => ?_
  refine enlists_declare (fun _ => rfl) fun covered => ?_
  exact covered.of_vars_eq rfl (fun _ => .inl)
    (fun w => contains_setBound (registered_of_register h)) (fun _ => .inl)

theorem enlists_setUpper (v bound : Value) : Enlists id [v] (setUpper v bound) s := by
  refine (enlists_register v).bind_nil fun _ s₁ h => ?_
  refine enlists_declare (fun _ => rfl) fun covered => ?_
  exact covered.of_vars_eq rfl (fun _ => .inl) (fun _ => .inl)
    (fun w => contains_setBound (registered_of_register h))

end

end Milp.Declarations
