import Milp.Proofs.Action.Frame
import Milp.Proofs.Encoding.Columns

/-!
# Registering variables

Calls that declare something of a variable register it first. No call takes a variable away, and
none lets two of them fall together.
-/

namespace Milp.Declarations

open Milp.Action (Keeps keeps_pure keeps_ofExcept keeps_update keeps_note runOn_bind_eq_ok)

/-- Variables that are registered and told apart stay so. -/
structure Extends (d d' : Declarations) : Prop where
  distinct : d.Distinct → d'.Distinct
  registered : ∀ v, d.Registered v → d'.Registered v

instance : Std.Refl Extends := ⟨fun _ => ⟨id, fun _ => id⟩⟩

instance : IsTrans Declarations Extends :=
  ⟨fun _ _ _ h h' => ⟨h'.distinct ∘ h.distinct, fun v => h'.registered v ∘ h.registered v⟩⟩

/-- What is known of variables besides may change freely. -/
theorem extends_of_vars_eq {d d' : Declarations} (h : d'.vars = d.vars) : d.Extends d' := by
  have list : d'.variableList = d.variableList := by
    unfold variableList
    rw [h]
  refine ⟨fun hd => ⟨list ▸ hd.keys, list ▸ hd.hashable⟩, fun v hv => ⟨hv.hashable, ?_⟩⟩
  rw [h]
  exact hv.contains

theorem contains_insertNew (t : Table Unit) (v w : Value) :
    (t.insertNew v ()).contains w = (t.contains w || v.key == w.key) := by
  unfold Table.insertNew
  split
  · rename_i h
    cases hk : v.key == w.key with
    | true =>
        rw [← Table.contains_congr (beq_iff_eq.mp hk)]
        simp [h]
    | false => simp
  · simp [Table.contains]

theorem extends_insertNew (d : Declarations) {v : Value} (hv : v.checkKey = .ok ()) :
    d.Extends { d with vars := d.vars.insertNew v () } := by
  refine ⟨fun hd => ?_, fun w hw => ⟨hw.hashable, ?_⟩⟩
  · by_cases h : d.vars.contains v = true
    · simpa [Table.insertNew, h] using hd
    · have list : ({ d with vars := d.vars.insertNew v () } : Declarations).variableList =
          d.variableList ++ [v] := by
        simp [variableList, Table.keys_insertNew, h]
      refine ⟨?_, ?_⟩
      · rw [list]
        refine List.pairwise_append.mpr ⟨hd.keys, List.pairwise_singleton _ _, ?_⟩
        intro w hw u hu same
        obtain rfl := List.mem_singleton.mp hu
        obtain ⟨e, he, rfl⟩ := List.mem_map.mp hw
        exact h (List.any_eq_true.mpr ⟨e, he, beq_iff_eq.mpr same⟩)
      · rw [list]
        intro w hw
        rcases List.mem_append.mp hw with hw | hw
        · exact hd.hashable w hw
        · obtain rfl := List.mem_singleton.mp hw
          exact hv
  · rw [contains_insertNew, hw.contains, Bool.true_or]

theorem keeps_register (v : Value) : Keeps Extends (register v) := by
  intro s
  unfold register
  rw [Action.runOn_bind]
  cases hv : v.checkKey with
  | error f => exact Std.Refl.refl s.state
  | ok u => exact extends_insertNew s.state hv

theorem registered_of_register {v : Value} {s s' : Logged Declarations}
    (h : (register v).runOn s = (.ok (), s')) : s'.state.Registered v := by
  obtain ⟨_, s₁, hv, h⟩ := runOn_bind_eq_ok.mp h
  obtain rfl := congrArg Prod.snd h
  obtain rfl := congrArg Prod.snd hv
  refine ⟨congrArg Prod.fst hv, ?_⟩
  change (s.state.vars.insertNew v ()).contains v = true
  rw [contains_insertNew, beq_self_eq_true, Bool.or_true]

theorem keeps_setDomain (v given : Value) : Keeps Extends (setDomain v given) := by
  unfold setDomain
  refine (keeps_ofExcept _).bind fun _ => ?_
  split
  · exact (keeps_register v).bind fun _ => keeps_update fun _ => extends_of_vars_eq rfl
  · exact keeps_note _ _ _

theorem keeps_setLower (v bound : Value) : Keeps Extends (setLower v bound) :=
  (keeps_register v).bind fun _ => keeps_update fun _ => extends_of_vars_eq rfl

theorem keeps_setUpper (v bound : Value) : Keeps Extends (setUpper v bound) :=
  (keeps_register v).bind fun _ => keeps_update fun _ => extends_of_vars_eq rfl

end Milp.Declarations
