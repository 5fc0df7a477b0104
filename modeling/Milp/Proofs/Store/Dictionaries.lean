import Milp.Call.Collection
import Milp.Proofs.Store.KeepsSolvers
import Milp.Proofs.Table

/-!
# What is done to a dictionary

A call on a dictionary puts entries into it, removes some, or clears it, and which ones can be told
from what it is given (`editsOfCall`). However it ends, all other dictionaries are as they were, and
no object has another one than before.
-/

namespace Milp

open Milp.Action

/-! ## Edits -/

/-- What can be done to a dictionary. -/
inductive Edit
  | put (key value : Value)
  | remove (key : Value)
  | clear

namespace Edit

def apply (t : Table Value) : Edit → Table Value
  | put k v => t.insert k v
  | remove k => t.erase k
  | clear => .empty

/-- What entering entries one after the other does. -/
def puts (entries : List (Value × Value)) : List Edit :=
  entries.map fun e => put e.1 e.2

/-- What writing an entry does: nothing, where the key cannot be one. -/
def write (k v : Value) : List Edit :=
  match k.checkKey with
  | .ok _ => [put k v]
  | .error _ => []

end Edit

namespace Table

variable {t : Table Value}

/-- A dictionary after edits, one after the other. -/
def edited (t : Table Value) (es : List Edit) : Table Value :=
  es.foldl Edit.apply t

@[simp] theorem edited_nil (t : Table Value) : t.edited [] = t := rfl

theorem edited_append (t : Table Value) (es es' : List Edit) :
    t.edited (es ++ es') = (t.edited es).edited es' := by
  simp [edited]

theorem edited_puts (t : Table Value) (entries : List (Value × Value)) :
    t.edited (Edit.puts entries) = t.insertAll entries := by
  simp [edited, insertAll, Edit.puts, List.foldl_map, Edit.apply]

/-- The edit that `pop` and `del` make: none, where there is no entry under the key. -/
def editsOfRemoval (t : Table Value) (k : Value) : List Edit :=
  match t.lookup k with
  | .ok (some _) => [.remove k]
  | _ => []

/-- The edit that `setdefault` makes: none, where there is an entry under the key. -/
def editsOfDefault (t : Table Value) (k x : Value) : List Edit :=
  match t.lookup k with
  | .ok none => [.put k x]
  | _ => []

/-- The edit that `popitem` makes: the entry that was put last is removed. -/
def editsOfLast (t : Table Value) : List Edit :=
  (t.entries.getLast?.map fun e => .remove e.1).toList

/-- Whatever is done to a dictionary, its keys are told apart. -/
theorem pairwise_keys_edited (h : t.keys.Pairwise fun k k' => k.key ≠ k'.key) (es : List Edit) :
    (t.edited es).keys.Pairwise fun k k' => k.key ≠ k'.key := by
  induction es generalizing t with
  | nil => exact h
  | cons e es ih =>
      apply ih
      cases e with
      | put k v => exact pairwise_keys_insert h
      | remove k =>
          have fewer : (t.erase k).keys.Sublist t.keys := List.filter_sublist.map _
          exact h.sublist fewer
      | clear => exact List.Pairwise.nil

end Table

namespace Store

section

variable {d : Nat} {s t : Store} {es : List Edit}

/-! ## Changing one dictionary -/

/-- The store in which a dictionary has been edited. -/
def editing (s : Store) (d : Nat) (es : List Edit) : Store :=
  { s with dicts := s.dicts.modify d fun t => t.edited es }

@[simp] theorem editing_nil (s : Store) (d : Nat) : s.editing d [] = s := by
  have unchanged : s.dicts.modify d (fun t => t.edited []) = s.dicts := List.modify_id d _
  rw [editing, unchanged]

theorem editing_editing (s : Store) (d : Nat) (es es' : List Edit) :
    (s.editing d es).editing d es' = s.editing d (es ++ es') := by
  have both : (fun t : Table Value => t.edited (es ++ es')) =
      (fun t => t.edited es') ∘ fun t => t.edited es :=
    funext fun t => t.edited_append es es'
  simp only [editing, both, List.modify_modify_eq]

/-- One dictionary was edited. The others are as they were, and so is which of them factories and
solvers have. -/
structure Changes (es : List Edit) (d : Nat) (s t : Store) : Prop where
  count : s.dicts.length ≤ t.dicts.length
  own : d < s.dicts.length → t.dict d = (s.dict d).edited es
  others : ∀ i < s.dicts.length, i ≠ d → t.dict i = s.dict i
  factories : t.factories = s.factories
  solvers : t.solvers = s.solvers

theorem changes_editing (s : Store) (d : Nat) (es : List Edit) :
    Changes es d s (s.editing d es) := by
  refine ⟨by simp [editing], ?_, ?_, rfl, rfl⟩
  · intro placed
    simp [editing, dict, placed]
  · intro i _ other
    simp [editing, dict, Ne.symm other]

theorem Changes.of_dicts_eq (dicts : t.dicts = s.dicts) (factories : t.factories = s.factories)
    (solvers : t.solvers = s.solvers) : Changes [] d s t := by
  have same (i : Nat) : t.dict i = s.dict i := by simp [dict, dicts]
  exact ⟨by simp [dicts], fun _ => same d, fun i _ _ => same i, factories, solvers⟩

instance : Std.Refl (Changes [] d) :=
  ⟨fun _ => .of_dicts_eq rfl rfl rfl⟩

instance : IsTrans Store (Changes [] d) where
  trans s t u h h' := by
    have count := h.count
    refine ⟨Nat.le_trans count h'.count, ?_, ?_, ?_, ?_⟩
    · intro placed
      rw [h'.own (by omega), h.own placed]
      rfl
    · intro i hi other
      rw [h'.others i (by omega) other, h.others i hi other]
    · rw [h'.factories, h.factories]
    · rw [h'.solvers, h.solvers]

/-- What is added leaves dictionaries unedited. -/
theorem growing_unedited : Growing (Changes [] d) where
  apart _ _ := .of_dicts_eq rfl rfl rfl
  results _ _ := .of_dicts_eq rfl rfl rfl
  lists _ _ := .of_dicts_eq rfl rfl rfl
  dicts s t := by
    have same (i : Nat) (hi : i < s.dicts.length) :
        ({ s with dicts := s.dicts ++ [t] } : Store).dict i = s.dict i := by
      simp [dict, List.getElem?_append_left hi]
    exact ⟨by simp, fun placed => same d placed, fun i hi _ => same i hi, rfl, rfl⟩

/-! ## What calls edit -/

/-- The edits by which the entries that values hold are put one after the other, up to the first
value that holds none, and whether all were put. What a value holds is read when its turn comes. -/
def entering (d : Nat) (s : Store) : (position : Nat) → List Value → List Edit × Bool
  | _, [] => ([], true)
  | position, v :: vs =>
    match s.entryOf v position with
    | .error _ => ([], false)
    | .ok (k, x) =>
      match k.checkKey with
      | .error _ => ([], false)
      | .ok _ =>
        let rest := entering d (s.editing d [.put k x]) (position + 1) vs
        (.put k x :: rest.1, rest.2)

/-- The edits that `update` and `|=` make with a value, and whether they got to its end: a dictionary
puts its entries, and what else can be gone through, those that its parts hold. -/
def updating (d : Nat) (s : Store) (v : Value) : List Edit × Bool :=
  match v with
  | .object ⟨.dict, other⟩ => (Edit.puts (s.dict other).entries, true)
  | v =>
    let entered := entering d s 0 (s.walk v).items
    (entered.1, entered.2 && ((s.walk v).finish "").toBool)

/-- The edits that a call on a dictionary makes. The calls that are not named here only read it, and
one with other arguments than it takes is refused. -/
def editsOfCall (d : Nat) (s : Store) (method : String) (a : Arguments) : List Edit :=
  match method, a.inOrder, a.byName with
  | "clear", [], [] => [.clear]
  | "pop", [k], [] => (s.dict d).editsOfRemoval k
  | "pop", [k, _], [] => (s.dict d).editsOfRemoval k
  | "popitem", [], [] => (s.dict d).editsOfLast
  | "setdefault", [k], [] => (s.dict d).editsOfDefault k .none
  | "setdefault", [k, x], [] => (s.dict d).editsOfDefault k x
  | "update", [], named => Edit.puts (named.map fun e => (.text e.1, e.2))
  | "update", [v], named =>
    match updating d s v with
    | (es, true) => es ++ Edit.puts (named.map fun e => (.text e.1, e.2))
    | (es, false) => es
  | _, _, _ => []

/-! ## What calls do -/

/-- However it ends, an action makes edits of a dictionary and does nothing else. -/
def Edits {α : Type} (es : List Edit) (d : Nat) (act : Action Store α) (s : Logged Store) : Prop :=
  ∃ r, act.runOn s = (r, { s with state := s.state.editing d es })

theorem Edits.changes {α : Type} {act : Action Store α} {s : Logged Store}
    (edits : Edits es d act s) : Changes es d s.state (act.runOn s).2.state := by
  obtain ⟨r, run⟩ := edits
  rw [run]
  exact changes_editing s.state d es

/-- What breaks off before it does anything makes no edits. -/
theorem edits_nil {α : Type} {act : Action Store α} {s : Logged Store} {r : Except Fault α}
    (run : act.runOn s = (r, s)) : Edits [] d act s :=
  ⟨r, by rw [run, editing_nil]⟩

theorem runOn_enterEntries (position : Nat) (vs : List Value) (s : Logged Store) :
    ∃ r, (enterEntries d position vs).runOn s =
        (r, { s with state := s.state.editing d (entering d s.state position vs).1 }) ∧
      r.toBool = (entering d s.state position vs).2 := by
  induction vs generalizing position s with
  | nil => exact ⟨.ok (), by rw [entering, editing_nil]; rfl, rfl⟩
  | cons v vs ih =>
      unfold enterEntries entering
      rw [runOn_bind, runOn_read]
      dsimp only
      rw [runOn_bind, runOn_ofExcept]
      rcases s.state.entryOf v position with f | ⟨k, x⟩
      · exact ⟨.error f, by rw [editing_nil], rfl⟩
      dsimp only
      rw [runOn_bind, runOn_ofExcept]
      rcases k.checkKey with f | u
      · exact ⟨.error f, by rw [editing_nil], rfl⟩
      obtain ⟨r, run, all⟩ :=
        ih (position + 1) { s with state := s.state.editing d [.put k x] }
      refine ⟨r, ?_, all⟩
      refine run.trans ?_
      rw [editing_editing]
      rfl

theorem runOn_updateFrom (v : Value) (s : Logged Store) :
    ∃ r, (updateFrom d v).runOn s =
        (r, { s with state := s.state.editing d (updating d s.state v).1 }) ∧
      r.toBool = (updating d s.state v).2 := by
  unfold updateFrom
  rw [runOn_bind, runOn_read]
  dsimp only
  split
  · refine ⟨.ok (), ?_, rfl⟩
    simp only [updating, editing, Table.edited_puts]
    rfl
  · rename_i other
    obtain ⟨r, run, all⟩ := runOn_enterEntries (d := d) 0 (s.state.walk v).items s
    rw [updating.eq_2 _ _ _ other, runOn_bind, run]
    dsimp only
    rw [← all]
    rcases r with f | u
    · exact ⟨.error f, rfl, rfl⟩
    · exact ⟨(s.state.walk v).finish "", runOn_ofExcept _ _, rfl⟩

theorem edits_updateFrom (v : Value) (s : Logged Store) :
    Edits (updating d s.state v).1 d (updateFrom d v) s :=
  (runOn_updateFrom v s).imp fun _ => And.left

theorem editsOfRemoval_of_empty {u : Table Value} (empty : u.size = 0) (k : Value) :
    u.editsOfRemoval k = [] := by
  have absent : u.get? k = none := by
    rw [Table.get?, List.length_eq_zero_iff.mp empty]
    rfl
  unfold Table.editsOfRemoval Table.lookup
  rw [absent]
  cases k.checkKey <;> rfl

theorem edits_takeEntry (k : Value) (default : Option Value) (s : Logged Store) :
    Edits ((s.state.dict d).editsOfRemoval k) d (takeEntry d k default) s := by
  unfold takeEntry Edits
  rw [runOn_bind, runOn_read]
  dsimp only
  by_cases empty : (s.state.dict d).size = 0
  · rw [if_pos empty, editsOfRemoval_of_empty empty]
    cases default <;> exact edits_nil rfl
  · rw [if_neg empty, runOn_bind, runOn_ofExcept, Table.editsOfRemoval]
    rcases (s.state.dict d).lookup k with f | _ | x
    · exact edits_nil rfl
    · cases default <;> exact edits_nil rfl
    · exact ⟨.ok x, rfl⟩

/-- `deleteEntry` makes the edits of `editsOfRemoval`. -/
theorem edits_deleteEntry (k : Value) (s : Logged Store) :
    Edits ((s.state.dict d).editsOfRemoval k) d (deleteEntry d k) s := by
  unfold deleteEntry Table.editsOfRemoval Table.require
  unfold Edits
  rw [runOn_bind, runOn_read]
  dsimp only
  rw [runOn_bind, runOn_ofExcept]
  rcases (s.state.dict d).lookup k with f | _ | x
  · exact edits_nil rfl
  · exact edits_nil rfl
  · exact ⟨.ok (), rfl⟩

theorem edits_takeLastEntry (s : Logged Store) :
    Edits (s.state.dict d).editsOfLast d (takeLastEntry d) s := by
  unfold takeLastEntry Table.editsOfLast Edits
  rw [runOn_bind, runOn_read]
  dsimp only
  rcases (s.state.dict d).entries.getLast? with _ | ⟨k, x⟩
  · exact edits_nil rfl
  · exact ⟨.ok (.tuple [k, x]), rfl⟩

/-- A call takes its arguments in order, and no others and no fewer than it can. -/
theorem counted_cases (a : Arguments) (owner call : String) (least most : Nat) :
    (a.byName = [] ∧ least ≤ a.inOrder.length ∧ a.inOrder.length ≤ most ∧
      a.counted owner call least most = .ok fun i => a.inOrder[i]?) ∨
    ((a.byName ≠ [] ∨ a.inOrder.length < least ∨ most < a.inOrder.length) ∧
      ∃ f, a.counted owner call least most = .error f) := by
  unfold Arguments.counted
  by_cases named : a.byName = []
  · by_cases few : a.inOrder.length < least
    · exact .inr ⟨.inr (.inl few), _, by simp [named, few]; rfl⟩
    · by_cases many : most < a.inOrder.length
      · exact .inr ⟨.inr (.inr many), _, by simp [named, many]; rfl⟩
      · exact .inl ⟨named, by omega, by omega, by simp [named, few, many]; rfl⟩
  · exact .inr ⟨.inl named, _, by simp [named]; rfl⟩

/-- A call that takes its arguments in order makes edits where it takes them, and none where it
refuses them. -/
theorem changes_counted {a : Arguments} {owner call : String} {least most : Nat}
    {body : (Nat → Option Value) → Action Store Value} {s : Logged Store}
    (taken : a.byName = [] → least ≤ a.inOrder.length → a.inOrder.length ≤ most →
      Changes es d s.state ((body fun i => a.inOrder[i]?).runOn s).2.state)
    (refused : a.byName ≠ [] ∨ a.inOrder.length < least ∨ most < a.inOrder.length → es = []) :
    Changes es d s.state ((do
      body (← Action.ofExcept (a.counted owner call least most)) :
        Action Store Value).runOn s).2.state := by
  rw [runOn_bind, runOn_ofExcept]
  rcases counted_cases a owner call least most with ⟨named, low, high, bound⟩ | ⟨wrong, f, bound⟩
  · rw [bound]
    exact taken named low high
  · rw [bound, refused wrong]
    exact Std.Refl.refl _

theorem changes_clear {a : Arguments} (s : Logged Store) :
    Changes (editsOfCall d s.state "clear" a) d s.state ((do
      let _ ← Action.ofExcept (a.counted "dict" "clear" 0 0)
      changeDict d fun _ => .empty
      return .none : Action Store Value).runOn s).2.state := by
  refine changes_counted (fun named _ most => ?_) fun wrong => ?_
  · obtain rfl : a = ⟨[], []⟩ := by
      obtain ⟨xs, names⟩ := a
      simp_all
    exact changes_editing s.state d [.clear]
  · unfold editsOfCall
    split <;> simp_all

theorem changes_pop {a : Arguments} (s : Logged Store) :
    Changes (editsOfCall d s.state "pop" a) d s.state ((do
      let x ← Action.ofExcept (a.counted "dict" "pop" 1 2)
      takeEntry d ((x 0).getD .none) (x 1) : Action Store Value).runOn s).2.state := by
  refine changes_counted (fun named least most => ?_) fun wrong => ?_
  · obtain ⟨xs, names⟩ := a
    obtain rfl : names = [] := named
    match xs, least, most with
    | [k], _, _ => exact (edits_takeEntry k none s).changes
    | [k, x], _, _ => exact (edits_takeEntry k (some x) s).changes
  · unfold editsOfCall
    split <;> simp_all

theorem changes_popitem {a : Arguments} (s : Logged Store) :
    Changes (editsOfCall d s.state "popitem" a) d s.state ((do
      let _ ← Action.ofExcept (a.counted "dict" "popitem" 0 0)
      takeLastEntry d : Action Store Value).runOn s).2.state := by
  refine changes_counted (fun named _ most => ?_) fun wrong => ?_
  · obtain rfl : a = ⟨[], []⟩ := by
      obtain ⟨xs, names⟩ := a
      simp_all
    exact (edits_takeLastEntry s).changes
  · unfold editsOfCall
    split <;> simp_all

theorem edits_setDefault (k x : Value) (s : Logged Store) :
    Edits ((s.state.dict d).editsOfDefault k x) d (do
      match ← Action.ofExcept (((← Action.read).dict d).lookup k) with
      | some v => return v
      | none =>
        changeDict d fun t => t.insert k x
        return x) s := by
  unfold Edits Table.editsOfDefault
  rw [runOn_bind, runOn_read]
  dsimp only
  rw [runOn_bind, runOn_ofExcept]
  rcases (s.state.dict d).lookup k with f | _ | v
  · exact edits_nil rfl
  · exact ⟨.ok x, rfl⟩
  · exact edits_nil rfl

theorem runOn_insertAll (entries : List (Value × Value)) (s : Logged Store) :
    (changeDict d fun t => t.insertAll entries).runOn s =
      (.ok (), { s with state := s.state.editing d (Edit.puts entries) }) := by
  simp only [editing, Table.edited_puts]
  rfl

/-- What a call of `update` does with a value, if it is given one, and with what it is given by
name. -/
def updateWith (d : Nat) (given : Option Value) (named : List (String × Value)) :
    Action Store Value := do
  given.forM (updateFrom d)
  changeDict d fun t => t.insertAll (named.map fun e => (.text e.1, e.2))
  return .none

theorem edits_updateWith (given : Option Value) (named : List (String × Value)) (s : Logged Store) :
    Edits (editsOfCall d s.state "update" ⟨given.toList, named⟩) d (updateWith d given named) s := by
  unfold Edits
  cases given with
  | none =>
      change ∃ r, (changeDict d _ >>= fun _ => pure Value.none).runOn s = _
      rw [runOn_bind, runOn_insertAll]
      exact ⟨_, rfl⟩
  | some v =>
      change ∃ r, (updateFrom d v >>= fun _ => changeDict d _ >>= fun _ => pure Value.none).runOn s =
        (r, { s with state := s.state.editing d (match updating d s.state v with
          | (es, true) => es ++ Edit.puts (named.map fun e => (.text e.1, e.2))
          | (es, false) => es) })
      obtain ⟨r, run, all⟩ := runOn_updateFrom (d := d) v s
      rw [runOn_bind, run]
      generalize updating d s.state v = spec at all ⊢
      obtain ⟨es, whole⟩ := spec
      rcases r with f | u <;> obtain rfl : _ = whole := all
      · exact ⟨_, rfl⟩
      · dsimp only
        rw [runOn_bind, runOn_insertAll]
        dsimp only
        rw [editing_editing]
        exact ⟨_, rfl⟩

theorem changes_update {a : Arguments} (s : Logged Store) :
    Changes (editsOfCall d s.state "update" a) d s.state ((do
      let x ← Action.ofExcept (Arguments.counted ⟨a.inOrder, []⟩ "dict" "update" 0 1)
      updateWith d (x 0) a.byName).runOn s).2.state := by
  refine changes_counted (a := ⟨a.inOrder, []⟩) (fun _ _ most => ?_) fun wrong => ?_
  · obtain ⟨xs, named⟩ := a
    match xs, most with
    | [], _ => exact (edits_updateWith none named s).changes
    | [v], _ => exact (edits_updateWith (some v) named s).changes
  · unfold editsOfCall
    split <;> simp_all

theorem changes_setdefault {a : Arguments} (s : Logged Store) :
    Changes (editsOfCall d s.state "setdefault" a) d s.state ((do
      let x ← Action.ofExcept (a.counted "dict" "setdefault" 1 2)
      let k := (x 0).getD .none
      match ← Action.ofExcept (((← Action.read).dict d).lookup k) with
      | some v => return v
      | none =>
        changeDict d fun t => t.insert k ((x 1).getD .none)
        return (x 1).getD .none : Action Store Value).runOn s).2.state := by
  refine changes_counted (fun named least most => ?_) fun wrong => ?_
  · obtain ⟨xs, names⟩ := a
    obtain rfl : names = [] := named
    match xs, least, most with
    | [k], _, _ => exact (edits_setDefault k .none s).changes
    | [k, x], _, _ => exact (edits_setDefault k x s).changes
  · unfold editsOfCall
    split <;> simp_all

/-- A call that is not one of those that edit adds a dictionary at most. -/
theorem changes_reading {method : String} {a : Arguments} {act : Action Store Value}
    (reads : method ∉ ["clear", "pop", "popitem", "setdefault", "update"])
    (adds : Keeps (Changes [] d) act) (s : Logged Store) :
    Changes (editsOfCall d s.state method a) d s.state (act.runOn s).2.state := by
  have none : editsOfCall d s.state method a = [] := by
    unfold editsOfCall
    split <;> simp_all
  rw [none]
  exact adds s

/-- `callDict?` makes the edits of `editsOfCall`, and leaves all other dictionaries as they are
(`Changes`). -/
theorem changes_callDict {method : String} {a : Arguments} {act : Action Store Value}
    (known : callDict? d method a = some act) (s : Logged Store) :
    Changes (editsOfCall d s.state method a) d s.state (act.runOn s).2.state := by
  unfold callDict? at known
  split at known
  all_goals cases known
  · exact changes_clear s
  · refine changes_reading (by decide) ?_ s
    exact (keeps_ofExcept _).bind fun _ => keeps_read.bind fun _ => growing_unedited.keeps_newDict _
  · refine changes_reading (by decide) ?_ s
    exact (keeps_ofExcept _).bind fun _ => keeps_read.bind fun _ => (keeps_ofExcept _).bind fun _ =>
      (keeps_ofExcept _).bind fun _ => growing_unedited.keeps_newDict _
  · refine changes_reading (by decide) ?_ s
    exact (keeps_ofExcept _).bind fun _ => keeps_read.bind fun _ => (keeps_ofExcept _).bind fun _ =>
      keeps_pure _
  · exact changes_pop s
  · exact changes_popitem s
  · exact changes_setdefault s
  · exact changes_update s

/-! ## Writing an entry -/

theorem runOn_write (k v : Value) (s : Logged Store) :
    (do
      Action.ofExcept k.checkKey
      changeDict d fun t => t.insert k v : Action Store Unit).runOn s =
      (k.checkKey, { s with state := s.state.editing d (Edit.write k v) }) := by
  rw [runOn_bind, runOn_ofExcept, Edit.write]
  cases k.checkKey with
  | error f => rw [editing_nil]
  | ok u => rfl

theorem runOn_setItem_dict (k v : Value) (s : Logged Store) :
    (setItem (.object ⟨.dict, d⟩) k v).runOn s =
      (k.checkKey, { s with state := s.state.editing d (Edit.write k v) }) := by
  rw [← runOn_write]
  rfl

/-! ## Adding a dictionary -/

def SameDicts (s t : Store) : Prop :=
  t.dicts = s.dicts

instance : Std.Refl SameDicts := ⟨fun _ => rfl⟩

instance : IsTrans Store SameDicts := ⟨fun _ _ _ h h' => Eq.trans h' h⟩

theorem incidental_sameDicts : Incidental fun _ => Keeps SameDicts :=
  .of_keeps (fun _ _ => rfl) fun _ _ => rfl

theorem exists_of_addDict {u : Table Value} {s t : Logged Store}
    (run : (addDict u).runOn s = (.ok d, t)) : d = s.state.dicts.length ∧ ∃ keys values s₁ s₂,
      (distinguishAll u.keys).runOn s = (.ok keys, s₁) ∧
      (distinguishAll (u.entries.map (·.2))).runOn s₁ = (.ok values, s₂) ∧
      t.state.dicts = s.state.dicts ++ [⟨keys.zip values⟩] := by
  unfold addDict at run
  obtain ⟨keys, s₁, toldKeys, run⟩ := runOn_bind_eq_ok.mp run
  obtain ⟨values, s₂, toldValues, run⟩ := runOn_bind_eq_ok.mp run
  have first : s₁.state.dicts = s.state.dicts :=
    (incidental_sameDicts.distinguishAll _).of_runOn toldKeys
  have second : s₂.state.dicts = s₁.state.dicts :=
    (incidental_sameDicts.distinguishAll _).of_runOn toldValues
  cases run
  refine ⟨by rw [second, first], keys, values, s₁, s₂, toldKeys, toldValues, ?_⟩
  change s₂.state.dicts ++ _ = _
  rw [second, first]

theorem length_of_distinguishAll {vs ws : List Value} {s t : Logged Store}
    (run : (distinguishAll vs).runOn s = (.ok ws, t)) : ws.length = vs.length := by
  induction vs generalizing ws s with
  | nil =>
      cases run
      rfl
  | cons v vs ih =>
      unfold distinguishAll at run
      obtain ⟨w, s₁, -, run⟩ := runOn_bind_eq_ok.mp run
      obtain ⟨ws', s₂, rest, run⟩ := runOn_bind_eq_ok.mp run
      cases run
      simp [ih rest]

/-- Texts need not be told apart. -/
theorem distinguishAll_texts {vs : List Value} (texts : ∀ v ∈ vs, ∃ x, v = .text x)
    (s : Logged Store) : (distinguishAll vs).runOn s = (.ok vs, s) := by
  induction vs generalizing s with
  | nil => rfl
  | cons v vs ih =>
      obtain ⟨⟨x, rfl⟩, tail⟩ := List.forall_mem_cons.mp texts
      unfold distinguishAll
      rw [runOn_bind]
      change (distinguishAll vs >>= fun ws => pure (Value.text x :: ws)).runOn s = _
      rw [runOn_bind, ih tail]
      rfl

/-- A dictionary as it is kept: its values are told apart from others of the same look. -/
structure KeptAs (u start : Table Value) : Prop where
  keys : start.keys = u.keys
  values : ∃ s t, (distinguishAll (u.entries.map (·.2))).runOn s =
    (.ok (start.entries.map (·.2)), t)

/-- Where no value need be told apart, a dictionary is kept as it is given. -/
theorem KeptAs.eq {u start : Table Value} (kept : KeptAs u start)
    (apart : ∀ s, (distinguishAll (u.entries.map (·.2))).runOn s =
      (.ok (u.entries.map (·.2)), s)) : start = u := by
  obtain ⟨s, t, run⟩ := kept.values
  rw [apart, Prod.mk.injEq, Except.ok.injEq] at run
  have entries : start.entries = u.entries := by
    rw [List.zip_of_prod kept.keys run.1.symm]
    exact (List.zip_of_prod rfl rfl).symm
  cases start
  cases u
  exact congrArg Table.mk entries

theorem keptAs_of_addDict {u : Table Value} {s t : Logged Store}
    (texts : ∀ k ∈ u.keys, ∃ x, k = .text x) (run : (addDict u).runOn s = (.ok d, t)) :
    d < t.state.dicts.length ∧ KeptAs u (t.state.dict d) := by
  obtain ⟨number, keys, values, s₁, s₂, toldKeys, toldValues, dicts⟩ := exists_of_addDict run
  rw [distinguishAll_texts texts] at toldKeys
  cases toldKeys
  have length : values.length = u.keys.length := by
    simpa [Table.keys] using length_of_distinguishAll toldValues
  have kept : t.state.dict d = ⟨u.keys.zip values⟩ := by
    rw [dict, dicts, number]
    simp
  rw [kept]
  refine ⟨by simp [dicts, number], ?_, s, s₂, ?_⟩
  · exact List.map_fst_zip (by omega)
  · rw [toldValues]
    exact congrArg (fun ws => (Except.ok ws, s₂)) (List.map_snd_zip (by omega)).symm

end

end Store

end Milp
