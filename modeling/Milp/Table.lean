import Milp.Fault
import Milp.Value.Key

/-!
# Tables

Entries under keys, in the order in which the keys were first written. Writing under a key that is
the same as an earlier one replaces the entry and keeps the earlier spelling of the key.
-/

namespace Milp

/-- Entries under keys, in order of first writing. -/
structure Table (α : Type) where
  entries : List (Value × α)
  deriving Repr, Inhabited

def Value.checkKey (v : Value) : Except Fault Unit :=
  match v.unhashable? with
  | some kind => .error (.unhashable kind)
  | Option.none => .ok ()

namespace Table

variable {α β : Type}

/-- The table without entries. -/
def empty : Table α := ⟨[]⟩

instance : EmptyCollection (Table α) := ⟨empty⟩

def keys (t : Table α) : List Value :=
  t.entries.map (·.1)

/-- The number of entries. -/
def size (t : Table α) : Nat :=
  t.entries.length

/-- The entry under a key. -/
def get? (t : Table α) (k : Value) : Option α :=
  let key := k.key
  (t.entries.find? fun e => e.1.key == key).map (·.2)

/-- There is an entry under a key. -/
def contains (t : Table α) (k : Value) : Bool :=
  let key := k.key
  t.entries.any fun e => e.1.key == key

/-- Replaces the entry under a key among entries, or adds one at the end. -/
def put (key : Key) (k : Value) (v : α) : List (Value × α) → List (Value × α)
  | [] => [(k, v)]
  | e :: es => if e.1.key == key then (e.1, v) :: es else e :: put key k v es

/-- Writes an entry. -/
def insert (t : Table α) (k : Value) (v : α) : Table α :=
  ⟨put k.key k v t.entries⟩

/-- Writes an entry unless there is one under the key. -/
def insertNew (t : Table α) (k : Value) (v : α) : Table α :=
  if t.contains k then t else ⟨t.entries ++ [(k, v)]⟩

/-- Removes the entry under a key. -/
def erase (t : Table α) (k : Value) : Table α :=
  let key := k.key
  ⟨t.entries.filter fun e => e.1.key != key⟩

/-- Writes the entries one after the other. -/
def insertAll (t : Table α) (es : List (Value × α)) : Table α :=
  es.foldl (fun t e => t.insert e.1 e.2) t

/-- The table that results from writing entries one after the other. -/
def ofList (es : List (Value × α)) : Table α :=
  empty.insertAll es

/-- The table that results from writing entries one after the other, each of which must have a key
that can be one. -/
def collect (es : List (Value × α)) : Except Fault (Table α) := do
  es.forM fun e => e.1.checkKey
  return ofList es

def map (f : α → β) (t : Table α) : Table β :=
  ⟨t.entries.map fun e => (e.1, f e.2)⟩

/-- The entry under a key that may not be one. -/
def lookup (t : Table α) (k : Value) : Except Fault (Option α) := do
  k.checkKey
  return t.get? k

/-- The entry that must be there under a key. -/
def require (t : Table α) (k : Value) : Except Fault α := do
  match ← t.lookup k with
  | some v => return v
  | none => throw (.missingKey k)

/-! ## What a table holds -/

@[simp] theorem get?_empty (k : Value) : (empty : Table α).get? k = none := rfl

@[simp] theorem keys_empty : (empty : Table α).keys = [] := rfl

@[simp] theorem length_keys (t : Table α) : t.keys.length = t.size := by
  simp [keys, size]

/-- There is an entry under the keys that can be found, and under no others. -/
theorem isSome_get? (t : Table α) (k : Value) : (t.get? k).isSome = t.contains k := by
  rw [Bool.eq_iff_iff]
  simp [get?, contains]

theorem find?_put_self (k : Value) (v : α) (es : List (Value × α)) :
    ((put k.key k v es).find? fun e => e.1.key == k.key).map (·.2) = some v := by
  induction es with
  | nil => simp [put]
  | cons e es ih =>
    by_cases h : e.1.key = k.key
    · simp [put, h]
    · simp [put, h, ih]

theorem find?_put_of_ne {k k' : Value} (h : k.key ≠ k'.key) (v : α) (es : List (Value × α)) :
    ((put k.key k v es).find? fun e => e.1.key == k'.key).map (·.2) =
      (es.find? fun e => e.1.key == k'.key).map (·.2) := by
  induction es with
  | nil => simp [put, h]
  | cons e es ih =>
    by_cases hk : e.1.key = k.key
    · simp [put, hk, h]
    · by_cases hk' : e.1.key = k'.key
      · simp [put, hk', Ne.symm h]
      · simp [put, hk, hk', ih]

/-- What was written last under a key is found under it. -/
@[simp] theorem get?_insert_self (t : Table α) (k : Value) (v : α) :
    (t.insert k v).get? k = some v :=
  find?_put_self k v t.entries

/-- Writing under one key leaves the entries under other keys as they are. -/
theorem get?_insert_of_ne {k k' : Value} (h : k.key ≠ k'.key) (t : Table α) (v : α) :
    (t.insert k v).get? k' = t.get? k' :=
  find?_put_of_ne h v t.entries

/-- A key is found in the same way however it is spelled. -/
theorem get?_congr {k k' : Value} (h : k.key = k'.key) (t : Table α) : t.get? k = t.get? k' := by
  simp [get?, h]

theorem contains_congr {k k' : Value} (h : k.key = k'.key) (t : Table α) :
    t.contains k = t.contains k' := by
  simp [contains, h]

theorem map_fst_put (k : Value) (v : α) (es : List (Value × α)) :
    (put k.key k v es).map (·.1) =
      if es.any fun e => e.1.key == k.key then es.map (·.1) else es.map (·.1) ++ [k] := by
  induction es with
  | nil => simp [put]
  | cons e es ih =>
    by_cases h : e.1.key = k.key
    · simp [put, h]
    · simp only [put, h, beq_iff_eq, if_false, List.map_cons, List.any_cons, ih]
      by_cases ha : es.any fun e => e.1.key == k.key
      · simp [ha]
      · simp [ha, h]

/-- A new key is written at the end, an old one keeps its place and spelling. -/
theorem keys_insert (t : Table α) (k : Value) (v : α) :
    (t.insert k v).keys = if t.contains k then t.keys else t.keys ++ [k] :=
  map_fst_put k v t.entries

/-- Writing a new entry only ever adds a key at the end. -/
theorem keys_insertNew (t : Table α) (k : Value) (v : α) :
    (t.insertNew k v).keys = if t.contains k then t.keys else t.keys ++ [k] := by
  by_cases h : t.contains k <;> simp [insertNew, keys, h]

@[simp] theorem keys_map (f : α → β) (t : Table α) : (t.map f).keys = t.keys := by
  simp [map, keys, Function.comp_def]

theorem get?_map (f : α → β) (t : Table α) (k : Value) : (t.map f).get? k = (t.get? k).map f := by
  simp only [map, get?, List.find?_map, Option.map_map]
  rfl

/-- What was removed is not found. -/
@[simp] theorem get?_erase_self (t : Table α) (k : Value) : (t.erase k).get? k = none := by
  simp [erase, get?]

/-- Removing the entry under one key leaves the entries under other keys as they are. -/
theorem get?_erase_of_ne {k k' : Value} (h : k.key ≠ k'.key) (t : Table α) :
    (t.erase k).get? k' = t.get? k' := by
  have both : (fun e : Value × α => decide (e.1.key != k.key ∧ e.1.key == k'.key)) =
      fun e => e.1.key == k'.key := by
    funext e
    by_cases hk : e.1.key = k'.key
    · simp [hk, Ne.symm h]
    · simp [hk]
  simp only [erase, get?, List.find?_filter]
  exact congrArg (fun p => (t.entries.find? p).map (·.2)) both

end Table

end Milp
