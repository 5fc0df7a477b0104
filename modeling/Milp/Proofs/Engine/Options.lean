import Milp.Proofs.Engine.Session
import Milp.Proofs.Solver.Freezing

/-!
# Options in force

An adapter passes on what the settings ask for, each under a name of its own (`Mapping`), and after
that the options of the caller; an engine may refuse some of them. Of what is written under a name
the last that is taken is in force (`inForce`). So an option of the caller goes before what the
settings ask for, and what is refused counts as if it had not been written (`inForce_written`).
-/

namespace Milp

theorem lookup_of_not_mem {β : Type} {es : List (String × β)} {name : String}
    (absent : name ∉ es.map (·.1)) : es.lookup name = none := by
  rw [List.lookup_eq_none_iff]
  intro e he
  apply bne_iff_ne.mpr
  intro same
  exact absent (List.mem_map.mpr ⟨e, he, same.symm⟩)

/-! ## Writes -/

section

variable {takes : String → Value → Bool} {writes writes' : List (String × Value)} {name : String}

/-- The value in force under a name once options have been written one after the other to an engine
that takes some of them. -/
def inForce (takes : String → Value → Bool) (writes : List (String × Value)) (name : String) :
    Option Value :=
  ((writes.filter fun w => w.1 == name && takes w.1 w.2).getLast?).map (·.2)

/-- What is written later goes before what was written earlier. -/
theorem inForce_append :
    inForce takes (writes ++ writes') name =
      (inForce takes writes' name).or (inForce takes writes name) := by
  rw [inForce, List.filter_append, List.getLast?_append, inForce, inForce]
  cases (writes'.filter fun w => w.1 == name && takes w.1 w.2).getLast? <;> rfl

theorem inForce_singleton (v : Value) :
    inForce takes [(name, v)] name = (some v).filter (takes name) := by
  cases taken : takes name v <;> simp [inForce, taken, Option.filter]

theorem inForce_singleton_of_ne {other : String} (h : other ≠ name) (v : Value) :
    inForce takes [(other, v)] name = none := by
  simp [inForce, h]

/-- What is written once is in force if it is taken. -/
theorem inForce_of_nodup (once : (writes.map (·.1)).Nodup) :
    inForce takes writes name = (writes.lookup name).filter (takes name) := by
  induction writes with
  | nil => rfl
  | cons w writes ih =>
      obtain ⟨key, v⟩ := w
      obtain ⟨head, tail⟩ := List.nodup_cons.mp once
      rw [← List.singleton_append, inForce_append, ih tail, List.singleton_append]
      by_cases same : key = name
      · subst same
        rw [lookup_of_not_mem head, inForce_singleton, List.lookup_cons_self]
        rfl
      · rw [List.lookup_cons, beq_false_of_ne (Ne.symm same), inForce_singleton_of_ne same]
        exact Option.or_none

/-- Writes that are refused count for nothing. -/
theorem inForce_filter :
    inForce takes (writes.filter fun w => takes w.1 w.2) name = inForce takes writes name := by
  rw [inForce, List.filter_filter, inForce]
  congr 3
  funext w
  cases takes w.1 w.2 <;> simp

end

/-! ## What the settings ask for -/

/-- What an adapter passes on for the settings: a value under a name, or nothing. -/
abbrev Mapping := List (String × Option Value)

namespace Mapping

variable {m : Mapping} {name : String}

/-- What is passed on under a name. -/
def value? (m : Mapping) (name : String) : Option Value :=
  (m.lookup name).join

/-- What is passed on, in order. -/
def writes (m : Mapping) : List (String × Value) :=
  m.filterMap fun e => e.2.map fun v => (e.1, v)

theorem names_writes (m : Mapping) : (m.writes.map (·.1)).Sublist (m.map (·.1)) := by
  induction m with
  | nil => exact .slnil
  | cons e m ih =>
      obtain ⟨key, _ | v⟩ := e
      · exact ih.cons _
      · exact ih.cons_cons _

theorem lookup_writes (once : (m.map (·.1)).Nodup) : m.writes.lookup name = m.value? name := by
  induction m with
  | nil => rfl
  | cons e m ih =>
      obtain ⟨key, v⟩ := e
      obtain ⟨head, tail⟩ := List.nodup_cons.mp once
      have passed : writes ((key, v) :: m) = (v.map fun v => (key, v)).toList ++ writes m := by
        cases v <;> rfl
      rw [passed, List.lookup_append, ih tail, value?, value?, List.lookup_cons]
      by_cases same : name = key
      · subst same
        rw [lookup_of_not_mem head]
        cases v <;> simp
      · have other : (name == key) = false := beq_false_of_ne same
        rw [other]
        cases v <;> simp [List.lookup, other]

theorem inForce_writes (takes : String → Value → Bool) (once : (m.map (·.1)).Nodup) :
    inForce takes m.writes name = (m.value? name).filter (takes name) := by
  rw [inForce_of_nodup (once.sublist (names_writes m)), lookup_writes once]

end Mapping

/-! ## Options of the caller -/

section

variable {t : Table Value} {name : String}

/-- The options of a table, in order. -/
def ownWrites (t : Table Value) : List (String × Value) :=
  t.entries.map fun e => (e.1.asText, e.2)

/-- All keys of a table are names of options, and are told apart. -/
structure OfOptions (t : Table Value) : Prop where
  texts : ∀ e ∈ t.entries, ∃ x, e.1 = .text x
  apart : t.keys.Pairwise fun k k' => k.key ≠ k'.key

theorem lookup_ownWrites (texts : ∀ e ∈ t.entries, ∃ x, e.1 = .text x) :
    (ownWrites t).lookup name = t.get? (.text name) := by
  obtain ⟨es⟩ := t
  induction es with
  | nil => rfl
  | cons e es ih =>
      obtain ⟨head, tail⟩ := List.forall_mem_cons.mp texts
      obtain ⟨key, v⟩ := e
      obtain ⟨x, rfl⟩ := head
      have later : List.lookup name (ownWrites ⟨es⟩) = (⟨es⟩ : Table Value).get? (.text name) :=
        ih tail
      change List.lookup name ((x, v) :: ownWrites ⟨es⟩) = _
      rw [List.lookup_cons, later]
      by_cases same : name = x
      · subst same
        rw [Table.get?_cons_self rfl]
        simp
      · rw [beq_false_of_ne same, Table.get?_cons_of_ne]
        exact fun h => same (Key.text.inj h).symm

theorem OfOptions.inForce (own : OfOptions t) (takes : String → Value → Bool) :
    Milp.inForce takes (ownWrites t) name = (t.get? (.text name)).filter (takes name) := by
  have once : ((ownWrites t).map (·.1)).Nodup := by
    rw [ownWrites, List.map_map]
    have entries : t.entries.Pairwise fun e e' => e.1.key ≠ e'.1.key :=
      (List.pairwise_map (f := Prod.fst)).mp own.apart
    refine List.pairwise_map.mpr (entries.imp_of_mem fun {e e'} he he' other same => other ?_)
    obtain ⟨x, hx⟩ := own.texts e he
    obtain ⟨x', hx'⟩ := own.texts e' he'
    simp only [Function.comp, hx, hx', Value.asText] at same ⊢
    rw [same]
  rw [inForce_of_nodup once, lookup_ownWrites own.texts]

end

/-! ## What should be in force -/

section

variable {m : Mapping} {name : String} {s : Settings} {t : Table Value} {n : Value}

/-- The value that should be in force under a name: the option of the caller, if there is one that
the engine takes, or else what the `Mapping` has, if the engine takes that. -/
def preferred (takes : String → Value → Bool) (parameters : Table Value) (m : Mapping)
    (name : String) : Option Value :=
  ((parameters.get? (.text name)).filter (takes name)).or ((m.value? name).filter (takes name))

theorem Settings.Reads.get?_own (reads : s.Reads n t) : s.options.get? (.text name) =
    t.get? (.text name) := by
  rw [reads.get?_options]
  rfl

theorem Settings.Reads.ofOptions (reads : s.Reads n t)
    (apart : t.keys.Pairwise fun k k' => k.key ≠ k'.key) : OfOptions s.options := by
  constructor
  · intro e he
    rw [reads.options] at he
    have option : isOption e.1 = true := by simpa using (List.mem_filter.mp he).2
    cases key : e.1 with
    | text x => exact ⟨x, rfl⟩
    | _ =>
        rw [key] at option
        cases option
  · rw [Table.keys, reads.options]
    exact apart.sublist (List.filter_sublist.map _)

/-- `Mapping.writes` and then `ownWrites` put in force what is `preferred`. -/
theorem inForce_written (takes : String → Value → Bool) (reads : s.Reads n t)
    (apart : t.keys.Pairwise fun k k' => k.key ≠ k'.key) (once : (m.map (·.1)).Nodup) :
    inForce takes (m.writes ++ ownWrites s.options) name = preferred takes t m name := by
  rw [inForce_append, m.inForce_writes takes once, (reads.ofOptions apart).inForce takes,
    reads.get?_own, preferred]

/-! ## Dictionaries of options -/

/-- A dictionary takes whatever is written to it. -/
def anything (_ : String) (_ : Value) : Bool :=
  true

theorem preferred_anything :
    preferred anything t m name = (t.get? (.text name)).or (m.value? name) := by
  have all (x : Option Value) : x.filter (anything name) = x := by cases x <;> rfl
  rw [preferred, all, all]

/-- What is passed on, as the entries of a dictionary. -/
def Mapping.entries (m : Mapping) : List (Value × Value) :=
  m.writes.map fun w => (.text w.1, w.2)

theorem Mapping.ofOptions (once : (m.map (·.1)).Nodup) : OfOptions ⟨m.entries⟩ := by
  constructor
  · intro e he
    obtain ⟨w, -, rfl⟩ := List.mem_map.mp he
    exact ⟨w.1, rfl⟩
  · have names : (m.writes.map (·.1)).Nodup := once.sublist (names_writes m)
    rw [Table.keys, entries, List.map_map]
    refine List.pairwise_map.mpr ((List.pairwise_map.mp names).imp fun other same => other ?_)
    exact Key.text.inj same

theorem Mapping.get?_entries (once : (m.map (·.1)).Nodup) :
    (⟨m.entries⟩ : Table Value).get? (.text name) = m.value? name := by
  have writes : ownWrites ⟨m.entries⟩ = m.writes := by
    rw [ownWrites, entries, List.map_map]
    exact List.map_id _
  rw [← lookup_ownWrites (m.ofOptions once).texts, writes, lookup_writes once]

/-- The dictionary of what the settings ask for, overwritten by the options of the caller, holds
what should be in force. -/
theorem get?_overwritten (reads : s.Reads n t) (apart : t.keys.Pairwise fun k k' => k.key ≠ k'.key)
    (once : (m.map (·.1)).Nodup) :
    ((Table.ofList m.entries).insertAll s.options.entries).get? (.text name) =
      preferred anything t m name := by
  have own : (⟨s.options.entries⟩ : Table Value).get? (.text name) = t.get? (.text name) :=
    reads.get?_own
  rw [Table.get?_insertAll ((List.pairwise_map (f := Prod.fst)).mp (reads.ofOptions apart).apart),
    Table.ofList_of_pairwise (m.ofOptions once).apart, m.get?_entries once, preferred_anything, own]

theorem OfOptions.insertAll {own : Table Value} (h : OfOptions t) (h' : OfOptions own) :
    OfOptions (t.insertAll own.entries) := by
  refine ⟨fun e he => ?_, Table.pairwise_keys_insertAll h.apart⟩
  rcases Table.mem_keys_insertAll (List.mem_map_of_mem he) with old | ⟨e', he', same⟩
  · obtain ⟨e', he', same⟩ := List.mem_map.mp old
    exact same ▸ h.texts e' he'
  · exact same ▸ h'.texts e' he'

end

/-! ## Told to an engine -/

/-- What comes before the only thing of a kind in a list is what was there when it was added. -/
theorem eq_of_append_cons {ν : Type} {Q : ν → Prop} {x : ν} (hx : Q x) {before after xs ys : List ν}
    (old : ∀ y ∈ xs, ¬ Q y) (new : ∀ y ∈ ys.tail, ¬ Q y) (h : before ++ x :: after = xs ++ ys) :
    before = xs := by
  rcases List.append_eq_append_iff.mp h with ⟨rest, rfl, split⟩ | ⟨rest, rfl, split⟩
  · cases rest with
    | nil => exact (List.append_nil before).symm
    | cons y rest =>
        obtain ⟨rfl, -⟩ := List.cons.inj split
        exact absurd hx (old x (List.mem_append_right _ List.mem_cons_self))
  · cases rest with
    | nil => exact List.append_nil xs
    | cons y rest =>
        subst split
        exact absurd hx (new x (List.mem_append_right _ List.mem_cons_self))

namespace Session

open Milp.Action

variable {ν ω α β : Type} {write? : ν → Option ω} {ws ws' : List ω}

/-- Where an action gives a result, what the engine was told to write meanwhile is this. -/
def Makes (write? : ν → Option ω) (ws : List ω) (a : Action (Session ν) α) : Prop :=
  ∀ s x s', a.runOn s = (.ok x, s') →
    s'.state.tellings.filterMap write? = s.state.tellings.filterMap write? ++ ws

theorem Makes.bind {a : Action (Session ν) α} {f : α → Action (Session ν) β}
    (ha : Makes write? ws a) (hf : ∀ x, Makes write? ws' (f x)) :
    Makes write? (ws ++ ws') (a >>= f) := by
  intro s y s' h
  obtain ⟨x, s₁, first, second⟩ := runOn_bind_eq_ok.mp h
  rw [hf x s₁ y s' second, ha s x s₁ first, List.append_assoc]

theorem makes_nothing {a : Action (Session ν) α} (h : Keeps (Adds fun x => write? x = none) a) :
    Makes write? [] a := by
  intro s x s' done
  obtain ⟨es, events, each⟩ := h.of_runOn done
  rw [Session.tellings, events, List.filterMap_append, List.filterMap_append, ← Session.tellings]
  congr 1
  refine List.filterMap_eq_nil_iff.mpr fun x hx => each x ?_
  obtain ⟨e, he, found⟩ := List.mem_filterMap.mp hx
  cases e with
  | hook _ _ => cases found
  | told y => exact Option.some.inj found ▸ he

theorem Makes.after {a : Action (Session ν) α} {f : α → Action (Session ν) β}
    (quiet : Keeps (Adds fun x => write? x = none) a) (hf : ∀ x, Makes write? ws (f x)) :
    Makes write? ws (a >>= f) :=
  (makes_nothing quiet).bind hf

theorem Makes.before {a : Action (Session ν) α} {f : α → Action (Session ν) β}
    (ha : Makes write? ws a) (quiet : ∀ x, Keeps (Adds fun x => write? x = none) (f x)) :
    Makes write? ws (a >>= f) := by
  have both := ha.bind fun x => makes_nothing (quiet x)
  rwa [List.append_nil] at both

theorem keeps_frozen {R : Session ν → Session ν → Prop} {name : Value} {t : Table Value}
    {settings : Settings} {notes : List Message}
    (frozen : Settings.ofParameters name t = (.ok settings, notes))
    {f : Settings → Action (Session ν) β} (hf : Keeps R (f settings)) :
    Keeps R (Settings.freeze name t >>= f) := by
  intro s
  rw [runOn_bind, runOn_freeze, frozen]
  exact hf ⟨s.state, s.log ++ notes⟩

theorem makes_freeze {name : Value} {t : Table Value} {settings : Settings} {notes : List Message}
    (frozen : Settings.ofParameters name t = (.ok settings, notes))
    {f : Settings → Action (Session ν) β} (hf : Makes write? ws (f settings)) :
    Makes write? ws (Settings.freeze name t >>= f) := by
  intro s y s' h
  rw [runOn_bind, runOn_freeze, frozen] at h
  have rest : (f settings).runOn ⟨s.state, s.log ++ notes⟩ = (.ok y, s') := h
  exact hf ⟨s.state, s.log ++ notes⟩ y s' rest

/-- Something else than a write is told. -/
theorem keeps_tell_other {x : ν} (h : write? x = none) :
    Keeps (Adds fun x => write? x = none) (tell x) := by
  have told : Keeps (Only fun x => write? x = none) (tell x) := keeps_tell h
  exact told.imp fun _ _ only => only.appends.adds

theorem makes_tell (write? : ν → Option ω) {x : ν} {w : ω} (h : write? x = some w) :
    Makes write? [w] (tell x) := by
  rintro s _ s' ⟨⟩
  rw [tellings_told, List.filterMap_append]
  simp [h]

theorem makes_forM {γ : Type} {f : γ → Action (Session ν) PUnit} {w : γ → ω}
    (h : ∀ x, Makes write? [w x] (f x)) (xs : List γ) : Makes write? (xs.map w) (xs.forM f) := by
  induction xs with
  | nil => exact makes_nothing (keeps_pure _)
  | cons x xs ih => exact (h x).bind fun _ => ih

end Session

end Milp
