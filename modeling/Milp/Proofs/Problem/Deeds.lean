import Milp.Proofs.Problem.Registration
import Milp.Proofs.Problem.Renumbering
import Milp.Proofs.Store.Wording

/-!
# What calls do to a problem

What is done to a problem can be taken apart into deeds (`Deed`): each of them registers the
variables that it names and then writes into one `Slot`. What stands in a slot depends on the deeds
that write there and on their order among themselves. Of the order of all other deeds, only the
order in which the variables are listed can tell.
-/

namespace Milp

/-- A constraint as it is added: over given terms, and under a name unless it is to be named by its
text. -/
structure Addition where
  lhs : Linear
  operator : Value
  rhs : Value
  name : Option Value

/-- Something that is done to a problem. -/
inductive Deed where
  | add (a : Addition)
  | objective (l : Linear)
  | sense (s : Sense)
  | domain (v : Value) (d : Domain)
  | lower (v bound : Value)
  | upper (v bound : Value)

/-- Where deeds write. What is written of a variable stands under its key. -/
inductive Slot where
  | rows
  | objective
  | sense
  | domain (key : Key)
  | lower (key : Key)
  | upper (key : Key)
  deriving DecidableEq

namespace Deed

def slot : Deed → Slot
  | .add _ => .rows
  | .objective _ => .objective
  | .sense _ => .sense
  | .domain v _ => .domain v.key
  | .lower v _ => .lower v.key
  | .upper v _ => .upper v.key

/-- The variables that a deed registers, in order. -/
def vars : Deed → List Value
  | .add a => a.lhs.vars
  | .objective l => l.vars
  | .sense _ => []
  | .domain v _ => [v]
  | .lower v _ => [v]
  | .upper v _ => [v]

def addition? : Deed → Option Addition
  | .add a => some a
  | _ => none

def objective? : Deed → Option Linear
  | .objective l => some l
  | _ => none

def sense? : Deed → Option Sense
  | .sense s => some s
  | _ => none

end Deed

/-- The same deeds in another order, in which those that write into one `Slot` still come one after
the other as they did. -/
structure Reordered (ds ds' : List Deed) : Prop where
  perm : ds'.Perm ds
  order : ∀ p : Slot, ds'.filter (·.slot = p) = ds.filter (·.slot = p)

/-- Writes the bound of a variable, or removes it. -/
def Declarations.withBound (t : Table Value) (v : Value) : Value → Table Value
  | .none => t.erase v
  | bound => t.insert v bound

/-- What is known of variables after a deed. -/
def Declarations.after (d : Declarations) (e : Deed) : Declarations :=
  let d := { d with vars := e.vars.foldl (fun t v => t.insertNew v ()) d.vars }
  match e with
  | .domain v k => { d with domains := d.domains.insert v k }
  | .lower v b => { d with lowers := withBound d.lowers v b }
  | .upper v b => { d with uppers := withBound d.uppers v b }
  | _ => d

namespace Addition

/-- No object occurs in the sides of what is added. -/
structure Closed (a : Addition) : Prop where
  lhs : a.lhs.Closed
  operator : a.operator.isClosed
  rhs : a.rhs.isClosed

/-- A name is the text of what is added, wherever that is written. -/
def NamedByText (a : Addition) (name : Value) : Prop :=
  ∀ (s : Logged Store) (i : Nat), s.state.linear i = a.lhs → ∃ t,
    ((Store.write (Constraint.phrase (.object ⟨.linear, i⟩) a.operator a.rhs)).runOn s).1 = .ok t ∧
      name = .text t

/-- A constraint is the one that was added. It has the name that it was given, or else its text. -/
structure Shown (a : Addition) (c : Constraint) : Prop where
  lhs : c.lhs = .linear a.lhs
  operator : c.operator = a.operator
  rhs : c.rhs = a.rhs
  named : ∀ n, a.name = some n → c.name = n
  unnamed : a.name = none → a.Closed → a.NamedByText c.name

end Addition

/-- A problem comes of another one by deeds. -/
structure Problem.Becomes (p : Problem) (ds : List Deed) (p' : Problem) : Prop where
  declarations : p'.toDeclarations = ds.foldl Declarations.after p.toDeclarations
  objective : p'.objective = ((ds.filterMap Deed.objective?).getLast?.map .linear).or p.objective
  sense : p'.sense = (ds.filterMap Deed.sense?).getLast?.getD p.sense
  rows : ∃ cs, p'.constraints.items = p.constraints.items ++ cs ∧
    List.Forall₂ Addition.Shown (ds.filterMap Deed.addition?) cs

/-! ## Changes of order -/

section

variable {ds ds' ds'' es es' : List Deed}

theorem Reordered.refl (ds : List Deed) : Reordered ds ds :=
  ⟨.refl ds, fun _ => rfl⟩

theorem Reordered.trans (h : Reordered ds ds') (h' : Reordered ds' ds'') : Reordered ds ds'' :=
  ⟨h'.perm.trans h.perm, fun p => (h'.order p).trans (h.order p)⟩

theorem Reordered.append (h : Reordered ds ds') (h' : Reordered es es') :
    Reordered (ds ++ es) (ds' ++ es') :=
  ⟨h.perm.append h'.perm, fun p => by
    rw [List.filter_append, List.filter_append, h.order, h'.order]⟩

/-- Deeds that write into different slots may change places. -/
theorem Reordered.append_comm (apart : ∀ e ∈ ds, ∀ e' ∈ es, e.slot ≠ e'.slot) :
    Reordered (ds ++ es) (es ++ ds) := by
  refine ⟨List.perm_append_comm, fun p => ?_⟩
  have either : ds.filter (·.slot = p) = [] ∨ es.filter (·.slot = p) = [] := by
    by_cases h : ∃ e ∈ ds, e.slot = p
    · obtain ⟨e, he, rfl⟩ := h
      exact .inr (List.filter_eq_nil_iff.mpr fun e' he' => by simpa using (apart e he e' he').symm)
    · push Not at h
      exact .inl (List.filter_eq_nil_iff.mpr fun e he => by simpa using h e he)
  rw [List.filter_append, List.filter_append]
  rcases either with h | h <;> simp [h]

/-- What is collected of the deeds of one slot does not depend on the order of the others. -/
theorem Reordered.filterMap_eq {α : Type} (h : Reordered ds ds') (p : Slot) {f : Deed → Option α}
    (only : ∀ e, e.slot ≠ p → f e = none) : ds'.filterMap f = ds.filterMap f := by
  have within (es : List Deed) : (es.filter (·.slot = p)).filterMap f = es.filterMap f := by
    rw [List.filterMap_filter]
    refine List.filterMap_congr fun e _ => ?_
    by_cases he : e.slot = p
    · simp [he]
    · simp [he, only e he]
  rw [← within ds', h.order p, within ds]

end

/-! ## Declarations after deeds -/

namespace Declarations

section

open Milp.Action

variable {v b : Value} {s s' : Logged Declarations}

/-- What is declared of a variable is written after it has been registered. -/
theorem state_of_declare {f : Declarations → Declarations}
    (h : (register v >>= fun _ => .update f).runOn s = (.ok (), s')) :
    s'.state = f { s.state with vars := s.state.vars.insertNew v () } := by
  obtain ⟨_, s₁, registered, h⟩ := runOn_bind_eq_ok.mp h
  obtain ⟨_, s₂, key, registered⟩ := runOn_bind_eq_ok.mp registered
  obtain rfl : s = s₂ := congrArg Prod.snd key
  cases registered
  exact (congrArg (fun r => r.2.state) h).symm

theorem state_of_setLower (h : (setLower v b).runOn s = (.ok (), s')) :
    s'.state = s.state.after (.lower v b) := by
  rw [state_of_declare h]
  cases b <;> rfl

theorem state_of_setUpper (h : (setUpper v b).runOn s = (.ok (), s')) :
    s'.state = s.state.after (.upper v b) := by
  rw [state_of_declare h]
  cases b <;> rfl

/-- A value that names no domain is passed over, and the variable is not even registered. -/
theorem state_of_setDomain {given : Value} (h : (setDomain v given).runOn s = (.ok (), s')) :
    s'.state = ((domainNamed? given).toList.map (Deed.domain v)).foldl after s.state := by
  unfold setDomain at h
  obtain ⟨_, s₁, key, h⟩ := runOn_bind_eq_ok.mp h
  obtain rfl : s = s₁ := congrArg Prod.snd key
  cases named : domainNamed? given with
  | some d =>
      rw [named] at h
      exact state_of_declare h
  | none =>
      rw [named] at h
      exact (congrArg (fun r => r.2.state) h).symm

end

/-- What is read of declarations is written by the deeds of one slot alone. -/
structure Confined {α : Type} (f : Declarations → α) (p : Slot) : Prop where
  only : ∀ d e, e.slot ≠ p → f (d.after e) = f d
  congr : ∀ d d' e, f d' = f d → f (d'.after e) = f (d.after e)

section

variable {α : Type} {f : Declarations → α} {p : Slot} {d d' : Declarations} {v w : Value}
  {ds ds' : List Deed}

theorem Confined.foldl_congr (h : Confined f p) (same : f d' = f d) (ds : List Deed) :
    f (ds.foldl after d') = f (ds.foldl after d) := by
  induction ds generalizing d d' with
  | nil => exact same
  | cons e ds ih => exact ih (h.congr d d' e same)

/-- Deeds that write elsewhere may be left out. -/
theorem Confined.foldl_filter (h : Confined f p) (ds : List Deed) :
    f ((ds.filter (·.slot = p)).foldl after d) = f (ds.foldl after d) := by
  induction ds generalizing d with
  | nil => rfl
  | cons e ds ih =>
      by_cases he : e.slot = p
      · simpa [List.filter_cons, he] using ih
      · -- The declarations are not the same without the deed, but they read the same from here on.
        rw [List.filter_cons_of_neg (by simpa using he), ih, List.foldl_cons]
        exact (h.foldl_congr (h.only d e he) ds).symm

theorem Confined.foldl_eq (h : Confined f p) (reordered : Reordered ds ds') :
    f (ds'.foldl after d) = f (ds.foldl after d) := by
  rw [← h.foldl_filter ds', reordered.order p, h.foldl_filter ds]

theorem get?_withBound_congr {t t' : Table Value} (same : t'.get? v = t.get? v) (w b : Value) :
    (withBound t' w b).get? v = (withBound t w b).get? v := by
  unfold withBound
  by_cases h : w.key = v.key
  · split <;> simp [← Table.get?_congr h]
  · split <;> simp [Table.get?_erase_of_ne h, Table.get?_insert_of_ne h, same]

theorem get?_withBound_of_ne (h : w.key ≠ v.key) (t : Table Value) (b : Value) :
    (withBound t w b).get? v = t.get? v := by
  unfold withBound
  split
  · exact Table.get?_erase_of_ne h t
  · exact Table.get?_insert_of_ne h t _

theorem confined_domains (v : Value) : Confined (fun d => d.domains.get? v) (.domain v.key) := by
  refine ⟨fun d e apart => ?_, fun d d' e same => ?_⟩
  · cases e with
    | domain w k => exact Table.get?_insert_of_ne (fun same => apart (congrArg _ same)) _ _
    | _ => rfl
  · cases e with
    | domain w k =>
        by_cases hw : w.key = v.key
        · simp [after, ← Table.get?_congr hw]
        · simpa [after, Table.get?_insert_of_ne hw] using same
    | _ => exact same

theorem confined_lowers (v : Value) : Confined (fun d => d.lowers.get? v) (.lower v.key) := by
  refine ⟨fun d e apart => ?_, fun d d' e same => ?_⟩
  · cases e with
    | lower w b => exact get?_withBound_of_ne (fun same => apart (congrArg _ same)) _ _
    | _ => rfl
  · cases e with
    | lower w b => exact get?_withBound_congr same w b
    | _ => exact same

theorem confined_uppers (v : Value) : Confined (fun d => d.uppers.get? v) (.upper v.key) := by
  refine ⟨fun d e apart => ?_, fun d d' e same => ?_⟩
  · cases e with
    | upper w b => exact get?_withBound_of_ne (fun same => apart (congrArg _ same)) _ _
    | _ => rfl
  · cases e with
    | upper w b => exact get?_withBound_congr same w b
    | _ => exact same

/-! ## Variables -/

theorem contains_foldl_insertNew (vs : List Value) (t : Table Unit) :
    (vs.foldl (fun t v => t.insertNew v ()) t).contains v = true ↔
      t.contains v = true ∨ ∃ w ∈ vs, w.key = v.key := by
  induction vs generalizing t with
  | nil => simp
  | cons w vs ih => simp [ih, contains_insertNew, or_assoc]

theorem vars_after (d : Declarations) (e : Deed) :
    (d.after e).vars = e.vars.foldl (fun t v => t.insertNew v ()) d.vars := by
  cases e <;> rfl

/-- Those variables are listed that some deed names. -/
theorem contains_foldl_after (ds : List Deed) (d : Declarations) :
    (ds.foldl after d).vars.contains v = true ↔
      d.vars.contains v = true ∨ ∃ e ∈ ds, ∃ w ∈ e.vars, w.key = v.key := by
  induction ds generalizing d with
  | nil => simp
  | cons e ds ih =>
      rw [List.foldl_cons, ih, vars_after, contains_foldl_insertNew]
      simp [or_assoc]

theorem alike_of_reordered (h : Reordered ds ds') (d : Declarations) :
    (ds.foldl after d).Alike (ds'.foldl after d) := by
  refine ⟨fun v => ?_, fun v => (confined_domains v).foldl_eq h,
    fun v => (confined_lowers v).foldl_eq h, fun v => (confined_uppers v).foldl_eq h⟩
  rw [← contains_iff_listed, ← contains_iff_listed, contains_foldl_after, contains_foldl_after]
  simp only [h.perm.mem_iff]

end

end Declarations

/-! ## Problems after deeds -/

section

variable {a : Addition} {c c' : Constraint} {n n' : Value}

theorem Addition.NamedByText.unique (h : a.NamedByText n) (h' : a.NamedByText n') : n' = n := by
  let s : Logged Store := ⟨{ Store.empty with linears := [a.lhs] }, []⟩
  obtain ⟨t, ht, rfl⟩ := h s 0 rfl
  obtain ⟨t', ht', rfl⟩ := h' s 0 rfl
  rw [Except.ok.inj (ht.symm.trans ht')]

/-- Where the text of what is added is the same everywhere, it is known from one place. -/
theorem Addition.Closed.namedByText (h : a.Closed) {s : Logged Store} {i : Nat} {t : String}
    (lhs : s.state.linear i = a.lhs)
    (text : ((Store.write (Constraint.phrase (.object ⟨.linear, i⟩) a.operator a.rhs)).runOn s).1 =
      .ok t) : a.NamedByText (.text t) := by
  obtain ⟨r, hr⟩ := Store.exists_write_phrase h.lhs h.operator h.rhs
  rw [hr s i lhs] at text
  exact fun s' i' lhs' => ⟨t, (congrArg Prod.fst (hr s' i' lhs')).trans text, rfl⟩

theorem Addition.Shown.name_eq (h : a.Shown c) (h' : a.Shown c')
    (known : a.name.isSome ∨ a.Closed) : c'.name = c.name := by
  cases hn : a.name with
  | some n => rw [h.named n hn, h'.named n hn]
  | none =>
      have closed : a.Closed := known.resolve_left (by simp [hn])
      exact (h.unnamed hn closed).unique (h'.unnamed hn closed)

theorem Deed.addition?_of_slot_ne (e : Deed) (h : e.slot ≠ .rows) : e.addition? = none := by
  cases e with
  | add a => exact absurd rfl h
  | _ => rfl

theorem Deed.objective?_of_slot_ne (e : Deed) (h : e.slot ≠ .objective) : e.objective? = none := by
  cases e with
  | objective l => exact absurd rfl h
  | _ => rfl

theorem Deed.sense?_of_slot_ne (e : Deed) (h : e.slot ≠ .sense) : e.sense? = none := by
  cases e with
  | sense s => exact absurd rfl h
  | _ => rfl

end

namespace Problem

variable {p p' p'' : Problem} {ds ds' : List Deed}

theorem becomes_refl (p : Problem) : p.Becomes [] p :=
  ⟨rfl, rfl, rfl, [], by simp, .nil⟩

theorem Becomes.trans (h : p.Becomes ds p') (h' : p'.Becomes ds' p'') :
    p.Becomes (ds ++ ds') p'' := by
  obtain ⟨cs, hcs, shown⟩ := h.rows
  obtain ⟨cs', hcs', shown'⟩ := h'.rows
  refine ⟨?_, ?_, ?_, cs ++ cs', ?_, ?_⟩
  · rw [h'.declarations, h.declarations, List.foldl_append]
  · rw [h'.objective, h.objective, List.filterMap_append, List.getLast?_append, Option.map_or,
      Option.or_assoc]
  · rw [h'.sense, h.sense, List.filterMap_append, List.getLast?_append, Option.getD_or]
  · rw [hcs', hcs, List.append_assoc]
  · rw [List.filterMap_append]
    exact List.rel_append shown shown'

/-- The constraints of a problem that had none are those that were added. -/
theorem Becomes.shown (h : Problem.empty.Becomes ds p) :
    List.Forall₂ Addition.Shown (ds.filterMap Deed.addition?) p.constraints.items := by
  obtain ⟨cs, hcs, shown⟩ := h.rows
  have hcs : p.constraints.items = cs := hcs
  exact hcs ▸ shown

/-- Deeds in another order add the same constraints in the same order. -/
theorem Becomes.shown_of_reordered (h' : Problem.empty.Becomes ds' p')
    (reordered : Reordered ds ds') :
    List.Forall₂ Addition.Shown (ds.filterMap Deed.addition?) p'.constraints.items := by
  rw [← reordered.filterMap_eq .rows Deed.addition?_of_slot_ne]
  exact h'.shown

/-- Problems that come of `Reordered` deeds differ in nothing but the order of their variables, and
perhaps in the names of constraints. -/
theorem Becomes.alike (h : Problem.empty.Becomes ds p) (h' : Problem.empty.Becomes ds' p')
    (reordered : Reordered ds ds') : p.Alike p' where
  toAlike := by
    rw [h.declarations, h'.declarations]
    exact Declarations.alike_of_reordered reordered _
  constraints := by
    refine forall₂_of_common h.shown (h'.shown_of_reordered reordered) ?_
    exact fun a c c' shown shown' => ⟨shown'.lhs.trans shown.lhs.symm,
      shown'.operator.trans shown.operator.symm, shown'.rhs.trans shown.rhs.symm⟩
  objective := by
    rw [h.objective, h'.objective, reordered.filterMap_eq .objective Deed.objective?_of_slot_ne]
  sense := by
    rw [h.sense, h'.sense, reordered.filterMap_eq .sense Deed.sense?_of_slot_ne]

/-- Constraints that were given a name have the same, and so have those in which no object
occurs. -/
theorem Becomes.name_eq (h : Problem.empty.Becomes ds p) (h' : Problem.empty.Becomes ds' p')
    (reordered : Reordered ds ds') {i : Nat} {a : Addition} {c c' : Constraint}
    (ha : (ds.filterMap Deed.addition?)[i]? = some a) (hc : p.constraints.items[i]? = some c)
    (hc' : p'.constraints.items[i]? = some c') (known : a.name.isSome ∨ a.Closed) :
    c'.name = c.name := by
  obtain ⟨c₁, hc₁, shown⟩ := exists_of_forall₂ h.shown ha
  obtain ⟨c₂, hc₂, shown'⟩ := exists_of_forall₂ (h'.shown_of_reordered reordered) ha
  obtain rfl : c₁ = c := Option.some.inj (hc₁.symm.trans hc)
  obtain rfl : c₂ = c' := Option.some.inj (hc₂.symm.trans hc')
  exact shown.name_eq shown' known

end Problem

end Milp
