import Milp.Proofs.Action.Frame
import Milp.Store.Text

/-!
# What a text depends on

`write` gives the same text of a value in which no object occurs wherever it is written out. The
text of a constraint over such values depends on its terms and its sides, and on nothing else in the
store.
-/

namespace Milp

namespace Action

variable {σ α β : Type} {P : σ → Prop}

/-- An action gives one answer on all states of a sort, and changes nothing. -/
def Constant (P : σ → Prop) (a : Action σ α) : Prop :=
  ∃ r, ∀ s : Logged σ, P s.state → a.runOn s = (r, s)

theorem constant_pure (x : α) : Constant P (pure x : Action σ α) :=
  ⟨.ok x, fun _ _ => rfl⟩

theorem constant_throw (f : Fault) : Constant P (throw f : Action σ α) :=
  ⟨.error f, fun _ _ => rfl⟩

theorem Constant.bind {a : Action σ α} {f : α → Action σ β} (ha : Constant P a)
    (hf : ∀ x, Constant P (f x)) : Constant P (a >>= f) := by
  obtain ⟨e | x, ha⟩ := ha
  · refine ⟨.error e, fun s hs => ?_⟩
    rw [runOn_bind, ha s hs]
  · obtain ⟨r, hf⟩ := hf x
    refine ⟨r, fun s hs => ?_⟩
    rw [runOn_bind, ha s hs]
    exact hf s hs

theorem Constant.after {a : Action σ α} {f : α → Action σ β} {x : α} (hf : Constant P (f x))
    (ha : ∀ s : Logged σ, P s.state → a.runOn s = (.ok x, s)) : Constant P (a >>= f) := by
  obtain ⟨r, hf⟩ := hf
  refine ⟨r, fun s hs => ?_⟩
  rw [runOn_bind, ha s hs]
  exact hf s hs

theorem constant_foldlM {f : β → α → Action σ β} {xs : List α}
    (h : ∀ x ∈ xs, ∀ y, Constant P (f y x)) (y : β) : Constant P (xs.foldlM f y) := by
  induction xs generalizing y with
  | nil => exact constant_pure y
  | cons x xs ih =>
      obtain ⟨head, tail⟩ := List.forall_mem_cons.mp h
      rw [List.foldlM_cons]
      exact (head y).bind fun z => ih tail z

end Action

namespace Value

mutual

/-- No object occurs in a value. -/
def isClosed : Value → Bool
  | .tuple xs => allClosed xs
  | .term v c => v.isClosed && c.isClosed
  | .config a b c d e f g =>
    a.isClosed && b.isClosed && c.isClosed && d.isClosed && e.isClosed && f.isClosed && g.isClosed
  | .object _ => false
  | _ => true

def allClosed : List Value → Bool
  | [] => true
  | v :: vs => v.isClosed && allClosed vs

end

theorem allClosed_iff {vs : List Value} : allClosed vs = true ↔ ∀ v ∈ vs, v.isClosed := by
  induction vs with
  | nil => simp [allClosed]
  | cons v vs ih => simp [allClosed, ih]

end Value

/-! ## Phrases without objects -/

namespace Phrase

/-- No object occurs in a part of a phrase. -/
def Part.Closed : Part → Prop
  | .text _ => True
  | .literal v => v.isClosed
  | .plain v => v.isClosed
  | .within v => v.isClosed

def Closed (p : Phrase) : Prop :=
  ∀ part ∈ p.parts, part.Closed

theorem closed_ofText (t : String) : (ofText t).Closed :=
  List.forall_mem_singleton.mpr trivial

theorem closed_literal {v : Value} (h : v.isClosed) : (literal v).Closed :=
  List.forall_mem_singleton.mpr h

theorem closed_within {v : Value} (h : v.isClosed) : (within v).Closed :=
  List.forall_mem_singleton.mpr h

theorem Closed.append {p q : Phrase} (hp : p.Closed) (hq : q.Closed) : (p ++ q).Closed :=
  List.forall_mem_append.mpr ⟨hp, hq⟩

theorem closed_intercalate (separator : String) {ps : List Phrase} (h : ∀ p ∈ ps, p.Closed) :
    (intercalate separator ps).Closed := by
  induction ps with
  | nil => exact closed_ofText ""
  | cons p ps ih =>
      obtain ⟨head, tail⟩ := List.forall_mem_cons.mp h
      cases ps with
      | nil => exact head
      | cons q qs => exact (head.append (closed_ofText separator)).append (ih tail)

end Phrase

theorem Term.closed_phrase {t : Term} (var : t.var.isClosed)
    (coefficient : t.coefficient.isClosed) : t.phrase.Closed :=
  ((Phrase.closed_within coefficient).append (Phrase.closed_ofText "*")).append
    (Phrase.closed_within var)

/-- No object occurs in the terms of an expression. -/
def Linear.Closed (l : Linear) : Prop :=
  ∀ t ∈ l.terms, t.var.isClosed ∧ t.coefficient.isClosed

def Expression.Closed (e : Expression) : Prop :=
  ∀ t ∈ e.terms.items, t.var.isClosed ∧ t.coefficient.isClosed

/-- No object occurs in the sides of a constraint. -/
structure Constraint.Closed (c : Constraint) : Prop where
  lhs : c.lhs.Closed
  operator : c.operator.isClosed
  rhs : c.rhs.isClosed

theorem Linear.closed_phrase {l : Linear} (h : l.Closed) : l.phrase.Closed := by
  have from_ (ts : List Term) (h : ∀ t ∈ ts, t.var.isClosed ∧ t.coefficient.isClosed)
      (last place : Nat) : (phraseFrom last place ts).Closed := by
    induction ts generalizing place with
    | nil => exact Phrase.closed_ofText ""
    | cons t ts ih =>
        obtain ⟨⟨var, coefficient⟩, tail⟩ := List.forall_mem_cons.mp h
        exact ((Term.closed_phrase var coefficient).append (Phrase.closed_ofText _)).append
          (ih tail (place + 1))
  exact from_ l.terms h (l.size - 1) 0

namespace Store

open Milp.Action

/-! ## Texts of values without objects -/

section

variable {P : Store → Prop} {v : Value}

theorem closed_bracketed (opening closing : String) {ps : List Phrase} (h : ∀ p ∈ ps, p.Closed) :
    (bracketed opening ps closing).Closed :=
  ((Phrase.closed_ofText opening).append (Phrase.closed_intercalate ", " h)).append
    (Phrase.closed_ofText closing)

theorem closed_record (name : String) {fields : List (String × Value)}
    (h : ∀ f ∈ fields, f.2.isClosed) : (record name fields).Closed := by
  refine closed_bracketed _ _ fun p hp => ?_
  obtain ⟨f, hf, rfl⟩ := List.mem_map.mp hp
  exact (Phrase.closed_ofText _).append (Phrase.closed_literal (h f hf))

theorem closed_literals {vs : List Value} (h : Value.allClosed vs) :
    ∀ p ∈ literals vs, p.Closed := by
  intro p hp
  obtain ⟨v, hv, rfl⟩ := List.mem_map.mp hp
  exact Phrase.closed_literal (Value.allClosed_iff.mp h v hv)

/-- A value without objects that has no text of its own is worded in terms of its parts. -/
theorem exists_literalPhrase (closed : v.isClosed) (parts : v.literal? = none) :
    ∃ p : Phrase, p.Closed ∧ ∀ s, (literalPhrase v).runOn s = (.ok p, s) := by
  cases v with
  | tuple xs =>
      match xs, closed with
      | [], _ => exact ⟨_, closed_bracketed "(" ")" (by simp [literals]), fun s => rfl⟩
      | [x], closed =>
          have hx : x.isClosed := Value.allClosed_iff.mp closed x List.mem_cons_self
          exact ⟨_, ((Phrase.closed_ofText "(").append (Phrase.closed_literal hx)).append
            (Phrase.closed_ofText ",)"), fun s => rfl⟩
      | x :: y :: zs, closed =>
          exact ⟨_, closed_bracketed "(" ")" (closed_literals closed), fun s => rfl⟩
  | term a c =>
      have both : a.isClosed ∧ c.isClosed := by simpa [Value.isClosed] using closed
      exact ⟨_, closed_record "Term" (by simp [both]), fun s => rfl⟩
  | config a b c d e f g =>
      exact ⟨_, closed_record "SolverConfig" (by
        simpa [settingsFields, Value.isClosed, and_assoc] using closed), fun s => rfl⟩
  | object r => cases closed
  | undefined form id => cases form <;> cases parts
  | _ => cases parts

theorem exists_plainPhrase (closed : v.isClosed) (parts : v.literal? = none) :
    ∃ p : Phrase, p.Closed ∧ ∀ s, (plainPhrase v).runOn s = (.ok p, s) := by
  cases v with
  | term a c =>
      have both : a.isClosed ∧ c.isClosed := by simpa [Value.isClosed] using closed
      exact ⟨_, Term.closed_phrase (t := ⟨a, c⟩) both.1 both.2, fun s => rfl⟩
  | object r => cases closed
  | _ => exact exists_literalPhrase closed parts

theorem enter_eq_none (opened : List Ref) (closed : v.isClosed) :
    enter opened v = (none, opened) := by
  cases v with
  | object r => cases closed
  | _ => rfl

/-- Writes the parts of a phrase one after the other. -/
def writeParts (depth : Nat) (opened : List Ref) (p : Phrase) : Action Store String :=
  p.parts.foldlM (fun t part => do return t ++ (← writePart depth opened part)) ""

/-- An action that words something in terms of parts that are written in the same way everywhere. -/
theorem constant_worded {a : Action Store Phrase} {p : Phrase} {depth : Nat} {opened : List Ref}
    (ha : ∀ s : Logged Store, P s.state → a.runOn s = (.ok p, s))
    (h : ∀ part ∈ p.parts, Constant P (writePart depth opened part)) :
    Constant P (a >>= writeParts depth opened) := by
  refine Constant.after (constant_foldlM (fun part hpart _ => ?_) "") ha
  exact (h part hpart).bind fun _ => constant_pure _

/-- `writePart` gives the same text everywhere for a part in which no object occurs
(`Part.Closed`). -/
theorem constant_writePart (depth : Nat) (opened : List Ref) {part : Phrase.Part}
    (closed : part.Closed) : Constant P (writePart depth opened part) := by
  induction depth generalizing part with
  | zero => exact constant_throw _
  | succ depth ih =>
      have worded {p : Phrase} (hp : p.Closed) {a : Action Store Phrase}
          (ha : ∀ s, a.runOn s = (.ok p, s)) : Constant P (a >>= writeParts depth opened) :=
        constant_worded (fun s _ => ha s) fun part hpart => ih (hp part hpart)
      unfold writePart
      cases part with
      | text t => exact constant_pure t
      | literal v =>
          dsimp only
          cases h : v.literal? with
          | some t => exact constant_pure t
          | none =>
              obtain ⟨p, hp, phrase⟩ := exists_literalPhrase closed h
              rw [enter_eq_none opened closed]
              exact worded hp phrase
      | plain v =>
          dsimp only
          cases h : v.plain? <|> v.literal? with
          | some t => exact constant_pure t
          | none =>
              have own : v.plain? = none ∧ v.literal? = none := by simpa using h
              obtain ⟨p, hp, phrase⟩ := exists_plainPhrase closed own.2
              rw [enter_eq_none opened closed]
              exact worded hp phrase
      | within v =>
          dsimp only
          cases h : v.within? <|> v.literal? with
          | some t => exact constant_pure t
          | none =>
              have own : v.within? = none ∧ v.literal? = none := by simpa using h
              obtain ⟨p, hp, phrase⟩ := exists_plainPhrase closed own.2
              rw [enter_eq_none opened closed]
              exact worded hp phrase

/-! ## Texts of expressions and constraints -/

/-- An object is written as its wording is, where it is worded in the same way everywhere. -/
theorem constant_writePart_object {r : Ref} (hint : hint? r = none) {p : Phrase}
    (phrase : ∀ s : Logged Store, P s.state → (plainPhrase (.object r)).runOn s = (.ok p, s))
    (h : ∀ (depth : Nat) (opened : List Ref), ∀ part ∈ p.parts,
      Constant P (writePart depth opened part)) {part : Phrase.Part}
    (shown : part = .plain (.object r) ∨ part = .within (.object r)) (depth : Nat)
    (opened : List Ref) : Constant P (writePart depth opened part) := by
  cases depth with
  | zero => exact constant_throw _
  | succ depth =>
      have entered : enter opened (.object r) = (none, opened) := by simp [enter, hint]
      have worded := constant_worded phrase (h depth opened)
      unfold writePart
      rcases shown with rfl | rfl
      · simp only [Value.plain?, Value.literal?, entered]
        exact worded
      · simp only [Value.within?, Value.plain?, Value.literal?, entered]
        exact worded

theorem plainPhrase_linear (s : Logged Store) (i : Nat) :
    (plainPhrase (.object ⟨.linear, i⟩)).runOn s = (.ok (s.state.linear i).phrase, s) := rfl

theorem plainPhrase_constraint (s : Logged Store) (c : Nat) :
    (plainPhrase (.object ⟨.constraint, c⟩)).runOn s =
      (.ok (Constraint.phrase (s.state.constraint c).lhs (s.state.constraint c).operator
        (s.state.constraint c).rhs), s) := rfl

theorem constant_writePart_linear {l : Linear} (closed : l.Closed) {i : Nat}
    (there : ∀ s, P s → s.linear i = l) {part : Phrase.Part}
    (shown : part = .plain (.object ⟨.linear, i⟩) ∨ part = .within (.object ⟨.linear, i⟩))
    (depth : Nat) (opened : List Ref) : Constant P (writePart depth opened part) := by
  have phrase (s : Logged Store) (hs : P s.state) := there s.state hs ▸ plainPhrase_linear s i
  exact constant_writePart_object rfl phrase (fun depth opened part hpart =>
    constant_writePart depth opened (Linear.closed_phrase closed part hpart)) shown depth opened

theorem constant_textOf (h : Constant P (writePart depthLimit [] (.plain v))) :
    Constant P (textOf v) :=
  constant_foldlM (List.forall_mem_singleton.mpr fun _ => h.bind fun _ => constant_pure _) ""

/-- The text of an expression over values without objects is that of its terms. -/
theorem constant_textOf_linear {l : Linear} (closed : l.Closed) {i : Nat}
    (there : ∀ s, P s → s.linear i = l) : Constant P (textOf (.object ⟨.linear, i⟩)) :=
  constant_textOf (constant_writePart_linear closed there (.inl rfl) depthLimit [])

/-- The text of a constraint over values without objects is that of its terms and its sides. -/
theorem constant_textOf_constraint {o : ConstraintObject} {l : Linear} (closed : l.Closed)
    (operator : o.operator.isClosed) (rhs : o.rhs.isClosed) {c i : Nat}
    (lhs : o.lhs = .object ⟨.linear, i⟩)
    (there : ∀ s, P s → s.constraint c = o ∧ s.linear i = l) :
    Constant P (textOf (.object ⟨.constraint, c⟩)) := by
  have parts (depth : Nat) (opened : List Ref) :
      ∀ part ∈ (Constraint.phrase o.lhs o.operator o.rhs).parts,
        Constant P (writePart depth opened part) := by
    have closed_part {part : Phrase.Part} (h : part.Closed) :=
      constant_writePart (P := P) depth opened h
    have side := constant_writePart_linear closed (fun s hs => (there s hs).2) (.inr rfl) depth
      opened
    simp only [Constraint.phrase, Phrase.parts_append, List.forall_mem_append]
    rw [lhs]
    refine ⟨⟨⟨⟨?_, ?_⟩, ?_⟩, ?_⟩, ?_⟩ <;> refine List.forall_mem_singleton.mpr ?_
    · exact side
    · exact closed_part trivial
    · exact closed_part operator
    · exact closed_part trivial
    · exact closed_part rhs
  exact constant_textOf (constant_writePart_object rfl
    (fun s hs => (there s.state hs).1 ▸ plainPhrase_constraint s c) parts (.inl rfl) depthLimit [])

theorem constant_writeParts (depth : Nat) (opened : List Ref) {p : Phrase} (closed : p.Closed) :
    Constant P (writeParts depth opened p) :=
  constant_foldlM (fun part hpart _ => (constant_writePart depth opened (closed part hpart)).bind
    fun _ => constant_pure _) ""

/-- An expression is written as its terms are, whichever object it is. -/
theorem runOn_writePart_linear (depth : Nat) (opened : List Ref) (i : Nat) (s : Logged Store) :
    (writePart (depth + 1) opened (.within (.object ⟨.linear, i⟩))).runOn s =
      (writeParts depth opened (s.state.linear i).phrase).runOn s := by
  have entered : enter opened (.object ⟨.linear, i⟩) = (none, opened) := by simp [enter, hint?]
  unfold writePart
  simp only [Value.within?, Value.plain?, Value.literal?, entered]
  change (plainPhrase (.object ⟨.linear, i⟩) >>= writeParts depth opened).runOn s = _
  rw [runOn_bind, plainPhrase_linear]

/-- Writes the parts of a phrase after a text. -/
def writeAfter (p : Phrase) (t : String) : Action Store String :=
  p.parts.foldlM (fun t part => do return t ++ (← writePart depthLimit [] part)) t

/-- What is written of a constraint is the same for all expressions with the same terms, if no
object occurs in it. -/
theorem exists_write_phrase {l : Linear} {operator rhs : Value} (closed : l.Closed)
    (operatorClosed : operator.isClosed) (rhsClosed : rhs.isClosed) :
    ∃ r, ∀ (s : Logged Store) (i : Nat), s.state.linear i = l →
      (write (Constraint.phrase (.object ⟨.linear, i⟩) operator rhs)).runOn s = (r, s) := by
  -- The expression alone is looked up. It comes first, and the rest is closed.
  let rest : Phrase := " " ++ Phrase.within operator ++ " " ++ Phrase.within rhs
  have closedRest : rest.Closed :=
    (((Phrase.closed_ofText " ").append (Phrase.closed_within operatorClosed)).append
      (Phrase.closed_ofText " ")).append (Phrase.closed_within rhsClosed)
  obtain ⟨depth, limit⟩ : ∃ depth, depthLimit = depth + 1 := ⟨_, rfl⟩
  have split (s : Logged Store) (i : Nat) (hs : s.state.linear i = l) :
      (write (Constraint.phrase (.object ⟨.linear, i⟩) operator rhs)).runOn s =
        (writeParts depth [] l.phrase >>= fun t => writeAfter rest ("" ++ t)).runOn s := by
    have parts : (Constraint.phrase (.object ⟨.linear, i⟩) operator rhs).parts =
      .within (.object ⟨.linear, i⟩) :: rest.parts := rfl
    have side := runOn_writePart_linear depth [] i s
    rw [hs, ← limit] at side
    unfold write
    rw [parts, List.foldlM_cons, runOn_bind, runOn_bind, runOn_bind, side]
    rcases (writeParts depth [] l.phrase).runOn s with ⟨e | t, s₁⟩ <;> rfl
  have constant : Constant (fun _ => True)
      (writeParts depth [] l.phrase >>= fun t => writeAfter rest ("" ++ t)) :=
    (constant_writeParts depth [] (Linear.closed_phrase closed)).bind fun _ =>
      constant_foldlM (fun part hpart _ => (constant_writePart depthLimit []
        (closedRest part hpart)).bind fun _ => constant_pure _) _
  obtain ⟨r, hr⟩ := constant
  exact ⟨r, fun s i hs => (split s i hs).trans (hr s trivial)⟩

end

end Store

end Milp
