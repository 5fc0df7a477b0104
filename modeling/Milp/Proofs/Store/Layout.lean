import Milp.Proofs.Linear.Lines
import Milp.Proofs.Store.Wording
import Milp.Store.Problem

/-!
# The layout of texts

`writeLines` writes expressions in lines of a hundred terms. The text of a constraint begins with
that of its expression, and so do the name that it gets from its text and its row in the text of a
problem.
-/

namespace Milp.Store

open Milp.Action

/-! ## Phrases, part by part -/

section

variable {depth : Nat} {opened : List Ref}

/-- A phrase is written behind what is there already. -/
theorem foldlM_writePart (ps : List Phrase.Part) (t : String) :
    ps.foldlM (fun t part => do return t ++ (← writePart depth opened part)) t =
      (do return t ++ (← writeParts depth opened ⟨ps⟩) : Action Store String) := by
  unfold writeParts
  induction ps generalizing t with
  | nil => simp
  | cons part ps ih =>
      simp only [List.foldlM_cons, bind_assoc, pure_bind]
      refine bind_congr fun u => ?_
      rw [ih (t ++ u), ih ("" ++ u)]
      simp only [bind_assoc, pure_bind, String.append_assoc, String.empty_append]

theorem writeParts_append (p q : Phrase) :
    writeParts depth opened (p ++ q) =
      do return (← writeParts depth opened p) ++ (← writeParts depth opened q) := by
  simp only [writeParts, Phrase.parts_append, List.foldlM_append]
  exact bind_congr fun t => foldlM_writePart q.parts t

theorem writeParts_single (part : Phrase.Part) :
    writeParts depth opened ⟨[part]⟩ = writePart depth opened part := by
  simp only [writeParts, List.foldlM_cons, List.foldlM_nil, String.empty_append,
    bind_pure]

theorem writeParts_ofText (t : String) : writeParts (depth + 1) opened (Phrase.ofText t) = pure t :=
  writeParts_single (.text t)

theorem writeParts_intercalate (separator : String) (ps : List Phrase) :
    writeParts (depth + 1) opened (Phrase.intercalate separator ps) =
      do return separator.intercalate (← ps.mapM (writeParts (depth + 1) opened)) := by
  induction ps with
  | nil => simp [Phrase.intercalate, writeParts_ofText]
  | cons p ps ih =>
      cases ps with
      | nil => simp [Phrase.intercalate]
      | cons q qs =>
          simp only [Phrase.intercalate, writeParts_append, writeParts_ofText, ih, List.mapM_cons,
            bind_assoc, pure_bind, String.intercalate_cons_cons]

end

/-! ## Expressions -/

/-- Writes an expression line by line. -/
def writeLines (depth : Nat) (opened : List Ref) (l : Linear) : Action Store String := do
  let texts ← l.terms.mapM fun t => writeParts depth opened t.phrase
  return Linear.inLines texts

section

variable {depth : Nat} {opened : List Ref}

/-- The terms are written one after the other, and what stands behind each is put in. -/
theorem writeParts_phraseFrom (last place : Nat) (ts : List Term) :
    writeParts (depth + 1) opened (Linear.phraseFrom last place ts) =
      (do
        let texts ← ts.mapM fun t => writeParts (depth + 1) opened t.phrase
        return Linear.joined last place texts) := by
  induction ts generalizing place with
  | nil => simp [Linear.phraseFrom, Linear.joined, writeParts_ofText]
  | cons t ts ih =>
      simp only [Linear.phraseFrom, writeParts_append, writeParts_ofText, ih, List.mapM_cons,
        bind_assoc, pure_bind, Linear.joined]

/-- What is made of the texts of a list may use their number before they are there. -/
theorem mapM_bind_length {α β γ : Type} (f : α → Action Store β) (g : Nat → List β → γ)
    (xs : List α) :
    (do return g xs.length (← xs.mapM f)) =
      (do let ys ← xs.mapM f; return g ys.length ys : Action Store γ) := by
  induction xs generalizing g with
  | nil => simp
  | cons x xs ih =>
      simp only [List.mapM_cons, bind_assoc, pure_bind]
      exact bind_congr fun y => ih fun n ys => g (n + 1) (y :: ys)

theorem writeParts_linear (l : Linear) :
    writeParts (depth + 1) opened l.phrase = writeLines (depth + 1) opened l := by
  have counted := mapM_bind_length (fun t : Term => writeParts (depth + 1) opened t.phrase)
    (fun n => Linear.joined (n - 1) 0) l.terms
  rw [Linear.phrase, writeParts_phraseFrom, Linear.size]
  exact counted.trans (bind_congr fun texts => by rw [Linear.joined_eq_inLines])

/-- `writePart` writes an expression line by line, wherever it stands. -/
theorem writePart_linear (i : Nat) :
    writePart (depth + 2) opened (.within (.object ⟨.linear, i⟩)) =
      (do writeLines (depth + 1) opened ((← Action.read).linear i)) := by
  simp only [← writeParts_linear]
  rfl

end

/-- Writes what stands on the left-hand side of a constraint, or as an objective. -/
def writeSide (depth : Nat) (v : Value) : Action Store String :=
  match v with
  | .object ⟨.linear, i⟩ => do writeLines (depth - 1) [] ((← Action.read).linear i)
  | v => writePart depth [] (.within v)

theorem writePart_side (depth : Nat) (v : Value) :
    writePart (depth + 2) [] (.within v) = writeSide (depth + 2) v := by
  unfold writeSide
  split
  · exact writePart_linear _
  · rfl

/-! ## Constraints -/

/-- Writes two sides with a relation between them. -/
def writeSides (depth : Nat) (lhs operator rhs : Value) : Action Store String := do
  let left ← writeSide depth lhs
  let sign ← writePart depth [] (.within operator)
  let right ← writePart depth [] (.within rhs)
  return left ++ " " ++ sign ++ " " ++ right

theorem writeParts_sides (depth : Nat) (lhs operator rhs : Value) :
    writeParts (depth + 2) [] (Constraint.phrase lhs operator rhs) =
      writeSides (depth + 2) lhs operator rhs := by
  have within (v : Value) : writeParts (depth + 2) [] (Phrase.within v) =
      writePart (depth + 2) [] (.within v) := writeParts_single _
  simp only [Constraint.phrase, writeParts_append, writeParts_ofText, within, writePart_side _ lhs,
    bind_assoc, pure_bind]
  rfl

/-- Writes a constraint by its sides, and anything else as it is. -/
def writeRow (depth : Nat) (c : Value) : Action Store String :=
  match c with
  | .object ⟨.constraint, k⟩ => do
    let o := (← Action.read).constraint k
    writeSides (depth - 1) o.lhs o.operator o.rhs
  | c => writePart depth [] (.within c)

theorem writePart_row (depth : Nat) (c : Value) :
    writePart (depth + 3) [] (.within c) = writeRow (depth + 3) c := by
  unfold writeRow
  split
  · rename_i k
    change _ = Action.read >>= fun s => writeSides (depth + 2) (s.constraint k).lhs
      (s.constraint k).operator (s.constraint k).rhs
    simp only [← writeParts_sides]
    rfl
  · rfl

/-! ## Problems -/

/-- Writes the lines of the objective. -/
def writeGoal (depth : Nat) (objective sense : Value) : Action Store (List String) :=
  match objective with
  | .none => return ["Find one solution"]
  | o => do return [← writePart depth [] (.plain sense), " " ++ (← writeSide depth o)]

/-- Writes a problem line by line. -/
def writeProblem (depth : Nat) (d : Declarations) (objective sense : Value)
    (constraints : List Value) : Action Store String := do
  let goal ← writeGoal depth objective sense
  let rows ← constraints.mapM fun c => do return " " ++ (← writeRow depth c)
  let declared ← (Problem.declarationLines d).mapM (writeParts depth [])
  return "\n".intercalate (goal ++ "Subject To" :: rows ++ declared) ++ "\n"

theorem writeParts_indented (depth : Nat) (v : Value) :
    writeParts (depth + 1) [] (" " ++ Phrase.within v) =
      do return " " ++ (← writePart (depth + 1) [] (.within v)) := by
  rw [writeParts_append, writeParts_ofText, pure_bind, Phrase.within, writeParts_single]

theorem mapM_goalLines (depth : Nat) (objective sense : Value) :
    (Problem.goalLines objective sense).mapM (writeParts (depth + 3) []) =
      writeGoal (depth + 3) objective sense := by
  have shown (v : Value) : writeParts (depth + 3) [] (Phrase.plain v) =
      writePart (depth + 3) [] (.plain v) := writeParts_single _
  unfold Problem.goalLines writeGoal
  split
  · simp [writeParts_ofText]
  · simp only [List.mapM_cons, List.mapM_nil, shown, writeParts_indented, writePart_side,
      bind_assoc, pure_bind]

theorem mapM_constraintLines (depth : Nat) (constraints : List Value) :
    (Problem.constraintLines constraints).mapM (writeParts (depth + 3) []) =
      constraints.mapM fun c => do return " " ++ (← writeRow (depth + 3) c) := by
  simp only [Problem.constraintLines, List.mapM_map, Function.comp_def, writeParts_indented,
    writePart_row]

theorem writeParts_problem (depth : Nat) (d : Declarations) (objective sense : Value)
    (constraints : List Value) :
    writeParts (depth + 3) [] (Problem.phrase d objective sense constraints) =
      writeProblem (depth + 3) d objective sense constraints := by
  simp only [Problem.phrase, Problem.lines, writeProblem, writeParts_append, writeParts_intercalate,
    writeParts_ofText, List.mapM_append, List.mapM_cons, mapM_goalLines, mapM_constraintLines,
    bind_assoc, pure_bind]

/-! ## The texts of objects -/

theorem textOf_eq (v : Value) : textOf v = writePart depthLimit [] (.plain v) :=
  writeParts_single _

/-- An object has one text, by itself and within a larger one. -/
theorem writePart_plain_object (depth : Nat) (opened : List Ref) (r : Ref) :
    writePart depth opened (.plain (.object r)) = writePart depth opened (.within (.object r)) := by
  cases depth <;> rfl

/-- There is room for a problem, a constraint in it, an expression in that, and its terms. -/
theorem exists_depth : ∃ depth, depthLimit = depth + 4 := ⟨_, rfl⟩

theorem textOf_term (t : Term) : textOf t.toValue = writeParts (depthLimit - 1) [] t.phrase := by
  obtain ⟨depth, limit⟩ := exists_depth
  rw [textOf_eq, limit]
  rfl

theorem textOf_linear (i : Nat) :
    textOf (.object ⟨.linear, i⟩) =
      (do writeLines (depthLimit - 1) [] ((← Action.read).linear i)) := by
  obtain ⟨depth, limit⟩ := exists_depth
  rw [textOf_eq, writePart_plain_object, limit]
  exact writePart_linear i

theorem textOf_constraint (c : Nat) :
    textOf (.object ⟨.constraint, c⟩) = (do
      let o := (← Action.read).constraint c
      writeSides (depthLimit - 1) o.lhs o.operator o.rhs) := by
  obtain ⟨depth, limit⟩ := exists_depth
  rw [textOf_eq, writePart_plain_object, limit]
  exact writePart_row (depth + 1) (.object ⟨.constraint, c⟩)

/-- Either a problem cannot be worded, or it is worded by what it is made of. -/
theorem plainPhrase_problem (s : Logged Store) (id : Nat) :
    (∃ e, (plainPhrase (.object ⟨.problem, id⟩)).runOn s = (.error e, s)) ∨
      ∃ constraints, s.state.items (s.state.problem id).constraints = .ok constraints ∧
        (plainPhrase (.object ⟨.problem, id⟩)).runOn s =
          (.ok (Problem.phrase (s.state.problem id).toDeclarations (s.state.problem id).objective
            (s.state.problem id).sense constraints), s) := by
  unfold plainPhrase
  simp only [runOn_bind, runOn_read, runOn_ofExcept]
  rcases s.state.items (s.state.problem id).constraints with e | constraints
  · exact .inl ⟨e, rfl⟩
  dsimp only
  split
  · exact .inl ⟨_, rfl⟩
  · exact .inr ⟨constraints, rfl, rfl⟩

/-- A problem that can be worded is written line by line. -/
theorem textOf_problem (id : Nat) :
    textOf (.object ⟨.problem, id⟩) = (do
      let _ ← plainPhrase (.object ⟨.problem, id⟩)
      let s ← Action.read
      let p := s.problem id
      let constraints ← .ofExcept (s.items p.constraints)
      writeProblem (depthLimit - 1) p.toDeclarations p.objective p.sense constraints) := by
  obtain ⟨depth, limit⟩ := exists_depth
  rw [textOf_eq, limit]
  change plainPhrase (.object ⟨.problem, id⟩) >>= writeParts (depth + 3) [] = _
  refine funext fun s => ?_
  change Action.runOn _ s = Action.runOn _ s
  obtain ⟨e, broken⟩ | ⟨constraints, items, worded⟩ := plainPhrase_problem s id
  · rw [runOn_bind, runOn_bind, broken]
  · rw [runOn_bind, runOn_bind, worded]
    simp only [runOn_bind, runOn_read, runOn_ofExcept, items, writeParts_problem]
    rfl

theorem write_sides (lhs operator rhs : Value) :
    write (Constraint.phrase lhs operator rhs) = writeSides depthLimit lhs operator rhs := by
  obtain ⟨depth, limit⟩ := exists_depth
  change writeParts depthLimit [] _ = _
  rw [limit]
  exact writeParts_sides (depth + 2) lhs operator rhs

theorem writePart_relation (r : Relation) :
    writePart depthLimit [] (.within (.symbol (.relation r))) = pure r.sign := by
  obtain ⟨depth, limit⟩ := exists_depth
  rw [limit]
  rfl

/-- A constraint without a name is named by its expression, its sign and its number. -/
theorem makeConstraint_unnamed (i : Nat) (operator rhs : Value) :
    makeConstraint (.object ⟨.linear, i⟩) operator rhs .none = (do
      let r ← .ofExcept (Relation.ofValue operator)
      let left ← textOf (.object ⟨.linear, i⟩)
      let right ← writePart depthLimit [] (.within rhs)
      newConstraint ⟨.object ⟨.linear, i⟩, .symbol (.relation r), rhs,
        .text (left ++ " " ++ r.sign ++ " " ++ right)⟩) := by
  have side : writeSide depthLimit (.object ⟨.linear, i⟩) = textOf (.object ⟨.linear, i⟩) :=
    (textOf_linear i).symm
  unfold makeConstraint
  simp only [write_sides, writeSides, side, writePart_relation, bind_assoc, pure_bind]

/-! ## Lines of a hundred terms -/

/-- The text that `write` gives of an expression has a hundred terms to a line, so that one sign in
a hundred stands at the beginning of a line (`inLines`). The names of constraints, the texts of
constraints and the rows of problems take in the text of an expression as it is. -/
theorem written_in_lines :
    (∀ i, textOf (.object ⟨.linear, i⟩) = (do
      let l := (← Action.read).linear i
      let texts ← l.terms.mapM fun t => textOf t.toValue
      return Linear.inLines texts)) ∧
    (∀ texts : List String, SplitsInto 100 texts (blocks 100 texts) ∧
      Linear.inLines texts = "\n + ".intercalate ((blocks 100 texts).map (" + ".intercalate ·)) ∧
      Linear.inLines texts = Linear.joined (texts.length - 1) 0 texts) ∧
    (∀ last, (∀ k < last, Linear.separator last k = " + " ∨ Linear.separator last k = "\n + ") ∧
      (∀ k, last ≤ k → Linear.separator last k = "") ∧
      (List.range last).countP (fun k => '\n' ∈ (Linear.separator last k).toList) = last / 100) ∧
    (∀ i operator rhs, makeConstraint (.object ⟨.linear, i⟩) operator rhs .none = (do
      let r ← .ofExcept (Relation.ofValue operator)
      let left ← textOf (.object ⟨.linear, i⟩)
      let right ← writePart depthLimit [] (.within rhs)
      newConstraint ⟨.object ⟨.linear, i⟩, .symbol (.relation r), rhs,
        .text (left ++ " " ++ r.sign ++ " " ++ right)⟩)) ∧
    (∀ c, textOf (.object ⟨.constraint, c⟩) = (do
      let o := (← Action.read).constraint c
      writeSides (depthLimit - 1) o.lhs o.operator o.rhs)) ∧
    ∀ id, textOf (.object ⟨.problem, id⟩) = (do
      let _ ← plainPhrase (.object ⟨.problem, id⟩)
      let s ← Action.read
      let p := s.problem id
      let constraints ← .ofExcept (s.items p.constraints)
      writeProblem (depthLimit - 1) p.toDeclarations p.objective p.sense constraints) := by
  refine ⟨fun i => ?_, fun texts => ⟨?_, rfl, ?_⟩, fun last => ⟨?_, ?_, ?_⟩, makeConstraint_unnamed,
    textOf_constraint, textOf_problem⟩
  · simp only [textOf_linear, writeLines, textOf_term]
  · exact splitsInto_blocks (by decide) texts
  · exact (Linear.joined_eq_inLines texts).symm
  · exact fun k before => Linear.sign_or_break before
  · exact fun k after => Linear.separator_last after
  · exact Linear.countP_breaks last

end Milp.Store
