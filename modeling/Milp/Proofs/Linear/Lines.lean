import Mathlib.Data.List.Basic
import Mathlib.Data.Nat.Init
import Milp.Linear.Text

/-!
# The lines of an expression

Where a line is broken is decided behind each term, by the place of that term alone. What comes of it
are the terms in blocks: each block makes a line, and all but the last are full.
-/

namespace Milp

/-! ## Blocks -/

section

variable {α : Type} {size : Nat} {xs b rest : List α}

/-- A list in consecutive blocks of a size. What is left over makes a last block. -/
def blocks (size : Nat) (xs : List α) : List (List α) :=
  (List.range ((xs.length + size - 1) / size)).map fun k => (xs.drop (k * size)).take size

/-- The blocks are the parts of the list, in order. All but the last are full, and none is empty. -/
structure SplitsInto (size : Nat) (xs : List α) (bs : List (List α)) : Prop where
  flatten : bs.flatten = xs
  full : ∀ b ∈ bs.dropLast, b.length = size
  filled : ∀ b ∈ bs, 0 < b.length ∧ b.length ≤ size

@[simp] theorem blocks_nil (pos : 0 < size) : blocks size ([] : List α) = [] := by
  have none_ : (([] : List α).length + size - 1) / size = 0 :=
    Nat.div_eq_of_lt (by simp only [List.length_nil]; omega)
  rw [blocks, none_]
  rfl

/-- What fits in one block is one. -/
theorem blocks_of_le (some_ : xs ≠ []) (le : xs.length ≤ size) : blocks size xs = [xs] := by
  have pos : 0 < xs.length := List.length_pos_of_ne_nil some_
  have one : (xs.length + size - 1) / size = 1 :=
    Nat.div_eq_of_lt_le (by omega) (by omega)
  rw [blocks, one]
  simp [List.take_of_length_le le]

/-- A full block comes off in front. -/
theorem blocks_append (pos : 0 < size) (full : b.length = size) :
    blocks size (b ++ rest) = b :: blocks size rest := by
  have count : ((b ++ rest).length + size - 1) / size = (rest.length + size - 1) / size + 1 := by
    rw [List.length_append, full, ← Nat.add_div_right _ pos]
    congr 1
    omega
  have drop (k : Nat) : (b ++ rest).drop ((k + 1) * size) = rest.drop (k * size) := by
    rw [Nat.add_mul, Nat.one_mul, Nat.add_comm, ← full, List.drop_length_add_append]
  simp only [blocks, count, List.range_succ_eq_map, List.map_cons, List.map_map, Nat.zero_mul,
    List.drop_zero]
  refine congrArg₂ List.cons ?_ (List.map_congr_left fun k _ => ?_)
  · rw [← full, List.take_left]
  · simp only [Function.comp_apply, Nat.succ_eq_add_one, drop]

/-- A list is gone through block by block. -/
@[elab_as_elim]
theorem block_induction {P : List α → Prop} (size : Nat) (pos : 0 < size) (nil : P [])
    (last : ∀ b, b ≠ [] → b.length ≤ size → P b)
    (block : ∀ b rest, b.length = size → rest ≠ [] → P rest → P (b ++ rest)) (xs : List α) :
    P xs := by
  induction h : xs.length using Nat.strong_induction_on generalizing xs with
  | _ n ih =>
      by_cases empty : xs = []
      · exact empty ▸ nil
      by_cases le : xs.length ≤ size
      · exact last xs empty le
      have left : (xs.drop size).length < n := by rw [List.length_drop]; omega
      rw [← List.take_append_drop size xs]
      refine block _ _ (by rw [List.length_take]; omega) (fun none_ => ?_) (ih _ left _ rfl)
      exact le (List.drop_eq_nil_iff.mp none_)

theorem blocks_ne_nil (pos : 0 < size) (some_ : xs ≠ []) : blocks size xs ≠ [] := by
  have one : 0 < (xs.length + size - 1) / size :=
    Nat.div_pos (by have := List.length_pos_of_ne_nil some_; omega) pos
  simp only [blocks, ne_eq, List.map_eq_nil_iff, List.range_eq_nil]
  omega

theorem splitsInto_blocks (pos : 0 < size) (xs : List α) : SplitsInto size xs (blocks size xs) := by
  induction xs using block_induction size pos with
  | nil => exact ⟨by simp [pos], by simp [pos], by simp [pos]⟩
  | last b some_ le =>
      have filled := List.length_pos_of_ne_nil some_
      rw [blocks_of_le some_ le]
      exact ⟨by simp, by simp, by simp [filled, le]⟩
  | block b rest full some_ ih =>
      rw [blocks_append pos full]
      refine ⟨?_, ?_, ?_⟩
      · rw [List.flatten_cons, ih.flatten]
      · rw [List.dropLast_cons_of_ne_nil (blocks_ne_nil pos some_)]
        exact List.forall_mem_cons.mpr ⟨full, ih.full⟩
      · exact List.forall_mem_cons.mpr ⟨⟨full ▸ pos, Nat.le_of_eq full⟩, ih.filled⟩

example : blocks 2 [1, 2, 3, 4, 5] = [[1, 2], [3, 4], [5]] := rfl

end

namespace Linear

/-- Texts in lines of a hundred, with signs between them. -/
def inLines (texts : List String) : String :=
  "\n + ".intercalate ((blocks termsPerLine texts).map (" + ".intercalate ·))

/-- The texts from a place on, with what stands behind each of them. -/
def joined (last : Nat) : (place : Nat) → List String → String
  | _, [] => ""
  | place, t :: ts => t ++ separator last place ++ joined last (place + 1) ts

/-! ## What stands between the terms -/

section

variable {last place : Nat}

theorem separator_within (before : place < last) (inside : (place + 1) % termsPerLine ≠ 0) :
    separator last place = " + " := by
  rw [separator, if_pos before, if_neg inside]
  rfl

theorem separator_full (before : place < last) (full : (place + 1) % termsPerLine = 0) :
    separator last place = "\n + " := by
  rw [separator, if_pos before, if_pos full]
  rfl

theorem separator_last (h : last ≤ place) : separator last place = "" :=
  if_neg (Nat.not_lt.mpr h)

/-- Behind each term but the last stands a sign, either in the same line or in the next. -/
theorem sign_or_break (before : place < last) :
    separator last place = " + " ∨ separator last place = "\n + " := by
  by_cases full : (place + 1) % termsPerLine = 0
  · exact .inr (separator_full before full)
  · exact .inl (separator_within before full)

theorem breaks_iff (before : place < last) :
    '\n' ∈ (separator last place).toList ↔ (place + 1) % termsPerLine = 0 := by
  by_cases full : (place + 1) % termsPerLine = 0
  · rw [separator_full before full]
    exact iff_of_true (by decide) full
  · rw [separator_within before full]
    exact iff_of_false (by decide) full

/-- Among so many places in order, those that fill a line. -/
theorem countP_full (n : Nat) :
    (List.range n).countP (fun k => (k + 1) % termsPerLine = 0) = n / termsPerLine := by
  induction n with
  | zero => rfl
  | succ n ih =>
      rw [List.range_succ, List.countP_append, ih, Nat.succ_div, List.countP_singleton]
      simp only [Nat.dvd_iff_mod_eq_zero, decide_eq_true_eq]

/-- One sign in a hundred stands in a new line. -/
theorem countP_breaks (last : Nat) :
    (List.range last).countP (fun k => '\n' ∈ (separator last k).toList) = last / termsPerLine := by
  rw [← countP_full]
  refine List.countP_congr fun k hk => ?_
  simpa using breaks_iff (List.mem_range.mp hk)

end

/-! ## Lines -/

/-- Within a line there are signs alone, up to what stands behind its last term. -/
theorem joined_line {last place : Nat} {b : List String} (some_ : b ≠ [])
    (fits : place % termsPerLine + b.length ≤ termsPerLine) (before : place + b.length ≤ last + 1)
    (rest : List String) :
    joined last place (b ++ rest) =
      " + ".intercalate b ++ separator last (place + b.length - 1) ++
        joined last (place + b.length) rest := by
  induction b generalizing place with
  | nil => exact absurd rfl some_
  | cons t b ih =>
      cases b with
      | nil => simp [joined]
      | cons u b =>
          simp only [List.length_cons] at fits before
          have within : separator last place = " + " :=
            separator_within (by omega) (by unfold termsPerLine at *; omega)
          have fits' : (place + 1) % termsPerLine + (u :: b).length ≤ termsPerLine := by
            simp only [List.length_cons]; unfold termsPerLine at *; omega
          have before' : place + 1 + (u :: b).length ≤ last + 1 := by
            simp only [List.length_cons]; omega
          have tail := ih (List.cons_ne_nil u b) fits' before'
          have ends : place + 1 + (u :: b).length = place + (t :: u :: b).length := by
            simp only [List.length_cons]; omega
          rw [List.cons_append, joined, within, tail, ends, String.intercalate_cons_cons]
          simp only [String.append_assoc]

theorem joined_of_starts {last place : Nat} {texts : List String}
    (starts : place % termsPerLine = 0) (ends : place + texts.length = last + 1) :
    joined last place texts = inLines texts := by
  have pos : 0 < termsPerLine := by decide
  induction texts using block_induction termsPerLine pos generalizing place with
  | nil => rw [inLines, blocks_nil pos]; rfl
  | last b some_ le =>
      have line := joined_line some_ (by omega) (by omega : place + b.length ≤ last + 1) []
      rw [List.append_nil] at line
      rw [line, separator_last (by omega), inLines, blocks_of_le some_ le]
      simp [joined]
  | block b rest full some_ ih =>
      have filled : b ≠ [] := List.ne_nil_of_length_pos (full ▸ pos)
      have more := List.length_pos_of_ne_nil some_
      rw [List.length_append] at ends
      have broken : separator last (place + b.length - 1) = "\n + " :=
        separator_full (by omega) (by unfold termsPerLine at *; omega)
      have tail : joined last (place + b.length) rest = inLines rest :=
        ih (by unfold termsPerLine at *; omega) (by omega)
      rw [joined_line filled (by omega) (by omega) rest, broken, tail, inLines, inLines,
        blocks_append pos full, List.map_cons, String.intercalate_cons_of_ne_nil]
      simpa using blocks_ne_nil pos some_

/-- The decisions behind the single terms make lines of a hundred. -/
theorem joined_eq_inLines (texts : List String) :
    joined (texts.length - 1) 0 texts = inLines texts := by
  cases texts with
  | nil => rfl
  | cons t ts => exact joined_of_starts rfl (by simp)

end Linear

end Milp
