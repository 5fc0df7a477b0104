import Milp.Encoding.Ranged
import Milp.Proofs.Linear.Opposite

/-!
# Problems in the other sense

To make an expression large is to make its opposite small: two problems that differ in that only
have the same ranged form, up to signs of zeros among the costs.
-/

namespace Milp

/-- Two problems that differ in nothing but their objectives, of which the first is to be made large
and the other, its opposite, small. -/
structure Problem.Mirrors (p p' : Problem) (l l' : Linear) : Prop where
  declarations : p'.toDeclarations = p.toDeclarations
  constraints : p'.constraints = p.constraints
  large : p.objective = some (.linear l)
  small : p'.objective = some (.linear l')
  max : p.sense = .max
  min : p'.sense = .min
  opposes : l.Opposes l'

/-- Costs that stand for the same numbers one by one. -/
def SameCosts (xs ys : List Float) : Prop :=
  List.Forall₂ (fun x y => Numeric.view y = Numeric.view x) xs ys

/-- Ranged forms that are the same up to signs of zeros among the costs. The first is that of a
problem to be made large, the other of one to be made small. -/
structure Ranged.Mirrors (m m' : Ranged Float) : Prop where
  cost : SameCosts m.cost m'.cost
  large : m.maximize = true
  rest : m' = { m with cost := m'.cost, maximize := false }

/-- Split forms that are the same up to signs of zeros among the costs. -/
structure Split.Mirrors (m m' : Split Float) : Prop where
  cost : SameCosts m.cost m'.cost
  rest : m' = { m with cost := m'.cost }

theorem Ranged.Mirrors.split {m m' : Ranged Float} (h : m.Mirrors m') : m.split.Mirrors m'.split :=
  ⟨h.cost, by rw [h.rest]; rfl⟩

variable {p p' : Problem} {l l' : Linear}

theorem forall₂_modify {α : Type} {R : α → α → Prop} {f g : α → α} {xs ys : List α}
    (h : List.Forall₂ R xs ys) (each : ∀ x y, R x y → R (f x) (g y)) (i : Nat) :
    List.Forall₂ R (xs.modify i f) (ys.modify i g) := by
  induction h generalizing i with
  | nil => simp
  | cons head rest ih =>
      cases i with
      | zero => simpa using ⟨each _ _ head, rest⟩
      | succ i => simpa using ⟨head, ih i⟩

theorem opposed_addCost (places : Value → Except Fault (List Nat)) {xs ys : List Float}
    (h : List.Forall₂ Opposed xs ys) {t t' : Term} (ht : t.Opposes t') :
    Parallel (List.Forall₂ Opposed) (addCost places xs t) (addCost places ys t') := by
  unfold addCost
  rw [ht.var]
  refine parallel_of_same fun is => ht.coefficient.reads.bind fun x y hxy => .ok ?_
  induction is generalizing xs ys with
  | nil => exact h
  | cons i is ih =>
      exact ih (forall₂_modify h (fun _ _ opposed => opposed.add hxy) i)

theorem Problem.Mirrors.cost (h : p.Mirrors p' l l') (index : Index) :
    Parallel (List.Forall₂ Opposed) (p.cost index) (p'.cost index) := by
  unfold Problem.cost costOf
  rw [h.large, h.small]
  simp only [Expression.terms_linear, Series.foldlM_ofList]
  have zeros : List.Forall₂ Opposed (List.replicate index.size Numeric.zero)
      (List.replicate index.size Numeric.zero) :=
    List.forall₂_same.mpr fun x hx => List.eq_of_mem_replicate hx ▸ opposed_zero
  exact parallel_foldlM h.opposes zeros fun _ _ _ _ costs terms => opposed_addCost _ costs terms

theorem Problem.Mirrors.ranged (h : p.Mirrors p' l l') (index : Index) :
    Parallel Ranged.Mirrors (p.ranged index : Except Fault (Ranged Float)) (p'.ranged index) := by
  unfold Problem.ranged
  have large : p.isMaximize = true := by simp [Problem.isMaximize, h.large, h.max]
  have small : p'.isMaximize = false := by simp [Problem.isMaximize, h.min]
  have matrix : (p'.matrix index : Except Fault (RangedRows Float)) = p.matrix index := by
    unfold Problem.matrix
    rw [h.constraints]
  rw [h.declarations, matrix, large, small]
  refine parallel_of_same fun columns => parallel_of_same fun rows =>
    (h.cost index).bind fun xs ys costs => .ok ⟨?_, rfl, rfl⟩
  refine List.forall₂_map_left_iff.mpr (costs.imp fun x y opposed => ?_)
  exact opposed.trans (Eq.symm (opposed_neg x))

end Milp
