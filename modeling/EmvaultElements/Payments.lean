import Mathlib.Algebra.BigOperators.Group.List.Basic
import Mathlib.Algebra.GroupWithZero.Nat

/-!
# Payments

What a list of amounts under keys pays under one key (`paidTo`). It does
not depend on the order.
-/

namespace EmvaultElements

variable {K : Type} [DecidableEq K] {k : K} {ps ps' : List (K × Nat)}

/-- What is paid under a key. -/
def paidTo (k : K) (ps : List (K × Nat)) : Nat := ((ps.filter (·.1 = k)).map (·.2)).sum

@[simp] theorem paidTo_nil (k : K) : paidTo k [] = 0 := rfl

@[simp] theorem paidTo_cons (k : K) (p : K × Nat) (ps : List (K × Nat)) :
    paidTo k (p :: ps) = (if p.1 = k then p.2 else 0) + paidTo k ps := by
  simp only [paidTo, List.filter_cons]
  split <;> simp_all

@[simp] theorem paidTo_append (k : K) (ps ps' : List (K × Nat)) :
    paidTo k (ps ++ ps') = paidTo k ps + paidTo k ps' := by
  simp [paidTo]

theorem paidTo_perm (h : ps.Perm ps') : paidTo k ps = paidTo k ps' :=
  ((h.filter _).map _).sum_eq

theorem paidTo_eq_zero (h : ∀ p ∈ ps, p.1 ≠ k) : paidTo k ps = 0 := by
  have hnone : ps.filter (·.1 = k) = [] := by simpa using h
  simp [paidTo, hnone]

end EmvaultElements
