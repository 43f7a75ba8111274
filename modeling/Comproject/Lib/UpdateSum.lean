/-
Comproject.Lib.UpdateSum — a finite sum when one of its summands changes.

The state of a system of threads is a function on the threads, and a step
is a `Function.update` of it at one of them. What such a step does to a
quantity summed over all threads is what it does to that thread's share.
-/
import Mathlib.Algebra.BigOperators.Group.Finset.Piecewise
import Mathlib.Data.Fintype.Basic
import Mathlib.Tactic.Common

namespace UpdateSum

/-- Changing one summand of a finite sum. -/
theorem sum_update_add {τ β : Type*} [Fintype τ] [DecidableEq τ] (f : β → Nat) (g : τ → β)
    (t : τ) (x : β) :
    (∑ u, f (Function.update g t x u)) + f (g t) = (∑ u, f (g u)) + f x := by
  have hcomp : (fun u => f (Function.update g t x u))
      = Function.update (fun u => f (g u)) t (f x) := by
    funext u
    by_cases hu : u = t
    · subst hu; simp
    · simp [hu]
  rw [hcomp, Finset.sum_update_of_mem (Finset.mem_univ t),
    Finset.sdiff_singleton_eq_erase,
    ← Finset.add_sum_erase _ (fun u => f (g u)) (Finset.mem_univ t)]
  omega

end UpdateSum
