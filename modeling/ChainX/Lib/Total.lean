import Mathlib.Algebra.BigOperators.Ring.Finset
import Mathlib.Algebra.Order.BigOperators.Group.Finset
import Mathlib.Data.Fintype.Basic

/-!
# The total of a ledger

`total b` is the sum of what the finitely many accounts of a ledger hold, as a natural number. A
ledger is a function, and writing an entry is `Function.update`.

* The entries may be of another type than the natural numbers: `total_update_apply` is about what a
  measure makes of them, for instance the value of a machine word. No subtraction is needed, as the
  old entry stands on the other side of the equation.

Results:
* `total_update`: writing one account changes the total by the new entry less the old one.
* `total_add_ite`: adding to one account adds to the total.
* `le_total`: no account holds more than all do, so where the total fits a machine word every entry
  does, and what is credited from one account to another does not wrap.
-/

namespace ChainX.Lib

variable {A : Type} [Fintype A]

/-- The sum over all accounts. -/
def total (b : A → Nat) : Nat := ∑ a, b a

/-- Writing `x` for `a`: the old entry goes, the new one comes. -/
theorem total_update [DecidableEq A] (b : A → Nat) (a : A) (x : Nat) :
    total (Function.update b a x) + b a = total b + x := by
  unfold total
  rw [Finset.sum_update_of_mem (Finset.mem_univ a), ← Finset.add_sum_erase _ b (Finset.mem_univ a),
    Finset.sdiff_singleton_eq_erase]
  omega

/-- The same for what a measure makes of the entries. -/
theorem total_update_apply [DecidableEq A] {B : Type} (f : B → Nat) (b : A → B) (a : A) (x : B) :
    total (fun c => f (Function.update b a x c)) + f (b a) = total (fun c => f (b c)) + f x := by
  have hupdate : (fun c => f (Function.update b a x c)) =
      Function.update (fun c => f (b c)) a (f x) :=
    funext fun c => Function.apply_update (fun _ => f) b a x c
  rw [hupdate]
  exact total_update (fun c => f (b c)) a (f x)

theorem le_total (b : A → Nat) (a : A) : b a ≤ total b :=
  Finset.single_le_sum (fun _ _ => Nat.zero_le _) (Finset.mem_univ a)

/-- Adding `x` to what `a` holds adds it to the total. -/
theorem total_add_ite [DecidableEq A] (b : A → Nat) (a : A) (x : Nat) :
    total (fun c => b c + if c = a then x else 0) = total b + x := by
  unfold total
  rw [Finset.sum_add_distrib, Finset.sum_ite_eq', if_pos (Finset.mem_univ a)]

end ChainX.Lib
