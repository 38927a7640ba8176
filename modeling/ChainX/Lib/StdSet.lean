import Mathlib.Data.Ordering.Lemmas
import Mathlib.Order.RelClasses
import Std.Data.TreeSet.Lemmas

/-!
# Sets with an order of their own

A `std::set` with a comparison is a `Std.TreeSet` for the `cmpUsing` of the comparison, when the
comparison is a strict total order.

* `cmpUsing lt a b` asks `lt a b` and `lt b a`, as the C++ container does, and takes two elements
  that are not less than each other as equal. With `IsStrictTotalOrder` that is equality, which is
  what the two instances say: `transCmp_cmpUsing` and `lawfulEqCmp_cmpUsing`. From them the lemmas
  about `Std.TreeSet` apply.

Results:
* `mem_insert_iff`, `mem_erase_iff`: one insertion or erasure, with equality where `Std` has the
  comparison.
* `mem_foldl_insert`, **`mem_foldl_erase`**: what a loop of insertions or erasures leaves. The
  second is for a loop that erases what some of the elements of a list name.
* `pairwise_toList`, `nodup_toList`: the traversal is in the order, and meets no element twice.
-/

namespace ChainX.Lib

variable {α : Type} {lt : α → α → Prop} [DecidableRel lt]

section Order

variable [IsStrictTotalOrder α lt]

theorem isLE_cmpUsing {a b : α} : (cmpUsing lt a b).isLE = true ↔ ¬ lt b a := by
  unfold cmpUsing
  split
  · rename_i hab
    exact iff_of_true rfl (asymm hab)
  · split
    · rename_i hba
      exact iff_of_false (by decide) (not_not_intro hba)
    · rename_i hba
      exact iff_of_true rfl hba

instance transCmp_cmpUsing : Std.TransCmp (cmpUsing lt) where
  eq_swap {a b} := by
    unfold cmpUsing
    split
    · rename_i hab
      rw [if_neg (asymm hab)]
      rfl
    · split <;> rfl
  isLE_trans {a b c} hab hbc := by
    rw [isLE_cmpUsing] at hab hbc ⊢
    intro hca
    rcases trichotomous_of lt b c with h | rfl | h
    · exact hab (IsTrans.trans b c a h hca)
    · exact hab hca
    · exact hbc h

instance lawfulEqCmp_cmpUsing : Std.LawfulEqCmp (cmpUsing lt) where
  compare_self {a} := by
    unfold cmpUsing
    rw [if_neg (irrefl a), if_neg (irrefl a)]
  eq_of_compare {a b} h := by
    obtain ⟨hab, hba⟩ := (cmpUsing_eq_eq a b).mp h
    rcases trichotomous_of lt a b with h | h | h
    · exact absurd h hab
    · exact h
    · exact absurd h hba

/-! ## Loops -/

theorem mem_insert_iff {t : Std.TreeSet α (cmpUsing lt)} {a b : α} :
    b ∈ t.insert a ↔ b = a ∨ b ∈ t := by
  rw [Std.TreeSet.mem_insert, Std.LawfulEqCmp.compare_eq_iff_eq, eq_comm]

theorem mem_erase_iff {t : Std.TreeSet α (cmpUsing lt)} {a b : α} :
    b ∈ t.erase a ↔ b ≠ a ∧ b ∈ t := by
  rw [Std.TreeSet.mem_erase, Ne, Std.LawfulEqCmp.compare_eq_iff_eq, Ne, eq_comm]

theorem mem_foldl_insert {t : Std.TreeSet α (cmpUsing lt)} {l : List α} {b : α} :
    b ∈ l.foldl (fun t a => t.insert a) t ↔ b ∈ l ∨ b ∈ t := by
  induction l generalizing t with
  | nil => simp
  | cons a l ih => rw [List.foldl_cons, ih, mem_insert_iff, List.mem_cons, or_left_comm, or_assoc]

/-- A loop that erases what some elements of a list name. -/
theorem mem_foldl_erase {t : Std.TreeSet α (cmpUsing lt)} (f : α → Option α) {l : List α} {b : α} :
    b ∈ l.foldl (fun t a => match f a with | some c => t.erase c | none => t) t ↔
      b ∈ t ∧ ∀ a ∈ l, f a ≠ some b := by
  induction l generalizing t with
  | nil => simp
  | cons a l ih =>
    rw [List.foldl_cons, ih, List.forall_mem_cons, ← and_assoc]
    refine and_congr_left fun _ => ?_
    cases hf : f a with
    | none => simp
    | some c => rw [mem_erase_iff, and_comm, Ne, Ne, Option.some.injEq, eq_comm]

theorem pairwise_toList (t : Std.TreeSet α (cmpUsing lt)) : t.toList.Pairwise lt :=
  Std.TreeSet.ordered_toList.imp fun h => (cmpUsing_eq_lt _ _).mp h

theorem nodup_toList (t : Std.TreeSet α (cmpUsing lt)) : t.toList.Nodup :=
  (pairwise_toList t).imp fun h => ne_of_irrefl h

end Order

end ChainX.Lib
