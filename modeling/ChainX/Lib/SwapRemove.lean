import Mathlib.Data.List.Nodup
import Mathlib.Data.List.Perm.Basic

/-!
# Overwriting and removing an entry of an array

A loop that overwrites the first slot holding `a` and stops is `List.replace`. `swapRemove` is the
usual removal: such a loop over all slots but the last writes the last entry over `a`, then the
array is cut by one. `cut` is the removal whose loop goes over all slots and cuts the array where it
finds `a`.

* `swapRemove` cuts the array whether `a` is in it or not, so without `a` it loses the last entry;
  `cut` then does nothing.
* Both change the order of the entries: the last one takes the place of `a`.

Results:
* Up to order, all do to the entries what their names say: `replace_perm`, `swapRemove_perm`,
  `cut_perm`.
* `nodup_replace`, `nodup_swapRemove`, `nodup_cut`: an array without repetitions stays one.
* `mem_replace`, `mem_swapRemove`, `mem_cut`: what is in it afterwards, where there are none.
-/

namespace ChainX.Lib

variable {α : Type} [DecidableEq α]

/-- Write the last entry over the first `a` among the others and drop the last slot. -/
def swapRemove (xs : List α) (a : α) : List α :=
  match xs.getLast? with
  | none => []
  | some last => xs.dropLast.replace a last

theorem replace_perm {a b : α} : ∀ {xs : List α}, a ∈ xs → (xs.replace a b).Perm (b :: xs.erase a)
  | x :: xs, h => by
    by_cases hx : x = a
    · subst hx
      rw [List.replace_cons_self, List.erase_cons_head]
    · have hmem : a ∈ xs := (List.mem_cons.mp h).resolve_left (Ne.symm hx)
      have hne : (x == a) = false := beq_false_of_ne hx
      have hne' : (a == x) = false := beq_false_of_ne (Ne.symm hx)
      rw [List.replace_cons, hne', List.erase_cons, hne]
      exact ((replace_perm hmem).cons x).trans (List.Perm.swap b x _)

theorem replace_of_not_mem {a b : α} : ∀ {xs : List α}, a ∉ xs → xs.replace a b = xs
  | [], _ => rfl
  | x :: xs, h => by
    rw [List.mem_cons, not_or] at h
    rw [List.replace_cons, beq_false_of_ne h.1, replace_of_not_mem h.2]

theorem swapRemove_append (ys : List α) (last a : α) :
    swapRemove (ys ++ [last]) a = ys.replace a last := by
  simp [swapRemove]

/-- **`swapRemove` removes exactly `a`** from an array without duplicates. -/
theorem swapRemove_perm {xs : List α} {a : α} (hnodup : xs.Nodup) (ha : a ∈ xs) :
    (swapRemove xs a).Perm (xs.erase a) := by
  rcases List.eq_nil_or_concat xs with rfl | ⟨ys, last, rfl⟩
  · exact absurd ha List.not_mem_nil
  rw [List.concat_eq_append] at *
  rw [swapRemove_append]
  by_cases hy : a ∈ ys
  · rw [List.erase_append_left _ hy]
    exact (replace_perm hy).trans (List.perm_append_singleton last _).symm
  · -- `a` sits in the last slot, which the loop does not look at
    have hlast : a = last := by
      rcases List.mem_append.mp ha with h | h
      · exact absurd h hy
      · exact List.mem_singleton.mp h
    subst hlast
    rw [replace_of_not_mem hy, List.erase_append_right _ hy, List.erase_cons_head,
      List.append_nil]

theorem nodup_replace {xs : List α} {a b : α} (hnodup : xs.Nodup) (ha : a ∈ xs) (hb : b ∉ xs) :
    (xs.replace a b).Nodup := by
  rw [(replace_perm ha).nodup_iff, List.nodup_cons]
  exact ⟨fun h => hb (List.mem_of_mem_erase h), hnodup.erase a⟩

theorem mem_replace {xs : List α} {a b c : α} (hnodup : xs.Nodup) (ha : a ∈ xs) :
    c ∈ xs.replace a b ↔ c = b ∨ (c ≠ a ∧ c ∈ xs) := by
  rw [(replace_perm ha).mem_iff, List.mem_cons, hnodup.mem_erase_iff]

theorem nodup_swapRemove {xs : List α} {a : α} (hnodup : xs.Nodup) (ha : a ∈ xs) :
    (swapRemove xs a).Nodup := by
  rw [(swapRemove_perm hnodup ha).nodup_iff]
  exact hnodup.erase a

theorem mem_swapRemove {xs : List α} {a c : α} (hnodup : xs.Nodup) (ha : a ∈ xs) :
    c ∈ swapRemove xs a ↔ c ≠ a ∧ c ∈ xs := by
  rw [(swapRemove_perm hnodup ha).mem_iff, hnodup.mem_erase_iff]

theorem length_swapRemove {xs : List α} {a : α} (hnodup : xs.Nodup) (ha : a ∈ xs) :
    (swapRemove xs a).length = xs.length - 1 := by
  rw [(swapRemove_perm hnodup ha).length_eq, List.length_erase_of_mem ha]

/-! ## Cutting inside the loop -/

/-- `k` rounds from slot `i`: the first slot that holds `a` takes the last entry, the array is cut
by one, and the loop ends. -/
def cutLoop (a : α) : Nat → Nat → List α → List α
  | 0, _, xs => xs
  | k + 1, i, xs =>
    if xs[i]? = some a then
      match xs.getLast? with
      | none => xs
      | some last => (xs.set i last).dropLast
    else cutLoop a k (i + 1) xs

/-- The loop over the whole array. -/
def cut (a : α) (xs : List α) : List α := cutLoop a xs.length 0 xs

/-- The loop, at the first of `zs` and with no `a` behind it. -/
theorem cutLoop_perm {a : α} : ∀ {ys zs : List α}, a ∉ ys →
    (cutLoop a zs.length ys.length (ys ++ zs)).Perm ((ys ++ zs).erase a)
  | ys, [], h => by
    rw [List.append_nil, List.erase_of_not_mem h]
    exact List.Perm.refl ys
  | ys, z :: zs, h => by
    have hget : (ys ++ z :: zs)[ys.length]? = some z := by simp
    rw [List.length_cons, cutLoop, hget]
    by_cases hz : z = a
    · subst hz
      rw [if_pos rfl, List.erase_append_right _ h, List.erase_cons_head]
      rcases List.eq_nil_or_concat zs with rfl | ⟨ws, last, rfl⟩
      · simp
      · rw [List.concat_eq_append] at *
        have hsplit : ys ++ z :: (ws ++ [last]) = ys ++ z :: ws ++ [last] := by simp
        have hset : (ys ++ z :: ws ++ [last]).set ys.length last = ys ++ last :: ws ++ [last] := by
          simp
        rw [hsplit, List.getLast?_concat]
        simp only [hset, List.dropLast_concat]
        exact (List.perm_append_singleton last ws).symm.append_left ys
    · rw [if_neg fun e => hz (Option.some.inj e)]
      have hnot : a ∉ ys ++ [z] := by
        rw [List.mem_append, List.mem_singleton, not_or]
        exact ⟨h, fun e => hz e.symm⟩
      have ih : (cutLoop a zs.length (ys ++ [z]).length (ys ++ [z] ++ zs)).Perm
          ((ys ++ [z] ++ zs).erase a) := cutLoop_perm hnot
      rwa [List.length_append, List.append_assoc] at ih

/-- **`cut` removes the first `a`**, if there is one. -/
theorem cut_perm (a : α) (xs : List α) : (cut a xs).Perm (xs.erase a) :=
  cutLoop_perm (List.not_mem_nil : a ∉ [])

theorem nodup_cut {xs : List α} (hnodup : xs.Nodup) (a : α) : (cut a xs).Nodup := by
  rw [(cut_perm a xs).nodup_iff]
  exact hnodup.erase a

theorem mem_cut {xs : List α} (hnodup : xs.Nodup) {a c : α} : c ∈ cut a xs ↔ c ≠ a ∧ c ∈ xs := by
  rw [(cut_perm a xs).mem_iff, hnodup.mem_erase_iff]

end ChainX.Lib
