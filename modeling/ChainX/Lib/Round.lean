import Mathlib.Data.List.Rotate
import Mathlib.Data.List.TakeWhile

/-!
# Going round a list once

A loop starts somewhere in a list, goes on from one element to the next, from the last one to the
first, and stops when it is about to meet the element where it began.

`restOfRound l start i` are the elements of `l` after position `i`, going on from its beginning, up
to `start`. It is the measure by which such a loop ends, and what it has still to see.

* It is a prefix of the list rotated by `i + 1`, so that one step of the loop is one rotation more
  (`exists_rotate_eq`).

Results:
* `length_restOfRound_le`: no round is longer than the list.
* `restOfRound_of_ne`: one step of the round.
* `nodup_cons_restOfRound`: a round that ends where it starts meets no element twice.
-/

namespace ChainX.Lib

variable {α : Type} {l : List α} {start : α} {i : Nat}

/-- What a round that began at `start` has left after the place `i`. -/
def restOfRound [DecidableEq α] (l : List α) (start : α) (i : Nat) : List α :=
  (l.rotate (i + 1)).takeWhile (· ≠ start)

/-- A rotated list with its head moved to its end is the list rotated once more. -/
theorem exists_rotate_eq (hi : i < l.length) :
    ∃ t, l.rotate i = l[i] :: t ∧ l.rotate (i + 1) = t ++ [l[i]] := by
  have hrotate : l.rotate i = l[i] :: (l.drop (i + 1) ++ l.take i) := by
    rw [List.rotate_eq_drop_append_take hi.le, List.drop_eq_getElem_cons hi, List.cons_append]
  refine ⟨_, hrotate, ?_⟩
  rw [← List.rotate_rotate, hrotate, List.rotate_cons_succ, List.rotate_zero]

variable [DecidableEq α]

theorem length_restOfRound_le (l : List α) (start : α) (i : Nat) :
    (restOfRound l start i).length ≤ l.length := by
  have hprefix := (List.takeWhile_prefix (l := l.rotate (i + 1)) (p := (· ≠ start))).length_le
  rwa [List.length_rotate] at hprefix

theorem restOfRound_mod (l : List α) (start : α) (i : Nat) :
    restOfRound l start i = (l.rotate ((i + 1) % l.length)).takeWhile (· ≠ start) := by
  rw [restOfRound, List.rotate_mod]

theorem restOfRound_of_ne (hstart : start ∈ l) (hi : (i + 1) % l.length < l.length)
    (h : l[(i + 1) % l.length] ≠ start) :
    restOfRound l start i =
      l[(i + 1) % l.length] :: restOfRound l start ((i + 1) % l.length) := by
  obtain ⟨t, ht, ht'⟩ := exists_rotate_eq hi
  have hmem : start ∈ t := by
    rw [← List.mem_rotate (n := (i + 1) % l.length), ht] at hstart
    exact (List.mem_cons.mp hstart).resolve_left (Ne.symm h)
  have hstop : (t.takeWhile (· ≠ start)).length ≠ t.length := fun hlength => by
    have heq := (List.takeWhile_prefix (p := (· ≠ start)) (l := t)).eq_of_length hlength
    exact absurd (List.mem_takeWhile_imp (heq ▸ hmem)) (by simp)
  rw [restOfRound_mod, ht, List.takeWhile_cons_of_pos (by simpa using h), restOfRound, ht',
    List.takeWhile_append, if_neg hstop]

theorem nodup_cons_restOfRound (hnodup : l.Nodup) (hi : i < l.length) :
    (l[i] :: restOfRound l l[i] i).Nodup := by
  obtain ⟨t, ht, ht'⟩ := exists_rotate_eq hi
  have hcons : (l[i] :: t).Nodup := ht ▸ List.nodup_rotate.mpr hnodup
  have hall : ∀ c ∈ t, decide (c ≠ l[i]) = true := fun c hc =>
    decide_eq_true fun heq => (List.nodup_cons.mp hcons).1 (heq ▸ hc)
  rw [restOfRound, ht', List.takeWhile_append_of_pos hall, List.takeWhile_cons_of_neg (by simp),
    List.append_nil]
  exact hcons

end ChainX.Lib
