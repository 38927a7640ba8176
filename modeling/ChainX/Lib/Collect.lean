import Mathlib.Data.List.Basic

/-!
# Collecting into a temporary array

A function that returns the entries of an array with some property fills a temporary array with them
from the front, and then copies the part it wants into an array of that length. Both loops throw at
an index outside the array they write to or read from.

* `countLoop`: the loop that counts the entries;
* `collect`: the loop that fills the temporary array, `count` being the next free index;
* `copyLoop`: the loop that copies the entries from `start` on.

The temporary array is as long as the caller made it and starts with some blank everywhere, so
behind what was collected there are blanks, and a copy that goes on for too long copies these.

Results:
* `countLoop_eq`: counting gives the length of the `filter`, on top of what was counted before.
* **`collect_spec`** and **`copyLoop_spec`**: where there is room for what they write, they are
  `filter`, `drop` and `take`.
* `slice_padded_iff`: the copy is one of the entries alone as long as it does not reach into the
  slots that were never filled.
-/

namespace ChainX.Lib

variable {α : Type}

/-- `if (p(x)) count += 1;`, over the entries `x` that are left. -/
def countLoop (p : α → Bool) : List α → Nat → Nat
  | [], count => count
  | x :: xs, count => countLoop p xs (if p x then count + 1 else count)

/-- `if (p(x)) { temp[count] = x; count += 1; }`, over the entries `x` that are left. -/
def collect (p : α → Bool) : List α → List α → Nat → Option (List α × Nat)
  | [], temp, count => some (temp, count)
  | x :: xs, temp, count =>
    if p x = true then
      if count < temp.length then collect p xs (temp.set count x) (count + 1) else none
    else collect p xs temp count

/-- `out[i - start] = temp[i]`, for `k` values of `i` in a row. -/
def copyLoop (temp : List α) (start : Nat) : Nat → Nat → List α → Option (List α)
  | 0, _, out => some out
  | k + 1, i, out =>
    match temp[i]? with
    | some x =>
      if i - start < out.length then copyLoop temp start k (i + 1) (out.set (i - start) x) else none
    | none => none

theorem countLoop_eq {p : α → Bool} {xs : List α} {count : Nat} :
    countLoop p xs count = count + (xs.filter p).length := by
  induction xs generalizing count with
  | nil => rfl
  | cons x xs ih =>
    rw [countLoop, ih]
    by_cases hx : p x = true
    · rw [if_pos hx, List.filter_cons_of_pos hx, List.length_cons]
      omega
    · rw [if_neg hx, List.filter_cons_of_neg hx]

/-- **Filling the temporary array**: behind what is `done` stand the entries with the property, in
their order, if there is room for them. -/
theorem collect_spec (p : α → Bool) (xs done free : List α)
    (hroom : (xs.filter p).length ≤ free.length) :
    collect p xs (done ++ free) done.length =
      some (done ++ xs.filter p ++ free.drop (xs.filter p).length,
        done.length + (xs.filter p).length) := by
  induction xs generalizing done free with
  | nil => simp [collect]
  | cons x xs ih =>
    by_cases hx : p x = true
    · rw [List.filter_cons_of_pos hx, List.length_cons] at hroom ⊢
      cases free with
      | nil => exact absurd hroom (by simp)
      | cons y free =>
        -- the write at `done.length` is the step from `done` to `done ++ [x]`
        have hset : (done ++ y :: free).set done.length x = (done ++ [x]) ++ free := by simp
        have hlt : done.length < (done ++ y :: free).length := by simp
        have hstep := ih (done ++ [x]) free (Nat.le_of_succ_le_succ (by simpa using hroom))
        rw [List.length_append, List.length_singleton] at hstep
        rw [collect, if_pos hx, if_pos hlt, hset, hstep, List.drop_succ_cons]
        simp only [List.append_assoc, List.cons_append, List.nil_append, Nat.add_assoc,
          Nat.add_comm 1]
    · rw [List.filter_cons_of_neg hx] at hroom ⊢
      rw [collect, if_neg hx]
      exact ih done free hroom

/-- **Copying**: behind what is `done` stand the next entries, if there are as many as are left to
write. -/
theorem copyLoop_spec (temp done blank : List α) (start : Nat)
    (hroom : start + done.length + blank.length ≤ temp.length) :
    copyLoop temp start blank.length (start + done.length) (done ++ blank) =
      some (done ++ (temp.drop (start + done.length)).take blank.length) := by
  induction blank generalizing done with
  | nil => simp [copyLoop]
  | cons y blank ih =>
    rw [List.length_cons] at hroom
    have hin : start + done.length < temp.length := by omega
    have hlt : start + done.length - start < (done ++ y :: blank).length := by simp
    have hset : (done ++ y :: blank).set (start + done.length - start) temp[start + done.length] =
        (done ++ [temp[start + done.length]]) ++ blank := by simp
    have hstep := ih (done ++ [temp[start + done.length]])
    rw [List.length_append, List.length_singleton, ← Nat.add_assoc] at hstep
    rw [List.length_cons, copyLoop, List.getElem?_eq_getElem hin]
    simp only [if_pos hlt, hset]
    rw [hstep (by omega), List.drop_eq_getElem_cons hin, List.take_succ_cons, List.append_assoc,
      List.singleton_append]

/-- A slice of a padded list is the slice of the list itself, unless it reaches into the padding. -/
theorem slice_padded_iff (xs : List α) (blank : α) {n start stop : Nat} (hle : start ≤ stop)
    (hstop : stop ≤ xs.length + n) :
    ((xs ++ List.replicate n blank).drop start).take (stop - start) =
        (xs.drop start).take (stop - start) ↔ start = stop ∨ stop ≤ xs.length := by
  constructor
  · intro h
    have hlen := congrArg List.length h
    simp only [List.length_take, List.length_drop, List.length_append,
      List.length_replicate] at hlen
    omega
  · rintro (rfl | hin)
    · rw [Nat.sub_self, List.take_zero, List.take_zero]
    · rw [List.drop_append_of_le_length (by omega), List.take_append_of_le_length]
      rw [List.length_drop]
      omega

end ChainX.Lib
