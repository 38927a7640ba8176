import Mathlib.Data.List.Basic

/-!
# Programs that read

A deserialiser as a program: it asks for so many elements of a source, goes on as it likes from what
it has got, and ends with a value or an error. What it asks for beyond the end of the source is an
error.

* `Reads` is the tree of such a program: how many elements it wants may depend on all that it has
  read. It cannot look at the source in another way, so it sees neither its end nor its length.
* `run` reads from a list, and gives the value with what is left of the list.

Results, by induction on the program:
* `run_append`: what follows the part that is read makes no difference.
* `run_cut`: a source that is read to its end cannot be read when something is cut off it.

So where some encoding of a value is read back, no proper prefix of it is the encoding of anything.
-/

namespace ChainX.Lib

/-- A program that ends with a result, fails, or goes on with the next `n` items. -/
inductive Reads (Item α : Type) where
  | done (a : α)
  | fail
  | read (n : Nat) (next : List Item → Reads Item α)

namespace Reads

variable {Item α : Type}

/-- The value, and what is left of the source. -/
def run : Reads Item α → List Item → Option (α × List Item)
  | .done a, s => some (a, s)
  | .fail, _ => none
  | .read n next, s => if n ≤ s.length then (next (s.take n)).run (s.drop n) else none

theorem run_read {n : Nat} {next : List Item → Reads Item α} {s : List Item} (h : n ≤ s.length) :
    (Reads.read n next).run s = (next (s.take n)).run (s.drop n) := if_pos h

theorem run_append {p : Reads Item α} {s left : List Item} {a : α} (h : p.run s = some (a, left))
    (more : List Item) : p.run (s ++ more) = some (a, left ++ more) := by
  induction p generalizing s with
  | done b =>
    obtain ⟨rfl, rfl⟩ : b = a ∧ s = left := by simpa [run] using h
    rfl
  | fail => simp [run] at h
  | read n next ih =>
    by_cases hn : n ≤ s.length
    · rw [run_read hn] at h
      rw [run_read (by rw [List.length_append]; omega), List.take_append_of_le_length hn,
        List.drop_append_of_le_length hn]
      exact ih _ h
    · simp [run, hn] at h

theorem run_cut {p : Reads Item α} {s cut : List Item} {a : α} (h : p.run (s ++ cut) = some (a, []))
    (hcut : cut ≠ []) : p.run s = none := by
  cases hs : p.run s with
  | none => rfl
  | some r =>
    obtain ⟨b, left⟩ := r
    rw [run_append hs cut] at h
    simp [hcut] at h

end Reads

end ChainX.Lib
