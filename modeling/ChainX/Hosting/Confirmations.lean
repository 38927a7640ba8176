import ChainX.Lib.Decimal

/-!
# The check for confirmations, `Maternodes/SRC/ChainTest:51-60`

The script goes on with a transaction only if it is not in the last blocks. It asks for fifteen of
them, up to the height before that of the newest.

* The script is PHP: the height and the blocks are what the daemon answers (`Daemon`), and
  `in_array` looks for the transaction among those of a block. It compares loosely: two texts that
  look like numbers are equal when the numbers are, for which the comparison is a parameter.
* `confLoop` is the loop over the heights, from fifteen below the newest up to it and without it. It
  ends the script at the first block that has the transaction.
* The rest of the script, before and after the loop, is left out.

Results:
* `not_inArray_of_confLoop`, `confLoop_of_not_inArray`: what the loop has asked for.
* **`checks_iff`**: a transaction in the newest block passes unless it is in one of the fifteen
  blocks before as well.
-/

namespace ChainX.Hosting

open ChainX.Lib

/-- The answers of the daemon, and how PHP compares numbers. -/
structure Daemon (Hash : Type) where
  getblockcount : Int
  getblockhash : Int → Hash
  /-- The `tx` of `getblock`. -/
  getblock : Hash → List Text
  /-- Both texts are numbers, and these are equal. -/
  sameNumber : Text → Text → Bool

variable {Hash : Type} (d : Daemon Hash) (tx : Text)

namespace Daemon

/-! ## The loop -/

/-- `==`, of two strings. -/
def looseEq (s t : Text) : Bool := s == t || d.sameNumber s t

/-- `in_array`, which compares loosely. -/
def inArray (needle : Text) (haystack : List Text) : Bool := haystack.any (d.looseEq needle)

/-- The transactions of the block at a height. -/
def block (height : Int) : List Text := d.getblock (d.getblockhash height)

/-- `while($end_block != $start_block)`, for so many rounds. -/
def confLoop (end_block : Int) : Nat → Int → Option (Except Text Unit)
  | 0, _ => none
  | rounds + 1, start_block =>
    if end_block ≠ start_block then
      if d.inArray tx (d.block start_block) = true then some (.error (ascii "not_15_conf"))
      else confLoop end_block rounds (start_block + 1)
    else some (.ok ())

/-- The script goes on after the loop. -/
def Continues : Prop :=
  ∃ rounds, d.confLoop tx d.getblockcount rounds (d.getblockcount - 15) = some (.ok ())

/-! ## The window -/

variable {d tx}

theorem inArray_of_mem {haystack : List Text} (h : tx ∈ haystack) : d.inArray tx haystack = true :=
  List.any_eq_true.mpr ⟨tx, h, by simp [looseEq]⟩

/-- `n` blocks before the last height, the next one is asked for. -/
theorem confLoop_succ {end_block : Int} (rounds n : Nat) :
    d.confLoop tx end_block (rounds + 1) (end_block - (n + 1 : Nat)) =
      if d.inArray tx (d.block (end_block - (n + 1 : Nat))) = true then
        some (.error (ascii "not_15_conf"))
      else d.confLoop tx end_block rounds (end_block - n) := by
  have hnext : end_block - (n + 1 : Nat) + 1 = end_block - n := by omega
  rw [confLoop, if_pos (by omega), hnext]

/-- A loop that goes on has found the transaction in none of the `n` blocks before the last height:
by induction on the rounds. -/
theorem not_inArray_of_confLoop {end_block : Int} : ∀ {rounds n : Nat},
    d.confLoop tx end_block rounds (end_block - n) = some (.ok ()) →
      ∀ k : Nat, 1 ≤ k → k ≤ n → d.inArray tx (d.block (end_block - k)) = false
  | 0, n, h => nomatch h
  | rounds + 1, 0, _ => fun k hpos hle => absurd hle (by omega)
  | rounds + 1, n + 1, h => by
    rw [confLoop_succ] at h
    split at h
    · exact absurd h (by simp)
    · rename_i hnot
      intro k hpos hle
      rcases Nat.le_succ_iff.mp hle with hle | rfl
      · exact not_inArray_of_confLoop h k hpos hle
      · exact Bool.eq_false_iff.mpr hnot

theorem confLoop_of_not_inArray {end_block : Int} : ∀ {n : Nat},
    (∀ k : Nat, 1 ≤ k → k ≤ n → d.inArray tx (d.block (end_block - k)) = false) →
      d.confLoop tx end_block (n + 1) (end_block - n) = some (.ok ())
  | 0, _ => by rw [confLoop, if_neg (by simp)]
  | n + 1, h => by
    rw [confLoop_succ, if_neg (Bool.eq_false_iff.mp (h (n + 1) (by omega) le_rfl))]
    exact confLoop_of_not_inArray fun k hpos hle => h k hpos (by omega)

theorem continues_iff : d.Continues tx ↔ ∀ k : Nat, 1 ≤ k → k ≤ 15 →
    d.inArray tx (d.block (d.getblockcount - k)) = false :=
  ⟨fun ⟨_, h⟩ => not_inArray_of_confLoop h, fun h => ⟨16, confLoop_of_not_inArray h⟩⟩

/-- The script goes on only with a transaction that is in none of the fifteen newest blocks. -/
def Checks (d : Daemon Hash) (tx : Text) : Prop :=
  d.Continues tx → ∀ k : Nat, k < 15 → tx ∉ d.block (d.getblockcount - k)

/-- **The check works** if and only if the transaction is not in the newest block, or the loop finds
it in one of the fifteen blocks before. -/
theorem checks_iff (d : Daemon Hash) (tx : Text) :
    d.Checks tx ↔ (tx ∈ d.block d.getblockcount → ∃ k : Nat, 1 ≤ k ∧ k ≤ 15 ∧
      d.inArray tx (d.block (d.getblockcount - k)) = true) := by
  have hlast : d.getblockcount - (0 : Nat) = d.getblockcount := Int.sub_zero _
  constructor
  · intro h hmem
    by_contra hnone
    push Not at hnone
    have hcontinues := continues_iff.mpr fun k hpos hle => Bool.eq_false_iff.mpr (hnone k hpos hle)
    exact h hcontinues 0 (by omega) (hlast.symm ▸ hmem)
  · intro h hcontinues k hk hmem
    have hnot := continues_iff.mp hcontinues
    rcases Nat.eq_zero_or_pos k with rfl | hpos
    · obtain ⟨k, hpos, hle, hfound⟩ := h (hlast ▸ hmem)
      rw [hnot k hpos hle] at hfound
      exact absurd hfound (by decide)
    · have hfound := inArray_of_mem (d := d) hmem
      rw [hnot k hpos (by omega)] at hfound
      exact absurd hfound (by decide)

end Daemon

/-- Twenty blocks, with the transaction `ab` in the newest one. -/
def twenty : Daemon Int where
  getblockcount := 20
  getblockhash := id
  getblock := fun height => if height = 20 then [ascii "ab"] else []
  sameNumber := fun _ _ => false

/-- A transaction without a second confirmation passes. -/
theorem twenty_continues :
    twenty.confLoop (ascii "ab") 20 16 5 = some (.ok ()) ∧ ascii "ab" ∈ twenty.block 20 ∧
      ¬ twenty.Checks (ascii "ab") := by
  have hloop : twenty.confLoop (ascii "ab") 20 16 5 = some (.ok ()) := by rfl
  have hmem : ascii "ab" ∈ twenty.block 20 := by decide
  exact ⟨hloop, hmem, fun h => h ⟨16, hloop⟩ 0 (by omega) hmem⟩

end ChainX.Hosting
