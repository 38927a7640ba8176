/-!
# Shares of an amount, rounded down

`share whole part amount` is the part of `amount` that `part` out of `whole` earns, rounded down.

* The product comes first and the quotient last, over the unbounded natural numbers. A program that
  computes it in machine words has to show that the product fits.
* A share is of the whole, not of what is left: pieces of one `part` that are settled one after the
  other are all measured against the same `whole` and `amount`.

Results:
* `share_add_le`: however `part` is split, the shares of the pieces never exceed the share of the
  whole part. What rounding loses is lost by the one who is paid in pieces.
* `share_le`: no share exceeds the amount.
-/

namespace ChainX.Lib

/-- `⌊part · amount / whole⌋`. -/
def share (whole part amount : Nat) : Nat := part * amount / whole

theorem share_add_le (whole a b amount : Nat) :
    share whole a amount + share whole b amount ≤ share whole (a + b) amount := by
  unfold share
  rw [Nat.add_mul]
  exact Nat.div_add_div_le_add_div

theorem share_le {whole part : Nat} (h : part ≤ whole) (amount : Nat) :
    share whole part amount ≤ amount := by
  unfold share
  exact Nat.div_le_of_le_mul (Nat.mul_le_mul_right amount h)

end ChainX.Lib
