import ChainX.Evm.Word

/-!
# `Contracts/safe.sol`

Arithmetic that wraps and is checked on what it has wrapped to: `safeAdd` (`safe.sol:11-19`),
`safeSubtract` (`safe.sol:25-33`) and `safeMultiply` (`safe.sol:37-45`). An `assert` that fails
throws, which is `none`.

* The functions here are those of `contract Safe`, in a namespace of their own. The `SafeMath` that
  the other contracts inherit is not part of the repository, and `Word` has it.
* A sum is compared with both of its terms, of which one comparison would do; a difference with its
  first term, and the terms with each other; a product is divided by its first factor again, unless
  that is zero.
* Left out: `shrink128`, the modifier `onlyPayloadSize` and the fallback function, which other
  functions of the repository do not use.

Results:
* `mul_mod_div_eq_iff`: the check of a product, for any modulus. A product that wrapped loses a
  multiple of the modulus, and the quotient by the factor is too small then.
* **`checks_exact`**: each function is the exact number, or a throw when that is no word.
-/

namespace ChainX.Evm.Safe

/-! ## Functions -/

/-- `safeAdd`: the wrapped sum, checked against both of its terms. -/
def safeAdd (a b : Uint256) : Option Uint256 :=
  let c := a + b
  if a ≤ c ∧ b ≤ c then some c else none

/-- `safeSubtract`: the wrapped difference, checked against both numbers. -/
def safeSubtract (a b : Uint256) : Option Uint256 :=
  let c := a - b
  if b ≤ a ∧ c ≤ a then some c else none

/-- `safeMultiply`: the wrapped product, checked by a division. -/
def safeMultiply (a b : Uint256) : Option Uint256 :=
  let c := a * b
  if a = 0 ∨ c / a = b then some c else none

/-- The number, or a throw when it is no word. -/
def exact (n : Int) : Option Uint256 :=
  if h : 0 ≤ n ∧ n < 2 ^ 256 then some ⟨n.toNat, by omega⟩ else none

/-! ## The checks -/

variable {a b : Uint256}

theorem exact_of_val {n : Int} {c : Uint256} (h : (c.val : Int) = n) : exact n = some c := by
  have hlt := c.isLt
  unfold exact
  rw [dif_pos (by omega)]
  exact congrArg some (Fin.ext (h ▸ Int.toNat_natCast c.val))

theorem exact_of_not {n : Int} (h : ¬ (0 ≤ n ∧ n < 2 ^ 256)) : exact n = none := dif_neg h

/-- A sum that wraps is below both numbers. -/
theorem le_add_iff : a ≤ a + b ↔ a.val + b.val < 2 ^ 256 := by
  have ha := a.isLt
  have hb := b.isLt
  rw [Fin.le_def, Fin.val_add]
  constructor
  · intro h
    by_contra hlarge
    rw [Nat.mod_eq_sub_mod (Nat.le_of_not_lt hlarge), Nat.mod_eq_of_lt (by omega)] at h
    omega
  · intro h
    rw [Nat.mod_eq_of_lt h]
    exact Nat.le_add_right _ _

/-- A product that wraps is not divided back: `a` times the quotient is at most what is left. -/
theorem mul_mod_div_eq_iff {a b m : Nat} (ha : 0 < a) (hm : 0 < m) :
    a * b % m / a = b ↔ a * b < m := by
  constructor
  · intro h
    calc a * b = a * (a * b % m / a) := by rw [h]
      _ ≤ a * b % m := Nat.mul_div_le _ a
      _ < m := Nat.mod_lt _ hm
  · intro h
    rw [Nat.mod_eq_of_lt h, Nat.mul_div_cancel_left b ha]

theorem mul_div_eq_iff (ha : a ≠ 0) : a * b / a = b ↔ a.val * b.val < 2 ^ 256 := by
  have hpos : 0 < a.val := Nat.pos_of_ne_zero fun h => ha (Fin.ext h)
  rw [Fin.ext_iff]
  change (a * b).val / a.val = b.val ↔ _
  rw [Fin.val_mul]
  exact mul_mod_div_eq_iff hpos (by decide)

/-! ## Exactness -/

theorem safeAdd_eq (a b : Uint256) : safeAdd a b = exact (a.val + b.val) := by
  have hcomm : b ≤ a + b ↔ a.val + b.val < 2 ^ 256 := by
    rw [add_comm a b, le_add_iff, Nat.add_comm]
  unfold safeAdd
  by_cases hfits : a.val + b.val < 2 ^ 256
  · rw [if_pos ⟨le_add_iff.mpr hfits, hcomm.mpr hfits⟩, exact_of_val]
    rw [Fin.val_add, Nat.mod_eq_of_lt hfits, Int.natCast_add]
  · rw [if_neg fun h => hfits (le_add_iff.mp h.1), exact_of_not]
    omega

theorem safeSubtract_eq (a b : Uint256) : safeSubtract a b = exact (a.val - b.val) := by
  unfold safeSubtract
  by_cases hle : b ≤ a
  · have hval : (a - b).val = a.val - b.val := Fin.sub_val_of_le hle
    have hle' : b.val ≤ a.val := hle
    rw [if_pos ⟨hle, Fin.le_def.mpr (by omega)⟩, exact_of_val]
    omega
  · rw [if_neg fun h => hle h.1, exact_of_not]
    rw [Fin.le_def] at hle
    omega

theorem safeMultiply_eq (a b : Uint256) : safeMultiply a b = exact (a.val * b.val) := by
  unfold safeMultiply
  by_cases ha : a = 0
  · rw [if_pos (.inl ha), exact_of_val]
    simp [ha]
  by_cases hfits : a.val * b.val < 2 ^ 256
  · rw [if_pos (.inr ((mul_div_eq_iff ha).mpr hfits)), exact_of_val]
    rw [Fin.val_mul, Nat.mod_eq_of_lt hfits, Int.natCast_mul]
  · rw [if_neg fun h => hfits ((mul_div_eq_iff ha).mp (h.resolve_left ha)), exact_of_not]
    exact fun h => hfits (by exact_mod_cast h.2)

/-- **The arithmetic is exact**: the sum, the difference and the product, or a throw. -/
theorem checks_exact (a b : Uint256) :
    safeAdd a b = exact (a.val + b.val) ∧ safeSubtract a b = exact (a.val - b.val) ∧
      safeMultiply a b = exact (a.val * b.val) :=
  ⟨safeAdd_eq a b, safeSubtract_eq a b, safeMultiply_eq a b⟩

end ChainX.Evm.Safe
