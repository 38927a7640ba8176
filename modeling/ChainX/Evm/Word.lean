import Mathlib

/-!
# Words, checked arithmetic and hashing

The values the contracts compute with: `uint` is `Uint256`, whose own `+` and `-` wrap modulo
`2 ^ 256` as the machine's do; `address` is `Address`, with the null address `0`. `Msg` is what a
call of a payable function brings.

* `SafeMath` is not part of the repository. The contracts rely on functions that return the exact
  result or throw; a throw is `none` here. The lemmas `safeAdd_eq_some`, … say so in `Nat`, and
  `SafeMath.eq` that these laws leave no choice: `safeAdd`, … are the functions of every library
  that obeys them.
* `sha3` and `ecrecover` are the two functions of `Crypto`, left open. The arguments of `sha3` are
  tightly packed: an address takes 20 bytes, a word 32, a string its own bytes.
* `mulmod` is that of the machine, whose product does not wrap before it is divided.

Statements about words are made in `Nat`, through `Fin.val`. `lt_add_iff` is the comparison by which
contracts look for a sum that wrapped, and `val_ite_lt` what they write out as `min`.
-/

namespace ChainX.Evm

/-- `uint`. -/
abbrev Uint256 := Fin (2 ^ 256)

/-- `address`. -/
abbrev Address := Fin (2 ^ 160)

instance neZero_uint256 : NeZero (2 ^ 256) := ⟨by decide⟩

instance neZero_address : NeZero (2 ^ 160) := ⟨by decide⟩

/-- `bytes32`. -/
abbrev Bytes32 := BitVec 256

/-! ## SafeMath -/

/-- `a + b`, or a throw when it does not fit. -/
def safeAdd (a b : Uint256) : Option Uint256 :=
  if h : a.val + b.val < 2 ^ 256 then some ⟨a.val + b.val, h⟩ else none

/-- `a - b`, or a throw when `b` is larger. -/
def safeSub (a b : Uint256) : Option Uint256 :=
  if b.val ≤ a.val then some (a - b) else none

/-- `a * b`, or a throw when it does not fit. -/
def safeMul (a b : Uint256) : Option Uint256 :=
  if h : a.val * b.val < 2 ^ 256 then some ⟨a.val * b.val, h⟩ else none

/-- `a / b`, or a throw when `b` is zero. -/
def safeDiv (a b : Uint256) : Option Uint256 :=
  if b.val = 0 then none else some (a / b)

theorem safeAdd_eq_some {a b c : Uint256} : safeAdd a b = some c ↔ c.val = a.val + b.val := by
  unfold safeAdd
  split
  · rw [Option.some.injEq, Fin.ext_iff]
    exact eq_comm
  · rename_i h
    simp only [reduceCtorEq, false_iff]
    omega

theorem safeSub_eq_some {a b c : Uint256} :
    safeSub a b = some c ↔ b.val ≤ a.val ∧ c.val = a.val - b.val := by
  unfold safeSub
  split
  · rename_i h
    rw [Option.some.injEq, Fin.ext_iff, Fin.sub_val_of_le h]
    exact ⟨fun e => ⟨h, e.symm⟩, fun e => e.2.symm⟩
  · rename_i h
    simp [h]

theorem safeMul_eq_some {a b c : Uint256} : safeMul a b = some c ↔ c.val = a.val * b.val := by
  unfold safeMul
  split
  · rw [Option.some.injEq, Fin.ext_iff]
    exact eq_comm
  · rename_i h
    simp only [reduceCtorEq, false_iff]
    have := c.isLt
    omega

theorem safeDiv_eq_some {a b c : Uint256} :
    safeDiv a b = some c ↔ b.val ≠ 0 ∧ c.val = a.val / b.val := by
  unfold safeDiv
  split
  · rename_i h
    simp [h]
  · rename_i h
    rw [Option.some.injEq, Fin.ext_iff, Fin.div_val]
    exact ⟨fun e => ⟨h, e.symm⟩, fun e => e.2.symm⟩

/-- A library with the laws that the contracts rely on. -/
structure SafeMath where
  safeAdd : Uint256 → Uint256 → Option Uint256
  safeSub : Uint256 → Uint256 → Option Uint256
  safeMul : Uint256 → Uint256 → Option Uint256
  safeDiv : Uint256 → Uint256 → Option Uint256
  safeAdd_eq_some : ∀ {a b c}, safeAdd a b = some c ↔ c.val = a.val + b.val
  safeSub_eq_some : ∀ {a b c}, safeSub a b = some c ↔ b.val ≤ a.val ∧ c.val = a.val - b.val
  safeMul_eq_some : ∀ {a b c}, safeMul a b = some c ↔ c.val = a.val * b.val
  safeDiv_eq_some : ∀ {a b c}, safeDiv a b = some c ↔ b.val ≠ 0 ∧ c.val = a.val / b.val

/-- **The laws determine the library.** -/
theorem SafeMath.eq (m : SafeMath) :
    m.safeAdd = Evm.safeAdd ∧ m.safeSub = Evm.safeSub ∧ m.safeMul = Evm.safeMul ∧
      m.safeDiv = Evm.safeDiv := by
  refine ⟨?_, ?_, ?_, ?_⟩ <;> funext a b <;> refine Option.ext fun c => ?_
  · exact m.safeAdd_eq_some.trans Evm.safeAdd_eq_some.symm
  · exact m.safeSub_eq_some.trans Evm.safeSub_eq_some.symm
  · exact m.safeMul_eq_some.trans Evm.safeMul_eq_some.symm
  · exact m.safeDiv_eq_some.trans Evm.safeDiv_eq_some.symm

/-- The check of a sum against wrapping around, which also refuses to add nothing. -/
theorem lt_add_iff {a b : Uint256} : a < a + b ↔ 0 < b.val ∧ a.val + b.val < 2 ^ 256 := by
  rw [Fin.lt_def, Fin.val_add]
  omega

theorem add_val {a b : Uint256} (h : a.val + b.val < 2 ^ 256) : (a + b).val = a.val + b.val := by
  rw [Fin.val_add]
  exact Nat.mod_eq_of_lt h

/-- What the contracts write out as `min`. -/
theorem val_ite_lt (a b : Uint256) : (if a < b then a else b).val = min a.val b.val := by
  split
  · rename_i h
    exact (Nat.min_eq_left (Nat.le_of_lt h)).symm
  · rename_i h
    exact (Nat.min_eq_right (Nat.le_of_not_lt h)).symm

/-- `mulmod(x, y, k)`: the product is not truncated. -/
def mulmod (x y k : Uint256) : Nat := if k.val = 0 then 0 else x.val * y.val % k.val

/-! ## Hashing and signatures -/

/-- `n` as `k` bytes, most significant first. -/
def packBytes (k n : Nat) : List UInt8 :=
  (List.range k).reverse.map fun i => UInt8.ofNat (n / 256 ^ i)

/-- An address, as `sha3` packs it. -/
def packAddress (a : Address) : List UInt8 := packBytes 20 a.val

/-- A word, as `sha3` packs it. -/
def packUint (x : Uint256) : List UInt8 := packBytes 32 x.val

/-- A `bytes32`, as `sha3` packs it. -/
def packBytes32 (h : Bytes32) : List UInt8 := packBytes 32 h.toNat

/-- A string literal, as `sha3` packs it. -/
def packString (s : String) : List UInt8 := s.toList.map fun c => UInt8.ofNat c.toNat

/-- An ECDSA signature `(v, r, s)`. -/
structure Signature where
  v : UInt8
  r : Bytes32
  s : Bytes32
  deriving DecidableEq

/-- The hash and the signature recovery of the machine. -/
structure Crypto where
  sha3 : List UInt8 → Bytes32
  /-- The address recovered from a signature of a hash; `0` for an invalid one. -/
  ecrecover : Bytes32 → Signature → Address

/-- What a contract sees of the call it serves. -/
structure Msg where
  sender : Address
  /-- `block.timestamp`. -/
  timestamp : Uint256

end ChainX.Evm
