import ChainX.Ico.StandardToken

/-!
# What the token of the ICO moves

`transferFrom` (`StandardToken.sol:44-52`) adds to the payee before it takes from the payer. Where
the two are one account, the test of the balance is made of what the addition has left: whatever
fits into a word is there, and what does not is refused although it may be
(`returns_transferFrom_iff`). `transfer` (`StandardToken.sol:37-42`) takes first.

* `Exact` says of code that it succeeds exactly under a condition, has an effect then, and throws
  otherwise. `exact_iff` is its use for code whose effect is known from its rule.
* `MovesOnly` is what the token is for: only what is there is moved, by both functions.
* Between two accounts the order of the two writes shows nowhere, and a supply below the words rules
  out that the addition throws (`room_of_ne`).

**`movesOnly_iff`**: between two accounts, `transfer` and `transferFrom` succeed exactly when the
value is there and allowed, and move exactly that; within one, `transfer` does. `moves_missing` is a
transfer of tokens that nobody has.
-/

namespace ChainX.Ico.StandardToken

open ChainX.Evm ChainX.Reentry ChainX.Token

variable {Q R : Type} {s : Storage} {sender payer payee : Address} {value : Uint256}

/-- The call succeeds exactly when `ok`, and then has the effect; otherwise it throws. -/
def Exact (m : Contract Storage Q R Bool) (s : Storage) (ok : Prop) (effect : Storage → Prop) :
    Prop :=
  (ok ∧ ∃ s', m s = .ret true s' ∧ effect s') ∨ (¬ ok ∧ m s = .throw)

/-- Only tokens that are there are moved, by `transfer` with call data of full length and by
`transferFrom`. -/
structure MovesOnly (Q R : Type) (s : Storage) (sender payer payee : Address) (value : Uint256) :
    Prop where
  transfer : ∀ dataLength, 2 * 32 + 4 ≤ dataLength →
    Exact (transfer sender dataLength payee value : Contract Storage Q R Bool) s
      (value.val ≤ (s.balances sender).val)
      fun s' => Moved s s' sender payee value ∧ s'.allowed = s.allowed
  transferFrom :
    Exact (transferFrom sender payer payee value : Contract Storage Q R Bool) s
      (value.val ≤ (s.balances payer).val ∧ value.val ≤ (s.allowed payer sender).val)
      fun s' => Moved s s' payer payee value ∧ Spent s s' payer sender value

/-! ## When a call returns -/

/-- For code that has the effect whenever it returns. -/
theorem exact_iff {m : Contract Storage Q R Bool} {ok : Prop} {effect : Storage → Prop}
    (hm : wp Boundary.closed m (fun success s' => success = true ∧ effect s') s) :
    Exact m s ok effect ↔ (returns m (fun _ _ => True) s ↔ ok) := by
  unfold Exact
  rcases eq_of_closed hm with hthrow | ⟨_, s', hret, rfl, heffect⟩
  · have hno : ¬ returns m (fun _ _ => True) s := fun h => by
      obtain ⟨_, _, hret, -⟩ := returns_iff_ret.mp h
      rw [hthrow] at hret
      exact absurd hret (by simp)
    simp [hthrow, hno]
  · have hyes : returns m (fun _ _ => True) s := returns_iff_ret.mpr ⟨true, s', hret, trivial⟩
    simp [hret, hyes, heffect]

theorem returns_transfer_iff {dataLength : Nat} (hdata : 2 * 32 + 4 ≤ dataLength)
    (hsum : supply s < 2 ^ 256) :
    returns (transfer sender dataLength payee value : Contract Storage Q R Bool)
      (fun _ _ => True) s ↔ value.val ≤ (s.balances sender).val := by
  simp only [transfer, onlyPayloadSize, returns_bind, returns_require, returns_decrease_iff,
    returns_increase_iff, returns_modify, returns_pure, and_true]
  constructor
  · rintro ⟨-, x, ⟨hle, -⟩, -⟩
    exact hle
  · intro hle
    have hx := Fin.sub_val_of_le (show value ≤ s.balances sender from hle)
    have hroom : ((s.setBalance sender (s.balances sender - value)).balances payee).val +
        value.val < 2 ^ 256 :=
      StandardTokenWithOverflowProtection.room_of_supply hsum hle hx
    exact ⟨Nat.not_lt.mpr hdata, _, ⟨hle, hx⟩, ⟨_, hroom⟩, rfl⟩

/-- The balance is tested after the addition. -/
theorem returns_transferFrom_iff :
    returns (transferFrom sender payer payee value : Contract Storage Q R Bool)
      (fun _ _ => True) s ↔
      (s.balances payee).val + value.val < 2 ^ 256 ∧
        (payer ≠ payee → value.val ≤ (s.balances payer).val) ∧
        value.val ≤ (s.allowed payer sender).val := by
  simp only [transferFrom, returns_bind, returns_get, returns_increase_iff, returns_decrease_iff,
    returns_ofOption, returns_modify, returns_pure, and_true, safeSub_eq_some]
  constructor
  · rintro ⟨y, hy, x, ⟨hle, -⟩, z, hallow, -⟩
    refine ⟨hy ▸ y.isLt, fun hne => ?_, hallow⟩
    simpa only [Storage.setBalance, Function.update_of_ne hne] using hle
  · rintro ⟨hroom, hle, hallow⟩
    have hle' : value.val ≤ ((s.setBalance payee ⟨_, hroom⟩).balances payer).val := by
      unfold Storage.setBalance
      by_cases hself : payer = payee
      · subst hself
        simp only [Function.update_self]
        exact Nat.le_add_left _ _
      · simp only [Function.update_of_ne hself]
        exact hle hself
    have hx := Fin.sub_val_of_le
      (show value ≤ (s.setBalance payee ⟨_, hroom⟩).balances payer from hle')
    have hz := Fin.sub_val_of_le (show value ≤ s.allowed payer sender from hallow)
    exact ⟨⟨_, hroom⟩, rfl, _, ⟨hle', hx⟩, _, hallow, hz⟩

/-! ## When only what is there is moved -/

/-- What one of two accounts has fits the other. -/
theorem room_of_ne (hsum : supply s < 2 ^ 256) (hne : payer ≠ payee)
    (hle : value.val ≤ (s.balances payer).val) :
    (s.balances payee).val + value.val < 2 ^ 256 := by
  have hx := Fin.sub_val_of_le (show value ≤ s.balances payer from hle)
  have hroom : ((s.setBalance payer (s.balances payer - value)).balances payee).val +
      value.val < 2 ^ 256 :=
    StandardTokenWithOverflowProtection.room_of_supply hsum hle hx
  simpa only [Storage.setBalance, Function.update_of_ne hne.symm] using hroom

/-- **The token moves only what is there** exactly when the parties of `transferFrom` are two
accounts, or the value is not allowed, or the account has it just in case it fits on top of what
the account has. -/
theorem movesOnly_iff (s : Storage) (hsum : supply s < 2 ^ 256) (sender payer payee : Address)
    (value : Uint256) :
    MovesOnly Q R s sender payer payee value ↔
      payer ≠ payee ∨ (s.allowed payer sender).val < value.val ∨
        (value.val ≤ (s.balances payer).val ↔
          (s.balances payer).val + value.val < 2 ^ 256) := by
  have htransfer : ∀ dataLength, 2 * 32 + 4 ≤ dataLength →
      Exact (transfer sender dataLength payee value : Contract Storage Q R Bool) s
        (value.val ≤ (s.balances sender).val)
        fun s' => Moved s s' sender payee value ∧ s'.allowed = s.allowed := by
    intro dataLength hdata
    refine (exact_iff (wp_mono wp_transfer fun _ s' h => ?_)).mpr (returns_transfer_iff hdata hsum)
    exact ⟨h.1, h.2.1, h.2.2.1⟩
  have hclosed : wp Boundary.closed
      (transferFrom sender payer payee value : Contract Storage Q R Bool)
      (fun success s' => success = true ∧ Moved s s' payer payee value ∧
        Spent s s' payer sender value) s :=
    wp_mono wp_transferFrom fun _ s' h => ⟨h.1, h.2.1, h.2.2.1⟩
  have hmoves : MovesOnly Q R s sender payer payee value ↔ _ :=
    ⟨fun h => (exact_iff hclosed).mp h.transferFrom,
      fun h => ⟨htransfer, (exact_iff hclosed).mpr h⟩⟩
  rw [hmoves, returns_transferFrom_iff]
  by_cases hself : payer = payee
  · subst hself
    simp only [ne_eq, not_true_eq_false, false_imp_iff, true_and, false_or]
    omega
  · have hroom : value.val ≤ (s.balances payer).val →
        (s.balances payee).val + value.val < 2 ^ 256 := room_of_ne hsum hself
    refine iff_of_true ⟨fun h => ⟨h.2.1 hself, h.2.2⟩, fun h => ?_⟩ (.inl hself)
    exact ⟨hroom h.1, fun _ => h.1, h.2⟩

/-- Account `1` has 20 tokens and allows account `2` to move 50. -/
def generous : Storage := (Storage.init.setBalance 1 20).setAllowed 1 2 50

theorem supply_generous : supply generous = 20 := by
  have h := supply_setBalance Storage.init 1 20
  have hzero : (Storage.init.balances 1).val = 0 := rfl
  rw [supply_init, hzero, Nat.zero_add, Nat.add_zero] at h
  exact h

/-- **Tokens that are not there.** Account `2` moves 30 from account `1` to itself. -/
theorem moves_missing :
    supply generous < 2 ^ 256 ∧ (generous.balances 1).val < (30 : Uint256).val ∧
      (∃ s', (transferFrom 2 1 1 30 : Contract Storage Unit Unit Bool) generous = .ret true s' ∧
        (s'.allowed 1 2).val = 20) ∧
      ¬ MovesOnly Unit Unit generous 2 1 1 30 := by
  have hreturns : returns (transferFrom 2 1 1 30 : Contract Storage Unit Unit Bool)
      (fun _ _ => True) generous :=
    returns_transferFrom_iff.mpr ⟨by decide +kernel, fun hne => absurd rfl hne, by decide +kernel⟩
  obtain ⟨_, s', hret, -, rfl, -, hspent, -⟩ :=
    returns_iff_ret.mp (returns_and hreturns (wp_transferFrom (B := Boundary.closed)))
  have hleft : (s'.allowed 1 2).val + 30 = 50 := hspent 1 2
  refine ⟨supply_generous ▸ by decide, by decide +kernel, ⟨s', hret, by omega⟩, fun h => ?_⟩
  rcases h.transferFrom with ⟨⟨hle, -⟩, -⟩ | ⟨-, hthrow⟩
  · exact absurd hle (by decide +kernel)
  · rw [hret] at hthrow
    exact absurd hthrow (by simp)

theorem movesOnly_iff_generous : MovesOnly Unit Unit generous 2 1 3 15 :=
  (movesOnly_iff generous (supply_generous ▸ by decide) 2 1 3 15).mpr (.inl (by decide))

end ChainX.Ico.StandardToken
