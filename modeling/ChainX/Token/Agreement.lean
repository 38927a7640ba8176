import ChainX.Token.Spec

/-!
# The two token contracts agree

`StandardToken` tests its conditions first and then computes without checks;
`StandardTokenWithOverflowProtection` computes with checks as it goes. On behalf of another the
former writes the payee's account before the payer's, and the latter in the other order. Below a
supply of half the words, and for a positive value, that is the same contract up to how it says no:
one returns `false`, the other throws (`Agree`).

* The supply is needed because `StandardToken` compares the payee's account with what it would have
  before the payer's was written: below half of the words nothing wraps in either order
  (`room_of_half`).
* For a value of zero the two differ: `StandardToken` refuses it, as the sum is not greater.
* Where payer and payee are the same account both orders leave what was there.

Each half compares the two functions through what `Spec` says of a step: taking what is there and
adding what fits is exact (`decrease_eq`, `increase_eq`), and the writes to two accounts commute
(`setBalance_comm`).

**`tokens_agree`** covers every combination of balances and allowances, and parties that coincide.
-/

namespace ChainX.Token

open ChainX.Evm ChainX.Reentry

variable {Q R : Type} {s : Storage} {sender payer payee : Address} {value : Uint256}

/-- At `s`, both codes return `true` and leave the same storage; or the first returns `false` and
leaves `s`, and the second throws. -/
def Agree (standard checked : Contract Storage Q R Bool) (s : Storage) : Prop :=
  (∃ s', standard s = .ret true s' ∧ checked s = .ret true s') ∨
    standard s = .ret false s ∧ checked s = .throw

/-! ## The order of the updates -/

/-- Adding to one account and taking from one can be done in either order, also when they are the
same. -/
theorem setBalance_comm (s : Storage) (payer payee : Address) (value : Uint256) :
    ((s.setBalance payee (s.balances payee + value)).setBalance payer
        ((s.setBalance payee (s.balances payee + value)).balances payer - value)).balances =
      ((s.setBalance payer (s.balances payer - value)).setBalance payee
        ((s.setBalance payer (s.balances payer - value)).balances payee + value)).balances := by
  unfold Storage.setBalance
  by_cases h : payer = payee
  · subst h
    simp only [Function.update_self, Function.update_idem, add_sub_cancel_right, sub_add_cancel]
  · simp only [Function.update_of_ne h, Function.update_of_ne (Ne.symm h)]
    exact Function.update_comm (Ne.symm h) _ _ _

/-! ## Agreement -/

/-- What the payer can spare fits the payee's account, also before it is taken. -/
theorem room_of_half (payee : Address) (hsupply : supply s < 2 ^ 255)
    (hle : value ≤ s.balances payer) : (s.balances payee).val + value.val < 2 ^ 256 := by
  have h1 := balance_le_supply s payee
  have h2 := balance_le_supply s payer
  have h3 : value.val ≤ (s.balances payer).val := hle
  omega

theorem transfer_agree (hsupply : supply s < 2 ^ 255) (hpos : 0 < value.val) :
    Agree (StandardToken.transfer sender payee value : Contract Storage Q R Bool)
      (StandardTokenWithOverflowProtection.transfer sender payee value) s := by
  unfold Agree StandardToken.transfer StandardTokenWithOverflowProtection.transfer
  rw [Contract.bind_ret (Contract.get_apply s)]
  by_cases hle : value ≤ s.balances sender
  · have hroom := room_of_half payee hsupply hle
    rw [if_pos ⟨hle, lt_add_iff.mpr ⟨hpos, hroom⟩⟩, Contract.bind_ret (decrease_eq hle),
      Contract.bind_ret (increase_eq (StandardToken.setBalance_room hle hroom))]
    exact Or.inl ⟨_, rfl, rfl⟩
  · rw [if_neg fun h => hle h.1, Contract.bind_throw (decrease_of_not_le hle)]
    exact Or.inr ⟨rfl, rfl⟩

theorem transferFrom_agree (hsupply : supply s < 2 ^ 255) (hpos : 0 < value.val) :
    Agree (StandardToken.transferFrom sender payer payee value : Contract Storage Q R Bool)
      (StandardTokenWithOverflowProtection.transferFrom sender payer payee value) s := by
  unfold Agree StandardToken.transferFrom StandardTokenWithOverflowProtection.transferFrom
  rw [Contract.bind_ret (Contract.get_apply s)]
  by_cases hle : value ≤ s.balances payer
  · have hroom := room_of_half payee hsupply hle
    rw [Contract.bind_ret (decrease_eq hle), Contract.bind_ret (Contract.get_apply _)]
    by_cases hallow : value ≤ s.allowed payer sender
    · have hsub : safeSub (s.allowed payer sender) value =
          some (s.allowed payer sender - value) := if_pos hallow
      have hroom' : (((s.setBalance payer (s.balances payer - value)).setAllowed payer sender
          (s.allowed payer sender - value)).balances payee).val + value.val < 2 ^ 256 :=
        StandardToken.setBalance_room hle hroom
      rw [if_pos ⟨hle, hallow, lt_add_iff.mpr ⟨hpos, hroom⟩⟩,
        show (s.setBalance payer (s.balances payer - value)).allowed = s.allowed from rfl, hsub,
        Contract.ofOption_some_bind]
      refine Or.inl ⟨_, rfl, ?_⟩
      rw [Contract.bind_ret (Contract.modify_apply _ _),
        Contract.bind_ret (increase_eq hroom')]
      exact congrArg (fun balances => Proc.ret true
        { s.setAllowed payer sender (s.allowed payer sender - value) with
          balances := balances
          log := .transfer payer payee value :: s.log }) (setBalance_comm s payer payee value).symm
    · have hsub : safeSub (s.allowed payer sender) value = none := if_neg hallow
      rw [if_neg fun h => hallow h.2.1,
        show (s.setBalance payer (s.balances payer - value)).allowed = s.allowed from rfl, hsub]
      exact Or.inr ⟨rfl, rfl⟩
  · rw [if_neg fun h => hle h.1, Contract.bind_throw (decrease_of_not_le hle)]
    exact Or.inr ⟨rfl, rfl⟩

/-- **The two token contracts agree**: below a supply of half the words and for a positive value, a
transfer on one's own or another's behalf returns `true` in `StandardToken` exactly where it does
not throw in the other, and then leaves the same storage; where it returns `false` nothing has
changed. -/
theorem tokens_agree (s : Storage) (hsupply : supply s < 2 ^ 255) (sender payee : Address)
    (value : Uint256) (hpos : 0 < value.val) :
    Agree (StandardToken.transfer sender payee value : Contract Storage Q R Bool)
        (StandardTokenWithOverflowProtection.transfer sender payee value) s ∧
      ∀ payer, Agree
        (StandardToken.transferFrom sender payer payee value : Contract Storage Q R Bool)
        (StandardTokenWithOverflowProtection.transferFrom sender payer payee value) s :=
  ⟨transfer_agree hsupply hpos, fun _ => transferFrom_agree hsupply hpos⟩

/-- A token of which account `10` holds 5. -/
def fiveTokens : Storage := Storage.init.setBalance 10 5

theorem supply_fiveTokens : supply fiveTokens = 5 := by
  have h := supply_setBalance Storage.init 10 5
  have hzero : (Storage.init.balances 10).val = 0 := rfl
  have hfive : (5 : Uint256).val = 5 := rfl
  rw [supply_init, hzero, hfive, Nat.zero_add, Nat.add_zero] at h
  exact h

theorem tokens_agree_five :
    Agree (StandardToken.transfer 10 10 3 : Contract Storage Unit Unit Bool)
        (StandardTokenWithOverflowProtection.transfer 10 10 3) fiveTokens ∧
      ∀ payer, Agree (StandardToken.transferFrom 10 payer 10 3 : Contract Storage Unit Unit Bool)
        (StandardTokenWithOverflowProtection.transferFrom 10 payer 10 3) fiveTokens :=
  tokens_agree fiveTokens (by rw [supply_fiveTokens]; decide) 10 10 3 (by decide)

end ChainX.Token
