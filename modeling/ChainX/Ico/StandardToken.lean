import ChainX.Token.Spec

/-!
# The token of the ICO, `Contracts/ICO/StandardToken.sol`

`contract StandardToken is chx119, SafeMath`, over the same three mappings as the tokens of
`Contracts/Base` (`Token.Storage`): `transfer` (`StandardToken.sol:37-42`), `transferFrom`
(`StandardToken.sol:44-52`) and `approve` (`StandardToken.sol:58-68`). It differs from them in three
ways: `transfer` refuses calls whose data are too short (`onlyPayloadSize`), `transferFrom` adds
before it takes and reads the allowance first, and `approve` refuses to replace an allowance that is
not `0` by another.

* The interface `chx119`, which declares functions and events, is not part of the repository.
* The number of bytes of a call comes with it (`dataLength`).
* `isToken` answers a constant and is left out, as is the event `Minted`, which nothing emits.

The last part says what the functions do, as `Token/Spec.lean` does for the other tokens:
`wp_transfer`, `wp_transferFrom`, `wp_approve` when they return, and `returns_transferFrom` that
they do.
-/

namespace ChainX.Ico.StandardToken

open ChainX.Evm ChainX.Reentry ChainX.Token

variable {Q R : Type}

/-! ## Functions -/

/-- `onlyPayloadSize(size)`, for a call whose `msg.data` has `dataLength` bytes. -/
def onlyPayloadSize (dataLength size : Nat) : Contract Storage Q R Unit :=
  Contract.require (¬ dataLength < size + 4)

/-- `transfer`, of a call with so many bytes of data. -/
def transfer (sender : Address) (dataLength : Nat) (payee : Address) (value : Uint256) :
    Contract Storage Q R Bool := do
  onlyPayloadSize dataLength (2 * 32)
  decrease sender value
  increase payee value
  emit (.transfer sender payee value)
  return true

/-- `transferFrom`: the allowance is read before anything moves. -/
def transferFrom (sender payer payee : Address) (value : Uint256) : Contract Storage Q R Bool := do
  let s ← Contract.get
  let allowance := s.allowed payer sender
  increase payee value
  decrease payer value
  let rest ← Contract.ofOption (safeSub allowance value)
  Contract.modify fun s => s.setAllowed payer sender rest
  emit (.transfer payer payee value)
  return true

/-- `approve`: one of the old and the new allowance has to be `0`. -/
def approve (sender spender : Address) (value : Uint256) : Contract Storage Q R Bool := do
  let s ← Contract.get
  Contract.require (¬ (value ≠ 0 ∧ s.allowed sender spender ≠ 0))
  Contract.modify fun s => s.setAllowed sender spender value
  emit (.approval sender spender value)
  return true

/-- `allowance`. -/
def allowance (owner spender : Address) : Contract Storage Q R Uint256 := do
  let s ← Contract.get
  return s.allowed owner spender

/-! ## Entry points -/

/-- A call of a function that can change the storage. -/
inductive Call where
  | transfer (sender : Address) (dataLength : Nat) (payee : Address) (value : Uint256)
  | transferFrom (sender payer payee : Address) (value : Uint256)
  | approve (sender spender : Address) (value : Uint256)

/-- The code a call runs. -/
def entry : Call → Contract Storage Q R Unit
  | .transfer sender dataLength payee value => (transfer sender dataLength payee value).void
  | .transferFrom sender payer payee value => (transferFrom sender payer payee value).void
  | .approve sender spender value => (approve sender spender value).void

/-! ## What they do -/

variable {B : Boundary Storage Q R} {s : Storage}

theorem wp_transfer {sender payee : Address} {dataLength : Nat} {value : Uint256} :
    wp B (transfer sender dataLength payee value) (fun success s' => success = true ∧
      Moved s s' sender payee value ∧ s'.allowed = s.allowed ∧
      s'.log = .transfer sender payee value :: s.log) s := by
  simp only [transfer, onlyPayloadSize, wp_bind, wp_require, wp_decrease, wp_increase, wp_modify,
    wp_pure]
  rintro - x ⟨hle, hx⟩ y hy
  exact ⟨trivial, moved_of_decrease_increase (s.setBalance sender x) hle hx rfl hy rfl rfl, rfl,
    rfl⟩

theorem wp_transferFrom {sender payer payee : Address} {value : Uint256} :
    wp B (transferFrom sender payer payee value) (fun success s' => success = true ∧
      Moved s s' payer payee value ∧ Spent s s' payer sender value ∧
      s'.log = .transfer payer payee value :: s.log) s := by
  simp only [transferFrom, wp_bind, wp_get, wp_increase, wp_decrease, wp_ofOption, wp_modify,
    wp_pure, safeSub_eq_some]
  rintro y hy x ⟨hle, hx⟩ z ⟨hle', hz⟩
  refine ⟨trivial, ?_, spent_setAllowed hle' hz rfl, rfl⟩
  exact moved_of_increase_decrease (s.setBalance payee y) hy rfl hle hx rfl rfl

/-- The value fits on top of what the payee has. -/
theorem wp_transferFrom_room {sender payer payee : Address} {value : Uint256} :
    wp B (transferFrom sender payer payee value)
      (fun _ _ => (s.balances payee).val + value.val < 2 ^ 256) s := by
  simp only [transferFrom, wp_bind, wp_get, wp_increase, wp_decrease, wp_ofOption, wp_modify,
    wp_pure]
  rintro y hy - - - -
  exact hy ▸ y.isLt

theorem wp_approve {sender spender : Address} {value : Uint256} :
    wp B (approve sender spender value) (fun success s' => success = true ∧
      (value ≠ 0 → s.allowed sender spender = 0) ∧ s'.balances = s.balances ∧
      s'.allowed = (s.setAllowed sender spender value).allowed ∧
      s'.log = .approval sender spender value :: s.log) s := by
  simp only [approve, wp_bind, wp_get, wp_require, wp_modify, wp_pure]
  intro hrace
  exact ⟨trivial, fun hne => by_contra fun hleft => hrace ⟨hne, hleft⟩, rfl, trivial, rfl⟩

/-- A call that goes through leaves one event. -/
theorem wp_entry_log (c : Call) :
    wp B (entry c) (fun _ s' => ∃ e, s'.log = e :: s.log) s := by
  cases c with
  | transfer sender dataLength payee value =>
    simp only [entry, wp_void]
    refine wp_mono wp_transfer fun _ s' h => ?_
    obtain ⟨-, -, -, hlog⟩ := h
    exact ⟨_, hlog⟩
  | transferFrom sender payer payee value =>
    simp only [entry, wp_void]
    refine wp_mono wp_transferFrom fun _ s' h => ?_
    obtain ⟨-, -, -, hlog⟩ := h
    exact ⟨_, hlog⟩
  | approve sender spender value =>
    simp only [entry, wp_void]
    refine wp_mono wp_approve fun _ s' h => ?_
    obtain ⟨-, -, -, -, hlog⟩ := h
    exact ⟨_, hlog⟩

end ChainX.Ico.StandardToken
