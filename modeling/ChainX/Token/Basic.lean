import ChainX.Evm.Word
import ChainX.Reentry.Proc

/-!
# The token contracts of `Contracts/Base`

`StandardTokenWithOverflowProtection` (`StandardTokenWithOverflowProtection.sol:25-62`) checks by
`SafeMath` and throws; `StandardToken` (`StandardToken.sol:7-35`) checks by comparisons and returns
`false`, its own sums wrapping around modulo `2 ^ 256`. Both keep the same three mappings
(`Storage`), and `approve`, `balanceOf` and `allowance` are the same in both.

* The interface `Token`, which both files import, is not part of the repository. It declares
  functions and events and has no code.
* `increase` and `decrease` are the two lines `balances[a] = safeAdd(..)` and `safeSub(..)`, the
  steps that the functions with overflow protection are made of.
* `ProtocolToken.init` is the constructor of the protocol token of `ChainX Token/Tokens.sol:6-14`, a
  `StandardToken` whose creator holds all of it.

None of their functions makes an external call, so the code is given for every type of queries: it
runs inside other contracts' runs and alone. What it does is in `Spec`, and `Agreement` compares the
two.
-/

namespace ChainX.Token

open ChainX.Evm ChainX.Reentry

/-- The events. -/
inductive Event where
  | transfer (payer payee : Address) (value : Uint256)
  | approval (owner spender : Address) (value : Uint256)

/-- The storage of a token. -/
structure Storage where
  balances : Address → Uint256
  allowed : Address → Address → Uint256
  totalSupply : Uint256
  /-- The events, newest first. -/
  log : List Event

/-- The storage of a token nobody holds. -/
def Storage.init : Storage := ⟨fun _ => 0, fun _ _ => 0, 0, []⟩

/-- `balances[owner] = value`. -/
def Storage.setBalance (s : Storage) (owner : Address) (value : Uint256) : Storage :=
  { s with balances := Function.update s.balances owner value }

/-- `allowed[owner][spender] = value`. -/
def Storage.setAllowed (s : Storage) (owner spender : Address) (value : Uint256) : Storage :=
  { s with
    allowed := Function.update s.allowed owner (Function.update (s.allowed owner) spender value) }

/-- The storage of `ProtocolToken` (`ChainX Token/Tokens.sol`), a `StandardToken`, after deployment
by `creator`: 100 million tokens with 18 decimal places. -/
def ProtocolToken.init (creator : Address) : Storage :=
  { Storage.init.setBalance creator ⟨10 ^ 26, by decide⟩ with totalSupply := ⟨10 ^ 26, by decide⟩ }

variable {Q R : Type}

/-- An event is emitted. -/
abbrev emit (e : Event) : Contract Storage Q R Unit :=
  Contract.modify fun s => { s with log := e :: s.log }

/-- `balances[owner] = safeAdd(balances[owner], value)`. -/
def increase (owner : Address) (value : Uint256) : Contract Storage Q R Unit := do
  let s ← Contract.get
  let balance ← Contract.ofOption (safeAdd (s.balances owner) value)
  Contract.modify fun s => s.setBalance owner balance

/-- `balances[owner] = safeSub(balances[owner], value)`. -/
def decrease (owner : Address) (value : Uint256) : Contract Storage Q R Unit := do
  let s ← Contract.get
  let balance ← Contract.ofOption (safeSub (s.balances owner) value)
  Contract.modify fun s => s.setBalance owner balance

/-- `approve`, the same in both contracts. -/
def approve (sender spender : Address) (value : Uint256) : Contract Storage Q R Bool := do
  Contract.modify fun s => s.setAllowed sender spender value
  emit (.approval sender spender value)
  return true

namespace StandardTokenWithOverflowProtection

/-- `transfer`, which throws where it does not move. -/
def transfer (sender payee : Address) (value : Uint256) : Contract Storage Q R Bool := do
  decrease sender value
  increase payee value
  emit (.transfer sender payee value)
  return true

/-- `transferFrom`, which throws where it does not move. -/
def transferFrom (sender payer payee : Address) (value : Uint256) : Contract Storage Q R Bool := do
  decrease payer value
  let s ← Contract.get
  let allowance ← Contract.ofOption (safeSub (s.allowed payer sender) value)
  Contract.modify fun s => s.setAllowed payer sender allowance
  increase payee value
  emit (.transfer payer payee value)
  return true

end StandardTokenWithOverflowProtection

namespace StandardToken

/-- `transfer`, which returns `false` where it does not move. -/
def transfer (sender payee : Address) (value : Uint256) : Contract Storage Q R Bool := do
  let s ← Contract.get
  if value ≤ s.balances sender ∧ s.balances payee < s.balances payee + value then
    Contract.modify fun s => s.setBalance sender (s.balances sender - value)
    Contract.modify fun s => s.setBalance payee (s.balances payee + value)
    emit (.transfer sender payee value)
    return true
  else
    return false

/-- `transferFrom`, which returns `false` where it does not move. -/
def transferFrom (sender payer payee : Address) (value : Uint256) : Contract Storage Q R Bool := do
  let s ← Contract.get
  if value ≤ s.balances payer ∧ value ≤ s.allowed payer sender ∧
      s.balances payee < s.balances payee + value then
    Contract.modify fun s => s.setBalance payee (s.balances payee + value)
    Contract.modify fun s => s.setBalance payer (s.balances payer - value)
    Contract.modify fun s => s.setAllowed payer sender (s.allowed payer sender - value)
    emit (.transfer payer payee value)
    return true
  else
    return false

end StandardToken

end ChainX.Token
