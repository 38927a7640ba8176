import ChainX.Evm.Word
import ChainX.Reentry.Proc

/-!
# The crowdsale of the ICO (`Contracts/ICO/Crowdsale.sol`, `AllocatedCrowdsale.sol`)

`contract AllocatedCrowdsale is Crowdsale`: investments, preallocations, and the pool of tokens they
are served from. The end of `Crowdsale.sol` and the contracts it imports are not part of the
repository.

* `getState()`, `calculatePrice(…)` and `decimals()` are questions to the outside (`Query`), which
  may answer anything; `State.ofWord` reads the number of a state.
* What `Haltable`, the constructor and the functions past the end of the file set is `Settings`.
  One call that may set it to anything stands for all of them (`Call.configure`).
* `stopInEmergency` throws while the sale is halted, and `plus` is exact or throws, as `safeAdd` is.
* `if(!x.send(…)) throw` rethrows the failure of the call.
* `Storage.assigned` and `Storage.preallocated` are no part of the contract: they record what
  `assignTokens` has moved and the wei amounts that `preallocate` has booked.

`private` functions that the derived contract gives a body (`assignTokens`) are read as overriding
the ones they implement.
-/

namespace ChainX.Ico.Crowdsale

open ChainX.Evm ChainX.Reentry

/-! ## Data -/

/-- `uint128`. -/
abbrev Uint128 := Fin (2 ^ 128)

instance neZero_uint128 : NeZero (2 ^ 128) := ⟨by decide⟩

/-- `enum State`. -/
inductive State where
  | unknown
  | preparing
  | preFunding
  | funding
  | success
  | failure
  | finalized
  | refunding
  deriving DecidableEq

/-- The state with the given number. -/
def State.ofWord (w : Uint256) : State :=
  match w.val with
  | 1 => .preparing
  | 2 => .preFunding
  | 3 => .funding
  | 4 => .success
  | 5 => .failure
  | 6 => .finalized
  | 7 => .refunding
  | _ => .unknown

/-- What the owner, and the functions that are not in the repository, may set. -/
structure Settings where
  owner : Address
  halted : Bool
  multisigWallet : Address
  requireCustomerId : Bool
  requiredSignedAddress : Bool
  signerAddress : Address
  earlyParticipantWhitelist : Address → Bool

/-- The events. -/
inductive Event where
  | invested (investor : Address) (weiAmount tokenAmount : Uint256) (customerId : Uint128)

/-- The storage of `contract Crowdsale`. -/
structure Storage where
  settings : Settings
  tokensSold : Uint256
  weiRaised : Uint256
  investorCount : Uint256
  investedAmountOf : Address → Uint256
  tokenAmountOf : Address → Uint256
  /-- The events, newest first. -/
  log : List Event
  /-- The receivers and amounts of `assignTokens`, newest first. -/
  assigned : List (Address × Uint256)
  /-- The wei amounts of `preallocate`, newest first. -/
  preallocated : List Uint256

/-- The storage after deployment. -/
def Storage.init (settings : Settings) : Storage :=
  ⟨settings, 0, 0, 0, fun _ => 0, fun _ => 0, [], [], []⟩

/-- A question to another contract, or to a part of this one that is not in the repository. -/
inductive Query where
  | getState
  /-- `token.decimals()`. -/
  | decimals
  /-- `pricingStrategy.calculatePrice(weiAmount, weiRaised, tokensSold, msgSender, decimals)`. -/
  | calculatePrice (weiAmount weiRaised tokensSold : Uint256) (msgSender : Address)
      (decimals : Uint256)
  /-- `token.allowance(owner, spender)`. -/
  | allowance (owner spender : Address)
  /-- `token.transferFrom(payer, payee, value)`. -/
  | transferFrom (payer payee : Address) (value : Uint256)
  /-- `wallet.send(value)`. -/
  | send (wallet : Address) (value : Uint256)

/-- The wei that the question carries. -/
def Query.pays : Query → Nat
  | .send _ value => value.val
  | _ => 0

/-- What is fixed when the crowdsale is deployed. -/
structure Deployment where
  this : Address
  beneficiary : Address
  crypto : Crypto
  sha256 : List UInt8 → Bytes32

/-- Code of the crowdsale. -/
abbrev M := Contract Storage Query Uint256

/-- An event is emitted. -/
abbrev emit (e : Event) : M Unit := Contract.modify fun s => { s with log := e :: s.log }

/-- `b ** e`. -/
def pow (b e : Uint256) : Uint256 := Fin.ofNat (2 ^ 256) (b.val ^ e.val)

/-! ## The pool (`AllocatedCrowdsale`) -/

variable (dep : Deployment)

/-- `getTokensLeft`: what the owner allows the sale to spend. -/
def getTokensLeft : M Uint256 := do
  let s ← Contract.get
  Contract.extCall (.allowance s.settings.owner dep.this)

/-- `isBreakingCap`: are fewer tokens left than are to be sold? -/
def isBreakingCap (_weiAmount tokenAmount _weiRaisedTotal _tokensSoldTotal : Uint256) : M Bool := do
  let left ← getTokensLeft dep
  return decide (left < tokenAmount)

/-- `isCrowdsaleFull`: are no tokens left? -/
def isCrowdsaleFull : M Bool := do
  let left ← getTokensLeft dep
  return decide (left = 0)

/-- `assignTokens`: moves the tokens out of the account of the beneficiary, or throws. -/
def assignTokens (receiver : Address) (tokenAmount : Uint256) : M Unit := do
  Contract.require
    ((← Contract.extCall (.transferFrom dep.beneficiary receiver tokenAmount)) ≠ 0)
  Contract.modify fun s => { s with assigned := (receiver, tokenAmount) :: s.assigned }

/-! ## Investing (`Crowdsale`) -/

/-- `getState`, asked of the part that is not in the repository. -/
def getState : M State := do
  return State.ofWord (← Contract.extCall .getState)

/-- The first block of `investInternal`: is it a good time to accept the investment? -/
def checkState (receiver : Address) : M Unit := do
  let state ← getState
  if state = .preFunding then
    let s ← Contract.get
    Contract.require (s.settings.earlyParticipantWhitelist receiver = true)
  else
    let state ← getState
    Contract.require (state = .funding)

/-- `if(investedAmountOf[receiver] == 0) investorCount++`. -/
def countInvestor (receiver : Address) : M Unit := do
  let s ← Contract.get
  if s.investedAmountOf receiver = 0 then
    Contract.modify fun s => { s with investorCount := s.investorCount + 1 }

/-- "Update investor". -/
def updateInvestor (receiver : Address) (weiAmount tokenAmount : Uint256) : M Unit := do
  let s ← Contract.get
  let invested ← Contract.ofOption (safeAdd (s.investedAmountOf receiver) weiAmount)
  Contract.modify fun s =>
    { s with investedAmountOf := Function.update s.investedAmountOf receiver invested }
  let s ← Contract.get
  let tokens ← Contract.ofOption (safeAdd (s.tokenAmountOf receiver) tokenAmount)
  Contract.modify fun s =>
    { s with tokenAmountOf := Function.update s.tokenAmountOf receiver tokens }

/-- "Update totals". -/
def updateTotals (weiAmount tokenAmount : Uint256) : M Unit := do
  let s ← Contract.get
  let weiRaised ← Contract.ofOption (safeAdd s.weiRaised weiAmount)
  Contract.modify fun s => { s with weiRaised := weiRaised }
  let s ← Contract.get
  let tokensSold ← Contract.ofOption (safeAdd s.tokensSold tokenAmount)
  Contract.modify fun s => { s with tokensSold := tokensSold }

/-- "Pocket the money": `if(!multisigWallet.send(weiAmount)) throw`. -/
def pocket (weiAmount : Uint256) : M Unit := do
  let s ← Contract.get
  (Contract.extCall (.send s.settings.multisigWallet weiAmount)).void

/-- `investInternal`: the one way to invest, with the money last. -/
def investInternal (sender : Address) (weiAmount : Uint256) (receiver : Address)
    (customerId : Uint128) : M Unit := do
  let s ← Contract.get
  Contract.require (s.settings.halted = false)
  checkState receiver
  let s ← Contract.get
  let decimals ← Contract.extCall .decimals
  let tokenAmount ← Contract.extCall
    (.calculatePrice weiAmount s.weiRaised s.tokensSold sender decimals)
  Contract.require (tokenAmount ≠ 0)
  countInvestor receiver
  updateInvestor receiver weiAmount tokenAmount
  updateTotals weiAmount tokenAmount
  let s ← Contract.get
  let breaking ← isBreakingCap dep weiAmount tokenAmount s.weiRaised s.tokensSold
  Contract.require (breaking = false)
  assignTokens dep receiver tokenAmount
  pocket weiAmount
  emit (.invested receiver weiAmount tokenAmount customerId)

/-- `preallocate`: the owner books a sale that was made elsewhere. -/
def preallocate (sender receiver : Address) (fullTokens weiPrice : Uint256) : M Unit := do
  let s ← Contract.get
  Contract.require (sender = s.settings.owner)
  let decimals ← Contract.extCall .decimals
  let tokenAmount := fullTokens * pow 10 decimals
  let weiAmount := weiPrice * fullTokens
  updateTotals weiAmount tokenAmount
  updateInvestor receiver weiAmount tokenAmount
  Contract.modify fun s => { s with preallocated := weiAmount :: s.preallocated }
  assignTokens dep receiver tokenAmount
  emit (.invested receiver weiAmount tokenAmount 0)

/-- `investWithSignedAddress`: the server of the sale has signed the address. -/
def investWithSignedAddress (sender : Address) (value : Uint256) (addr : Address)
    (customerId : Uint128) (sig : Signature) : M Unit := do
  let s ← Contract.get
  let hash := dep.sha256 (packAddress addr)
  Contract.require (dep.crypto.ecrecover hash sig = s.settings.signerAddress)
  Contract.require (customerId ≠ 0)
  investInternal dep sender value addr customerId

/-- `investWithCustomerId`, where no signature is asked for. -/
def investWithCustomerId (sender : Address) (value : Uint256) (addr : Address)
    (customerId : Uint128) : M Unit := do
  let s ← Contract.get
  Contract.require (s.settings.requiredSignedAddress = false)
  Contract.require (customerId ≠ 0)
  investInternal dep sender value addr customerId

/-- `invest`, where neither a customer nor a signature is asked for. -/
def invest (sender : Address) (value : Uint256) (addr : Address) : M Unit := do
  let s ← Contract.get
  Contract.require (s.settings.requireCustomerId = false)
  Contract.require (s.settings.requiredSignedAddress = false)
  investInternal dep sender value addr 0

/-- `buyWithSignedAddress`: the sender invests for itself. -/
def buyWithSignedAddress (sender : Address) (value : Uint256) (customerId : Uint128)
    (sig : Signature) : M Unit :=
  investWithSignedAddress dep sender value sender customerId sig

/-- `buyWithCustomerId`: the sender invests for itself. -/
def buyWithCustomerId (sender : Address) (value : Uint256) (customerId : Uint128) : M Unit :=
  investWithCustomerId dep sender value sender customerId

/-! ## Entry points -/

/-- A call that can change the storage, by `sender` and with `value` where it is payable. -/
inductive Call where
  | invest (sender : Address) (value : Uint256) (addr : Address)
  | investWithCustomerId (sender : Address) (value : Uint256) (addr : Address)
      (customerId : Uint128)
  | investWithSignedAddress (sender : Address) (value : Uint256) (addr : Address)
      (customerId : Uint128) (sig : Signature)
  | buyWithCustomerId (sender : Address) (value : Uint256) (customerId : Uint128)
  | buyWithSignedAddress (sender : Address) (value : Uint256) (customerId : Uint128)
      (sig : Signature)
  | preallocate (sender receiver : Address) (fullTokens weiPrice : Uint256)
  /-- A function that is not in the repository. -/
  | configure (settings : Settings)

/-- The code a call runs. -/
def entry : Call → M Unit
  | .invest sender value addr => invest dep sender value addr
  | .investWithCustomerId sender value addr customerId =>
    investWithCustomerId dep sender value addr customerId
  | .investWithSignedAddress sender value addr customerId sig =>
    investWithSignedAddress dep sender value addr customerId sig
  | .buyWithCustomerId sender value customerId => buyWithCustomerId dep sender value customerId
  | .buyWithSignedAddress sender value customerId sig =>
    buyWithSignedAddress dep sender value customerId sig
  | .preallocate sender receiver fullTokens weiPrice =>
    preallocate dep sender receiver fullTokens weiPrice
  | .configure settings => Contract.modify fun s => { s with settings := settings }

end ChainX.Ico.Crowdsale
