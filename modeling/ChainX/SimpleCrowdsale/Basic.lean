import ChainX.Exchange.Basic

/-!
# The crowdsale (`Contracts/Base/SimpleCrowdsale.sol`)

`contract SimpleCrowdsale is Ownable, SafeMath`: the owner stores one signed order of the exchange,
and whoever pays the contract fills that order.

* The constructor is read as assigning `CHX_TOKEN_ADDRESS` and `chxToken` where the file has
  `ChainX_TOKEN_ADDRESS` and `Token`. The two initialisers `feeT: orderValues[6]` and
  `feeT: orderValues[7]` of `init`, which do not compile, are read as absent.
* The contract is deployed with the addresses of an exchange and of that exchange's proxy
  (`Deployment`).
* The external calls are the queries of `Query`; which code answers them is left open here. `assert`
  around a call or a `send` rethrows its failure.
* `Storage.effects` is no part of the contract: it records the deposits, the forwarded tokens and
  the refunds that were made.
-/

namespace ChainX.SimpleCrowdsale

open ChainX.Evm ChainX.Reentry
open ChainX.Exchange (OrderAddresses OrderValues OrderData)

/-! ## Data -/

/-- `struct Order`. -/
structure Order where
  data : OrderData
  sig : Signature
  orderHash : Bytes32

/-- The order of a crowdsale that was not initialised. -/
def Order.empty : Order where
  data := (⟨0, 0, 0, 0, 0⟩, ⟨0, 0, 0, 0, 0, 0⟩)
  sig := ⟨0, 0, 0⟩
  orderHash := 0

/-- What a payment made happen. -/
inductive Effect where
  | deposited (value : Uint256)
  | forwarded (payee : Address) (value : Uint256)
  | refunded (payee : Address) (value : Uint256)
  deriving DecidableEq

/-- The storage of `contract SimpleCrowdsale`. -/
structure Storage where
  owner : Address
  isInitialized : Bool
  isFinished : Bool
  order : Order
  /-- What the payments made happen, newest first. -/
  effects : List Effect

/-- The storage after deployment by `owner`. -/
def Storage.init (owner : Address) : Storage := ⟨owner, false, false, .empty, []⟩

/-- An external call. -/
inductive Query where
  /-- `exchange.getUnavailableValueT(orderHash)`. -/
  | getUnavailableValueT (orderHash : Bytes32)
  /-- `exchange.fillOrKill(…)`, in a block of the given timestamp. -/
  | fillOrKill (timestamp : Uint256) (o : OrderData) (fillValueT : Uint256) (sig : Signature)
  /-- `chxToken.deposit.value(value)()`. -/
  | deposit (value : Uint256)
  /-- `protocolToken.transfer(payee, value)`. -/
  | transfer (payee : Address) (value : Uint256)
  /-- `Token(token).approve(spender, value)`. -/
  | approve (token spender : Address) (value : Uint256)
  /-- `receiver.send(value)`. -/
  | send (receiver : Address) (value : Uint256)

/-- What is fixed when the crowdsale is deployed. -/
structure Deployment where
  exchange : Exchange.Deployment
  this : Address
  PROTOCOL_TOKEN_ADDRESS : Address
  CHX_TOKEN_ADDRESS : Address

/-- `EXCHANGE_ADDRESS`. -/
def Deployment.EXCHANGE_ADDRESS (dep : Deployment) : Address := dep.exchange.this

/-- `PROXY_ADDRESS`. -/
def Deployment.PROXY_ADDRESS (dep : Deployment) : Address := dep.exchange.PROXY

/-- The hashing of the machine, which both contracts see. -/
def Deployment.crypto (dep : Deployment) : Crypto := dep.exchange.crypto

/-- Code of the crowdsale. -/
abbrev M := Contract Storage Query Uint256

/-- What a payment has made happen. -/
def record (e : Effect) : M Unit := Contract.modify fun s => { s with effects := e :: s.effects }

/-! ## Constant functions -/

/-- `getOrderHash`: the hash of the exchange, the addresses and the values of the order. -/
def getOrderHash (dep : Deployment) (o : OrderData) : Bytes32 :=
  dep.crypto.sha3 (packAddress dep.EXCHANGE_ADDRESS ++ packAddress o.1.maker ++
    packAddress o.1.taker ++ packAddress o.1.tokenM ++ packAddress o.1.tokenT ++
    packAddress o.1.feeRecipient ++ packUint o.2.valueM ++ packUint o.2.valueT ++
    packUint o.2.feeM ++ packUint o.2.feeT ++ packUint o.2.expiration ++ packUint o.2.salt)

/-- The two contracts agree on the hash of an order. -/
theorem getOrderHash_eq (dep : Deployment) (o : OrderData) :
    getOrderHash dep o = Exchange.getOrderHash dep.exchange o := rfl

/-- The hash whose signature the crowdsale accepts. -/
def signedHash (crypto : Crypto) (hash : Bytes32) : Bytes32 :=
  crypto.sha3 (packString "\x19CHX Signed Message:\n32" ++ packBytes32 hash)

/-- `isValidSignature`: the key is the one that is recovered. -/
def isValidSignature (crypto : Crypto) (pubKey : Address) (hash : Bytes32) (sig : Signature) :
    Bool :=
  pubKey == crypto.ecrecover (signedHash crypto hash) sig

/-- `min`. -/
def minUint (a b : Uint256) : Uint256 := if a < b then a else b

/-! ## Owner functions -/

variable (dep : Deployment)

/-- `Ownable.transferOwnership`. -/
def transferOwnership (sender newOwner : Address) : M Unit := do
  let s ← Contract.get
  Contract.require (sender = s.owner)
  if newOwner ≠ 0 then
    Contract.modify fun s => { s with owner := newOwner }

/-- `setTokenAllowance`: the owner allows the proxy to spend what the sale has. -/
def setTokenAllowance (sender token : Address) (allowance : Uint256) : M Bool := do
  let s ← Contract.get
  Contract.require (sender = s.owner)
  Contract.require ((← Contract.extCall (.approve token dep.PROXY_ADDRESS allowance)) ≠ 0)
  return true

/-- `init`: the owner stores the order that the sale fills, once. -/
def init (sender : Address) (o : OrderData) (sig : Signature) : M Unit := do
  let s ← Contract.get
  Contract.require (s.isInitialized = false)
  Contract.require (sender = s.owner)
  Contract.modify fun s => { s with order := ⟨o, sig, getOrderHash dep o⟩ }
  Contract.require (o.1.tokenM = dep.PROTOCOL_TOKEN_ADDRESS)
  Contract.require (o.1.tokenT = dep.CHX_TOKEN_ADDRESS)
  Contract.require (isValidSignature dep.crypto o.1.maker (getOrderHash dep o) sig = true)
  Contract.require ((← setTokenAllowance dep sender o.1.tokenT o.2.valueT) = true)
  Contract.modify fun s => { s with isInitialized := true }

/-! ## Payments -/

/-- `chxToken.deposit.value(value)()`. -/
def deposit (value : Uint256) : M Unit := do
  let _ ← Contract.extCall (.deposit value)
  record (.deposited value)

/-- `assert(exchange.fillOrKill(…))`. -/
def fillOrKill (timestamp : Uint256) (order : Order) (fillValueT : Uint256) : M Unit := do
  Contract.require
    ((← Contract.extCall (.fillOrKill timestamp order.data fillValueT order.sig)) ≠ 0)

/-- `assert(protocolToken.transfer(payee, value))`. -/
def forward (payee : Address) (value : Uint256) : M Unit := do
  Contract.require ((← Contract.extCall (.transfer payee value)) ≠ 0)
  record (.forwarded payee value)

/-- `assert(payee.send(value))`. -/
def refund (payee : Address) (value : Uint256) : M Unit := do
  let _ ← Contract.extCall (.send payee value)
  record (.refunded payee value)

/-- The price of `chxToFill`: `safeDiv(safeMul(order.valueM, chxToFill), order.valueT)`. -/
def price (order : Order) (chxToFill : Uint256) : Option Uint256 :=
  (safeMul order.data.2.valueM chxToFill).bind fun product => safeDiv product order.data.2.valueT

/-- The fallback function, called with `value`. -/
def fallback (msg : Msg) (value : Uint256) : M Unit := do
  let s ← Contract.get
  Contract.require (s.isInitialized = true)
  Contract.require (s.isFinished = false)
  -- from here on `order` stays as it is: only `init` writes it, once
  let unavailable ← Contract.extCall (.getUnavailableValueT s.order.orderHash)
  let remainingChx ← Contract.ofOption (safeSub s.order.data.2.valueT unavailable)
  let chxToFill := minUint value remainingChx
  deposit chxToFill
  fillOrKill msg.timestamp s.order chxToFill
  let filledProtocolToken ← Contract.ofOption (price s.order chxToFill)
  forward msg.sender filledProtocolToken
  if chxToFill < value then
    let change ← Contract.ofOption (safeSub value chxToFill)
    refund msg.sender change
    Contract.modify fun s => { s with isFinished := true }

/-! ## Entry points -/

/-- A call of a function that can change the storage. -/
inductive Call where
  | pay (msg : Msg) (value : Uint256)
  | init (sender : Address) (o : OrderData) (sig : Signature)
  | setTokenAllowance (sender token : Address) (allowance : Uint256)
  | transferOwnership (sender newOwner : Address)

/-- The code a call runs. -/
def entry : Call → M Unit
  | .pay msg value => fallback msg value
  | .init sender o sig => init dep sender o sig
  | .setTokenAllowance sender token allowance =>
    (setTokenAllowance dep sender token allowance).void
  | .transferOwnership sender newOwner => transferOwnership sender newOwner

end ChainX.SimpleCrowdsale
