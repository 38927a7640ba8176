import ChainX.Evm.Word
import ChainX.Reentry.Machine

/-!
# The exchange (`Contracts/chainx.sol`)

`contract Exchange is SafeMath`, function by function, as code over the two mappings `filled` and
`cancelled`. The head of the file is garbled in the repository: the line that opens the contract
is missing and is read as above.

* The arrays `address[5]` and `uint[6]` of an order are the records `OrderAddresses` and
  `OrderValues`, in the order of the array positions. The dynamic arrays of the batch functions are
  lists; an index past the end throws (`nth`).
* `ZRX`, `PROXY` and the address of the exchange are fixed at deployment (`Deployment`).
* The external calls are the queries of `Query`; the answer is the returned word, a `bool` being
  `true` when it is not `0`. What the proxy and the tokens do is left to the outside.
* `Storage.moves` and the fields `orderHash` and `leg` that only it and `Query` carry are no
  part of the contract: they record which transfer was made for which order.

The constant functions are the pure definitions `getOrderHash`, `isValidSignature`,
`isRoundingError`, `getPartialValue`, and `getUnavailableValueT`, which reads the storage.
-/

namespace ChainX.Exchange

open ChainX.Evm ChainX.Reentry

/-! ## Data -/

/-- The order is expired when it is to be filled. -/
def ERROR_FILL_EXPIRED : UInt8 := 0
/-- Nothing of the order is left to fill. -/
def ERROR_FILL_NO_VALUE : UInt8 := 1
/-- The rounding error is too large. -/
def ERROR_FILL_TRUNCATION : UInt8 := 2
/-- A balance or an allowance does not suffice. -/
def ERROR_FILL_BALANCE_ALLOWANCE : UInt8 := 3
/-- The order is expired when it is to be cancelled. -/
def ERROR_CANCEL_EXPIRED : UInt8 := 4
/-- Nothing of the order is left to cancel. -/
def ERROR_CANCEL_NO_VALUE : UInt8 := 5

/-- `orderAddresses`. -/
structure OrderAddresses where
  maker : Address
  taker : Address
  tokenM : Address
  tokenT : Address
  feeRecipient : Address
  deriving DecidableEq

/-- `orderValues`. -/
structure OrderValues where
  valueM : Uint256
  valueT : Uint256
  feeM : Uint256
  feeT : Uint256
  expiration : Uint256
  salt : Uint256
  deriving DecidableEq

/-- The two arrays that make an order. -/
abbrev OrderData := OrderAddresses × OrderValues

/-- `struct Order`. -/
structure Order where
  maker : Address
  taker : Address
  tokenM : Address
  tokenT : Address
  feeRecipient : Address
  valueM : Uint256
  valueT : Uint256
  feeM : Uint256
  feeT : Uint256
  expiration : Uint256
  orderHash : Bytes32

/-- The events. `LogError` carries one of the numbers above. -/
inductive Event where
  | logFill (maker taker feeRecipient tokenM tokenT : Address)
      (filledValueM filledValueT feeMPaid feeTPaid : Uint256) (tokens orderHash : Bytes32)
  | logCancel (maker feeRecipient tokenM tokenT : Address)
      (cancelledValueM cancelledValueT : Uint256) (tokens orderHash : Bytes32)
  | logError (errorId : UInt8) (orderHash : Bytes32)

/-- The four transfers a fill can make. -/
inductive Leg where
  | tokenM
  | tokenT
  | feeM
  | feeT
  deriving DecidableEq

/-- A transfer made for an order. -/
structure Move where
  orderHash : Bytes32
  leg : Leg
  token : Address
  payer : Address
  payee : Address
  value : Uint256

/-- The storage of `contract Exchange`. -/
structure Storage where
  filled : Bytes32 → Uint256
  cancelled : Bytes32 → Uint256
  /-- The events, newest first. -/
  log : List Event
  /-- The transfers made, newest first. -/
  moves : List Move

/-- The storage after deployment. -/
def Storage.init : Storage := ⟨fun _ => 0, fun _ => 0, [], []⟩

/-- An external call, made for the order `orderHash`. -/
inductive Query where
  /-- `Proxy(PROXY).transferFrom(token, from, to, value)`. -/
  | transferFrom (orderHash : Bytes32) (token payer payee : Address) (value : Uint256)
  /-- `Token(token).balanceOf(owner)`. -/
  | balanceOf (orderHash : Bytes32) (token owner : Address)
  /-- `Token(token).allowance(owner, spender)`. -/
  | allowance (orderHash : Bytes32) (token owner spender : Address)

/-- What is fixed when the exchange is deployed. -/
structure Deployment where
  this : Address
  ZRX : Address
  PROXY : Address
  crypto : Crypto

/-- Code of the exchange. -/
abbrev M := Contract Storage Query Uint256

/-- An event is emitted. -/
abbrev emit (e : Event) : M Unit := Contract.modify fun s => { s with log := e :: s.log }

/-- `xs[i]`. -/
def nth {α : Type} (xs : List α) (i : Nat) : M α := Contract.ofOption xs[i]?

/-! ## Constant functions -/

/-- `getOrderHash`: the hash of the exchange, the addresses and the values of an order. -/
def getOrderHash (dep : Deployment) (o : OrderData) : Bytes32 :=
  dep.crypto.sha3 (packAddress dep.this ++ packAddress o.1.maker ++ packAddress o.1.taker ++
    packAddress o.1.tokenM ++ packAddress o.1.tokenT ++ packAddress o.1.feeRecipient ++
    packUint o.2.valueM ++ packUint o.2.valueT ++ packUint o.2.feeM ++ packUint o.2.feeT ++
    packUint o.2.expiration ++ packUint o.2.salt)

/-- What a maker signs: the prefixed hash of the order. -/
def signedHash (crypto : Crypto) (hash : Bytes32) : Bytes32 :=
  crypto.sha3 (packString "\x19chainxSigned Message:\n32" ++ packBytes32 hash)

/-- `isValidSignature`: the signer is the one that is recovered. -/
def isValidSignature (crypto : Crypto) (signer : Address) (hash : Bytes32) (sig : Signature) :
    Bool :=
  signer == crypto.ecrecover (signedHash crypto hash) sig

/-- `min`. -/
def minUint (a b : Uint256) : Uint256 := if a < b then a else b

/-- `isRoundingError`: a small target with a remainder. -/
def isRoundingError (denominator numerator target : Uint256) : Bool :=
  decide (target.val < 10 ^ 3) && mulmod target numerator denominator != 0

/-- `getPartialValue`: `fillValue * target / value`, rounded down. -/
def getPartialValue (value fillValue target : Uint256) : Option Uint256 :=
  (safeMul fillValue target).bind fun product => safeDiv product value

/-- `getUnavailableValueT`: what is filled and what is cancelled. -/
def getUnavailableValueT (orderHash : Bytes32) : M Uint256 := do
  let s ← Contract.get
  Contract.ofOption (safeAdd (s.filled orderHash) (s.cancelled orderHash))

/-! ## Internal functions -/

/-- `transferViaProxy`: a transfer by the proxy, which may report a failure. -/
def transferViaProxy (orderHash : Bytes32) (leg : Leg) (token payer payee : Address)
    (value : Uint256) : M Bool := do
  let success ← Contract.extCall (.transferFrom orderHash token payer payee value)
  if success ≠ 0 then
    Contract.modify fun s =>
      { s with moves := ⟨orderHash, leg, token, payer, payee, value⟩ :: s.moves }
    return true
  else
    return false

/-- `getBalance`: the balance, as the token tells it. -/
def getBalance (orderHash : Bytes32) (token owner : Address) : M Uint256 :=
  Contract.extCall (.balanceOf orderHash token owner)

/-- `getAllowance`: what the owner allows the proxy, as the token tells it. -/
def getAllowance (dep : Deployment) (orderHash : Bytes32) (token owner : Address) : M Uint256 :=
  Contract.extCall (.allowance orderHash token owner dep.PROXY)

/-- `read₁ < bound₁ || read₂ < bound₂ || …`, read one after the other until one holds. -/
def anyBelow : List (M Uint256 × Uint256) → M Bool
  | [] => pure false
  | (read, bound) :: rest => do
    let value ← read
    if value < bound then pure true else anyBelow rest

/-- `isTransferable`: asks the tokens whether the transfers of the fill will go through. -/
def isTransferable (dep : Deployment) (msg : Msg) (order : Order) (fillValueT : Uint256) :
    M Bool := do
  let taker := msg.sender
  let fillValueM ← Contract.ofOption (getPartialValue order.valueT fillValueT order.valueM)
  let lacking ← anyBelow [
    (getBalance order.orderHash order.tokenM order.maker, fillValueM),
    (getAllowance dep order.orderHash order.tokenM order.maker, fillValueM),
    (getBalance order.orderHash order.tokenT taker, fillValueT),
    (getAllowance dep order.orderHash order.tokenT taker, fillValueT)]
  if lacking then
    return false
  else if order.feeRecipient ≠ 0 then
    let feeValueM ← Contract.ofOption (getPartialValue order.valueT fillValueT order.feeM)
    let feeValueT ← Contract.ofOption (getPartialValue order.valueT fillValueT order.feeT)
    let lacking ← anyBelow [
      (getBalance order.orderHash dep.ZRX order.maker, feeValueM),
      (getAllowance dep order.orderHash dep.ZRX order.maker, feeValueM),
      (getBalance order.orderHash dep.ZRX taker, feeValueT),
      (getAllowance dep order.orderHash dep.ZRX taker, feeValueT)]
    return !lacking
  else
    return true

/-! ## Core functions -/

/-- The `Order` that `fill` and `cancel` build first. -/
def Deployment.order (dep : Deployment) (o : OrderData) : Order where
  maker := o.1.maker
  taker := o.1.taker
  tokenM := o.1.tokenM
  tokenT := o.1.tokenT
  feeRecipient := o.1.feeRecipient
  valueM := o.2.valueM
  valueT := o.2.valueT
  feeM := o.2.feeM
  feeT := o.2.feeT
  expiration := o.2.expiration
  orderHash := getOrderHash dep o

/-- `safeSub(order.valueT, getUnavailableValueT(order.orderHash))`. -/
def remainingValueT (order : Order) : M Uint256 := do
  let unavailable ← getUnavailableValueT order.orderHash
  Contract.ofOption (safeSub order.valueT unavailable)

/-- The two fee blocks of `fill`: nothing is paid without a recipient or without a fee. -/
def payFee (dep : Deployment) (order : Order) (leg : Leg) (payer : Address) (fee : Uint256)
    (filledValueT : Uint256) : M Uint256 := do
  if order.feeRecipient ≠ 0 ∧ 0 < fee then
    let paid ← Contract.ofOption (getPartialValue order.valueT filledValueT fee)
    Contract.require ((← transferViaProxy order.orderHash leg dep.ZRX payer order.feeRecipient
      paid) = true)
    return paid
  else
    return 0

/-- `fill` from the computation of `filledValueM` on: the update, the transfers, the event. -/
def settle (dep : Deployment) (msg : Msg) (order : Order) (filledValueT : Uint256) :
    M Uint256 := do
  let filledValueM ← Contract.ofOption (getPartialValue order.valueT filledValueT order.valueM)
  let s ← Contract.get
  let filled ← Contract.ofOption (safeAdd (s.filled order.orderHash) filledValueT)
  Contract.modify fun s => { s with filled := Function.update s.filled order.orderHash filled }
  Contract.require ((← transferViaProxy order.orderHash .tokenM order.tokenM order.maker
    msg.sender filledValueM) = true)
  Contract.require ((← transferViaProxy order.orderHash .tokenT order.tokenT msg.sender
    order.maker filledValueT) = true)
  let feeMPaid ← payFee dep order .feeM order.maker order.feeM filledValueT
  let feeTPaid ← payFee dep order .feeT msg.sender order.feeT filledValueT
  emit (.logFill order.maker msg.sender order.feeRecipient order.tokenM order.tokenT filledValueM
    filledValueT feeMPaid feeTPaid
    (dep.crypto.sha3 (packAddress order.tokenM ++ packAddress order.tokenT)) order.orderHash)
  return filledValueT

/-- `fill`: fills the order up to `fillValueT` and returns what was filled, or refuses with an
event. -/
def fill (dep : Deployment) (msg : Msg) (o : OrderData) (fillValueT : Uint256)
    (shouldCheckTransfer : Bool) (sig : Signature) : M Uint256 := do
  let order := dep.order o
  Contract.require (order.taker = 0 ∨ order.taker = msg.sender)
  if order.expiration ≤ msg.timestamp then
    emit (.logError ERROR_FILL_EXPIRED order.orderHash)
    return 0
  else
  let remaining ← remainingValueT order
  let filledValueT := minUint fillValueT remaining
  if filledValueT = 0 then
    emit (.logError ERROR_FILL_NO_VALUE order.orderHash)
    return 0
  else if isRoundingError order.valueT filledValueT order.valueM then
    emit (.logError ERROR_FILL_TRUNCATION order.orderHash)
    return 0
  else
  let transferable ←
    if shouldCheckTransfer then isTransferable dep msg order filledValueT else pure true
  if transferable = false then
    emit (.logError ERROR_FILL_BALANCE_ALLOWANCE order.orderHash)
    return 0
  else
  Contract.require (isValidSignature dep.crypto order.maker order.orderHash sig = true)
  settle dep msg order filledValueT

/-- `cancel`: the maker gives up the order, up to `cancelValueT`. -/
def cancel (dep : Deployment) (msg : Msg) (o : OrderData) (cancelValueT : Uint256) :
    M Uint256 := do
  let order := dep.order o
  Contract.require (order.maker = msg.sender)
  if order.expiration ≤ msg.timestamp then
    emit (.logError ERROR_CANCEL_EXPIRED order.orderHash)
    return 0
  else
  let remaining ← remainingValueT order
  let cancelledValueT := minUint cancelValueT remaining
  if cancelledValueT = 0 then
    emit (.logError ERROR_CANCEL_NO_VALUE order.orderHash)
    return 0
  else
  let s ← Contract.get
  let cancelled ← Contract.ofOption (safeAdd (s.cancelled order.orderHash) cancelledValueT)
  Contract.modify fun s =>
    { s with cancelled := Function.update s.cancelled order.orderHash cancelled }
  let cancelledValueM ←
    Contract.ofOption (getPartialValue order.valueT cancelledValueT order.valueM)
  emit (.logCancel order.maker order.feeRecipient order.tokenM order.tokenT cancelledValueM
    cancelledValueT (dep.crypto.sha3 (packAddress order.tokenM ++ packAddress order.tokenT))
    order.orderHash)
  return cancelledValueT

/-! ## Wrapper functions -/

/-- `fillOrKill`: fills all of `fillValueT` or throws. -/
def fillOrKill (dep : Deployment) (msg : Msg) (o : OrderData) (fillValueT : Uint256)
    (sig : Signature) : M Bool := do
  let filledValueT ← fill dep msg o fillValueT false sig
  Contract.require (filledValueT = fillValueT)
  return true

/-- The arrays of a batch: orders and signatures, as they are passed. -/
structure Batch where
  orderAddresses : List OrderAddresses
  orderValues : List OrderValues
  v : List UInt8
  r : List Bytes32
  s : List Bytes32

/-- `orderAddresses[i], orderValues[i]`. -/
def Batch.orderAt (b : Batch) (i : Nat) : M OrderData := do
  return (← nth b.orderAddresses i, ← nth b.orderValues i)

/-- `v[i], r[i], s[i]`. -/
def Batch.sigAt (b : Batch) (i : Nat) : M Signature := do
  return ⟨← nth b.v i, ← nth b.r i, ← nth b.s i⟩

/-- `batchFill`: fills the orders one after the other. -/
def batchFill (dep : Deployment) (msg : Msg) (b : Batch) (fillValuesT : List Uint256)
    (shouldCheckTransfer : Bool) : M Bool := do
  Contract.forLoop b.orderAddresses.length fun i => do
    let o ← b.orderAt i
    let fillValueT ← nth fillValuesT i
    let sig ← b.sigAt i
    (fill dep msg o fillValueT shouldCheckTransfer sig).void
  return true

/-- `batchFillOrKill`: fills all of every order or throws. -/
def batchFillOrKill (dep : Deployment) (msg : Msg) (b : Batch) (fillValuesT : List Uint256) :
    M Bool := do
  Contract.forLoop b.orderAddresses.length fun i => do
    let o ← b.orderAt i
    let fillValueT ← nth fillValuesT i
    let sig ← b.sigAt i
    Contract.require ((← fillOrKill dep msg o fillValueT sig) = true)
  return true

/-- The loop of `fillUpTo`: `k` rounds from index `i`, with `filledValueT` filled so far. -/
def fillUpToLoop (dep : Deployment) (msg : Msg) (b : Batch) (fillValueT : Uint256)
    (shouldCheckTransfer : Bool) : Nat → Nat → Uint256 → M Uint256
  | 0, _, filledValueT => return filledValueT
  | k + 1, i, filledValueT => do
    let o ← b.orderAt i
    let first ← nth b.orderAddresses 0
    Contract.require (o.1.tokenT = first.tokenT)
    let wanted ← Contract.ofOption (safeSub fillValueT filledValueT)
    let sig ← b.sigAt i
    let f ← fill dep msg o wanted shouldCheckTransfer sig
    let filledValueT ← Contract.ofOption (safeAdd filledValueT f)
    if filledValueT = fillValueT then
      return filledValueT
    else
      fillUpToLoop dep msg b fillValueT shouldCheckTransfer k (i + 1) filledValueT

/-- `fillUpTo`: fills the orders one after the other until `fillValueT` is reached. -/
def fillUpTo (dep : Deployment) (msg : Msg) (b : Batch) (fillValueT : Uint256)
    (shouldCheckTransfer : Bool) : M Uint256 :=
  fillUpToLoop dep msg b fillValueT shouldCheckTransfer b.orderAddresses.length 0 0

/-- `batchCancel`: cancels the orders one after the other. -/
def batchCancel (dep : Deployment) (msg : Msg) (orderAddresses : List OrderAddresses)
    (orderValues : List OrderValues) (cancelValuesT : List Uint256) : M Bool := do
  Contract.forLoop orderAddresses.length fun i => do
    let addresses ← nth orderAddresses i
    let values ← nth orderValues i
    let cancelValueT ← nth cancelValuesT i
    (cancel dep msg (addresses, values) cancelValueT).void
  return true

/-! ## Entry points -/

/-- A call of a public function that can change the storage. -/
inductive Call where
  | fill (msg : Msg) (o : OrderData) (fillValueT : Uint256) (shouldCheckTransfer : Bool)
      (sig : Signature)
  | fillOrKill (msg : Msg) (o : OrderData) (fillValueT : Uint256) (sig : Signature)
  | batchFill (msg : Msg) (b : Batch) (fillValuesT : List Uint256) (shouldCheckTransfer : Bool)
  | batchFillOrKill (msg : Msg) (b : Batch) (fillValuesT : List Uint256)
  | fillUpTo (msg : Msg) (b : Batch) (fillValueT : Uint256) (shouldCheckTransfer : Bool)
  | cancel (msg : Msg) (o : OrderData) (cancelValueT : Uint256)
  | batchCancel (msg : Msg) (orderAddresses : List OrderAddresses)
      (orderValues : List OrderValues) (cancelValuesT : List Uint256)

/-- The code a call runs. -/
def entry (dep : Deployment) : Call → M Unit
  | .fill msg o n check sig => (fill dep msg o n check sig).void
  | .fillOrKill msg o n sig => (fillOrKill dep msg o n sig).void
  | .batchFill msg b ns check => (batchFill dep msg b ns check).void
  | .batchFillOrKill msg b ns => (batchFillOrKill dep msg b ns).void
  | .fillUpTo msg b n check => (fillUpTo dep msg b n check).void
  | .cancel msg o n => (cancel dep msg o n).void
  | .batchCancel msg as vs ns => (batchCancel dep msg as vs ns).void

end ChainX.Exchange
