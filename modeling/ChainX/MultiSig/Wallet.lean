import ChainX.Evm.Word
import ChainX.Lib.SwapRemove
import ChainX.Reentry.Machine

/-!
# The multi-signature wallet (`Contracts/Base/MultiSigWallet.sol`)

`contract MultiSigWallet`, function by function. Transactions are sent by `executeTransaction` as
low-level calls: the called code is the outside of the machine, and may be the wallet itself.

* A modifier is a `require` in its place; `this` is the wallet's own address.
* Transaction ids, counts and the requirement are naturals. `transactionCount` is at most the number
  of submissions (`transactionCount_le`), so that it does not wrap before there have been `2 ^ 256`;
  the others are only compared.
* The loop of `replaceOwner` that overwrites the first match and breaks is `List.replace`, the one
  of `removeOwner` with the cut after it is `swapRemove`.
* `Storage.succeeded` is no part of the contract: it records each call that succeeded, with the
  transaction as it was then. It is undone with the rest when a call it happened in fails.

The functions that only read for a web client (`getConfirmations`, `getTransactionIds`, …) are not
called by any of these.
-/

namespace ChainX.MultiSig

open ChainX.Evm ChainX.Lib ChainX.Reentry

/-! ## Data -/

/-- `MAX_OWNER_COUNT`. -/
def MAX_OWNER_COUNT : Nat := 50

/-- `struct Transaction`. -/
structure Transaction where
  destination : Address
  value : Uint256
  data : List UInt8
  executed : Bool
  deriving DecidableEq

/-- A slot of `transactions` that was never written. -/
def Transaction.empty : Transaction := ⟨0, 0, [], false⟩

/-- The events. -/
inductive Event where
  | confirmation (sender : Address) (transactionId : Nat)
  | revocation (sender : Address) (transactionId : Nat)
  | submission (transactionId : Nat)
  | execution (transactionId : Nat)
  | executionFailure (transactionId : Nat)
  | deposit (sender : Address) (value : Uint256)
  | ownerAddition (owner : Address)
  | ownerRemoval (owner : Address)
  | requirementChange (required : Nat)

/-- A call that succeeded: its transaction and who had confirmed it when the call returned. -/
structure Success where
  transactionId : Nat
  transaction : Transaction
  confirmations : Address → Bool

/-- The storage of `contract MultiSigWallet`. -/
structure Storage where
  transactions : Nat → Transaction
  confirmations : Nat → Address → Bool
  isOwner : Address → Bool
  owners : List Address
  required : Nat
  transactionCount : Nat
  /-- The events, newest first. -/
  log : List Event
  /-- The calls that succeeded, newest first. -/
  succeeded : List Success

/-- `destination.call.value(value)(data)`, made for the transaction `transactionId`. -/
structure Query where
  transactionId : Nat
  destination : Address
  value : Uint256
  data : List UInt8

/-- Code of the wallet. All it learns of a call is whether it succeeded. -/
abbrev M := Contract Storage Query Unit

/-- An event is emitted. -/
abbrev emit (e : Event) : M Unit := Contract.modify fun s => { s with log := e :: s.log }

/-- The condition of the modifier `validRequirement`. -/
structure ValidRequirement (ownerCount required : Nat) : Prop where
  max : ownerCount ≤ MAX_OWNER_COUNT
  le : required ≤ ownerCount
  required_ne_zero : required ≠ 0
  ownerCount_ne_zero : ownerCount ≠ 0

instance (ownerCount required : Nat) : Decidable (ValidRequirement ownerCount required) :=
  decidable_of_iff (ownerCount ≤ MAX_OWNER_COUNT ∧ required ≤ ownerCount ∧ required ≠ 0 ∧
    ownerCount ≠ 0) ⟨fun ⟨a, b, c, d⟩ => ⟨a, b, c, d⟩, fun ⟨a, b, c, d⟩ => ⟨a, b, c, d⟩⟩

/-! ## Constructor -/

/-- The loop of the constructor, over the owners that are left. -/
def registerOwners : List Address → (Address → Bool) → Option (Address → Bool)
  | [], isOwner => some isOwner
  | owner :: rest, isOwner =>
    if isOwner owner = true ∨ owner = 0 then none
    else registerOwners rest (Function.update isOwner owner true)

/-- `MultiSigWallet(_owners, _required)`. -/
def construct (owners : List Address) (required : Nat) : Option Storage :=
  if ValidRequirement owners.length required then
    (registerOwners owners fun _ => false).map fun isOwner =>
      { transactions := fun _ => .empty
        confirmations := fun _ _ => false
        isOwner := isOwner
        owners := owners
        required := required
        transactionCount := 0
        log := []
        succeeded := [] }
  else
    none

/-! ## Owners -/

variable (this : Address)

/-- `addOwner`, by the wallet itself. -/
def addOwner (sender owner : Address) : M Unit := do
  Contract.require (sender = this)
  let s ← Contract.get
  Contract.require (s.isOwner owner = false)
  Contract.require (owner ≠ 0)
  Contract.require (ValidRequirement (s.owners.length + 1) s.required)
  Contract.modify fun s =>
    { s with isOwner := Function.update s.isOwner owner true, owners := s.owners ++ [owner] }
  emit (.ownerAddition owner)

/-- `changeRequirement`, by the wallet itself. -/
def changeRequirement (sender : Address) (required : Nat) : M Unit := do
  Contract.require (sender = this)
  let s ← Contract.get
  Contract.require (ValidRequirement s.owners.length required)
  Contract.modify fun s => { s with required := required }
  emit (.requirementChange required)

/-- `removeOwner`: the requirement comes down to the owners that are left. -/
def removeOwner (sender owner : Address) : M Unit := do
  Contract.require (sender = this)
  let s ← Contract.get
  Contract.require (s.isOwner owner = true)
  -- without owners `owners.length - 1` wraps around and `owners[0]` throws
  Contract.require (s.owners ≠ [])
  Contract.modify fun s =>
    { s with
      isOwner := Function.update s.isOwner owner false
      owners := swapRemove s.owners owner }
  let s ← Contract.get
  if s.owners.length < s.required then
    changeRequirement this sender s.owners.length
  emit (.ownerRemoval owner)

/-- `replaceOwner`: the new owner takes the place of the old one in the list. -/
def replaceOwner (sender owner newOwner : Address) : M Unit := do
  Contract.require (sender = this)
  let s ← Contract.get
  Contract.require (s.isOwner owner = true)
  Contract.require (s.isOwner newOwner = false)
  Contract.modify fun s =>
    { s with
      isOwner := Function.update (Function.update s.isOwner owner false) newOwner true
      owners := s.owners.replace owner newOwner }
  emit (.ownerRemoval owner)
  emit (.ownerAddition newOwner)

/-! ## Transactions -/

/-- The loop of `isConfirmed`, over the owners that are left, `count` of those before having
confirmed. -/
def countsTo (confirmed : Address → Bool) (required : Nat) : List Address → Nat → Bool
  | [], _ => false
  | owner :: rest, count =>
    let count := if confirmed owner then count + 1 else count
    if count = required then true else countsTo confirmed required rest count

/-- `isConfirmed`: have as many owners confirmed as are required? -/
def isConfirmed (s : Storage) (transactionId : Nat) : Bool :=
  countsTo (s.confirmations transactionId) s.required s.owners 0

/-- `tx.executed = executed`, through the storage pointer `tx`. -/
def Storage.setExecuted (s : Storage) (transactionId : Nat) (executed : Bool) : Storage :=
  { s with
    transactions := Function.update s.transactions transactionId
      { s.transactions transactionId with executed := executed } }

/-- The call that `executeTransaction` makes. -/
def Storage.query (s : Storage) (transactionId : Nat) : Query where
  transactionId := transactionId
  destination := (s.transactions transactionId).destination
  value := (s.transactions transactionId).value
  data := (s.transactions transactionId).data

/-- Record that the call of `transactionId` succeeded. -/
def Storage.succeed (s : Storage) (transactionId : Nat) : Storage :=
  { s with
    succeeded := ⟨transactionId, s.transactions transactionId, s.confirmations transactionId⟩ ::
      s.succeeded }

/-- `executeTransaction`: the flag is set before the call, and taken back where the call fails. -/
def executeTransaction (transactionId : Nat) : M Unit := do
  let s ← Contract.get
  Contract.require ((s.transactions transactionId).executed = false)
  if isConfirmed s transactionId = true then
    Contract.modify fun s => s.setExecuted transactionId true
    match ← Contract.tryCall (s.query transactionId) with
    | some () =>
      Contract.modify fun s => s.succeed transactionId
      emit (.execution transactionId)
    | none =>
      emit (.executionFailure transactionId)
      Contract.modify fun s => s.setExecuted transactionId false

/-- `confirmTransaction`, which tries to execute at once. -/
def confirmTransaction (sender : Address) (transactionId : Nat) : M Unit := do
  let s ← Contract.get
  Contract.require (s.isOwner sender = true)
  Contract.require ((s.transactions transactionId).destination ≠ 0)
  Contract.require (s.confirmations transactionId sender = false)
  Contract.modify fun s =>
    { s with
      confirmations := Function.update s.confirmations transactionId
        (Function.update (s.confirmations transactionId) sender true) }
  emit (.confirmation sender transactionId)
  executeTransaction transactionId

/-- `revokeConfirmation`, until the transaction is executed. -/
def revokeConfirmation (sender : Address) (transactionId : Nat) : M Unit := do
  let s ← Contract.get
  Contract.require (s.isOwner sender = true)
  Contract.require (s.confirmations transactionId sender = true)
  Contract.require ((s.transactions transactionId).executed = false)
  Contract.modify fun s =>
    { s with
      confirmations := Function.update s.confirmations transactionId
        (Function.update (s.confirmations transactionId) sender false) }
  emit (.revocation sender transactionId)

/-- `addTransaction`: the next number is its id. -/
def addTransaction (destination : Address) (value : Uint256) (data : List UInt8) : M Nat := do
  Contract.require (destination ≠ 0)
  let s ← Contract.get
  let transactionId := s.transactionCount
  Contract.modify fun s =>
    { s with
      transactions := Function.update s.transactions transactionId
        ⟨destination, value, data, false⟩
      transactionCount := s.transactionCount + 1 }
  emit (.submission transactionId)
  return transactionId

/-- `submitTransaction`, which confirms at once. -/
def submitTransaction (sender destination : Address) (value : Uint256) (data : List UInt8) :
    M Nat := do
  let transactionId ← addTransaction destination value data
  confirmTransaction sender transactionId
  return transactionId

/-- The fallback function. -/
def fallback (sender : Address) (value : Uint256) : M Unit :=
  if 0 < value then emit (.deposit sender value) else pure ()

/-! ## Entry points -/

/-- A call of a function that can change the storage. Whether `sender` may be the wallet at that
moment is left open. -/
inductive Call where
  | fallback (sender : Address) (value : Uint256)
  | addOwner (sender owner : Address)
  | removeOwner (sender owner : Address)
  | replaceOwner (sender owner newOwner : Address)
  | changeRequirement (sender : Address) (required : Nat)
  | submitTransaction (sender destination : Address) (value : Uint256) (data : List UInt8)
  | confirmTransaction (sender : Address) (transactionId : Nat)
  | revokeConfirmation (sender : Address) (transactionId : Nat)
  | executeTransaction (transactionId : Nat)

/-- The code a call runs. -/
def entry : Call → M Unit
  | .fallback sender value => fallback sender value
  | .addOwner sender owner => addOwner this sender owner
  | .removeOwner sender owner => removeOwner this sender owner
  | .replaceOwner sender owner newOwner => replaceOwner this sender owner newOwner
  | .changeRequirement sender required => changeRequirement this sender required
  | .submitTransaction sender destination value data =>
    (submitTransaction sender destination value data).void
  | .confirmTransaction sender transactionId => confirmTransaction sender transactionId
  | .revokeConfirmation sender transactionId => revokeConfirmation sender transactionId
  | .executeTransaction transactionId => executeTransaction transactionId

end ChainX.MultiSig
