import ChainX.Evm.Word
import ChainX.Reentry.Proc

/-!
# The proxy, `Contracts/Base/Proxy.sol`

`contract Proxy is Ownable`: the addresses its owner has authorised move tokens through it. The
functions are `addAuthorizedAddress` (`Proxy.sol:39-48`), `removeAuthorizedAddress`
(`Proxy.sol:53-68`), `transferFrom` (`Proxy.sol:76-86`), `getAuthorizedAddresses`
(`Proxy.sol:94-99`) and `transferOwnership` (`Ownable.sol:24-28`). The file begins inside a comment
and `Ownable.sol` ends before the last braces of `transferOwnership` and of the contract; both are
read as complete.

* A modifier is a `require` in its place. `transferOwnership` does nothing for the null address.
* The answer to `Token(token).transferFrom` is a word, a `bool` being `true` when it is not `0`. A
  token that throws makes the proxy throw.
* The loop of `removeAuthorizedAddress` is `removeLoop`, which writes the last entry over the one
  that goes and cuts the array, and then leaves the loop.
* `log` are the events of the calls that came to their end, the newest first.
-/

namespace ChainX.Proxy

open ChainX.Evm ChainX.Reentry

/-- The events. -/
inductive Event where
  | logAuthorizedAddressAdded (target caller : Address)
  | logAuthorizedAddressRemoved (target caller : Address)
  deriving DecidableEq

/-- The storage of `contract Proxy`. -/
structure Storage where
  owner : Address
  authorized : Address → Bool
  authorities : List Address
  /-- The events, newest first. -/
  log : List Event

/-- The storage after deployment by `owner`. -/
def Storage.init (owner : Address) : Storage := ⟨owner, fun _ => false, [], []⟩

/-- An external call: `Token(token).transferFrom(payer, payee, value)`. -/
structure Query where
  token : Address
  payer : Address
  payee : Address
  value : Uint256

/-- Code of the proxy. -/
abbrev M := Contract Storage Query Uint256

/-- An event is emitted. -/
abbrev emit (e : Event) : M Unit := Contract.modify fun s => { s with log := e :: s.log }

/-- `Ownable.transferOwnership`. -/
def transferOwnership (sender newOwner : Address) : M Unit := do
  let s ← Contract.get
  Contract.require (sender = s.owner)
  if newOwner ≠ 0 then
    Contract.modify fun s => { s with owner := newOwner }

/-- `addAuthorizedAddress`, by the owner, of an address that is not authorized. -/
def addAuthorizedAddress (sender target : Address) : M Bool := do
  let s ← Contract.get
  Contract.require (sender = s.owner)
  Contract.require (s.authorized target = false)
  Contract.modify fun s =>
    { s with
      authorized := Function.update s.authorized target true
      authorities := s.authorities ++ [target] }
  emit (.logAuthorizedAddressAdded target sender)
  return true

/-- The loop of `removeAuthorizedAddress`: `k` rounds from index `i`. The first slot that holds
`target` takes the last entry, the array is cut by one, and the loop ends. -/
def removeLoop (target : Address) : Nat → Nat → M Unit
  | 0, _ => pure ()
  | k + 1, i => do
    let s ← Contract.get
    let entry ← Contract.ofOption s.authorities[i]?
    if entry = target then
      let last ← Contract.ofOption s.authorities[s.authorities.length - 1]?
      Contract.modify fun s => { s with authorities := (s.authorities.set i last).dropLast }
    else
      removeLoop target k (i + 1)

/-- `removeAuthorizedAddress`: the last address of the list takes the place of the first match. -/
def removeAuthorizedAddress (sender target : Address) : M Bool := do
  let s ← Contract.get
  Contract.require (sender = s.owner)
  Contract.require (s.authorized target = true)
  Contract.modify fun s => { s with authorized := Function.update s.authorized target false }
  removeLoop target s.authorities.length 0
  emit (.logAuthorizedAddressRemoved target sender)
  return true

/-- `transferFrom`: an authorized sender has the proxy call the token. -/
def transferFrom (sender token payer payee : Address) (value : Uint256) : M Bool := do
  let s ← Contract.get
  Contract.require (s.authorized sender = true)
  Contract.require ((← Contract.extCall ⟨token, payer, payee, value⟩) ≠ 0)
  return true

/-- `getAuthorizedAddresses`. -/
def getAuthorizedAddresses (s : Storage) : List Address := s.authorities

/-! ## Entry points -/

/-- A call of a function that can change the storage. -/
inductive Call where
  | addAuthorizedAddress (sender target : Address)
  | removeAuthorizedAddress (sender target : Address)
  | transferOwnership (sender newOwner : Address)
  | transferFrom (sender token payer payee : Address) (value : Uint256)

/-- The code a call runs. -/
def entry : Call → M Unit
  | .addAuthorizedAddress sender target => (addAuthorizedAddress sender target).void
  | .removeAuthorizedAddress sender target => (removeAuthorizedAddress sender target).void
  | .transferOwnership sender newOwner => transferOwnership sender newOwner
  | .transferFrom sender token payer payee value =>
    (transferFrom sender token payer payee value).void

end ChainX.Proxy
