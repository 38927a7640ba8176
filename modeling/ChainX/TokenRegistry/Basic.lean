import ChainX.Evm.Word
import ChainX.Lib.SwapRemove
import ChainX.Reentry.Machine

/-!
# The token registry (`Contracts/Base/TokenRegistry.sol`)

`contract TokenRegistry is Ownable`: the metadata of tokens, listed in an array and indexed by name
and by symbol. The file begins inside a comment, and `Ownable.sol` ends before the last braces of
`transferOwnership` and of the contract; both are read as complete.

* A `string` is its bytes.
* `onlyOwner` throws. `tokenExists` and `tokenDoesNotExist` do not: where the presence flag, the
  field `token` of the record, does not fit, the function returns without doing anything.
* `TokenMetadata token = tokens[_token]` refers to the storage, so the fields of `token` are read
  where they are used.
* No function makes an external call.
-/

namespace ChainX.TokenRegistry

open ChainX.Evm ChainX.Lib ChainX.Reentry

/-- `string`. -/
abbrev Str := List UInt8

/-- The events. -/
inductive Event where
  | logAddToken (token : Address) (name symbol url : Str) (decimals : UInt8)
      (ipfsHash swarmHash : Bytes32)
  | logRemoveToken (token : Address) (name symbol url : Str) (decimals : UInt8)
      (ipfsHash swarmHash : Bytes32)
  | logTokenNameChange (token : Address) (oldName newName : Str)
  | logTokenSymbolChange (token : Address) (oldSymbol newSymbol : Str)
  | logTokenUrlChange (token : Address) (oldUrl newUrl : Str)
  | logTokenIpfsHashChange (token : Address) (oldIpfsHash newIpfsHash : Bytes32)
  | logTokenSwarmHashChange (token : Address) (oldSwarmHash newSwarmHash : Bytes32)

/-- `struct TokenMetadata`. -/
structure TokenMetadata where
  token : Address
  name : Str
  symbol : Str
  url : Str
  decimals : UInt8
  ipfsHash : Bytes32
  swarmHash : Bytes32

/-- A record that was never written, or was deleted. -/
def TokenMetadata.empty : TokenMetadata := ⟨0, [], [], [], 0, 0, 0⟩

/-- The storage of `contract TokenRegistry`. -/
structure Storage where
  owner : Address
  tokens : Address → TokenMetadata
  tokenBySymbol : Str → Address
  tokenByName : Str → Address
  tokenAddresses : List Address
  /-- The events, newest first. -/
  log : List Event

/-- The storage after deployment by `owner`. -/
def Storage.init (owner : Address) : Storage :=
  ⟨owner, fun _ => .empty, fun _ => 0, fun _ => 0, [], []⟩

/-- `tokens[token] = data`. -/
def Storage.setToken (s : Storage) (token : Address) (data : TokenMetadata) : Storage :=
  { s with tokens := Function.update s.tokens token data }

/-- `tokenBySymbol[symbol] = token`. -/
def Storage.setBySymbol (s : Storage) (symbol : Str) (token : Address) : Storage :=
  { s with tokenBySymbol := Function.update s.tokenBySymbol symbol token }

/-- `tokenByName[name] = token`. -/
def Storage.setByName (s : Storage) (name : Str) (token : Address) : Storage :=
  { s with tokenByName := Function.update s.tokenByName name token }

/-- Code of the registry. -/
abbrev M := Contract Storage Empty Unit

/-- An event is emitted. -/
abbrev emit (e : Event) : M Unit := Contract.modify fun s => { s with log := e :: s.log }

/-! ## Modifiers -/

/-- `onlyOwner`, which throws. -/
def onlyOwner (sender : Address) (body : M Unit) : M Unit := do
  let s ← Contract.get
  Contract.require (sender = s.owner)
  body

/-- `tokenExists`, which skips the body. -/
def tokenExists (token : Address) (body : M Unit) : M Unit := do
  let s ← Contract.get
  if (s.tokens token).token ≠ 0 then body else pure ()

/-- `tokenDoesNotExist`, which skips the body. -/
def tokenDoesNotExist (token : Address) (body : M Unit) : M Unit := do
  let s ← Contract.get
  if (s.tokens token).token = 0 then body else pure ()

/-! ## Functions -/

/-- `Ownable.transferOwnership`. -/
def transferOwnership (sender newOwner : Address) : M Unit :=
  onlyOwner sender do
    if newOwner ≠ 0 then
      Contract.modify fun s => { s with owner := newOwner }
    else pure ()

/-- `addToken`: stores the token and points both lookups to it. -/
def addToken (sender token : Address) (name symbol url : Str) (decimals : UInt8)
    (ipfsHash swarmHash : Bytes32) : M Unit :=
  onlyOwner sender <| tokenDoesNotExist token do
    Contract.modify fun s =>
      s.setToken token ⟨token, name, symbol, url, decimals, ipfsHash, swarmHash⟩
    Contract.modify fun s => { s with tokenAddresses := s.tokenAddresses ++ [token] }
    Contract.modify fun s => s.setBySymbol symbol token
    Contract.modify fun s => s.setByName name token
    emit (.logAddToken token name symbol url decimals ipfsHash swarmHash)

/-- `removeToken`: clears the token and both lookups. -/
def removeToken (sender token : Address) : M Unit :=
  onlyOwner sender <| tokenExists token do
    Contract.modify fun s => { s with tokenAddresses := cut token s.tokenAddresses }
    let data := (← Contract.get).tokens token
    emit (.logRemoveToken data.token data.name data.symbol data.url data.decimals data.ipfsHash
      data.swarmHash)
    Contract.modify fun s => s.setBySymbol (s.tokens token).symbol 0
    Contract.modify fun s => s.setByName (s.tokens token).name 0
    Contract.modify fun s => s.setToken token .empty

/-- `setTokenName`: the lookup follows. -/
def setTokenName (sender token : Address) (name : Str) : M Unit :=
  onlyOwner sender <| tokenExists token do
    let data := (← Contract.get).tokens token
    emit (.logTokenNameChange token data.name name)
    Contract.modify fun s => s.setByName (s.tokens token).name 0
    Contract.modify fun s => s.setByName name token
    Contract.modify fun s => s.setToken token { s.tokens token with name := name }

/-- `setTokenSymbol`: the lookup follows. -/
def setTokenSymbol (sender token : Address) (symbol : Str) : M Unit :=
  onlyOwner sender <| tokenExists token do
    let data := (← Contract.get).tokens token
    emit (.logTokenSymbolChange token data.symbol symbol)
    Contract.modify fun s => s.setBySymbol (s.tokens token).symbol 0
    Contract.modify fun s => s.setBySymbol symbol token
    Contract.modify fun s => s.setToken token { s.tokens token with symbol := symbol }

/-- What the setters of the fields without an index do. -/
def setField (sender token : Address) (event : TokenMetadata → Event)
    (write : TokenMetadata → TokenMetadata) : M Unit :=
  onlyOwner sender <| tokenExists token do
    emit (event ((← Contract.get).tokens token))
    Contract.modify fun s => s.setToken token (write (s.tokens token))

/-- `setTokenIpfsHash`. -/
def setTokenIpfsHash (sender token : Address) (ipfsHash : Bytes32) : M Unit :=
  setField sender token (fun data => .logTokenIpfsHashChange token data.ipfsHash ipfsHash)
    fun data => { data with ipfsHash := ipfsHash }

/-- `setTokenSwarmHash`. -/
def setTokenSwarmHash (sender token : Address) (swarmHash : Bytes32) : M Unit :=
  setField sender token (fun data => .logTokenSwarmHashChange token data.swarmHash swarmHash)
    fun data => { data with swarmHash := swarmHash }

/-- `setTokenUrl`. -/
def setTokenUrl (sender token : Address) (url : Str) : M Unit :=
  setField sender token (fun data => .logTokenUrlChange token data.url url)
    fun data => { data with url := url }

/-! ## Constant functions -/

/-- `getTokenAddressBySymbol`. -/
def getTokenAddressBySymbol (s : Storage) (symbol : Str) : Address := s.tokenBySymbol symbol

/-- `getTokenAddressByName`. -/
def getTokenAddressByName (s : Storage) (name : Str) : Address := s.tokenByName name

/-- `getTokenAddresses`. -/
def getTokenAddresses (s : Storage) : List Address := s.tokenAddresses

/-! ## Entry points -/

/-- A call of a function that can change the storage. -/
inductive Call where
  | transferOwnership (sender newOwner : Address)
  | addToken (sender token : Address) (name symbol url : Str) (decimals : UInt8)
      (ipfsHash swarmHash : Bytes32)
  | removeToken (sender token : Address)
  | setTokenName (sender token : Address) (name : Str)
  | setTokenSymbol (sender token : Address) (symbol : Str)
  | setTokenIpfsHash (sender token : Address) (ipfsHash : Bytes32)
  | setTokenSwarmHash (sender token : Address) (swarmHash : Bytes32)
  | setTokenUrl (sender token : Address) (url : Str)

/-- The code a call runs. -/
def entry : Call → M Unit
  | .transferOwnership sender newOwner => transferOwnership sender newOwner
  | .addToken sender token name symbol url decimals ipfsHash swarmHash =>
    addToken sender token name symbol url decimals ipfsHash swarmHash
  | .removeToken sender token => removeToken sender token
  | .setTokenName sender token name => setTokenName sender token name
  | .setTokenSymbol sender token symbol => setTokenSymbol sender token symbol
  | .setTokenIpfsHash sender token ipfsHash => setTokenIpfsHash sender token ipfsHash
  | .setTokenSwarmHash sender token swarmHash => setTokenSwarmHash sender token swarmHash
  | .setTokenUrl sender token url => setTokenUrl sender token url

end ChainX.TokenRegistry
