import ChainX.Lib.Journal
import ChainX.TokenRegistry.Lookups

/-!
# The events of the registry

Everything the constant functions answer can be computed from the events (`journal`): the metadata
of every token, which token a name or a symbol stands for, and which tokens are listed.

* The functions are `getTokenMetaData`, `getTokenByName`, `getTokenBySymbol` and `getTokenAddresses`
  (`TokenRegistry.sol:225-291`), and the two lookups of `Basic`.
* A `View` is what they answer from, with the list of addresses as a multiset: the order in which
  the tokens are listed depends on the removals in between, and is not told.
* `View.apply` reads one event: a token comes, with its metadata, goes, or changes one field. An
  event that renames tells the old name, too, so that the slot it leaves is known.
* A call that throws, or that a modifier turns into nothing, writes no event and changes nothing.

Results:
* `told_entry`: every call tells what it does.
* **`events_tell`**: after every run the answers are those that the events lead to. The order in
  which the tokens are listed is not told.
-/

namespace ChainX.TokenRegistry

open ChainX.Evm ChainX.Lib ChainX.Reentry

variable {B : Boundary Storage Empty Unit} {s s' : Storage}

/-! ## Metadata by address, name and symbol -/

/-- `getTokenMetaData`, which returns the fields of the record. -/
def getTokenMetaData (s : Storage) (token : Address) : TokenMetadata := s.tokens token

/-- `getTokenByName`: the metadata the lookup leads to. -/
def getTokenByName (s : Storage) (name : Str) : TokenMetadata :=
  getTokenMetaData s (s.tokenByName name)

/-- `getTokenBySymbol`: the metadata the lookup leads to. -/
def getTokenBySymbol (s : Storage) (symbol : Str) : TokenMetadata :=
  getTokenMetaData s (s.tokenBySymbol symbol)

/-! ## What the events tell -/

/-- What the registry answers from. The order of the addresses is none of it. -/
structure View where
  tokens : Address → TokenMetadata
  tokenBySymbol : Str → Address
  tokenByName : Str → Address
  tokenAddresses : Multiset Address

/-- What the events are to tell. -/
def Storage.view (s : Storage) : View :=
  ⟨s.tokens, s.tokenBySymbol, s.tokenByName, s.tokenAddresses⟩

namespace View

/-- Before the first event. -/
def init : View := ⟨fun _ => .empty, fun _ => 0, fun _ => 0, 0⟩

variable (v : View)

/-- One field of a record changes. -/
def write (token : Address) (change : TokenMetadata → TokenMetadata) : View :=
  { v with tokens := Function.update v.tokens token (change (v.tokens token)) }

/-- A token goes by another name. -/
def rename (token : Address) (oldName newName : Str) : View :=
  { v with tokenByName := Function.update (Function.update v.tokenByName oldName 0) newName token }

/-- The lookup by symbol follows a renamed token. -/
def renameSymbol (token : Address) (oldSymbol newSymbol : Str) : View :=
  { v with
    tokenBySymbol := Function.update (Function.update v.tokenBySymbol oldSymbol 0) newSymbol token }

/-- One event. -/
def apply : Event → View
  | .logAddToken token name symbol url decimals ipfsHash swarmHash =>
    { tokens := Function.update v.tokens token
        ⟨token, name, symbol, url, decimals, ipfsHash, swarmHash⟩
      tokenBySymbol := Function.update v.tokenBySymbol symbol token
      tokenByName := Function.update v.tokenByName name token
      tokenAddresses := token ::ₘ v.tokenAddresses }
  | .logRemoveToken token name symbol _ _ _ _ =>
    { tokens := Function.update v.tokens token .empty
      tokenBySymbol := Function.update v.tokenBySymbol symbol 0
      tokenByName := Function.update v.tokenByName name 0
      tokenAddresses := v.tokenAddresses.erase token }
  | .logTokenNameChange token oldName newName =>
    (v.rename token oldName newName).write token fun data => { data with name := newName }
  | .logTokenSymbolChange token oldSymbol newSymbol =>
    (v.renameSymbol token oldSymbol newSymbol).write token fun data =>
      { data with symbol := newSymbol }
  | .logTokenUrlChange token _ newUrl => v.write token fun data => { data with url := newUrl }
  | .logTokenIpfsHashChange token _ newIpfsHash =>
    v.write token fun data => { data with ipfsHash := newIpfsHash }
  | .logTokenSwarmHashChange token _ newSwarmHash =>
    v.write token fun data => { data with swarmHash := newSwarmHash }

end View

/-- What the events of the registry mean. -/
def journal : Journal Storage View Event := ⟨Storage.view, Storage.log, View.apply⟩

variable {v : View}

/-- A setter tells what it writes. -/
theorem told_setField (h : journal.Told v s) {sender token : Address}
    {event : TokenMetadata → Event} {change : TokenMetadata → TokenMetadata}
    (hevent : ∀ (v : View) data, v.apply (event data) = v.write token change) :
    wp B (setField sender token event change) (fun _ s' => journal.Told v s') s := by
  simp only [setField, wp_onlyOwner, wp_tokenExists, wp_bind, wp_get, wp_modify]
  exact fun _ => ⟨fun _ => h.event rfl (hevent s.view _).symm, fun _ => h⟩

/-- **Every call tells what it does.** -/
theorem told_entry (c : Call) (hs : Keyed s.tokens) (h : journal.Told v s) :
    wp B (entry c) (fun _ s' => journal.Told v s') s := by
  cases c with
  | transferOwnership sender newOwner =>
    simp only [entry, transferOwnership, wp_onlyOwner, wp_ite, wp_modify, wp_pure]
    exact fun _ => ⟨fun _ => h.silent rfl rfl, fun _ => h⟩
  | addToken sender token name symbol url decimals ipfsHash swarmHash =>
    simp only [entry, addToken, wp_onlyOwner, wp_tokenDoesNotExist, wp_bind, wp_modify]
    refine fun _ => ⟨fun _ => h.event rfl ?_, fun _ => h⟩
    have hlist : (↑(s.tokenAddresses ++ [token]) : Multiset Address) =
        token ::ₘ ↑s.tokenAddresses :=
      Multiset.coe_eq_coe.mpr (List.perm_append_singleton token _)
    exact congrArg (View.mk _ _ _) hlist
  | removeToken sender token =>
    simp only [entry, removeToken, wp_onlyOwner, wp_tokenExists, wp_bind, wp_get, wp_modify]
    refine fun _ => ⟨fun hold => h.event rfl ?_, fun _ => h⟩
    -- the event names the token that the record names
    have hlist : (↑(cut token s.tokenAddresses) : Multiset Address) =
        Multiset.erase ↑s.tokenAddresses token :=
      Multiset.coe_eq_coe.mpr (cut_perm token s.tokenAddresses)
    show View.mk _ _ _ _ = View.mk _ _ _ _
    rw [hs token hold]
    exact congrArg (View.mk _ _ _) hlist
  | setTokenName sender token name =>
    simp only [entry, setTokenName, wp_onlyOwner, wp_tokenExists, wp_bind, wp_get, wp_modify]
    exact fun _ => ⟨fun _ => h.event rfl rfl, fun _ => h⟩
  | setTokenSymbol sender token symbol =>
    simp only [entry, setTokenSymbol, wp_onlyOwner, wp_tokenExists, wp_bind, wp_get, wp_modify]
    exact fun _ => ⟨fun _ => h.event rfl rfl, fun _ => h⟩
  | setTokenIpfsHash sender token ipfsHash =>
    rw [entry, setTokenIpfsHash]
    exact told_setField h fun _ _ => rfl
  | setTokenSwarmHash sender token swarmHash =>
    rw [entry, setTokenSwarmHash]
    exact told_setField h fun _ _ => rfl
  | setTokenUrl sender token url =>
    rw [entry, setTokenUrl]
    exact told_setField h fun _ _ => rfl

/-- **The events tell what the registry answers**, after any run, by any callers with any arguments:
the metadata of every token, by its address, its name and its symbol, and which tokens are listed,
how often. -/
theorem events_tell (owner : Address) (moves : List (Move Call Unit)) :
    let s := reached owner moves
    let v := journal.replay View.init s.log
    (∀ token, getTokenMetaData s token = v.tokens token) ∧
      (∀ name, getTokenAddressByName s name = v.tokenByName name ∧
        getTokenByName s name = v.tokens (v.tokenByName name)) ∧
      (∀ symbol, getTokenAddressBySymbol s symbol = v.tokenBySymbol symbol ∧
        getTokenBySymbol s symbol = v.tokens (v.tokenBySymbol symbol)) ∧
      (↑(getTokenAddresses s) : Multiset Address) = v.tokenAddresses := by
  have htold : Keyed (reached owner moves).tokens ∧
      journal.Told View.init (reached owner moves) :=
    exec_keeping (K := fun s => Keyed s.tokens ∧ journal.Told View.init s)
      (fun c _ hs => wp_mono (wp_and (wp_entry c) (told_entry c hs.1 hs.2)) fun _ _ h =>
        ⟨h.1.keyed hs.1, h.2⟩)
      ⟨(sound_init owner).keyed, Journal.told_start rfl⟩ moves
  intro s v
  have hview : s.view = v := htold.2
  rw [← hview]
  exact ⟨fun _ => rfl, fun _ => ⟨rfl, rfl⟩, fun _ => ⟨rfl, rfl⟩, rfl⟩

end ChainX.TokenRegistry
