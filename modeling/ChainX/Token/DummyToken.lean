import ChainX.Reentry.Link
import ChainX.Token.ChainXToken

/-!
# The supply of `DummyToken`, `Contracts/ChainX Token/DummyToken.sol`, `Mintable.sol`

Anybody can mint (`Mintable.sol:11-17`) and the owner can set any balance (`DummyToken.sol:24-32`),
both with `SafeMath`; transfers are those of `StandardToken`, whose own arithmetic is unchecked.
`Ownable.sol` ends before its last braces, which are read as there; `name`, `symbol` and `decimals`
are read by no function. `DeployChainX_Token.sol` is a copy of `DummyToken.sol`.

* A mint is limited by a constant for each call, not for each account.
* `setBalance` writes the difference into `totalSupply`, up or down, before the balance itself.

`entryExact` is the same contract with every unchecked `+=` and `-=` replaced by one that throws
where the result does not fit. Since the balances add up to `totalSupply`, which is a word, no
balance can be raised past a word by what another account holds (`transferExact_eq`,
`transferFromExact_eq`).

**`supply_exact`**: over every sequential run the balances add up to `totalSupply`, and the contract
does what the exact one does.
-/

namespace ChainX.Token

open ChainX.Evm ChainX.Lib ChainX.Reentry

/-! ## Exact transfers -/

namespace StandardToken

variable {Q R : Type}

/-- `transfer` with exact updates: `decrease` and `increase` throw where the result does not fit. -/
def transferExact (sender payee : Address) (value : Uint256) : Contract Storage Q R Bool := do
  let s ← Contract.get
  if value ≤ s.balances sender ∧ s.balances payee < s.balances payee + value then
    decrease sender value
    increase payee value
    emit (.transfer sender payee value)
    return true
  else
    return false

/-- `transferFrom` with exact updates. -/
def transferFromExact (sender payer payee : Address) (value : Uint256) :
    Contract Storage Q R Bool := do
  let s ← Contract.get
  if value ≤ s.balances payer ∧ value ≤ s.allowed payer sender ∧
      s.balances payee < s.balances payee + value then
    increase payee value
    decrease payer value
    let s ← Contract.get
    let allowance ← Contract.ofOption (safeSub (s.allowed payer sender) value)
    Contract.modify fun s => s.setAllowed payer sender allowance
    emit (.transfer payer payee value)
    return true
  else
    return false

/-- **The updates of `transfer` are exact.** -/
theorem transferExact_eq (sender payee : Address) (value : Uint256) :
    (transferExact sender payee value : Contract Storage Q R Bool) =
      transfer sender payee value := by
  funext s
  simp only [transferExact, transfer, Contract.bind_apply, Contract.get_apply, Contract.ite_apply,
    Proc.bind]
  by_cases h : value ≤ s.balances sender ∧ s.balances payee < s.balances payee + value
  · obtain ⟨hle, hadd⟩ := h
    have hroom := setBalance_room hle (lt_add_iff.mp hadd).2
    rw [if_pos ⟨hle, hadd⟩, if_pos ⟨hle, hadd⟩, decrease_eq hle]
    simp only [Proc.bind, Contract.bind_apply, Contract.modify_apply, increase_eq hroom]
  · rw [if_neg h, if_neg h]

/-- **The updates of `transferFrom` are exact.** -/
theorem transferFromExact_eq (sender payer payee : Address) (value : Uint256) :
    (transferFromExact sender payer payee value : Contract Storage Q R Bool) =
      transferFrom sender payer payee value := by
  funext s
  simp only [transferFromExact, transferFrom, Contract.bind_apply, Contract.get_apply,
    Contract.ite_apply, Proc.bind]
  by_cases h : value ≤ s.balances payer ∧ value ≤ s.allowed payer sender ∧
      s.balances payee < s.balances payee + value
  · obtain ⟨hle, hallow, hadd⟩ := h
    have hroom := (lt_add_iff.mp hadd).2
    have hle' := le_setBalance hle hroom
    have hspent : safeSub (s.allowed payer sender) value = some (s.allowed payer sender - value) :=
      if_pos hallow
    rw [if_pos ⟨hle, hallow, hadd⟩, if_pos ⟨hle, hallow, hadd⟩, increase_eq hroom]
    simp only [Proc.bind, Contract.bind_apply, Contract.modify_apply, Contract.get_apply,
      decrease_eq hle']
    have hsame : (((s.setBalance payee (s.balances payee + value)).setBalance payer
        ((s.setBalance payee (s.balances payee + value)).balances payer - value)).allowed payer
        sender) = s.allowed payer sender := rfl
    simp only [hsame, hspent, Contract.ofOption_some, Proc.bind]
    rfl
  · rw [if_neg h, if_neg h]

end StandardToken

/-! ## The contract -/

namespace Mintable

/-- `mint`: everybody may have up to `10 ^ 20` more. -/
def mint {Q R : Type} (sender : Address) (value : Uint256) : Contract Storage Q R Unit := do
  Contract.require (¬ 100000000000000000000 < value.val)
  let s ← Contract.get
  let balance ← Contract.ofOption (safeAdd value (s.balances sender))
  Contract.modify fun s => s.setBalance sender balance
  let s ← Contract.get
  let totalSupply ← Contract.ofOption (safeAdd s.totalSupply value)
  Contract.modify fun s => { s with totalSupply := totalSupply }

end Mintable

namespace DummyToken

/-- The storage of `contract DummyToken`. -/
structure Storage where
  token : Token.Storage
  owner : Address

/-- The storage after deployment by `sender` with `totalSupply`. -/
def Storage.init (sender : Address) (totalSupply : Uint256) : Storage :=
  ⟨{ Token.Storage.init.setBalance sender totalSupply with totalSupply := totalSupply }, sender⟩

/-- The storage of the inherited `Mintable`. -/
@[simps] def base : Lens Storage Token.Storage where
  view s := s.token
  put s token := { s with token := token }
  view_put _ _ := rfl
  put_view _ := rfl
  put_put _ _ _ := rfl

/-- Code of the token, which makes no external call. -/
abbrev M := Contract Storage Empty Unit

/-- `Ownable.transferOwnership`. -/
def transferOwnership (sender newOwner : Address) : M Unit := do
  let s ← Contract.get
  Contract.require (sender = s.owner)
  if newOwner ≠ 0 then
    Contract.modify fun s => { s with owner := newOwner }

/-- `setBalance`: the owner sets a balance, and the total with it. -/
def setBalance (sender target : Address) (value : Uint256) : M Unit := do
  let s ← Contract.get
  Contract.require (sender = s.owner)
  let currBalance := s.token.balances target
  if value < currBalance then
    let change ← Contract.ofOption (safeSub currBalance value)
    let totalSupply ← Contract.ofOption (safeSub s.token.totalSupply change)
    Contract.modify fun s => { s with token := { s.token with totalSupply := totalSupply } }
  else
    let change ← Contract.ofOption (safeSub value currBalance)
    let totalSupply ← Contract.ofOption (safeAdd s.token.totalSupply change)
    Contract.modify fun s => { s with token := { s.token with totalSupply := totalSupply } }
  Contract.modify fun s => { s with token := s.token.setBalance target value }

/-- A call of a function that can change the storage. -/
inductive Call where
  | mint (sender : Address) (value : Uint256)
  | setBalance (sender target : Address) (value : Uint256)
  | transferOwnership (sender newOwner : Address)
  | transfer (sender payee : Address) (value : Uint256)
  | transferFrom (sender payer payee : Address) (value : Uint256)
  | approve (sender spender : Address) (value : Uint256)

/-- The code a call runs. -/
def entry : Call → M Unit
  | .mint sender value => Contract.zoom base (Mintable.mint sender value)
  | .setBalance sender target value => setBalance sender target value
  | .transferOwnership sender newOwner => transferOwnership sender newOwner
  | .transfer sender payee value =>
    Contract.zoom base (StandardToken.transfer sender payee value).void
  | .transferFrom sender payer payee value =>
    Contract.zoom base (StandardToken.transferFrom sender payer payee value).void
  | .approve sender spender value => Contract.zoom base (approve sender spender value).void

/-- The code a call runs when every update is exact or throws. -/
def entryExact : Call → M Unit
  | .transfer sender payee value =>
    Contract.zoom base (StandardToken.transferExact sender payee value).void
  | .transferFrom sender payer payee value =>
    Contract.zoom base (StandardToken.transferFromExact sender payer payee value).void
  | c => entry c

theorem entryExact_eq : entryExact = entry := by
  funext c
  cases c with
  | transfer sender payee value =>
    rw [entryExact, entry, StandardToken.transferExact_eq]
  | transferFrom sender payer payee value =>
    rw [entryExact, entry, StandardToken.transferFromExact_eq]
  | _ => rfl

/-! ## The supply -/

/-- The balances add up to `totalSupply`. -/
def Balanced (s : Storage) : Prop := supply s.token = s.token.totalSupply.val

theorem balanced_init (sender : Address) (totalSupply : Uint256) :
    Balanced (Storage.init sender totalSupply) := by
  have h := supply_setBalance Token.Storage.init sender totalSupply
  have hzero : (Token.Storage.init.balances sender).val = 0 := rfl
  rw [supply_init, hzero, Nat.zero_add, Nat.add_zero] at h
  exact h

/-- Writing a balance and the total that goes with it. -/
theorem balanced_setBalance {s : Storage} (hs : Balanced s) {target : Address}
    {value totalSupply : Uint256}
    (h : totalSupply.val + (s.token.balances target).val = s.token.totalSupply.val + value.val) :
    Balanced ⟨{ s.token.setBalance target value with totalSupply := totalSupply }, s.owner⟩ := by
  have hsum := supply_setBalance s.token target value
  have hsame : supply { s.token.setBalance target value with totalSupply := totalSupply } =
      supply (s.token.setBalance target value) := rfl
  unfold Balanced at hs ⊢
  simp only [hsame]
  omega

/-- **Every call keeps the balances adding up to `totalSupply`.** -/
theorem balanced_entry (c : Call) {s : Storage} (hs : Balanced s) :
    wp Boundary.still (entry c) (fun _ s' => Balanced s') s := by
  have hsame : ∀ token : Token.Storage, supply token = supply s.token →
      token.totalSupply = s.token.totalSupply → Balanced { s with token := token } := by
    intro token h1 h2
    unfold Balanced at hs ⊢
    rw [h1, h2]
    exact hs
  cases c with
  | mint sender value =>
    simp only [entry, Mintable.mint, wp_zoom, wp_bind, wp_require, wp_get, wp_ofOption, wp_modify,
      safeAdd_eq_some]
    intro _ balance hbalance totalSupply htotal
    refine balanced_setBalance hs ?_
    replace htotal : totalSupply.val = s.token.totalSupply.val + value.val := htotal
    replace hbalance : balance.val = value.val + (s.token.balances sender).val := hbalance
    omega
  | setBalance sender target value =>
    simp only [entry, setBalance, wp_bind, wp_get, wp_require, wp_ite, wp_ofOption, wp_modify,
      safeAdd_eq_some, safeSub_eq_some]
    intro _
    constructor
    · rintro - change ⟨hle, hchange⟩ totalSupply ⟨hle', htotal⟩
      have h : totalSupply.val + (s.token.balances target).val =
          s.token.totalSupply.val + value.val := by omega
      exact balanced_setBalance hs h
    · rintro - change ⟨hle, hchange⟩ totalSupply htotal
      have h : totalSupply.val + (s.token.balances target).val =
          s.token.totalSupply.val + value.val := by omega
      exact balanced_setBalance hs h
  | transferOwnership sender newOwner =>
    simp only [entry, transferOwnership, wp_bind, wp_get, wp_require, wp_ite, wp_modify, wp_pure]
    exact fun _ => ⟨fun _ => hs, fun _ => hs⟩
  | transfer sender payee value =>
    simp only [entry, wp_zoom, wp_void]
    refine wp_mono StandardToken.wp_transfer fun success token h => ?_
    cases success with
    | true => exact hsame token (h.1 rfl).1.supply (h.1 rfl).1.totalSupply
    | false => exact hsame token (by rw [h.2 rfl]; rfl) (by rw [h.2 rfl]; rfl)
  | transferFrom sender payer payee value =>
    simp only [entry, wp_zoom, wp_void]
    refine wp_mono StandardToken.wp_transferFrom fun success token h => ?_
    cases success with
    | true => exact hsame token (h.1 rfl).1.supply (h.1 rfl).1.totalSupply
    | false => exact hsame token (by rw [h.2 rfl]; rfl) (by rw [h.2 rfl]; rfl)
  | approve sender spender value =>
    simp only [entry, wp_zoom, wp_void]
    refine wp_mono wp_approve ?_
    rintro _ token ⟨-, hbalances, htotal, -⟩
    refine hsame token ?_ htotal
    unfold supply
    rw [hbalances]
    rfl

/-- **The supply is the sum of the balances**: after every run from deployment, by any callers with
any amounts, the balances add up to `totalSupply`; and the run, like every further call, is that of
the contract whose updates are exact, so that none of them has wrapped around. -/
theorem supply_exact (sender : Address) (totalSupply : Uint256)
    (calls : List (Call × List (Option Unit))) :
    Balanced (runSeq entry (Storage.init sender totalSupply) calls) ∧
      runSeq entry (Storage.init sender totalSupply) calls =
        runSeq entryExact (Storage.init sender totalSupply) calls ∧
      ∀ c s, entry c s = entryExact c s := by
  refine ⟨?_, by rw [entryExact_eq], fun c s => by rw [entryExact_eq]⟩
  exact runSeq_invariant calls _ (fun c _ _ hs => balanced_entry c.1 hs)
    (balanced_init sender totalSupply)

end DummyToken

end ChainX.Token
