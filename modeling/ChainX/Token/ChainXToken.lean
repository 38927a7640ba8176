import ChainX.Reentry.Notes
import ChainX.Token.Spec

/-!
# The backing of `ChainXToken`, `Contracts/ChainX Token/ChainX_Token.sol`

`deposit` mints what it is paid (`ChainX_Token.sol:20-26`), `withdraw` burns what it sends
(`ChainX_Token.sol:30-39`); the rest is `StandardTokenWithOverflowProtection`. The file ends before
the last brace of the contract, which is read as there.

* `receiver.send(amount)` gives its receiver the stipend of gas only, so that it cannot call back:
  the runs are sequential, and all that the token learns of a `Send` is whether it succeeded. A
  `send` that fails makes `withdraw` throw.
* `name`, `symbol` and `decimals` are read by no function.

**`fully_backed`**: over every sequential run the balances add up to `totalSupply`, which is what
was deposited less what was sent; and a withdrawal within the caller's balance is refused only when
the sending fails. What was sent is read off the answers: it is the sum of the `send`s that
succeeded in calls that came to their end. The subtraction from `totalSupply` cannot underflow
because no balance exceeds the sum.
-/

namespace ChainX.Token

open ChainX.Evm ChainX.Lib ChainX.Reentry

variable {s : Storage}

/-! ## The contract -/

namespace ChainXToken

/-- `receiver.send(amount)`, which has only the gas stipend. -/
structure Send where
  receiver : Address
  amount : Uint256

/-- Code of the token. All it learns of a `send` is whether it succeeded. -/
abbrev M := Contract Storage Send Unit

/-- `deposit`, called with `value`. -/
def deposit {Q R : Type} (sender : Address) (value : Uint256) : Contract Storage Q R Unit := do
  increase sender value
  let s ← Contract.get
  let totalSupply ← Contract.ofOption (safeAdd s.totalSupply value)
  Contract.modify fun s => { s with totalSupply := totalSupply }

/-- `withdraw`: tokens are given back for ether, which is sent last. -/
def withdraw (sender : Address) (amount : Uint256) : M Unit := do
  decrease sender amount
  let s ← Contract.get
  let totalSupply ← Contract.ofOption (safeSub s.totalSupply amount)
  Contract.modify fun s => { s with totalSupply := totalSupply }
  Contract.require ((← Contract.tryCall ⟨sender, amount⟩) = some ())

/-- A call of a function that can change the storage. -/
inductive Call where
  | deposit (sender : Address) (value : Uint256)
  | withdraw (sender : Address) (amount : Uint256)
  | transfer (sender payee : Address) (value : Uint256)
  | transferFrom (sender payer payee : Address) (value : Uint256)
  | approve (sender spender : Address) (value : Uint256)

/-- The code a call runs. -/
def entry : Call → M Unit
  | .deposit sender value => deposit sender value
  | .withdraw sender amount => withdraw sender amount
  | .transfer sender payee value =>
    (StandardTokenWithOverflowProtection.transfer sender payee value).void
  | .transferFrom sender payer payee value =>
    (StandardTokenWithOverflowProtection.transferFrom sender payer payee value).void
  | .approve sender spender value => (approve sender spender value).void

/-- What a call pays in when it completes. -/
def Call.paysIn : Call → Nat
  | .deposit _ value => value.val
  | _ => 0

/-- What a `send` that succeeds pays out. -/
def Send.paid (send : Send) (_ : Unit) : Nat := send.amount.val

/-- The balances add up to `totalSupply`. -/
def Backed (s : Storage) : Prop := supply s = s.totalSupply.val

/-- `value` has been minted for `payee`. -/
structure Minted (s s' : Storage) (payee : Address) (value : Uint256) : Prop where
  balances : ∀ a, (s'.balances a).val = (s.balances a).val + if a = payee then value.val else 0
  allowed : s'.allowed = s.allowed
  totalSupply : s'.totalSupply.val = s.totalSupply.val + value.val

theorem Minted.supply {s' : Storage} {payee : Address} {value : Uint256}
    (h : Minted s s' payee value) : supply s' = supply s + value.val := by
  have hsum : total (fun a => (s'.balances a).val) =
      total fun a => (s.balances a).val + if a = payee then value.val else 0 :=
    congrArg total (funext h.balances)
  rw [total_add_ite] at hsum
  exact hsum

theorem Minted.backed {s' : Storage} {payee : Address} {value : Uint256}
    (h : Minted s s' payee value) (hs : Backed s) : Backed s' := by
  unfold Backed at hs ⊢
  rw [h.supply, h.totalSupply, hs]

theorem wp_deposit {Q R : Type} {B : Boundary Storage Q R} {sender : Address} {value : Uint256} :
    wp B (deposit sender value) (fun _ s' => Minted s s' sender value) s := by
  simp only [deposit, wp_bind, wp_increase, wp_get, wp_ofOption, wp_modify, safeAdd_eq_some]
  intro x hx t ht
  refine ⟨fun a => ?_, rfl, ht⟩
  simp only [Storage.setBalance]
  by_cases ha : a = sender
  · subst ha
    rw [Function.update_self, if_pos rfl]
    exact hx
  · rw [Function.update_of_ne ha, if_neg ha]
    rfl

theorem returns_deposit {Q R : Type} {sender : Address} {value : Uint256}
    (hbalance : (s.balances sender).val + value.val < 2 ^ 256)
    (htotal : s.totalSupply.val + value.val < 2 ^ 256) :
    returns (deposit sender value : Contract Storage Q R Unit) (fun _ _ => True) s := by
  simp only [deposit, returns_bind, returns_get, returns_ofOption, returns_modify]
  refine returns_increase hbalance fun x _ => ?_
  exact ⟨⟨_, htotal⟩, safeAdd_eq_some.mpr rfl, trivial⟩

/-- **What a call does to the supply**, by the answers to what it sends. -/
theorem backed_entry (c : Call) (hs : Backed s) :
    wp Boundary.still ((entry c).noted (adding Send.paid)) (fun _ st => Backed st.1 ∧
      st.1.totalSupply.val + st.2 = s.totalSupply.val + c.paysIn) (s, 0) := by
  have hsame : ∀ s', supply s' = supply s → s'.totalSupply = s.totalSupply →
      Backed s' ∧ s'.totalSupply.val + 0 = s.totalSupply.val + 0 := by
    intro s' h1 h2
    unfold Backed at hs ⊢
    rw [h1, h2]
    exact ⟨hs, rfl⟩
  cases c with
  | deposit sender value =>
    exact wp_link_of_closed (wp_mono wp_deposit fun _ s' h => ⟨h.backed hs, h.totalSupply⟩)
  | withdraw sender amount =>
    simp only [entry, withdraw, Contract.noted, link_bind, link_get, link_ofOption, link_modify,
      link_require, wp_bind]
    refine wp_link_of_closed (wp_decrease.mpr ?_)
    rintro x ⟨hle, hx⟩
    simp only [wp_get, wp_ofOption, wp_modify, wp_pure, wp_noting_tryCall, wp_require,
      safeSub_eq_some]
    rintro t ⟨hle', ht⟩
    -- only the send that succeeds passes the last check
    refine ⟨fun hfail => absurd hfail (by simp), fun _ _ => ?_⟩
    have h := supply_setBalance s sender x
    have hb : supply { s.setBalance sender x with totalSupply := t } =
        supply (s.setBalance sender x) := rfl
    unfold Backed at hs ⊢
    simp only [Storage.setBalance, adding, Send.paid, Call.paysIn] at hle' ht h hb ⊢
    omega
  | transfer sender payee value =>
    refine wp_link_of_closed (wp_void.mpr
      (wp_mono StandardTokenWithOverflowProtection.wp_transfer ?_))
    rintro _ s' ⟨-, h, -⟩
    exact hsame s' h.supply h.totalSupply
  | transferFrom sender payer payee value =>
    refine wp_link_of_closed (wp_void.mpr
      (wp_mono StandardTokenWithOverflowProtection.wp_transferFrom ?_))
    rintro _ s' ⟨-, h, -⟩
    exact hsame s' h.supply h.totalSupply
  | approve sender spender value =>
    refine wp_link_of_closed (wp_void.mpr (wp_mono wp_approve ?_))
    rintro _ s' ⟨-, hbalances, htotal, -⟩
    refine hsame s' ?_ htotal
    unfold supply
    rw [hbalances]

theorem keeps_backed (c : Call) (hs : Backed s) :
    wp Boundary.still (entry c) (fun _ s' => Backed s') s :=
  wp_still_of_noted 0 (wp_mono (backed_entry c hs) fun _ _ h => h.1)

/-- A withdrawal within the balance passes both subtractions and completes when the sending
succeeds. -/
theorem completes_withdraw (hs : Backed s) {sender : Address} {amount : Uint256}
    (hle : amount.val ≤ (s.balances sender).val) :
    completes entry s (.withdraw sender amount) [some ()] = true := by
  have hsupply := balance_le_supply s sender
  have h1 : safeSub (s.balances sender) amount = some (s.balances sender - amount) := if_pos hle
  have h2 : safeSub s.totalSupply amount = some (s.totalSupply - amount) := by
    refine if_pos ?_
    unfold Backed at hs
    omega
  simp [completes, entry, withdraw, decrease, bind, Proc.bind, Contract.get, h1, Contract.ofOption,
    Contract.modify, Storage.setBalance, h2, Contract.tryCall, Contract.require, Proc.play, pure]

/-- **The token is fully backed**: after every run from deployment, by any callers with any amounts,
the balances add up to `totalSupply`; `totalSupply` and what was sent add up to what was deposited;
and a withdrawal of at most the caller's balance completes when the sending succeeds. -/
theorem fully_backed (calls : List (Call × List (Option Unit))) :
    Backed (runSeq entry Storage.init calls) ∧
      (runSeq entry Storage.init calls).totalSupply.val +
          sumAnswered entry Send.paid Storage.init calls =
        sumCompleted entry Call.paysIn Storage.init calls ∧
      ∀ sender amount, amount.val ≤ ((runSeq entry Storage.init calls).balances sender).val →
        completes entry (runSeq entry Storage.init calls) (.withdraw sender amount) [some ()] =
          true := by
  have hinit : Backed Storage.init := supply_init
  obtain ⟨hrun, hsum⟩ := runSeq_accounting (I := Backed) (fun s => s.totalSupply.val)
    (fun c s hs => backed_entry c hs) calls Storage.init hinit
  refine ⟨hrun, ?_, fun sender amount hle => completes_withdraw hrun hle⟩
  rw [hsum]
  exact Nat.zero_add _

end ChainXToken

end ChainX.Token
