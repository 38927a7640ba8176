import ChainX.Exchange.Payout
import ChainX.SimpleCrowdsale.World

/-!
# One payment to the crowdsale

What the fallback function (`SimpleCrowdsale.sol:74-96`) does among all contracts with a payment of
`w`, of which `d` is deposited and filled.

* The steps are: the deposit mints CHX tokens for the crowdsale, the exchange trades them for the
  maker's tokens (`salePayments`), these are forwarded to the buyer, and the change is sent back.
* Each of them is shown to go through in the state that the one before has left, so what is asked of
  the start has to cover what the steps take in turn (`Sufficient`, `held`).
* What remains outside are foreign tokens, which fees may be in, and the buyer who takes the change.

Results:
* `yields_pay`: its steps. Beyond the remaining value, the change is sent back and the sale ends
  (`Storage.paid`, `Taken`).
* `Payable`: what the proxy, the tokens and the crowdsale's accounts need for it.
* **`yields_sale`**: where that is there and the order is fillable, the payment goes through.
-/

namespace ChainX.SimpleCrowdsale

open ChainX.Evm ChainX.Reentry ChainX.Token
open ChainX.Exchange (OrderData)

-- the hash is never computed here
attribute [local irreducible] Exchange.getOrderHash

variable {dep : Deployment} {kind : Address → Kind} {msg : Msg} {w d r : Uint256} {s : Storage}
  {ex : Exchange.Storage} {m : Exchange.Market} {rs rs' rs'' : List (Option Uint256)}

/-! ## Its steps -/

/-- The storage after a payment of `w` of which `d` was filled, `f` having been forwarded. -/
def Storage.paid (s : Storage) (msg : Msg) (w d f : Uint256) : Storage :=
  if d < w then
    { s with
      isFinished := true
      effects := .refunded msg.sender (w - d) :: .forwarded msg.sender f :: .deposited d ::
        s.effects }
  else
    { s with effects := .forwarded msg.sender f :: .deposited d :: s.effects }

/-- The change, if there is any, is taken. -/
def Taken (d w : Uint256) (rs rs' : List (Option Uint256)) : Prop :=
  if d < w then ∃ a, rs = some a :: rs' else rs' = rs

theorem exists_taken {P : List (Option Uint256) → Prop} :
    (∃ rest, Taken d w rs rest ∧ P rest) ↔
      (d < w → ∃ a rest, rs = some a :: rest ∧ P rest) ∧ (¬ d < w → P rs) := by
  unfold Taken
  by_cases hlt : d < w
  · simp only [hlt, if_true, forall_const, not_true_eq_false, false_imp_iff, and_true]
    constructor
    · rintro ⟨rest, ⟨a, hrs⟩, hP⟩
      exact ⟨a, rest, hrs, hP⟩
    · rintro ⟨a, rest, hrs, hP⟩
      exact ⟨rest, ⟨a, hrs⟩, hP⟩
  · simp only [hlt, if_false, false_imp_iff, not_false_eq_true, forall_const, true_and,
      exists_eq_left]

/-- **The fallback function**: `d` is deposited and filled, its price forwarded and the change sent
back. -/
theorem yields_pay {post : Unit → World → List (Option Uint256) → Prop}
    (hinit : s.isInitialized = true) (hunfinished : s.isFinished = false)
    (hremaining : (ex.filled s.order.orderHash).val + (ex.cancelled s.order.orderHash).val +
      r.val = s.order.data.2.valueT.val) (hd : minUint w r = d) :
    yields (world dep kind (.system (.sale (.pay msg w)))) rs post ((s, ex), m) ↔
      yields (ChainXToken.deposit dep.this d : Contract _ Outside _ _) rs (fun _ s1 rs1 =>
        yields (Contract.link (Exchange.onMarket dep.exchange (chain kind))
            (Exchange.fillOrKill dep.exchange ⟨dep.this, msg.timestamp⟩ s.order.data d s.order.sig))
          rs1 (fun success st rs2 => success = true ∧ ∃ f, price s.order d = some f ∧
            yields (tokens (chain kind)
                ⟨dep.PROTOCOL_TOKEN_ADDRESS, dep.this, .transfer msg.sender f⟩) rs2
              (fun success ts rs3 => success ≠ 0 ∧ ∃ rest, Taken d w rs3 rest ∧
                post () ((s.paid msg w d f, st.1), st.2.1, ts) rest) st.2.2)
          (ex, m.1, Function.update m.2 dep.CHX_TOKEN_ADDRESS s1)) (m.2 dep.CHX_TOKEN_ADDRESS) := by
  have hvalueT := s.order.data.2.valueT.isLt
  have hsum : (ex.filled s.order.orderHash).val + (ex.cancelled s.order.orderHash).val <
      2 ^ 256 := by omega
  have hadd : safeAdd (ex.filled s.order.orderHash) (ex.cancelled s.order.orderHash) =
      some ⟨_, hsum⟩ := safeAdd_eq_some.mpr rfl
  have hsub : safeSub s.order.data.2.valueT ⟨_, hsum⟩ = some r :=
    safeSub_eq_some.mpr ⟨by simp only; omega, by simp only; omega⟩
  have hle : d ≤ w := by
    have hval := minUint_val w r
    rw [hd] at hval
    exact Fin.le_def.mpr (hval ▸ Nat.min_le_left _ _)
  have hchange : safeSub w d = some (w - d) := if_pos hle
  have hsuccess : ∀ b : Bool, (if b = true then (1 : Uint256) else 0) ≠ 0 ↔ b = true := by decide
  simp only [world, system, entry, fallback, deposit, fillOrKill, forward, refund, record,
    onExchange, onMarket, Exchange.getUnavailableValueT, link_bind, link_get, link_require,
    link_extCall, link_ofOption, link_ite, link_modify, link_pure, link_zoom, link_relabel,
    yields_bind, yields_get, yields_pure, yields_require, yields_ofOption, yields_zoom,
    yields_ite, yields_modify, yields_extCall, Lens.snd_view, Lens.snd_put, Lens.beside_view,
    Lens.beside_put, Lens.comp_view, Lens.comp_put, Tokens.one_view, hadd, hsub, hd, hchange,
    hsuccess, hinit, hunfinished, Option.some.injEq, exists_eq_left', true_and, exists_taken,
    Storage.paid]
  by_cases hlt : d < w
  · simp only [hlt, if_true, forall_const, not_true_eq_false, false_imp_iff, and_true]
    exact Iff.rfl
  · simp only [hlt, if_false, false_imp_iff, not_false_eq_true, forall_const, true_and]
    exact Iff.rfl

/-! ## What it needs -/

/-- What the accounts hold once the crowdsale has deposited `d`. -/
def held (dep : Deployment) (d : Uint256) (m : Exchange.Market) (k : Address × Address) : Nat :=
  Exchange.balance m k + if k = (dep.CHX_TOKEN_ADDRESS, dep.this) then d.val else 0

/-- The payments of a fill of `d` by the crowdsale. -/
def salePayments (dep : Deployment) (o : OrderData) (d : Uint256) :
    List (Lib.Payment (Address × Address)) :=
  Exchange.fillPayments dep.exchange dep.this o d

/-- Balances and allowances suffice for a fill of `d` and for passing on what it brings. -/
structure Sufficient (dep : Deployment) (kind : Address → Kind) (o : OrderData) (d : Uint256)
    (m : Exchange.Market) : Prop where
  payments : Lib.Affordable (held dep d m) (Exchange.limit dep.exchange m) []
    (Exchange.carried (chain kind) (salePayments dep o d))
  share : d.val * o.2.valueM.val / o.2.valueT.val +
      Lib.paid (dep.PROTOCOL_TOKEN_ADDRESS, dep.this)
        (Exchange.carried (chain kind) (salePayments dep o d)) ≤
    held dep d m (dep.PROTOCOL_TOKEN_ADDRESS, dep.this) +
      Lib.received (dep.PROTOCOL_TOKEN_ADDRESS, dep.this)
        (Exchange.carried (chain kind) (salePayments dep o d))

/-- A fill of `d` by the crowdsale can be paid, the answers `rs` leading to `rs'`. -/
structure Payable (dep : Deployment) (kind : Address → Kind) (o : OrderData) (d : Uint256)
    (m : Exchange.Market) (rs rs' : List (Option Uint256)) : Prop where
  authorized : m.1.authorized dep.EXCHANGE_ADDRESS = true
  fits : Exchange.Multiplies o d
  room : ∀ p ∈ salePayments dep o d, (kind p.payer.1).Room (m.2 p.payer.1)
  positive : ∀ p ∈ salePayments dep o d, kind p.payer.1 = .standard → 0 < p.value
  granted : Granted (Exchange.asked (chain kind) (salePayments dep o d)) rs rs'
  sufficient : Sufficient dep kind o d m
  /-- The CHX token counts all ether it has received in one word. -/
  ether : (m.2 dep.CHX_TOKEN_ADDRESS).totalSupply.val + d.val < 2 ^ 256

theorem price_of_getPartialValue {order : Order} {w v : Uint256}
    (h : Exchange.getPartialValue order.data.2.valueT w order.data.2.valueM = some v) :
    price order w = some v := by
  obtain ⟨hlt, hne, hv⟩ := Exchange.getPartialValue_eq_some.mp h
  unfold price
  rw [Option.bind_eq_some_iff]
  rw [Nat.mul_comm] at hlt hv
  exact ⟨⟨_, hlt⟩, safeMul_eq_some.mpr rfl, safeDiv_eq_some.mpr ⟨hne, hv⟩⟩

section Deposited

variable {s1 : Token.Storage}
  (hminted : ChainXToken.Minted (m.2 dep.CHX_TOKEN_ADDRESS) s1 dep.this d)
include hminted

theorem balance_of_minted :
    Exchange.balance (m.1, Function.update m.2 dep.CHX_TOKEN_ADDRESS s1) = held dep d m := by
  funext ⟨t, owner⟩
  by_cases ht : t = dep.CHX_TOKEN_ADDRESS
  · subst ht
    have hone := hminted.balances owner
    simp only [Exchange.balance, held, Function.update_self, Prod.mk.injEq, true_and]
    exact hone
  · simp only [Exchange.balance, held, Function.update_of_ne ht, Prod.mk.injEq, ht, false_and,
      if_false, Nat.add_zero]

theorem limit_of_minted :
    Exchange.limit dep.exchange (m.1, Function.update m.2 dep.CHX_TOKEN_ADDRESS s1) =
      Exchange.limit dep.exchange m := by
  funext ⟨t, owner⟩
  by_cases ht : t = dep.CHX_TOKEN_ADDRESS
  · subst ht
    simp only [Exchange.limit, Function.update_self, hminted.allowed]
  · simp only [Exchange.limit, Function.update_of_ne ht]

/-- After the deposit the payments can be made. -/
theorem Payable.solvent {o : OrderData} (h : Payable dep kind o d m rs rs')
    (hC : kind dep.CHX_TOKEN_ADDRESS = .withOverflowProtection) (hm : Backing dep m) :
    Exchange.Solvent dep.exchange (chain kind)
      (m.1, Function.update m.2 dep.CHX_TOKEN_ADDRESS s1) rs (salePayments dep o d) rs' where
  authorized := h.authorized
  room p hp := (supplied_chxUpdate hminted.backed).room hC hm.chx (h.room p hp)
  affordable := by
    rw [balance_of_minted hminted, limit_of_minted hminted]
    exact h.sufficient.payments
  positive := h.positive
  granted := h.granted

/-- When the payments are made, the crowdsale has what it passes on. -/
theorem Sufficient.share_le {o : OrderData} {m2 : Exchange.Market} (h : Sufficient dep kind o d m)
    (hpaid : Exchange.PaidOut dep.exchange (chain kind)
      (m.1, Function.update m.2 dep.CHX_TOKEN_ADDRESS s1) rs (salePayments dep o d) m2 rs') :
    d.val * o.2.valueM.val / o.2.valueT.val ≤
      ((m2.2 dep.PROTOCOL_TOKEN_ADDRESS).balances dep.this).val := by
  have hmoved := hpaid.drawn.applied.balance_eq (dep.PROTOCOL_TOKEN_ADDRESS, dep.this)
  have hshare := h.share
  rw [balance_of_minted hminted] at hmoved
  have hbalance : Exchange.balance m2 (dep.PROTOCOL_TOKEN_ADDRESS, dep.this) =
    ((m2.2 dep.PROTOCOL_TOKEN_ADDRESS).balances dep.this).val := rfl
  omega

end Deposited

/-- The deposit fits the CHX token. -/
theorem Payable.returns_deposit {o : OrderData} (h : Payable dep kind o d m rs rs')
    (hm : Backing dep m) :
    returns (ChainXToken.deposit dep.this d : Contract _ Outside Uint256 _)
      (fun _ s1 => ChainXToken.Minted (m.2 dep.CHX_TOKEN_ADDRESS) s1 dep.this d)
      (m.2 dep.CHX_TOKEN_ADDRESS) := by
  have hsupply : supply (m.2 dep.CHX_TOKEN_ADDRESS) =
      (m.2 dep.CHX_TOKEN_ADDRESS).totalSupply.val := hm.chx
  have hbalance := balance_le_supply (m.2 dep.CHX_TOKEN_ADDRESS) dep.this
  have hether := h.ether
  exact returns_mono (returns_and (ChainXToken.returns_deposit (by omega) hether)
    (ChainXToken.wp_deposit (B := Boundary.still))) fun _ _ h => h.2

/-- **A payment goes through** whose fill is payable, of an order that is fillable. -/
theorem yields_sale {post : Unit → World → List (Option Uint256) → Prop}
    (hP : kind dep.PROTOCOL_TOKEN_ADDRESS = .standard)
    (hC : kind dep.CHX_TOKEN_ADDRESS = .withOverflowProtection) (hs : Selling dep (s, ex))
    (hm : Backing dep m) (hinit : s.isInitialized = true) (hunfinished : s.isFinished = false)
    (hremaining : (ex.filled s.order.orderHash).val + (ex.cancelled s.order.orderHash).val +
      r.val = s.order.data.2.valueT.val) (hd : minUint w r = d)
    (hfillable : Exchange.Fillable dep.exchange ⟨dep.this, msg.timestamp⟩ s.order.data d
      s.order.sig ex)
    (h : Payable dep kind s.order.data d m rs rs') (htaken : Taken d w rs' rs'')
    (hpost : ∀ f ex' m', post () ((s.paid msg w d f, ex'), m') rs'') :
    yields (world dep kind (.system (.sale (.pay msg w)))) rs post ((s, ex), m) := by
  have hne : s.order.data.2.valueT.val ≠ 0 := by
    have hpos := hfillable.fits.pos
    have hroom := hfillable.fits.room
    omega
  have hlt := Nat.lt_of_le_of_lt (Nat.div_le_self (d.val * s.order.data.2.valueM.val)
    s.order.data.2.valueT.val) h.fits.valueM
  have hprice : price s.order d = some ⟨_, hlt⟩ := price_of_getPartialValue
    (Exchange.getPartialValue_eq_some.mpr ⟨h.fits.valueM, hne, rfl⟩)
  rw [yields_pay hinit hunfinished hremaining hd]
  refine yields_of_returns (h.returns_deposit hm) fun _ s1 hminted => ?_
  refine Exchange.yields_fillOrKill hfillable h.fits (h.solvent hminted hC hm)
    fun ex' m2 hpaid => ⟨rfl, _, hprice, ?_⟩
  -- the crowdsale passes on what it has received
  have hfits : ((chain kind).kind dep.PROTOCOL_TOKEN_ADDRESS).Fits
      (m2.2 dep.PROTOCOL_TOKEN_ADDRESS) ⟨_, hlt⟩ := by
    have htokenM : s.order.data.1.tokenM = dep.PROTOCOL_TOKEN_ADDRESS := (hs.order hinit).1
    have hroom := (supplied_chxUpdate hminted.backed).room hC hm.chx (hm.room_protocol hP)
    exact (hroom.same (hpaid.drawn.supply _)).fits (by rw [hP]; decide) fun _ =>
      h.positive _ List.mem_cons_self (htokenM ▸ hP)
  have hle := h.sufficient.share_le hminted hpaid
  exact yields_of_returns (returns_tokens_transfer hfits hle) fun _ ts hsuccess =>
    ⟨hsuccess, rs'', htaken, hpost _ ex' (m2.1, ts)⟩

end ChainX.SimpleCrowdsale
