import ChainX.Exchange.Spec
import ChainX.Proxy.Basic
import ChainX.Token.Market

/-!
# The exchange on its proxy and its tokens

The exchange linked with the contracts it calls (`onMarket`): the proxy moves the tokens if it has
authorised the exchange (`Proxy.sol:76-86`), and the tokens at their addresses do the moving. Only
what a foreign token answers is left to the outside.

* Linking replaces a question by the code that answers it, and keeps the storages of the contracts
  side by side (`Reentry.Link`). The rules of each contract become rules of the linked one.
* The exchange asks a token itself for balances and allowances (`chainx.sol:549-567`), and moves
  tokens through the proxy only.

Results:
* `wp_onMarket_supply`: no question of the exchange changes any supply.
* `wp_market_fillOrKill`: a fill without fees that goes through has traded (`Traded`).
* `Fillable`: an order the exchange fills as asked, with what the tokens then do
  (`Fillable.link_fillOrKill`). The crowdsale buys with it.
-/

namespace ChainX.Exchange

open ChainX.Evm ChainX.Reentry ChainX.Token

-- the hash is never computed here
attribute [local irreducible] getOrderHash

/-- The proxy and the tokens. -/
abbrev Market := Proxy.Storage × Tokens

variable {O : Type}

/-- The calls of the proxy are answered by the tokens. -/
def onTokens (dep : Deployment) (chain : Chain O) (q : Proxy.Query) :
    Contract Tokens O Uint256 Uint256 :=
  tokens chain ⟨q.token, dep.PROXY, .transferFrom q.payer q.payee q.value⟩

/-- The calls of the exchange are answered by the proxy and the tokens. -/
def onMarket (dep : Deployment) (chain : Chain O) : Query → Contract Market O Uint256 Uint256
  | .transferFrom _ token payer payee value => do
    return word (← Contract.link (onTokens dep chain)
      (Proxy.transferFrom dep.this token payer payee value))
  | .balanceOf _ token owner =>
    Contract.zoom Lens.snd (tokens chain ⟨token, dep.this, .balanceOf owner⟩)
  | .allowance _ token owner spender =>
    Contract.zoom Lens.snd (tokens chain ⟨token, dep.this, .allowance owner spender⟩)

variable {dep : Deployment} {chain : Chain O} {s : Storage} {m : Market}

/-! ## One question -/

/-- A transfer through the proxy. -/
structure Proxied (dep : Deployment) (m m' : Market) (token payer payee : Address)
    (value : Uint256) : Prop where
  authorized : m.1.authorized dep.this = true
  proxy : m'.1 = m.1
  transferred : Transferred m.2 m'.2 token payer payee value
  spent : Spent (m.2 token) (m'.2 token) payer dep.PROXY value

theorem wp_onMarket_supply (q : Query) :
    wp Boundary.still (onMarket dep chain q)
      (fun _ m' => ∀ t, SameSupply (m.2 t) (m'.2 t)) m := by
  cases q with
  | transferFrom h token payer payee value =>
    simp only [onMarket, onTokens, Proxy.transferFrom, link_bind, link_get, link_require,
      link_extCall, link_pure, wp_bind, wp_get, wp_pure, wp_require, wp_zoom]
    exact fun _ => wp_mono (wp_tokens_supply _) fun _ ts' h _ => h
  | balanceOf h token owner => exact (wp_zoom _).mpr (wp_tokens_supply _)
  | allowance h token owner spender => exact (wp_zoom _).mpr (wp_tokens_supply _)

theorem wp_onMarket_transferFrom {h : Bytes32} {token payer payee : Address} {value : Uint256}
    (hkind : chain.kind token ≠ .foreign) :
    wp Boundary.closed (onMarket dep chain (.transferFrom h token payer payee value))
      (fun success m' => success = 1 ∧ Proxied dep m m' token payer payee value) m := by
  simp only [onMarket, onTokens, Proxy.transferFrom, link_bind, link_get, link_require,
    link_extCall, link_pure, wp_bind, wp_get, wp_pure, wp_require, wp_zoom_closed]
  refine fun hauth => wp_mono (wp_tokens_transferFrom hkind) fun success ts' h hsuccess => ?_
  obtain ⟨htransferred, hspent⟩ := h hsuccess
  exact ⟨rfl, hauth, rfl, htransferred, hspent⟩

/-- `payer` has `value` of `token` and allows the proxy to move it. -/
structure Covers (dep : Deployment) (chain : Chain O) (ts : Tokens) (token payer : Address)
    (value : Uint256) : Prop where
  fits : (chain.kind token).Fits (ts token) value
  balance : value.val ≤ ((ts token).balances payer).val
  allowance : value.val ≤ ((ts token).allowed payer dep.PROXY).val

theorem Covers.not_foreign {ts : Tokens} {token payer : Address} {value : Uint256}
    (h : Covers dep chain ts token payer value) : chain.kind token ≠ .foreign := by
  intro hk
  have hfits := h.fits
  rw [hk] at hfits
  exact hfits

theorem returns_onMarket_transferFrom {h : Bytes32} {token payer payee : Address}
    {value : Uint256} (hauth : m.1.authorized dep.this = true)
    (hcovers : Covers dep chain m.2 token payer value) :
    returns (onMarket dep chain (.transferFrom h token payer payee value))
      (fun _ _ => True) m := by
  simp only [onMarket, onTokens, Proxy.transferFrom, link_bind, link_get, link_require,
    link_extCall, link_pure, returns_bind, returns_get, returns_pure, returns_require,
    returns_zoom]
  exact ⟨hauth, returns_mono (returns_tokens_transferFrom hcovers.fits hcovers.balance
    hcovers.allowance) fun _ _ h => ⟨h, trivial⟩⟩

/-! ## A fill that passes its checks -/

/-- What remains, as `fill` reads it. -/
theorem remainingValueT_apply {o : OrderData} {r : Uint256}
    (hr : (s.filled (getOrderHash dep o)).val + (s.cancelled (getOrderHash dep o)).val + r.val =
      o.2.valueT.val) : remainingValueT (dep.order o) s = .ret r s := by
  have hT := o.2.valueT.isLt
  have hsum : (s.filled (getOrderHash dep o)).val + (s.cancelled (getOrderHash dep o)).val <
      2 ^ 256 := by omega
  have hadd : safeAdd (s.filled (dep.order o).orderHash) (s.cancelled (dep.order o).orderHash) =
      some ⟨_, hsum⟩ := safeAdd_eq_some.mpr rfl
  have hsub : safeSub (dep.order o).valueT ⟨_, hsum⟩ = some r := by
    refine safeSub_eq_some.mpr ⟨?_, ?_⟩
    · simp only [Deployment.order]
      omega
    · simp only [Deployment.order]
      omega
  have hunavailable : getUnavailableValueT (dep.order o).orderHash s = .ret ⟨_, hsum⟩ s := by
    unfold getUnavailableValueT
    rw [Contract.bind_ret (Contract.get_apply s), hadd]
    rfl
  unfold remainingValueT
  rw [Contract.bind_ret hunavailable, hsub]
  rfl

/-- A fill that passes its checks, and the prediction if it is asked for, settles. -/
theorem link_fill_eq {msg : Msg} {o : OrderData} {n f : Uint256} {check : Bool} {sig : Signature}
    (h : Passes dep msg o n sig s f)
    (htrue : check = true → Contract.link (onMarket dep chain)
      (isTransferable dep msg (dep.order o) f) (s, m) = .ret true (s, m)) :
    Contract.link (onMarket dep chain) (fill dep msg o n check sig) (s, m) =
      Contract.link (onMarket dep chain) (settle dep msg (dep.order o) f) (s, m) := by
  have hroom := h.fits.room
  have hle := h.fits.le
  have hT := o.2.valueT.isLt
  obtain ⟨r, hr⟩ : ∃ r : Uint256, r.val = o.2.valueT.val -
      ((s.filled (getOrderHash dep o)).val + (s.cancelled (getOrderHash dep o)).val) :=
    ⟨⟨_, by omega⟩, rfl⟩
  have hmin : minUint n r = f := by
    refine Fin.ext ((minUint_val _ _).trans ?_)
    rcases h.greedy with rfl | hall
    · exact Nat.min_eq_left (by omega)
    · rw [Nat.min_eq_right (by omega)]
      omega
  have hne : f ≠ 0 := by
    rintro rfl
    exact absurd h.fits.pos (by decide)
  have htaker : (dep.order o).taker = 0 ∨ (dep.order o).taker = msg.sender := h.taker
  have hlive : ¬ (dep.order o).expiration ≤ msg.timestamp := not_le.mpr h.unexpired
  have hround : ¬ isRoundingError (dep.order o).valueT f (dep.order o).valueM = true := by
    rw [show isRoundingError (dep.order o).valueT f (dep.order o).valueM = false from h.rounding]
    simp
  have hremaining : remainingValueT (dep.order o) s = .ret r s :=
    remainingValueT_apply (by omega)
  have hchecks : fill dep msg o n check sig s =
      ((if check then isTransferable dep msg (dep.order o) f else pure true) >>= fun transferable =>
        if transferable = false then do
          emit (.logError ERROR_FILL_BALANCE_ALLOWANCE (dep.order o).orderHash)
          return 0
        else do
          Contract.require
            (isValidSignature dep.crypto (dep.order o).maker (dep.order o).orderHash sig = true)
          settle dep msg (dep.order o) f) s := by
    unfold fill
    rw [Contract.bind_ret ((Contract.require_apply _ _).trans (if_pos htaker)), if_neg hlive,
      Contract.bind_ret hremaining, hmin]
    simp only [if_neg hne, if_neg hround]
    cases check <;> rfl
  have hsigned : isValidSignature dep.crypto (dep.order o).maker (dep.order o).orderHash sig =
    true := h.signed
  have hpredicted : Contract.link (onMarket dep chain)
      (if check then isTransferable dep msg (dep.order o) f else pure true) (s, m) =
        .ret true (s, m) := by
    cases check with
    | true => exact htrue rfl
    | false => rfl
  refine (congrArg (fun p => Proc.link (onMarket dep chain) p m) hchecks).trans ?_
  change Contract.link (onMarket dep chain) (_ >>= _) (s, m) = _
  rw [link_bind, Contract.bind_ret hpredicted, if_neg (by simp), link_bind, link_require,
    Contract.bind_ret ((Contract.require_apply _ _).trans (if_pos hsigned))]

/-! ## A fill without fees -/

theorem wp_market_transferViaProxy {h : Bytes32} {leg : Leg} {token payer payee : Address}
    {value : Uint256} {post : Bool → Storage × Market → Prop}
    (hkind : chain.kind token ≠ .foreign)
    (hpost : ∀ m', Proxied dep m m' token payer payee value →
      post true ({ s with moves := ⟨h, leg, token, payer, payee, value⟩ :: s.moves }, m')) :
    wp Boundary.closed (Contract.link (onMarket dep chain)
      (transferViaProxy h leg token payer payee value)) post (s, m) := by
  simp only [transferViaProxy, link_bind, link_extCall, link_ite, link_modify, link_pure, wp_bind,
    wp_zoom_closed, wp_ite, wp_modify, wp_pure]
  refine wp_mono (wp_onMarket_transferFrom hkind) ?_
  rintro _ m' ⟨rfl, hm'⟩
  exact ⟨fun _ => hpost m' hm', fun h => absurd (by decide) h⟩

theorem returns_market_transferViaProxy {h : Bytes32} {leg : Leg} {token payer payee : Address}
    {value : Uint256} {post : Bool → Storage × Market → Prop}
    (hauth : m.1.authorized dep.this = true) (hcovers : Covers dep chain m.2 token payer value)
    (hpost : ∀ m', Proxied dep m m' token payer payee value →
      post true ({ s with moves := ⟨h, leg, token, payer, payee, value⟩ :: s.moves }, m')) :
    returns (Contract.link (onMarket dep chain)
      (transferViaProxy h leg token payer payee value)) post (s, m) := by
  simp only [transferViaProxy, link_bind, link_extCall, link_ite, link_modify, link_pure,
    returns_bind, returns_zoom, returns_ite, returns_modify, returns_pure]
  refine returns_mono (returns_and (returns_onMarket_transferFrom hauth hcovers)
    (wp_onMarket_transferFrom hcovers.not_foreign)) ?_
  rintro _ m' ⟨-, rfl, hm'⟩
  exact ⟨fun _ => hpost m' hm', fun h => absurd (by decide) h⟩

/-- The order asks for no fee. -/
def FeeFree (o : OrderData) : Prop :=
  o.1.feeRecipient = 0 ∨ o.2.feeM = 0 ∧ o.2.feeT = 0

theorem FeeFree.no_fee {o : OrderData} (hfree : FeeFree o) {fee : Uint256}
    (hfee : fee = o.2.feeM ∨ fee = o.2.feeT) : ¬ (o.1.feeRecipient ≠ 0 ∧ 0 < fee) := by
  rintro ⟨hrecipient, hpos⟩
  rcases hfree with h | ⟨hM, hT⟩
  · exact hrecipient h
  · rcases hfee with rfl | rfl
    · rw [hM] at hpos
      exact absurd hpos (by decide)
    · rw [hT] at hpos
      exact absurd hpos (by decide)

theorem FeeFree.payFee {run : Query → Contract Market O Uint256 Uint256} {o : OrderData}
    (hfree : FeeFree o) {leg : Leg} {payer : Address} {fee f : Uint256}
    (hfee : fee = o.2.feeM ∨ fee = o.2.feeT) :
    Contract.link run (payFee dep (dep.order o) leg payer fee f) = pure 0 := by
  have hno : ¬ ((dep.order o).feeRecipient ≠ 0 ∧ 0 < fee) := hfree.no_fee hfee
  unfold Exchange.payFee
  rw [if_neg hno, link_pure]

/-- **A trade**: `n` of `tokenT` for `v` of `tokenM`, between the maker of `o` and `taker`. -/
structure Traded (dep : Deployment) (o : OrderData) (taker : Address) (n v : Uint256)
    (st st' : Storage × Market) : Prop where
  price : getPartialValue o.2.valueT n o.2.valueM = some v
  filled : (st'.1.filled (getOrderHash dep o)).val = (st.1.filled (getOrderHash dep o)).val + n.val
  cancelled : st'.1.cancelled = st.1.cancelled
  transfers : ∃ m, Proxied dep st.2 m o.1.tokenM o.1.maker taker v ∧
    Proxied dep m st'.2 o.1.tokenT taker o.1.maker n

variable {msg : Msg} {o : OrderData} {n : Uint256} {sig : Signature}

theorem wp_market_settle (hfree : FeeFree o) (hM : chain.kind o.1.tokenM ≠ .foreign)
    (hT : chain.kind o.1.tokenT ≠ .foreign) :
    wp Boundary.closed (Contract.link (onMarket dep chain) (settle dep msg (dep.order o) n))
      (fun f st' => f = n ∧ ∃ v, Traded dep o msg.sender n v (s, m) st') (s, m) := by
  have hfeeM : (dep.order o).feeM = o.2.feeM ∨ (dep.order o).feeM = o.2.feeT := .inl rfl
  have hfeeT : (dep.order o).feeT = o.2.feeM ∨ (dep.order o).feeT = o.2.feeT := .inr rfl
  simp only [settle, emit, link_bind, link_get, link_require, link_ofOption, link_modify,
    link_pure, hfree.payFee hfeeM, hfree.payFee hfeeT, wp_bind, wp_get, wp_pure, wp_require,
    wp_ofOption, wp_modify, safeAdd_eq_some]
  intro v hv filled hfilled
  refine wp_market_transferViaProxy hM fun m1 hm1 _ => ?_
  refine wp_market_transferViaProxy hT fun m2 hm2 _ => ?_
  refine ⟨trivial, v, hv, ?_, rfl, m1, hm1, hm2⟩
  have hself : Function.update s.filled (dep.order o).orderHash filled (getOrderHash dep o) =
      filled := Function.update_self _ _ _
  simp only [hself]
  exact hfilled

theorem wp_market_fillOrKill (hfree : FeeFree o) (hM : chain.kind o.1.tokenM ≠ .foreign)
    (hT : chain.kind o.1.tokenT ≠ .foreign) (hn : 0 < n.val) :
    wp Boundary.closed (Contract.link (onMarket dep chain) (fillOrKill dep msg o n sig))
      (fun success st' => success = true ∧ ∃ v, Traded dep o msg.sender n v (s, m) st')
      (s, m) := by
  have hne : (0 : Uint256) ≠ n := by
    rintro rfl
    exact absurd hn (by decide)
  simp only [fillOrKill, fill, remainingValueT, getUnavailableValueT, emit, link_bind, link_get,
    link_require, link_ofOption, link_ite, link_modify, link_pure, wp_bind, wp_get, wp_pure,
    wp_require, wp_ofOption, wp_ite, wp_modify, Bool.false_eq_true, if_false, hne, false_imp_iff,
    implies_true, true_and]
  intro _ _ unavailable _ remaining _ _ _ _ _
  refine wp_mono (wp_market_settle hfree hM hT) ?_
  rintro f st' ⟨hf, v, hv⟩ hfn
  rw [← hf, hfn] at hv
  exact ⟨v, hv⟩

/-- What is asked of a fill of `n` that is to go through, beside what the tokens ask. -/
structure Fillable (dep : Deployment) (msg : Msg) (o : OrderData) (n : Uint256) (sig : Signature)
    (s : Storage) : Prop where
  taker : o.1.taker = 0 ∨ o.1.taker = msg.sender
  unexpired : msg.timestamp < o.2.expiration
  fits : Fits dep o s n n
  rounding : isRoundingError o.2.valueT n o.2.valueM = false
  signed : isValidSignature dep.crypto o.1.maker (getOrderHash dep o) sig = true

theorem Fillable.passes (h : Fillable dep msg o n sig s) : Passes dep msg o n sig s n :=
  ⟨h.taker, h.unexpired, h.fits, .inl rfl, h.rounding, h.signed⟩

/-- A fillable order is settled, and `fillOrKill` compares the amounts. -/
theorem Fillable.link_fillOrKill (h : Fillable dep msg o n sig s) :
    Contract.link (onMarket dep chain) (fillOrKill dep msg o n sig) (s, m) =
      (do
        let filledValueT ← Contract.link (onMarket dep chain) (settle dep msg (dep.order o) n)
        Contract.require (filledValueT = n)
        return true : Contract (Storage × Market) O Uint256 Bool) (s, m) := by
  have hfill : Contract.link (onMarket dep chain) (fill dep msg o n false sig) (s, m) =
      Contract.link (onMarket dep chain) (settle dep msg (dep.order o) n) (s, m) :=
    link_fill_eq h.passes fun hcheck => absurd hcheck (by simp)
  simp only [fillOrKill, link_bind, link_require, link_pure]
  rw [Contract.bind_apply, hfill]
  rfl

end ChainX.Exchange
