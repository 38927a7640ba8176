import ChainX.SimpleCrowdsale.Payment

/-!
# Buying from the crowdsale

A payment to a sale of an order without fees, offered by a maker who can deliver (`Offered`), in the
world of all contracts.

* The crowdsale checks the maker's signature of the order's hash under one prefix
  (`SimpleCrowdsale.sol:187-202`), and its exchange under another (`chainx.sol:432-447`). With a
  hash that tells the two messages apart, what the first accepts the second rejects, unless the
  maker is the null address and nothing was recovered at all.
* `saleRun` starts a sale of the deployed contracts, and `unbuyable` is what becomes of it.

Results:
* `delivered_pay`: a payment that goes through delivers (`Bought`).
* `isValidSignature_exchange_iff`: the crowdsale and its exchange check the maker's signature of
  different messages.
* **`accepted_iff`**: when payments are accepted, in any state a run comes to.
* **`unbuyable`**: a sale nobody can buy from.
-/

namespace ChainX.SimpleCrowdsale

open ChainX.Evm ChainX.Reentry ChainX.Token
open ChainX.Exchange (OrderData)

-- the hash is never computed in the general results
attribute [local irreducible] Exchange.getOrderHash

variable {dep : Deployment} {kind : Address → Kind}

/-! ## One payment -/

/-- What a payment of `w` does on the market: the buyer gets `v` of the maker's tokens, the maker
`w` of the CHX token. -/
structure Bought (dep : Deployment) (o : OrderData) (buyer : Address) (w v : Uint256)
    (m m' : Exchange.Market) : Prop where
  protocol : ∀ a, ((m'.2 dep.PROTOCOL_TOKEN_ADDRESS).balances a).val +
      (if a = o.1.maker then v.val else 0) =
    ((m.2 dep.PROTOCOL_TOKEN_ADDRESS).balances a).val + (if a = buyer then v.val else 0)
  chx : ∀ a, ((m'.2 dep.CHX_TOKEN_ADDRESS).balances a).val =
    ((m.2 dep.CHX_TOKEN_ADDRESS).balances a).val + (if a = o.1.maker then w.val else 0)
  /-- The crowdsale allowed it. -/
  allowance : w.val ≤ ((m.2 dep.CHX_TOKEN_ADDRESS).allowed dep.this dep.PROXY_ADDRESS).val

/-- Minted, traded and forwarded is bought. -/
theorem bought_of_transfers {o : OrderData} {buyer : Address} {w v : Uint256}
    {m m1 m2 : Exchange.Market} {s1 : Token.Storage} {ts : Tokens}
    (hne : dep.PROTOCOL_TOKEN_ADDRESS ≠ dep.CHX_TOKEN_ADDRESS)
    (hminted : ChainXToken.Minted (m.2 dep.CHX_TOKEN_ADDRESS) s1 dep.this w)
    (hM : Exchange.Proxied dep.exchange (m.1, Function.update m.2 dep.CHX_TOKEN_ADDRESS s1) m1
      dep.PROTOCOL_TOKEN_ADDRESS o.1.maker dep.this v)
    (hT : Exchange.Proxied dep.exchange m1 m2 dep.CHX_TOKEN_ADDRESS dep.this o.1.maker w)
    (hforward : Transferred m2.2 ts dep.PROTOCOL_TOKEN_ADDRESS dep.this buyer v) :
    Bought dep o buyer w v m (m2.1, ts) := by
  have hP2 := hT.transferred.others _ hne
  have hC1 : m1.2 dep.CHX_TOKEN_ADDRESS = s1 :=
    (hM.transferred.others _ hne.symm).trans (Function.update_self _ _ _)
  have hC3 := hforward.others _ hne.symm
  refine ⟨fun a => ?_, fun a => ?_, ?_⟩
  · have h1 := hM.transferred.moved.balances a
    have h3 := hforward.moved.balances a
    simp only [Function.update_of_ne hne] at h1
    rw [hP2] at h3
    simp only
    omega
  · have h1 := hminted.balances a
    have h2 := hT.transferred.moved.balances a
    rw [hC1] at h2
    simp only [hC3]
    omega
  · have h2 := hT.spent dep.this dep.PROXY_ADDRESS
    rw [if_pos ⟨rfl, rfl⟩, hC1, hminted.allowed] at h2
    omega

theorem bought_pay {msg : Msg} {w : Uint256} {s : Storage} {ex : Exchange.Storage}
    {m : Exchange.Market} (hne : dep.PROTOCOL_TOKEN_ADDRESS ≠ dep.CHX_TOKEN_ADDRESS)
    (hP : kind dep.PROTOCOL_TOKEN_ADDRESS ≠ .foreign)
    (hC : kind dep.CHX_TOKEN_ADDRESS ≠ .foreign) (hs : Selling dep (s, ex))
    (hfree : Exchange.FeeFree s.order.data) (hw : 0 < w.val)
    (hle : (ex.filled s.order.orderHash).val + (ex.cancelled s.order.orderHash).val + w.val ≤
      s.order.data.2.valueT.val) :
    wp Boundary.still (world dep kind (.system (.sale (.pay msg w))))
      (fun _ W' => ∃ v, Exchange.getPartialValue s.order.data.2.valueT w s.order.data.2.valueM =
        some v ∧ Bought dep s.order.data msg.sender w v m W'.2) ((s, ex), m) := by
  simp only [world, system, entry, fallback, deposit, fillOrKill, forward, refund, record,
    onExchange, onMarket, Exchange.getUnavailableValueT, link_bind, link_get, link_require,
    link_extCall, link_ofOption, link_ite, link_modify, link_pure, link_zoom, link_relabel,
    wp_bind, wp_get, wp_pure, wp_require, wp_ofOption, wp_zoom, wp_ite, wp_modify, wp_extCall,
    Lens.snd_view, Lens.snd_put, Lens.beside_view, Lens.beside_put, Lens.comp_view, Lens.comp_put,
    Tokens.one_view, safeAdd_eq_some, safeSub_eq_some]
  intro hinit _ unavailable hunavailable remaining hremaining
  obtain ⟨htokenM, htokenT, -⟩ := hs.order hinit
  have hmin : minUint w remaining = w := by
    have := minUint_val w remaining
    exact Fin.ext (by omega)
  rw [hmin]
  refine wp_mono ChainXToken.wp_deposit fun _ s1 hminted => ?_
  refine wp_mono (wp_of_closed (Exchange.wp_market_fillOrKill hfree (htokenM ▸ hP)
    (htokenT ▸ hC) hw)) ?_
  rintro _ ⟨ex', m2⟩ ⟨-, v, htraded⟩ - f hf
  have hfv : f = v :=
    Fin.ext ((price_eq_some hf).trans (Exchange.getPartialValue_eq_some.mp htraded.price).2.2.symm)
  subst hfv
  refine wp_mono (wp_tokens_transfer hP) fun success ts h hsuccess => ?_
  refine ⟨fun hlt => absurd hlt (lt_irrefl w), fun _ => ⟨f, htraded.price, ?_⟩⟩
  obtain ⟨m1, hM, hT⟩ := htraded.transfers
  rw [htokenM] at hM
  rw [htokenT] at hT
  exact bought_of_transfers hne hminted hM hT (h hsuccess)

/-- What a buyer may count on: the payment `w` is worth `v` tokens of a maker who can deliver. -/
structure Offered (dep : Deployment) (msg : Msg) (w v : Uint256) (s : Storage)
    (ex : Exchange.Storage) (m : Exchange.Market) : Prop where
  isInitialized : s.isInitialized = true
  pos : 0 < w.val
  remaining : (ex.filled s.order.orderHash).val + (ex.cancelled s.order.orderHash).val + w.val ≤
    s.order.data.2.valueT.val
  unexpired : msg.timestamp < s.order.data.2.expiration
  feeFree : Exchange.FeeFree s.order.data
  taker : s.order.data.1.taker = 0 ∨ s.order.data.1.taker = dep.this
  rounding : Exchange.isRoundingError s.order.data.2.valueT w s.order.data.2.valueM = false
  price : Exchange.getPartialValue s.order.data.2.valueT w s.order.data.2.valueM = some v
  positive : 0 < v.val
  authorized : m.1.authorized dep.EXCHANGE_ADDRESS = true
  balance : v.val ≤ ((m.2 dep.PROTOCOL_TOKEN_ADDRESS).balances s.order.data.1.maker).val
  allowance : v.val ≤
    ((m.2 dep.PROTOCOL_TOKEN_ADDRESS).allowed s.order.data.1.maker dep.PROXY_ADDRESS).val
  /-- The CHX token counts all ether it has received in one word. -/
  ether : (m.2 dep.CHX_TOKEN_ADDRESS).totalSupply.val + w.val < 2 ^ 256

section Offered

variable {msg : Msg} {w v : Uint256} {s : Storage} {ex : Exchange.Storage} {m : Exchange.Market}

theorem Offered.fillable (h : Offered dep msg w v s ex m) (hs : Selling dep (s, ex))
    (hsig : Exchange.isValidSignature dep.crypto s.order.data.1.maker s.order.orderHash
      s.order.sig = true) :
    Exchange.Fillable dep.exchange ⟨dep.this, msg.timestamp⟩ s.order.data w s.order.sig ex := by
  have hhash : s.order.orderHash = Exchange.getOrderHash dep.exchange s.order.data :=
    hs.hash h.isInitialized
  refine ⟨h.taker, h.unexpired, ⟨h.pos, le_rfl, ?_⟩, h.rounding, ?_⟩
  · rw [← hhash]
    exact h.remaining
  · rw [← hhash]
    exact hsig

/-- The maker pays the price and the crowdsale what it has deposited. -/
theorem Offered.salePayments_eq (h : Offered dep msg w v s ex m) (hs : Selling dep (s, ex)) :
    salePayments dep s.order.data w =
      [Exchange.payment dep.PROTOCOL_TOKEN_ADDRESS s.order.data.1.maker dep.this v.val,
        Exchange.payment dep.CHX_TOKEN_ADDRESS dep.this s.order.data.1.maker w.val] := by
  have htokenM : s.order.data.1.tokenM = dep.PROTOCOL_TOKEN_ADDRESS := (hs.order h.isInitialized).1
  have htokenT : s.order.data.1.tokenT = dep.CHX_TOKEN_ADDRESS := (hs.order h.isInitialized).2.1
  have hv := (Exchange.getPartialValue_eq_some.mp h.price).2.2
  unfold salePayments
  rw [h.feeFree.fillPayments, htokenM, htokenT, ← hv]

/-- What the maker and the crowdsale have and allow is enough. -/
theorem Offered.sufficient (h : Offered dep msg w v s ex m) (hs : Selling dep (s, ex))
    (hP : kind dep.PROTOCOL_TOKEN_ADDRESS = .standard)
    (hC : kind dep.CHX_TOKEN_ADDRESS = .withOverflowProtection)
    (hne : dep.PROTOCOL_TOKEN_ADDRESS ≠ dep.CHX_TOKEN_ADDRESS)
    (hallow : w.val ≤ ((m.2 dep.CHX_TOKEN_ADDRESS).allowed dep.this dep.PROXY_ADDRESS).val) :
    Sufficient dep kind s.order.data w m := by
  have hv := (Exchange.getPartialValue_eq_some.mp h.price).2.2
  have hbalance := h.balance
  have hcarried : Exchange.carried (chain kind) (salePayments dep s.order.data w) =
      [Exchange.payment dep.PROTOCOL_TOKEN_ADDRESS s.order.data.1.maker dep.this v.val,
        Exchange.payment dep.CHX_TOKEN_ADDRESS dep.this s.order.data.1.maker w.val] := by
    rw [h.salePayments_eq hs]
    simp [Exchange.carried, Exchange.payment, chain, hP, hC]
  constructor
  · rw [hcarried]
    refine ⟨⟨?_, h.allowance⟩, ⟨?_, ?_⟩, trivial⟩
    · simp only [Lib.paid, Lib.received, Exchange.payment, held, Exchange.balance, Nat.add_zero]
      omega
    · simp only [Lib.paid, Exchange.payment, held, Prod.mk.injEq, hne.symm, false_and, if_false,
        if_true]
      omega
    · simp only [Lib.paid, Exchange.payment, Prod.mk.injEq, hne.symm, false_and, if_false]
      exact hallow
  · rw [hcarried, ← hv]
    simp only [Lib.paid, Lib.received, Exchange.payment, held, Exchange.balance, Prod.mk.injEq,
      hne, true_and, false_and, if_true, if_false]
    -- the maker may be the crowdsale itself
    by_cases hself : dep.this = s.order.data.1.maker
    · rw [if_pos hself, hself]
      omega
    · rw [if_neg hself]
      omega

theorem Offered.payable (h : Offered dep msg w v s ex m) (hs : Selling dep (s, ex))
    (hm : Backing dep m) (hP : kind dep.PROTOCOL_TOKEN_ADDRESS = .standard)
    (hC : kind dep.CHX_TOKEN_ADDRESS = .withOverflowProtection)
    (hne : dep.PROTOCOL_TOKEN_ADDRESS ≠ dep.CHX_TOKEN_ADDRESS)
    (hallow : w.val ≤ ((m.2 dep.CHX_TOKEN_ADDRESS).allowed dep.this dep.PROXY_ADDRESS).val)
    (rs : List (Option Uint256)) : Payable dep kind s.order.data w m rs rs where
  authorized := h.authorized
  fits := h.feeFree.multiplies h.price
  room p hp := by
    rw [h.salePayments_eq hs] at hp
    rcases List.mem_pair.mp hp with rfl | rfl
    · exact hm.room_protocol hP
    · exact room_of_backed hC hm.chx
  positive p hp _ := by
    rw [h.salePayments_eq hs] at hp
    rcases List.mem_pair.mp hp with rfl | rfl
    · exact h.positive
    · exact h.pos
  granted := by
    have hnone : Exchange.asked (chain kind)
        (salePayments dep s.order.data w) = 0 := by
      rw [h.salePayments_eq hs]
      simp [Exchange.asked, Exchange.payment, chain, hP, hC]
    rw [hnone]
    rfl
  sufficient := h.sufficient hs hP hC hne hallow
  ether := h.ether

/-- **Where the exchange accepts the signature, the payment goes through.** -/
theorem yields_offered (hP : kind dep.PROTOCOL_TOKEN_ADDRESS = .standard)
    (hC : kind dep.CHX_TOKEN_ADDRESS = .withOverflowProtection) (hs : Selling dep (s, ex))
    (hm : Backing dep m) (h : Offered dep msg w v s ex m)
    (hsig : Exchange.isValidSignature dep.crypto s.order.data.1.maker s.order.orderHash
      s.order.sig = true)
    (hallow : w.val ≤ ((m.2 dep.CHX_TOKEN_ADDRESS).allowed dep.this dep.PROXY_ADDRESS).val)
    (rs : List (Option Uint256)) :
    yields (world dep kind (.system (.sale (.pay msg w)))) rs (fun _ _ _ => True)
      ((s, ex), m) := by
  have hne : dep.PROTOCOL_TOKEN_ADDRESS ≠ dep.CHX_TOKEN_ADDRESS := protocol_ne_chx hP hC
  have hpos := h.pos
  have hremaining := h.remaining
  have hvalueT := s.order.data.2.valueT.isLt
  have hunfinished : s.isFinished = false := by
    by_contra hfinished
    have hall : s.order.data.2.valueT.val ≤ (ex.filled s.order.orderHash).val +
        (ex.cancelled s.order.orderHash).val := hs.finished (by simpa using hfinished)
    omega
  have hrest : s.order.data.2.valueT.val - ((ex.filled s.order.orderHash).val +
      (ex.cancelled s.order.orderHash).val) < 2 ^ 256 := by omega
  -- the whole payment is deposited
  have hmin : minUint w ⟨_, hrest⟩ = w := by
    have := minUint_val w ⟨_, hrest⟩
    exact Fin.ext (by simp only at this; omega)
  exact yields_sale hP hC hs hm h.isInitialized hunfinished (by simp only; omega) hmin
    (h.fillable hs hsig) (h.payable hs hm hP hC hne hallow rs)
    ((if_neg (lt_irrefl w)).mpr rfl) fun _ _ _ => trivial

end Offered

/-- A payment that is accepted and delivers. -/
structure Delivered (dep : Deployment) (msg : Msg) (w v : Uint256) (W W' : World) : Prop where
  paid : ∃ ms, Paid dep msg w W.1 W'.1 w v ms
  bought : Bought dep W.1.1.order.data msg.sender w v W.2 W'.2

/-- A payment that goes through delivers, and the exchange has accepted the signature. -/
theorem delivered_pay {msg : Msg} {w v : Uint256} {W : World}
    (hP : kind dep.PROTOCOL_TOKEN_ADDRESS = .standard)
    (hC : kind dep.CHX_TOKEN_ADDRESS = .withOverflowProtection) (hs : Selling dep W.1)
    (h : Offered dep msg w v W.1.1 W.1.2 W.2) :
    wp Boundary.still (world dep kind (.system (.sale (.pay msg w))))
      (fun _ W' => Delivered dep msg w v W W' ∧ Exchange.isValidSignature dep.crypto
        W.1.1.order.data.1.maker W.1.1.order.orderHash W.1.1.order.sig = true) W := by
  have hne : dep.PROTOCOL_TOKEN_ADDRESS ≠ dep.CHX_TOKEN_ADDRESS := protocol_ne_chx hP hC
  have hpaid : wp Boundary.still (world dep kind (.system (.sale (.pay msg w))))
      (fun _ W' => (∃ d f ms, Paid dep msg w W.1 W'.1 d f ms) ∧ True) W :=
    wp_link_of_wp (A := fun _ _ => True) (J := fun _ => True) (fun _ _ _ _ _ => wp_still_true)
      (paid_fallback hs.hash) trivial
  have hbought : wp Boundary.still (world dep kind (.system (.sale (.pay msg w))))
      (fun _ W' => ∃ v, Exchange.getPartialValue W.1.1.order.data.2.valueT w
        W.1.1.order.data.2.valueM = some v ∧
        Bought dep W.1.1.order.data msg.sender w v W.2 W'.2) W :=
    bought_pay hne (by rw [hP]; decide) (by rw [hC]; decide) hs h.feeFree h.pos h.remaining
  refine wp_mono (wp_and hpaid hbought) ?_
  rintro _ W' ⟨⟨⟨d, f, ms, hd⟩, -⟩, v', hv', hb⟩
  have hvv' : v' = v := Option.some.inj (hv'.symm.trans h.price)
  subst hvv'
  have hdw : d = w := by
    rcases hd.effects with ⟨-, he, -⟩ | ⟨hover, -⟩
    · exact he
    · exact absurd h.remaining (Nat.not_le.mpr hover)
  subst hdw
  have hfv : f = v' :=
    Fin.ext (hd.price.trans (Exchange.getPartialValue_eq_some.mp hv').2.2.symm)
  subst hfv
  exact ⟨⟨⟨ms, hd⟩, hb⟩, hd.signed h.pos⟩

/-! ## The signature -/

/-- The two contracts have different messages signed, so that only the failure value of `ecrecover`
passes both checks. -/
theorem isValidSignature_exchange_iff {crypto : Crypto} {maker : Address} {hash : Bytes32}
    {sig : Signature}
    (hcollision : Exchange.signedHash crypto hash = signedHash crypto hash →
      packString "\x19chainxSigned Message:\n32" ++ packBytes32 hash =
        packString "\x19CHX Signed Message:\n32" ++ packBytes32 hash)
    (hrecovers : ∀ sig h h', crypto.ecrecover h sig = crypto.ecrecover h' sig →
      crypto.ecrecover h sig ≠ 0 → h = h')
    (hvalid : isValidSignature crypto maker hash sig = true) :
    Exchange.isValidSignature crypto maker hash sig = true ↔
      maker = 0 ∧ crypto.ecrecover (Exchange.signedHash crypto hash) sig = 0 := by
  have hmaker : maker = crypto.ecrecover (signedHash crypto hash) sig := beq_iff_eq.mp hvalid
  constructor
  · intro h
    have hmaker' : maker = crypto.ecrecover (Exchange.signedHash crypto hash) sig :=
      beq_iff_eq.mp h
    have hzero : maker = 0 := by
      by_contra hne
      have hsame := hrecovers sig (Exchange.signedHash crypto hash) (signedHash crypto hash)
        (hmaker'.symm.trans hmaker) (hmaker' ▸ hne)
      exact absurd (List.append_cancel_right (hcollision hsame)) (by decide)
    exact ⟨hzero, hmaker' ▸ hzero⟩
  · rintro ⟨hzero, hrecover⟩
    exact beq_iff_eq.mpr (hzero.trans hrecover.symm)

/-- Where the exchange rejects the signature, no payment goes through. -/
theorem rejected_pay {msg : Msg} {w v : Uint256} {W : World}
    (hP : kind dep.PROTOCOL_TOKEN_ADDRESS = .standard)
    (hC : kind dep.CHX_TOKEN_ADDRESS = .withOverflowProtection) (hs : Selling dep W.1)
    (h : Offered dep msg w v W.1.1 W.1.2 W.2)
    (hrejected : Exchange.isValidSignature dep.crypto W.1.1.order.data.1.maker
      W.1.1.order.orderHash W.1.1.order.sig = false) (rs : List (Option Uint256)) :
    completes (world dep kind) W (.system (.sale (.pay msg w))) rs = false := by
  rcases once_spec rs (delivered_pay hP hC hs h) with ⟨hno, -⟩ | ⟨-, _, -, hsig⟩
  · exact hno
  · rw [hrejected] at hsig
    exact absurd hsig (by simp)

/-! ## Runs -/

/-- **When the crowdsale can be bought from.** Let a sale be started in some run of all contracts,
in which anybody makes any calls, and let a payment be offered afterwards. The exchange accepts the
stored signature, which `init` has accepted, only when the order's maker is the null address and
nobody is recovered from the signature; and the payment goes through and delivers if and only if the
exchange accepts and the crowdsale still allows the proxy to move its deposit. -/
theorem accepted_iff (dep : Deployment) (kind : Address → Kind)
    (hP : kind dep.PROTOCOL_TOKEN_ADDRESS = .standard)
    (hC : kind dep.CHX_TOKEN_ADDRESS = .withOverflowProtection)
    (hrecovers : ∀ sig h h', dep.crypto.ecrecover h sig = dep.crypto.ecrecover h' sig →
      dep.crypto.ecrecover h sig ≠ 0 → h = h')
    (owner : Address) (ex : Exchange.Storage) (m : Exchange.Market) (hm : Backing dep m)
    (calls : List (WorldCall × List (Option Uint256))) (msg : Msg) (w v : Uint256) (W : World)
    (hW : W = runSeq (world dep kind) ((Storage.init owner, ex), m) calls)
    (hcollision : Exchange.signedHash dep.crypto W.1.1.order.orderHash =
        signedHash dep.crypto W.1.1.order.orderHash →
      packString "\x19chainxSigned Message:\n32" ++ packBytes32 W.1.1.order.orderHash =
        packString "\x19CHX Signed Message:\n32" ++ packBytes32 W.1.1.order.orderHash)
    (hoffered : Offered dep msg w v W.1.1 W.1.2 W.2) :
    (Exchange.isValidSignature dep.crypto W.1.1.order.data.1.maker W.1.1.order.orderHash
        W.1.1.order.sig = true ↔ W.1.1.order.data.1.maker = 0 ∧ dep.crypto.ecrecover
          (Exchange.signedHash dep.crypto W.1.1.order.orderHash) W.1.1.order.sig = 0) ∧
      ∀ rs, (completes (world dep kind) W (.system (.sale (.pay msg w))) rs = true ∧
          Delivered dep msg w v W (once (world dep kind) W (.system (.sale (.pay msg w))) rs)) ↔
        (W.1.1.order.data.1.maker = 0 ∧ dep.crypto.ecrecover
          (Exchange.signedHash dep.crypto W.1.1.order.orderHash) W.1.1.order.sig = 0) ∧
        w.val ≤ ((W.2.2 dep.CHX_TOKEN_ADDRESS).allowed dep.this dep.PROXY_ADDRESS).val := by
  have hne : dep.PROTOCOL_TOKEN_ADDRESS ≠ dep.CHX_TOKEN_ADDRESS := protocol_ne_chx hP hC
  obtain ⟨hs, hb⟩ : Selling dep W.1 ∧ Backing dep W.2 := hW ▸ world_run hne owner ex hm calls
  have hvalid := isValidSignature_exchange_iff hcollision hrecovers
    (hs.order hoffered.isInitialized).2.2
  have hpay := delivered_pay hP hC hs hoffered
  refine ⟨hvalid, fun rs => ⟨?_, ?_⟩⟩
  · rintro ⟨hcompletes, hdelivered⟩
    obtain ⟨_, -, hsig⟩ := completes_spec hpay hcompletes
    exact ⟨hvalid.mp hsig, hdelivered.bought.allowance⟩
  · rintro ⟨hnobody, hallow⟩
    have hcompletes : completes (world dep kind) W (.system (.sale (.pay msg w))) rs = true :=
      completes_iff_yields.mpr
        (yields_offered hP hC hs hb hoffered (hvalid.mpr hnobody) hallow rs)
    obtain ⟨_, hdelivered, -⟩ := completes_spec hpay hcompletes
    exact ⟨hcompletes, hdelivered⟩

/-! ### A sale that nobody can buy from -/

/-- Signatures recover the account `10` for the message that is their `r`, and nobody for others. -/
def sampleSale : Deployment where
  exchange := { Exchange.sample with
    crypto := { Exchange.sample.crypto with
      ecrecover := fun hash sig => if sig.r = hash then 10 else 0 } }
  this := 5
  PROTOCOL_TOKEN_ADDRESS := 30
  CHX_TOKEN_ADDRESS := 40

/-- The two tokens of the sale. -/
def sampleKind (token : Address) : Kind :=
  if token = 30 then .standard else if token = 40 then .withOverflowProtection else .foreign

/-- Account `6` owns the proxy, account `10` has created the protocol token. -/
def sampleMarket : Exchange.Market :=
  (Proxy.Storage.init 6,
    fun token => if token = 30 then ProtocolToken.init 10 else Token.Storage.init)

/-- The maker's signature, of the message the crowdsale checks. -/
def saleSig : Signature :=
  ⟨27, signedHash sampleSale.crypto (getOrderHash sampleSale Exchange.sampleOrder), 0⟩

/-- The proxy authorises the exchange, the maker allows the proxy its tokens, and account `7`, the
owner of the crowdsale, starts the sale. -/
def saleRun : List (WorldCall × List (Option Uint256)) :=
  [(.proxy (.addAuthorizedAddress 6 1), []),
    (.token ⟨30, 10, .approve 3 2000⟩, []),
    (.system (.sale (.init 7 Exchange.sampleOrder saleSig)), [])]

/-- The sale after it was started. -/
def saleWorld : World :=
  runSeq (world sampleSale sampleKind) ((Storage.init 7, Exchange.Storage.init), sampleMarket)
    saleRun

theorem sampleMarket_backing : Backing sampleSale sampleMarket := by
  refine ⟨?_, ?_⟩
  · have hone : sampleMarket.2 sampleSale.PROTOCOL_TOKEN_ADDRESS = ProtocolToken.init 10 := by
      simp [sampleMarket, sampleSale]
    rw [hone, supply_protocolToken]
    decide
  · have htwo : sampleMarket.2 sampleSale.CHX_TOKEN_ADDRESS = Token.Storage.init := by
      simp [sampleMarket, sampleSale]
    rw [htwo]
    exact supply_init

theorem saleWorld_offered :
    Offered sampleSale ⟨20, 50⟩ 4 800 saleWorld.1.1 saleWorld.1.2 saleWorld.2 where
  isInitialized := by decide +kernel
  pos := by decide
  remaining := by decide +kernel
  unexpired := by decide +kernel
  feeFree := .inl (by decide +kernel)
  taker := by decide +kernel
  rounding := by decide +kernel
  price := by decide +kernel
  positive := by decide
  authorized := by decide +kernel
  balance := by decide +kernel
  allowance := by decide +kernel
  ether := by decide +kernel

/-- The crowdsale has accepted the signature and started, the order is offered to account `20`, and
every payment of account `20` fails: the exchange rejects the signature. -/
theorem unbuyable :
    isValidSignature sampleSale.crypto saleWorld.1.1.order.data.1.maker
        saleWorld.1.1.order.orderHash saleWorld.1.1.order.sig = true ∧
      Exchange.isValidSignature sampleSale.crypto saleWorld.1.1.order.data.1.maker
        saleWorld.1.1.order.orderHash saleWorld.1.1.order.sig = false ∧
      Offered sampleSale ⟨20, 50⟩ 4 800 saleWorld.1.1 saleWorld.1.2 saleWorld.2 ∧
      ∀ rs, completes (world sampleSale sampleKind) saleWorld (.system (.sale (.pay ⟨20, 50⟩ 4)))
        rs = false := by
  have hrejected : Exchange.isValidSignature sampleSale.crypto saleWorld.1.1.order.data.1.maker
      saleWorld.1.1.order.orderHash saleWorld.1.1.order.sig = false := by decide +kernel
  refine ⟨by decide +kernel, hrejected, saleWorld_offered, fun rs => ?_⟩
  obtain ⟨hs, -⟩ : Selling sampleSale saleWorld.1 ∧ Backing sampleSale saleWorld.2 := by
    unfold saleWorld
    exact world_run (by decide) 7 _ sampleMarket_backing saleRun
  have hP : sampleKind sampleSale.PROTOCOL_TOKEN_ADDRESS = .standard := by decide
  have hC : sampleKind sampleSale.CHX_TOKEN_ADDRESS = .withOverflowProtection := by decide
  exact rejected_pay hP hC hs saleWorld_offered hrejected rs

theorem accepted_iff_unbuyable :
    ¬ (completes (world sampleSale sampleKind) saleWorld (.system (.sale (.pay ⟨20, 50⟩ 4))) [] =
        true ∧
      Delivered sampleSale ⟨20, 50⟩ 4 800 saleWorld (once (world sampleSale sampleKind) saleWorld
        (.system (.sale (.pay ⟨20, 50⟩ 4))) [])) := by
  have hrecovers : ∀ sig h h', sampleSale.crypto.ecrecover h sig =
      sampleSale.crypto.ecrecover h' sig → sampleSale.crypto.ecrecover h sig ≠ 0 → h = h' := by
    intro sig h h' he hne
    have hr : ∀ hash, sampleSale.crypto.ecrecover hash sig ≠ 0 → sig.r = hash :=
      fun hash hne => by_contra fun hr => hne (if_neg hr)
    exact (hr h hne).symm.trans (hr h' (he ▸ hne))
  have hdiffer : Exchange.signedHash sampleSale.crypto saleWorld.1.1.order.orderHash ≠
      signedHash sampleSale.crypto saleWorld.1.1.order.orderHash := by decide +kernel
  intro h
  exact absurd (((accepted_iff sampleSale sampleKind (by decide) (by decide) hrecovers 7
    Exchange.Storage.init sampleMarket sampleMarket_backing saleRun ⟨20, 50⟩ 4 800 saleWorld rfl
    (fun he => absurd he hdiffer) saleWorld_offered).2 []).mp h).1.1 (by decide +kernel)

end ChainX.SimpleCrowdsale
