import ChainX.SimpleCrowdsale.Market

/-!
# The end of a sale

A payment beyond what remains of the order is to be the last (`SimpleCrowdsale.sol:74-96`): it takes
what remains, the buyer gets the change, and the sale is finished (`Closed`).

* `LastPayment`: such a payment, at an open sale with a live order whose signature the exchange
  accepts, with balances and allowances that suffice.
* `Closable` are the conditions on all who take part: that something remains, that the exchange
  fills, that the tokens carry out what they are asked and that the buyer takes the change.
* All contracts are linked (`World`), and the state is one that a run has come to, in which the
  supplies rule out that a balance wraps.

Results:
* **`closed_iff`**: in any state a run comes to, it closes the sale if and only if something remains
  and the exchange, the tokens and the buyer take their parts (`Closable`).
* **`sold_out`**: a sale whose order was used up exactly never ends. A `StandardToken` refuses to
  move nothing, and the crowdsale asserts that it does.
-/

namespace ChainX.SimpleCrowdsale

open ChainX.Evm ChainX.Reentry ChainX.Token
open ChainX.Exchange (OrderData)

-- the hash is never computed here
attribute [local irreducible] Exchange.getOrderHash

variable {dep : Deployment} {kind : Address → Kind}

/-! ## The last payment -/

/-- A payment of `w` meets an open sale of whose order `r` remains, which is less. -/
structure LastPayment (dep : Deployment) (kind : Address → Kind) (msg : Msg) (w r : Uint256)
    (W : World) : Prop where
  isInitialized : W.1.1.isInitialized = true
  unfinished : W.1.1.isFinished = false
  unexpired : msg.timestamp < W.1.1.order.data.2.expiration
  /-- The exchange accepts the stored signature. -/
  accepted : Exchange.isValidSignature dep.crypto W.1.1.order.data.1.maker W.1.1.order.orderHash
    W.1.1.order.sig = true
  remaining : (W.1.2.filled W.1.1.order.orderHash).val +
    (W.1.2.cancelled W.1.1.order.orderHash).val + r.val = W.1.1.order.data.2.valueT.val
  beyond : r.val < w.val
  sufficient : Sufficient dep kind W.1.1.order.data r W.2
  /-- The CHX token counts all ether it has received in one word. -/
  ether : (W.2.2 dep.CHX_TOKEN_ADDRESS).totalSupply.val + r.val < 2 ^ 256

/-- The change is refunded, and the sale is finished. -/
structure Closed (msg : Msg) (w r : Uint256) (W W' : World) : Prop where
  isFinished : W'.1.1.isFinished = true
  refunded : ∃ f change : Uint256, change.val + r.val = w.val ∧
    W'.1.1.effects = .refunded msg.sender change :: .forwarded msg.sender f :: .deposited r ::
      W.1.1.effects

/-- Something remains, and all who take part in selling it do their parts. -/
structure Closable (dep : Deployment) (kind : Address → Kind) (r : Uint256) (W : World)
    (rs : List (Option Uint256)) : Prop where
  pos : 0 < r.val
  authorized : W.2.1.authorized dep.EXCHANGE_ADDRESS = true
  taker : W.1.1.order.data.1.taker = 0 ∨ W.1.1.order.data.1.taker = dep.this
  rounding : Exchange.isRoundingError W.1.1.order.data.2.valueT r W.1.1.order.data.2.valueM = false
  fits : Exchange.Multiplies W.1.1.order.data r
  /-- No share or fee in a `StandardToken` is rounded down to nothing. -/
  positive : ∀ p ∈ salePayments dep W.1.1.order.data r, kind p.payer.1 = .standard → 0 < p.value
  /-- Foreign tokens report success, and the buyer takes the change. -/
  answers : ∃ a rest, Granted
    (Exchange.asked (chain kind) (salePayments dep W.1.1.order.data r)) rs (some a :: rest)

/-! ## When it goes through -/

variable {msg : Msg} {w r : Uint256} {s : Storage} {ex : Exchange.Storage} {m : Exchange.Market}
  {W : World} {rs : List (Option Uint256)}

/-- The price of nothing is nothing. -/
theorem pos_of_price {order : Order} {f : Uint256} (hf : price order r = some f)
    (hpos : 0 < f.val) : 0 < r.val := by
  rw [price_eq_some hf, Lib.share] at hpos
  by_contra hzero
  rw [Nat.eq_zero_of_not_pos hzero, Nat.zero_mul, Nat.zero_div] at hpos
  exact absurd hpos (by decide)

/-- No more than what remains is deposited. -/
theorem LastPayment.minUint (h : LastPayment dep kind msg w r W) : minUint w r = r :=
  if_neg (not_lt.mpr (le_of_lt h.beyond))

/-- A last payment that goes through was closable. -/
theorem closable_of_yields {post : Unit → World → List (Option Uint256) → Prop}
    (hP : kind dep.PROTOCOL_TOKEN_ADDRESS = .standard)
    (h : LastPayment dep kind msg w r ((s, ex), m))
    (hends : yields (world dep kind (.system (.sale (.pay msg w)))) rs post ((s, ex), m)) :
    Closable dep kind r ((s, ex), m) rs := by
  have hkind : (chain kind).kind dep.PROTOCOL_TOKEN_ADDRESS = .standard := hP
  rw [yields_pay h.isInitialized h.unfinished h.remaining h.minUint] at hends
  obtain ⟨_, s1, -, hends⟩ := yields_elim ChainXToken.wp_deposit hends
  have hpos : 0 < r.val := by
    obtain ⟨_, st, rs2, -, -, f, hf, hforward⟩ := hends
    obtain ⟨_, _, hmoved, hsuccess, -⟩ := yields_elim (wp_tokens_transfer_pos hkind) hforward
    exact pos_of_price hf (hmoved hsuccess)
  obtain ⟨hfillable, hfits, ex', m2, rs2, hpaid, -, f, -, hforward⟩ :=
    Exchange.paidOut_fillOrKill hpos hends
  obtain ⟨_, _, -, -, rest, htaken, -⟩ := yields_elim (wp_tokens_transfer_pos hkind) hforward
  have hbeyond : r < w := h.beyond
  obtain ⟨a, hrs⟩ := (if_pos hbeyond).mp htaken
  exact ⟨hpos, hpaid.authorized _ List.mem_cons_self, hfillable.taker, hfillable.rounding, hfits,
    hpaid.positive, a, rest, hrs ▸ hpaid.granted⟩

theorem LastPayment.fillable (hs : Selling dep (s, ex))
    (h : LastPayment dep kind msg w r ((s, ex), m))
    (hclosable : Closable dep kind r ((s, ex), m) rs) :
    Exchange.Fillable dep.exchange ⟨dep.this, msg.timestamp⟩ s.order.data r s.order.sig ex := by
  have hhash : s.order.orderHash = Exchange.getOrderHash dep.exchange s.order.data :=
    hs.hash h.isInitialized
  refine ⟨hclosable.taker, h.unexpired, ⟨hclosable.pos, le_rfl, ?_⟩, hclosable.rounding, ?_⟩
  · rw [← hhash]
    exact h.remaining.le
  · rw [← hhash]
    exact h.accepted

theorem Closable.payable {rest : List (Option Uint256)} {a : Option Uint256}
    (h : LastPayment dep kind msg w r ((s, ex), m))
    (hclosable : Closable dep kind r ((s, ex), m) rs)
    (hroom : ∀ p ∈ salePayments dep s.order.data r, (kind p.payer.1).Room (m.2 p.payer.1))
    (hgranted : Granted (Exchange.asked (chain kind) (salePayments dep s.order.data r)) rs
      (a :: rest)) :
    Payable dep kind s.order.data r m rs (a :: rest) :=
  ⟨hclosable.authorized, hclosable.fits, hroom, hclosable.positive, hgranted, h.sufficient, h.ether⟩

/-- Besides the two tokens of the sale only the fee token is moved. -/
theorem room_salePayments (hP : kind dep.PROTOCOL_TOKEN_ADDRESS = .standard)
    (hC : kind dep.CHX_TOKEN_ADDRESS = .withOverflowProtection) (hs : Selling dep (s, ex))
    (hm : Backing dep m) (h : LastPayment dep kind msg w r ((s, ex), m))
    (hroom : (kind dep.exchange.ZRX).Room (m.2 dep.exchange.ZRX)) :
    ∀ p ∈ salePayments dep s.order.data r, (kind p.payer.1).Room (m.2 p.payer.1) := by
  obtain ⟨htokenM, htokenT, -⟩ := hs.order h.isInitialized
  simp only at htokenM htokenT
  refine Exchange.forall_fillPayments ?_ ?_ (fun _ => hroom) fun _ => hroom
  · rw [htokenM]
    exact hm.room_protocol hP
  · rw [htokenT]
    exact room_of_backed hC hm.chx

/-- A closable last payment closes the sale. -/
theorem yields_closed (hP : kind dep.PROTOCOL_TOKEN_ADDRESS = .standard)
    (hC : kind dep.CHX_TOKEN_ADDRESS = .withOverflowProtection) (hs : Selling dep (s, ex))
    (hm : Backing dep m)
    (hroom : ∀ p ∈ salePayments dep s.order.data r, (kind p.payer.1).Room (m.2 p.payer.1))
    (h : LastPayment dep kind msg w r ((s, ex), m))
    (hclosable : Closable dep kind r ((s, ex), m) rs) :
    yields (world dep kind (.system (.sale (.pay msg w)))) rs
      (fun _ W' _ => Closed msg w r ((s, ex), m) W') ((s, ex), m) := by
  obtain ⟨a, rest, hgranted⟩ := hclosable.answers
  have hbeyond : r < w := h.beyond
  refine yields_sale hP hC hs hm h.isInitialized h.unfinished h.remaining h.minUint
    (h.fillable hs hclosable) (hclosable.payable h hroom hgranted)
    ((if_pos hbeyond).mpr ⟨a, rfl⟩) fun f ex' m' => ?_
  have hpaid : s.paid msg w r f = { s with
      isFinished := true
      effects := .refunded msg.sender (w - r) :: .forwarded msg.sender f :: .deposited r ::
        s.effects } := if_pos hbeyond
  refine ⟨by rw [hpaid], f, w - r, ?_, by rw [hpaid]⟩
  have hle : r.val ≤ w.val := le_of_lt h.beyond
  rw [Fin.sub_val_of_le (le_of_lt hbeyond)]
  omega

/-! ## Runs -/

theorem closable_of_completes (hP : kind dep.PROTOCOL_TOKEN_ADDRESS = .standard)
    (h : LastPayment dep kind msg w r W)
    (hcompletes : completes (world dep kind) W (.system (.sale (.pay msg w))) rs = true) :
    Closable dep kind r W rs :=
  closable_of_yields hP h (completes_iff_yields.mp hcompletes)

/-- **When the last payment ends the sale.** Let a sale be started in some run of all contracts, in
which anybody makes any calls, the supplies being such that no sum of balances overflows, and let a
last payment be made afterwards. It goes through, refunds what lies beyond the remaining value and
finishes the sale if and only if something remains; the proxy authorises the exchange; the order may
be taken by the crowdsale; the exchange finds no rounding error and its products fit; no payment in
a `StandardToken` is one of nothing; and foreign tokens report success and the buyer takes the
change. -/
theorem closed_iff (dep : Deployment) (kind : Address → Kind)
    (hP : kind dep.PROTOCOL_TOKEN_ADDRESS = .standard)
    (hC : kind dep.CHX_TOKEN_ADDRESS = .withOverflowProtection) (owner : Address)
    (ex : Exchange.Storage) (m : Exchange.Market) (hm : Backing dep m)
    (hroom : (kind dep.exchange.ZRX).Room (m.2 dep.exchange.ZRX))
    (calls : List (WorldCall × List (Option Uint256))) (msg : Msg) (w r : Uint256) (W : World)
    (hW : W = runSeq (world dep kind) ((Storage.init owner, ex), m) calls)
    (h : LastPayment dep kind msg w r W) (rs : List (Option Uint256)) :
    (completes (world dep kind) W (.system (.sale (.pay msg w))) rs = true ∧
        Closed msg w r W (once (world dep kind) W (.system (.sale (.pay msg w))) rs)) ↔
      Closable dep kind r W rs := by
  have hne : dep.PROTOCOL_TOKEN_ADDRESS ≠ dep.CHX_TOKEN_ADDRESS := protocol_ne_chx hP hC
  obtain ⟨hs, hb⟩ : Selling dep W.1 ∧ Backing dep W.2 := hW ▸ world_run hne owner ex hm calls
  have hsupplied : Supplied dep m W.2 := hW ▸ supplied_run _ m calls
  constructor
  · rintro ⟨hcompletes, -⟩
    exact closable_of_completes hP h hcompletes
  · intro hclosable
    have hroom' := room_salePayments hP hC hs hb h (hsupplied.room hC hm.chx hroom)
    obtain ⟨hcompletes, _, _, hclosed⟩ := once_of_yields (yields_closed hP hC hs hb hroom' h
      hclosable)
    exact ⟨hcompletes, hclosed⟩

/-! ### A sale that ends, and one that does not -/

/-- A sale of 10, in which account `10` has signed what both contracts check. -/
def openSale : Deployment := ⟨Exchange.sample, 5, 30, 40⟩

/-- Account `7` starts the sale, and account `20` buys `n`. -/
def openRun (n : Uint256) : List (WorldCall × List (Option Uint256)) :=
  [(.proxy (.addAuthorizedAddress 6 1), []),
    (.token ⟨30, 10, .approve 3 2000⟩, []),
    (.system (.sale (.init 7 Exchange.sampleOrder Exchange.sampleSig)), []),
    (.system (.sale (.pay ⟨20, 50⟩ n)), [])]

/-- What that leaves. -/
def openWorld (n : Uint256) : World :=
  runSeq (world openSale sampleKind) ((Storage.init 7, Exchange.Storage.init), sampleMarket)
    (openRun n)

/-- Account `21` pays `w` where `r` remain, which is 8 for 6 after 4 were bought, and 5 for nothing
after all were. -/
theorem last_openWorld {n w r : Uint256} (h : (n, w, r) = (4, 8, 6) ∨ (n, w, r) = (10, 5, 0)) :
    LastPayment openSale sampleKind ⟨21, 60⟩ w r (openWorld n) := by
  rcases h with h | h <;> cases h <;>
    exact ⟨by decide +kernel, by decide +kernel, by decide +kernel, by decide +kernel,
      by decide +kernel, by decide, ⟨by decide +kernel, by decide +kernel⟩, by decide +kernel⟩

/-- **A sale that never ends.** Account `20` has bought all of the 10, and account `21` pays 5: the
payment fails, whatever is answered, and so the sale is not finished. -/
theorem sold_out :
    LastPayment openSale sampleKind ⟨21, 60⟩ 5 0 (openWorld 10) ∧
      ∀ rs, completes (world openSale sampleKind) (openWorld 10)
        (.system (.sale (.pay ⟨21, 60⟩ 5))) rs = false := by
  have hlast : LastPayment openSale sampleKind ⟨21, 60⟩ 5 0 (openWorld 10) :=
    last_openWorld (.inr rfl)
  refine ⟨hlast, fun rs => ?_⟩
  by_contra hcompletes
  have hclosable : Closable openSale sampleKind 0 (openWorld 10) rs :=
    closable_of_completes (by decide) hlast (by simpa using hcompletes)
  exact absurd hclosable.pos (by decide)

theorem closed_iff_four :
    completes (world openSale sampleKind) (openWorld 4) (.system (.sale (.pay ⟨21, 60⟩ 8)))
        [some 1] = true ∧
      Closed ⟨21, 60⟩ 8 6 (openWorld 4) (once (world openSale sampleKind) (openWorld 4)
        (.system (.sale (.pay ⟨21, 60⟩ 8))) [some 1]) := by
  have hroom : (sampleKind openSale.exchange.ZRX).Room (sampleMarket.2 openSale.exchange.ZRX) :=
    trivial
  refine (closed_iff openSale sampleKind (by decide) (by decide) 7 Exchange.Storage.init
    sampleMarket ⟨sampleMarket_backing.protocol, sampleMarket_backing.chx⟩ hroom (openRun 4)
    ⟨21, 60⟩ 8 6 (openWorld 4) rfl (last_openWorld (.inl rfl)) [some 1]).mpr ?_
  have hnone : Exchange.asked (chain sampleKind)
      (salePayments openSale (openWorld 4).1.1.order.data 6) = 0 := by decide +kernel
  exact ⟨by decide, by decide +kernel, by decide +kernel, by decide +kernel,
    ⟨by decide +kernel, by decide +kernel, by decide +kernel⟩, by decide +kernel, 1, [],
    by rw [hnone]; rfl⟩

end ChainX.SimpleCrowdsale
