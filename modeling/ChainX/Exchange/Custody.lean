import ChainX.Exchange.Books
import ChainX.Exchange.Market
import ChainX.Proxy.Authorities

/-!
# What an account can lose

The exchange, its proxy and the tokens, all of which anybody may call (`world`). An account that
calls nothing itself and lets nobody but the proxy spend for it can lose tokens through the exchange
only, and there only as a maker.

* `Fair` is the condition on the calls of a run. The owner of the proxy is trusted: a second address
  that it authorises could move whatever the proxy may move.
* `wp_moving_entry`: the rule for what depends on the transfers made and on the market. Every entry
  point keeps what one more transfer keeps.
* `Safe`: what the account has, with what was drawn from it for orders, is not less than it was.
  `Signed` says that what was drawn is for orders of the list, and the books of these orders bound
  it (`drawn_le`).

**`loss_le_signed`**: over every run the account loses at most what the orders say that it has
signed; an account that has signed nothing loses nothing.
-/

namespace ChainX.Exchange

open ChainX.Evm ChainX.Reentry ChainX.Token

-- the hash is never computed here
attribute [local irreducible] getOrderHash

variable {O : Type} {dep : Deployment} {chain : Chain O} {s : Storage} {m m' : Market}

/-! ## The transfers of the exchange -/

/-- What an answer of `true` to a transfer has done. A foreign token leaves the others alone. -/
def Served (dep : Deployment) (chain : Chain O) (mv : Move) (m m' : Market) : Prop :=
  if chain.kind mv.token = .foreign then m' = m
  else Proxied dep m m' mv.token mv.payer mv.payee mv.value

theorem wp_served {h : Bytes32} {leg : Leg} {token payer payee : Address} {value : Uint256} :
    wp Boundary.still (onMarket dep chain (.transferFrom h token payer payee value))
      (fun success m' => success = 1 ∧ Served dep chain ⟨h, leg, token, payer, payee, value⟩ m m')
      m := by
  unfold Served
  by_cases hkind : chain.kind token = .foreign
  · simp only [hkind, if_true]
    simp only [onMarket, onTokens, Proxy.transferFrom, tokens, hkind, link_bind, link_get,
      link_require, link_extCall, link_pure, wp_bind, wp_get, wp_pure, wp_require, wp_zoom,
      wp_extCall, Lens.snd_view, Lens.snd_put]
    refine fun _ => ⟨trivial, fun _ ts hts _ => ⟨rfl, ?_⟩⟩
    rw [show ts = m.2 from hts]
  · simp only [if_neg hkind]
    exact wp_of_closed (wp_onMarket_transferFrom hkind)

/-- The questions of the transfer check change nothing. -/
theorem wp_onMarket_check {q : Query} {h : Bytes32} (hq : q.IsCheck h) :
    wp Boundary.still (onMarket dep chain q) (fun _ m' => m' = m) m := by
  have htokens : ∀ {token : Address} {r : Request}, (∃ owner, r = .balanceOf owner) ∨
      (∃ owner spender, r = .allowance owner spender) →
      wp Boundary.still (tokens chain ⟨token, dep.this, r⟩) (fun _ ts => ts = m.2) m.2 := by
    intro token r hr
    have hsame : (Tokens.one token).put m.2 (m.2 token) = m.2 := (Tokens.one token).put_view m.2
    unfold tokens
    cases chain.kind token with
    | standard =>
      rw [wp_zoom]
      rcases hr with ⟨owner, rfl⟩ | ⟨owner, spender, rfl⟩ <;> exact hsame
    | withOverflowProtection =>
      rw [wp_zoom]
      rcases hr with ⟨owner, rfl⟩ | ⟨owner, spender, rfl⟩ <;> exact hsame
    | foreign => exact wp_extCall.mpr ⟨trivial, fun _ _ h => h⟩
  cases q with
  | transferFrom h' token payer payee value => exact hq.elim
  | balanceOf h' token owner =>
    refine (wp_zoom _).mpr (wp_mono (htokens (.inl ⟨owner, rfl⟩)) fun _ ts hts => ?_)
    rw [show ts = m.2 from hts]
    rfl
  | allowance h' token owner spender =>
    refine (wp_zoom _).mpr (wp_mono (htokens (.inr ⟨owner, spender, rfl⟩)) fun _ ts hts => ?_)
    rw [show ts = m.2 from hts]
    rfl

/-- So does the check itself. -/
theorem wp_market_isTransferable {msg : Msg} {order : Order} {f : Uint256} :
    wp Boundary.still (Contract.link (onMarket dep chain) (isTransferable dep msg order f))
      (fun _ st => st = (s, m)) (s, m) := by
  have hcheck : wp (Boundary.asking fun q _ => q.IsCheck order.orderHash)
      (isTransferable dep msg order f) (fun _ s' => s' = s) s :=
    wp_isTransferable (P := fun s' => s' = s) rfl (fun _ _ hq _ => hq)
      (fun _ _ _ _ _ h hb => Eq.trans hb h) (fun _ _ h => h) rfl
  refine wp_mono (wp_link_of_wp (J := fun m' => m' = m) (fun q _ m' hq hm' => ?_) hcheck rfl)
    fun _ st h => Prod.ext h.1 h.2
  subst hm'
  exact wp_onMarket_check hq

/-- What is said of the transfers made and of the market, of a storage beside the market. -/
def Moving (P : List Move → Market → Prop) (st : Storage × Market) : Prop := P st.1.moves st.2

section Moving

variable {P : List Move → Market → Prop}
  (hmove : ∀ mv ms m m', P ms m → Served dep chain mv m m' → P (mv :: ms) m')
include hmove

theorem wp_moving_transferViaProxy {h : Bytes32} {leg : Leg} {token payer payee : Address}
    {value : Uint256} (hs : Moving P (s, m)) :
    wp Boundary.still (Contract.link (onMarket dep chain)
      (transferViaProxy h leg token payer payee value)) (fun _ st => Moving P st) (s, m) := by
  simp only [transferViaProxy, link_bind, link_extCall, link_ite, link_modify, link_pure, wp_bind,
    wp_zoom, wp_ite, wp_modify, wp_pure, Lens.snd_view, Lens.snd_put]
  have hserves : wp Boundary.still (onMarket dep chain (.transferFrom h token payer payee value))
      (fun success m' => success = 1 ∧
        Served dep chain ⟨h, leg, token, payer, payee, value⟩ m m') m := wp_served
  refine wp_mono hserves ?_
  rintro _ m' ⟨rfl, hserved⟩
  exact ⟨fun _ => hmove _ _ _ _ hs hserved, fun h => absurd (by decide) h⟩

theorem wp_moving_payFee {order : Order} {leg : Leg} {payer : Address} {fee f : Uint256}
    (hs : Moving P (s, m)) :
    wp Boundary.still (Contract.link (onMarket dep chain) (payFee dep order leg payer fee f))
      (fun _ st => Moving P st) (s, m) := by
  simp only [payFee, link_ite, link_bind, link_ofOption, link_require, link_pure, wp_ite, wp_bind,
    wp_ofOption, wp_require, wp_pure]
  refine ⟨fun _ paid _ => ?_, fun _ => hs⟩
  exact wp_mono (wp_moving_transferViaProxy hmove hs) fun _ _ h _ => h

theorem wp_moving_settle {msg : Msg} {order : Order} {f : Uint256} (hs : Moving P (s, m)) :
    wp Boundary.still (Contract.link (onMarket dep chain) (settle dep msg order f))
      (fun _ st => Moving P st) (s, m) := by
  simp only [settle, emit, link_bind, link_get, link_require, link_ofOption, link_modify,
    link_pure, wp_bind, wp_get, wp_pure, wp_require, wp_ofOption, wp_modify]
  intro v _ filled _
  have hs' : Moving P ({ s with filled := Function.update s.filled order.orderHash filled }, m) :=
    hs
  refine wp_mono (wp_moving_transferViaProxy hmove hs') fun _ st h _ => ?_
  refine wp_mono (wp_moving_transferViaProxy hmove h) fun _ st h _ => ?_
  refine wp_mono (wp_moving_payFee hmove h) fun feeM st h => ?_
  exact wp_mono (wp_moving_payFee hmove h) fun feeT st h => h

theorem wp_moving_fill {msg : Msg} {o : OrderData} {n : Uint256} {check : Bool} {sig : Signature}
    (hs : Moving P (s, m)) :
    wp Boundary.still (Contract.link (onMarket dep chain) (fill dep msg o n check sig))
      (fun _ st => Moving P st) (s, m) := by
  simp only [fill, remainingValueT, getUnavailableValueT, emit, link_bind, link_get, link_require,
    link_ofOption, link_ite, link_modify, link_pure, wp_bind, wp_get, wp_pure, wp_require,
    wp_ofOption, wp_ite, wp_modify]
  refine fun _ => ⟨fun _ => hs, fun _ unavailable _ r _ => ⟨fun _ => hs, fun _ => ⟨fun _ => hs,
    fun _ => ⟨fun _ => ?_, fun _ => ⟨fun _ => hs, fun _ _ => wp_moving_settle hmove hs⟩⟩⟩⟩⟩
  refine wp_mono wp_market_isTransferable ?_
  rintro transferable _ rfl
  exact ⟨fun _ => hs, fun _ _ => wp_moving_settle hmove hs⟩

omit hmove in
/-- No transfer is made in a cancellation. -/
theorem wp_moving_cancel {msg : Msg} {o : OrderData} {n : Uint256} (hs : Moving P (s, m)) :
    wp Boundary.still (Contract.link (onMarket dep chain) (cancel dep msg o n))
      (fun _ st => Moving P st) (s, m) :=
  wp_link_of_closed (wp_cancel (fun _ => hs) fun _ _ _ _ _ _ => hs)

theorem wp_moving_fillOrKill {msg : Msg} {o : OrderData} {n : Uint256} {sig : Signature}
    (hs : Moving P (s, m)) :
    wp Boundary.still (Contract.link (onMarket dep chain) (fillOrKill dep msg o n sig))
      (fun _ st => Moving P st) (s, m) := by
  simp only [fillOrKill, link_bind, link_require, link_pure, wp_bind, wp_require, wp_pure]
  exact wp_mono (wp_moving_fill hmove hs) fun _ _ h _ => h

theorem wp_moving_fillUpToLoop {msg : Msg} {b : Batch} {n : Uint256} {check : Bool}
    (k i : Nat) (acc : Uint256) {st : Storage × Market} (hs : Moving P st) :
    wp Boundary.still (Contract.link (onMarket dep chain)
      (fillUpToLoop dep msg b n check k i acc)) (fun _ st => Moving P st) st := by
  induction k generalizing i acc st with
  | zero => exact hs
  | succ k ih =>
    simp only [fillUpToLoop, Batch.orderAt, Batch.sigAt, nth, link_bind, link_ofOption,
      link_require, link_ite, link_pure, wp_bind, wp_ofOption, wp_require, wp_ite, wp_pure]
    intro as _ vs _ first _ _ wanted _ v _ r _ s' _
    refine wp_mono (wp_moving_fill hmove hs) fun f st h acc _ => ?_
    exact ⟨fun _ => h, fun _ => ih (i + 1) acc h⟩

/-- **Every entry point keeps what one more transfer keeps.** -/
theorem wp_moving_entry (c : Call) (hs : Moving P (s, m)) :
    wp Boundary.still (Contract.link (onMarket dep chain) (entry dep c))
      (fun _ st => Moving P st) (s, m) := by
  cases c with
  | fill msg o n check sig =>
    simp only [entry, Contract.void, link_bind, link_pure, wp_bind, wp_pure]
    exact wp_moving_fill hmove hs
  | fillOrKill msg o n sig =>
    simp only [entry, Contract.void, link_bind, link_pure, wp_bind, wp_pure]
    exact wp_moving_fillOrKill hmove hs
  | batchFill msg b ns check =>
    simp only [entry, batchFill, Contract.void, link_bind, link_forLoop, link_pure, wp_bind,
      wp_pure]
    refine wp_forLoop (fun i st _ h => ?_) hs
    simp only [Batch.orderAt, Batch.sigAt, nth, link_bind, link_ofOption, link_pure, wp_bind,
      wp_ofOption, wp_pure]
    intro as _ vs _ n _ v _ r _ s' _
    exact wp_moving_fill hmove h
  | batchFillOrKill msg b ns =>
    simp only [entry, batchFillOrKill, Contract.void, link_bind, link_forLoop, link_pure, wp_bind,
      wp_pure]
    refine wp_forLoop (fun i st _ h => ?_) hs
    simp only [Batch.orderAt, Batch.sigAt, nth, link_bind, link_ofOption, link_require, link_pure,
      wp_bind, wp_ofOption, wp_require, wp_pure]
    intro as _ vs _ n _ v _ r _ s' _
    exact wp_mono (wp_moving_fillOrKill hmove h) fun _ _ h' _ => h'
  | fillUpTo msg b n check =>
    simp only [entry, fillUpTo, Contract.void, link_bind, link_pure, wp_bind, wp_pure]
    exact wp_moving_fillUpToLoop hmove _ _ _ hs
  | cancel msg o n =>
    simp only [entry, Contract.void, link_bind, link_pure, wp_bind, wp_pure]
    exact wp_moving_cancel hs
  | batchCancel msg as vs ns =>
    simp only [entry, batchCancel, Contract.void, link_bind, link_forLoop, link_pure, wp_bind,
      wp_pure]
    refine wp_forLoop (fun i st _ h => ?_) hs
    simp only [nth, link_ofOption, wp_bind, wp_ofOption, wp_pure]
    intro a _ v _ n _
    exact wp_moving_cancel h

end Moving

/-! ## One account and one token -/

/-- What has been drawn from `a` of `t` for orders. -/
def drawn (a t : Address) (ms : List Move) : Nat :=
  ((ms.filter fun mv => mv.payer = a ∧ mv.token = t).map fun mv => mv.value.val).sum

theorem drawn_cons (a t : Address) (mv : Move) (ms : List Move) :
    drawn a t (mv :: ms) =
      (if mv.payer = a ∧ mv.token = t then mv.value.val else 0) + drawn a t ms := by
  unfold drawn
  by_cases hmv : mv.payer = a ∧ mv.token = t
  · rw [List.filter_cons_of_pos (by simpa using hmv), if_pos hmv, List.map_cons, List.sum_cons]
  · rw [List.filter_cons_of_neg (by simpa using hmv), if_neg hmv, Nat.zero_add]

/-- `a` has of `t` what it had at first, but for what has been drawn for orders, and nobody else can
take it. -/
structure Safe (dep : Deployment) (a t : Address) (first : Nat) (ms : List Move) (m : Market) :
    Prop where
  held : first ≤ ((m.2 t).balances a).val + drawn a t ms
  allowance : ∀ spender, spender ≠ dep.PROXY → (m.2 t).allowed a spender = 0
  authorized : ∀ b, m.1.authorized b = true → b = dep.this

variable {a t : Address} {first : Nat} {ms : List Move}

theorem Safe.served {mv : Move} (hkind : chain.kind t ≠ .foreign) (h : Safe dep a t first ms m)
    (hserved : Served dep chain mv m m') : Safe dep a t first (mv :: ms) m' := by
  have hheld := h.held
  unfold Served at hserved
  split at hserved
  · -- a foreign token is not the account's
    rename_i hforeign
    have hne : ¬ (mv.payer = a ∧ mv.token = t) := fun he => hkind (he.2 ▸ hforeign)
    subst hserved
    refine ⟨?_, h.allowance, h.authorized⟩
    rw [drawn_cons, if_neg hne]
    omega
  · by_cases ht : mv.token = t
    · subst ht
      have hmoved := hserved.transferred.moved.balances a
      refine ⟨?_, fun spender hspender => ?_, fun b hb => h.authorized b (hserved.proxy ▸ hb)⟩
      · rw [drawn_cons]
        by_cases ha : mv.payer = a
        · rw [if_pos ⟨ha, rfl⟩]
          rw [if_pos ha.symm] at hmoved
          omega
        · rw [if_neg fun he => ha he.1]
          rw [if_neg (Ne.symm ha)] at hmoved
          omega
      · have hspent := hserved.spent a spender
        rw [if_neg fun he => hspender he.2, h.allowance spender hspender] at hspent
        exact Fin.ext hspent
    · have hsame : m'.2 t = m.2 t := hserved.transferred.others t (Ne.symm ht)
      refine ⟨?_, fun spender hspender => ?_, fun b hb => h.authorized b (hserved.proxy ▸ hb)⟩
      · rw [drawn_cons, if_neg fun he => ht he.2, hsame]
        omega
      · rw [hsame]
        exact h.allowance spender hspender

/-! ## Calls of the tokens -/

/-- What a call of the token by others leaves `a`, if only `proxy` may spend for it. -/
structure Spared (a proxy : Address) (s s' : Token.Storage) : Prop where
  balance : (s.balances a).val ≤ (s'.balances a).val
  allowance : ∀ spender, spender ≠ proxy → s'.allowed a spender = 0

variable {proxy sender : Address} {u u' : Token.Storage}

theorem wp_serve_spared (hsender : sender ≠ a) (hproxy : sender ≠ proxy)
    (hzero : ∀ spender, spender ≠ proxy → u.allowed a spender = 0)
    {transfer : Address → Address → Uint256 → Contract Token.Storage O Uint256 Bool}
    {transferFrom : Address → Address → Address → Uint256 →
      Contract Token.Storage O Uint256 Bool}
    (htransfer : ∀ payee value, wp Boundary.still (transfer sender payee value)
      (fun success u' => (success = true → Moved u u' sender payee value ∧
        u'.allowed = u.allowed) ∧ (success = false → u' = u)) u)
    (htransferFrom : ∀ payer payee value,
      wp Boundary.still (transferFrom sender payer payee value)
      (fun success u' => (success = true → Moved u u' payer payee value ∧
        Spent u u' payer sender value) ∧ (success = false → u' = u)) u) (r : Request) :
    wp Boundary.still (serve transfer transferFrom sender r)
      (fun _ u' => Spared a proxy u u') u := by
  have hsame : Spared a proxy u u := ⟨Nat.le_refl _, hzero⟩
  cases r with
  | transfer payee value =>
    refine wp_bind.mpr (wp_mono (htransfer payee value) fun success u' h => ?_)
    cases success with
    | false =>
      rw [h.2 rfl]
      exact hsame
    | true =>
      obtain ⟨hmoved, hallowed⟩ := h.1 rfl
      have hbalance := hmoved.balances a
      rw [if_neg (Ne.symm hsender)] at hbalance
      exact ⟨by omega, hallowed ▸ hzero⟩
  | transferFrom payer payee value =>
    refine wp_bind.mpr (wp_mono (htransferFrom payer payee value) fun success u' h => ?_)
    cases success with
    | false =>
      rw [h.2 rfl]
      exact hsame
    | true =>
      obtain ⟨hmoved, hspent⟩ := h.1 rfl
      refine ⟨?_, fun spender hspender => ?_⟩
      · -- the value would have to be allowed
        have hbalance := hmoved.balances a
        have hone := hspent a sender
        rw [hzero sender hproxy] at hone
        by_cases ha : a = payer
        · rw [if_pos ⟨ha, rfl⟩] at hone
          rw [if_pos ha] at hbalance
          have hval : (0 : Uint256).val = 0 := rfl
          omega
        · rw [if_neg ha] at hbalance
          omega
      · have hone := hspent a spender
        rw [hzero spender hspender] at hone
        have hval : (0 : Uint256).val = 0 := rfl
        exact Fin.ext (by omega)
  | approve spender value =>
    refine wp_bind.mpr (wp_mono wp_approve fun _ u' ⟨_, hbalances, _, hallowed⟩ => ?_)
    refine ⟨hbalances ▸ Nat.le_refl _, fun spender' hspender => ?_⟩
    have hother : u'.allowed a = u.allowed a :=
      (congrFun hallowed a).trans (Function.update_of_ne (Ne.symm hsender) _ _)
    rw [hother]
    exact hzero spender' hspender
  | balanceOf owner => exact hsame
  | allowance owner spender => exact hsame

/-- **A call of a token by others** takes nothing from the account. -/
theorem Safe.tokens (h : Safe dep a t first ms m) {q : Token.Query} (hsender : q.sender ≠ a)
    (hproxy : q.sender ≠ dep.PROXY) (hkind : chain.kind t ≠ .foreign) :
    wp Boundary.still (Token.tokens chain q) (fun _ ts => Safe dep a t first ms (m.1, ts)) m.2 := by
  have hone : ∀ u' : Token.Storage, (q.token = t → Spared a dep.PROXY (m.2 t) u') →
      Safe dep a t first ms (m.1, Function.update m.2 q.token u') := by
    intro u' hleft
    have hheld := h.held
    by_cases ht : q.token = t
    · obtain ⟨hbalance, hallowance⟩ := hleft ht
      subst ht
      refine ⟨?_, ?_, h.authorized⟩
      · simp only [Function.update_self]
        omega
      · simp only [Function.update_self]
        exact hallowance
    · have hsame : Function.update m.2 q.token u' t = m.2 t :=
        Function.update_of_ne (Ne.symm ht) _ _
      exact ⟨by simp only [hsame]; exact hheld, by simp only [hsame]; exact h.allowance,
        h.authorized⟩
  have hzero : q.token = t → ∀ spender, spender ≠ dep.PROXY →
      (m.2 q.token).allowed a spender = 0 := fun ht => ht ▸ h.allowance
  unfold Token.tokens
  by_cases ht : q.token = t
  · cases hk : chain.kind q.token with
    | standard =>
      refine (wp_zoom _).mpr (wp_mono (wp_serve_spared hsender hproxy (hzero ht)
        (fun _ _ => StandardToken.wp_transfer) (fun _ _ _ => StandardToken.wp_transferFrom) _)
        fun _ u' hleft => hone u' fun _ => ht ▸ hleft)
    | withOverflowProtection =>
      refine (wp_zoom _).mpr (wp_mono (wp_serve_spared hsender hproxy (hzero ht)
        (fun _ _ => wp_mono StandardTokenWithOverflowProtection.wp_transfer ?_)
        (fun _ _ _ => wp_mono StandardTokenWithOverflowProtection.wp_transferFrom ?_) _)
        fun _ u' hleft => hone u' fun _ => ht ▸ hleft)
      · rintro _ u' ⟨rfl, hmoved⟩
        exact ⟨fun _ => hmoved, fun hno => absurd hno (by simp)⟩
      · rintro _ u' ⟨rfl, hmoved⟩
        exact ⟨fun _ => hmoved, fun hno => absurd hno (by simp)⟩
    | foreign => exact absurd (ht ▸ hk) hkind
  · cases chain.kind q.token with
    | standard =>
      exact (wp_zoom _).mpr (wp_mono wp_still_true fun _ u' _ => hone u' fun he => absurd he ht)
    | withOverflowProtection =>
      exact (wp_zoom _).mpr (wp_mono wp_still_true fun _ u' _ => hone u' fun he => absurd he ht)
    | foreign =>
      refine wp_extCall.mpr ⟨trivial, fun _ ts hts => ?_⟩
      rw [show ts = m.2 from hts]
      exact h

/-! ## What was drawn was signed -/

/-- Every transfer out of `a` was made for one of the orders of `a` in the list, as a part of its
value or as its fee. -/
def Signed (dep : Deployment) (a : Address) (orders : List OrderData) (ms : List Move) : Prop :=
  ∀ mv ∈ ms, mv.payer = a → ∃ o ∈ orders, o.1.maker = a ∧ mv.orderHash = getOrderHash dep o ∧
    (mv.leg = .tokenM ∨ mv.leg = .feeM)

variable {orders : List OrderData}

/-- A fill by another draws from `a` only if the order is in the list. -/
theorem signed_fill {msg : Msg} {o : OrderData} {n : Uint256} {check : Bool} {sig : Signature}
    (hsender : msg.sender ≠ a)
    (horders : o.1.maker = a →
      isValidSignature dep.crypto a (getOrderHash dep o) sig = true → o ∈ orders)
    (hs : Signed dep a orders s.moves) :
    wp Boundary.still (fill dep msg o n check sig)
      (fun _ s' => Signed dep a orders s'.moves) s := by
  refine wp_fill_still (fun _ => hs) fun f s' hpasses hsettled => ?_
  have hmaker : o.1.maker = a → o ∈ orders := fun ha => horders ha (ha ▸ hpasses.signed)
  cases hsettled with
  | intro filled v feeM feeT msM msT hfilled hv hM hT =>
    intro mv hmv hpayer
    simp only [List.mem_append, List.mem_cons] at hmv
    rcases hmv with hmv | hmv | rfl | rfl | hmv
    · exact absurd ((hT.mem hmv).2.2.2.1.symm.trans hpayer) hsender
    · obtain ⟨hhash, hleg, -, hfrom, -⟩ := hM.mem hmv
      have ha : o.1.maker = a := hfrom.symm.trans hpayer
      exact ⟨o, hmaker ha, ha, hhash, .inr hleg⟩
    · exact absurd hpayer hsender
    · exact ⟨o, hmaker hpayer, hpayer, rfl, .inl rfl⟩
    · exact hs mv hmv hpayer

/-- What the orders of `a` in the list say that may be taken of `t`. -/
def signedValue (dep : Deployment) (a t : Address) (o : OrderData) : Nat :=
  if o.1.maker = a then
    (if o.1.tokenM = t then o.2.valueM.val else 0) + (if dep.ZRX = t then o.2.feeM.val else 0)
  else 0

/-- What has been drawn, order by order. -/
def drawnFor (dep : Deployment) (a t : Address) (ms : List Move) (o : OrderData) : Nat :=
  if o.1.maker = a then
    (if o.1.tokenM = t then moved (getOrderHash dep o) .tokenM ms else 0) +
      (if dep.ZRX = t then moved (getOrderHash dep o) .feeM ms else 0)
  else 0

theorem drawnFor_le {o : OrderData} (hb : Books dep o s) :
    drawnFor dep a t s.moves o ≤ signedValue dep a t o := by
  have hle : (s.filled (getOrderHash dep o)).val ≤ o.2.valueT.val :=
    Nat.le_trans (Nat.le_add_right _ _) hb.bound
  have hM := Nat.le_trans hb.tokenM (Lib.share_le hle _)
  have hfee := Nat.le_trans hb.feeM (Lib.share_le hle _)
  unfold drawnFor signedValue
  split_ifs <;> omega

theorem drawnFor_cons_le (mv : Move) (ms : List Move) (o : OrderData) :
    drawnFor dep a t ms o ≤ drawnFor dep a t (mv :: ms) o := by
  unfold drawnFor
  rw [moved_cons, moved_cons]
  split_ifs <;> omega

/-- One transfer counts for its order. -/
theorem drawnFor_cons {mv : Move} {o : OrderData} (ha : o.1.maker = a)
    (hhash : mv.orderHash = getOrderHash dep o) (hleg : mv.leg = .tokenM ∨ mv.leg = .feeM)
    (hproper : mv.Proper dep o) (ht : mv.token = t) (ms : List Move) :
    drawnFor dep a t ms o + mv.value.val ≤ drawnFor dep a t (mv :: ms) o := by
  unfold drawnFor
  rw [moved_cons, moved_cons, if_pos ha, if_pos ha]
  unfold Move.Proper at hproper
  rcases hleg with hleg | hleg
  · rw [hleg] at hproper
    have htoken : o.1.tokenM = t := hproper.1.symm.trans ht
    have hcounts : mv.orderHash = getOrderHash dep o ∧ mv.leg = .tokenM := ⟨hhash, hleg⟩
    rw [if_pos htoken, if_pos htoken, if_pos hcounts]
    split_ifs <;> omega
  · rw [hleg] at hproper
    have htoken : dep.ZRX = t := hproper.1.symm.trans ht
    have hcounts : mv.orderHash = getOrderHash dep o ∧ mv.leg = .feeM := ⟨hhash, hleg⟩
    rw [if_pos htoken, if_pos htoken, if_pos hcounts]
    split_ifs <;> omega

theorem sum_map_add_le {α : Type} {l : List α} {f g : α → Nat} {x : α} {v : Nat}
    (hle : ∀ y, f y ≤ g y) (hx : x ∈ l) (hv : f x + v ≤ g x) :
    (l.map f).sum + v ≤ (l.map g).sum := by
  induction l with
  | nil => exact absurd hx List.not_mem_nil
  | cons y l ih =>
    rw [List.map_cons, List.map_cons, List.sum_cons, List.sum_cons]
    have hrest : (l.map f).sum ≤ (l.map g).sum := List.sum_le_sum fun z _ => hle z
    rcases List.mem_cons.mp hx with rfl | hx
    · omega
    · have := ih hx
      have := hle y
      omega

theorem drawn_le (hsigned : Signed dep a orders ms)
    (hproper : ∀ o ∈ orders, ∀ mv ∈ ms, mv.orderHash = getOrderHash dep o → mv.Proper dep o) :
    drawn a t ms ≤ (orders.map (drawnFor dep a t ms)).sum := by
  induction ms with
  | nil => exact Nat.zero_le _
  | cons mv ms ih =>
    have hrest := ih (fun mv' hmv => hsigned mv' (List.mem_cons_of_mem mv hmv))
      fun o ho mv' hmv => hproper o ho mv' (List.mem_cons_of_mem mv hmv)
    rw [drawn_cons]
    by_cases hmv : mv.payer = a ∧ mv.token = t
    · rw [if_pos hmv]
      obtain ⟨o, ho, ha, hhash, hleg⟩ := hsigned mv List.mem_cons_self hmv.1
      have hle : ∀ o, drawnFor dep a t ms o ≤ drawnFor dep a t (mv :: ms) o :=
        drawnFor_cons_le mv ms
      have hone := sum_map_add_le hle ho
        (drawnFor_cons ha hhash hleg (hproper o ho mv List.mem_cons_self hhash) hmv.2 ms)
      omega
    · rw [if_neg hmv, Nat.zero_add]
      exact Nat.le_trans hrest (List.sum_le_sum fun o _ => drawnFor_cons_le mv ms o)

/-! ## Runs -/

/-- The exchange, its proxy and the tokens. -/
abbrev World := Storage × Market

/-- A call of any of the contracts, by anybody. -/
inductive WorldCall where
  | exchange (c : Call)
  | proxy (c : Proxy.Call)
  | token (q : Token.Query)

/-- The code a call runs. -/
def world (dep : Deployment) (chain : Chain O) : WorldCall → Contract World O Uint256 Unit
  | .exchange c => Contract.link (onMarket dep chain) (entry dep c)
  | .proxy c => Contract.zoom Lens.snd (Contract.link (onTokens dep chain) (Proxy.entry c))
  | .token q => Contract.zoom (Lens.snd.comp Lens.snd) (tokens chain q).void

/-- The calls of a run in which `a` only signs the orders in the list: `a` calls neither the
exchange nor a token, no other order with the hash of a listed one is named, no second exchange is
authorised at the proxy, and the exchange and the proxy make no calls but those of their code. -/
def Fair (dep : Deployment) (a : Address) (orders : List OrderData) : WorldCall → Prop
  | .exchange c => c.msg.sender ≠ a ∧
      (∀ o sig, c.Fills o sig → o.1.maker = a →
        isValidSignature dep.crypto a (getOrderHash dep o) sig = true → o ∈ orders) ∧
      ∀ o ∈ orders, ∀ o', c.Names o' → getOrderHash dep o' = getOrderHash dep o → o' = o
  | .proxy (.addAuthorizedAddress ..) => False
  | .proxy (.transferFrom sender ..) => sender ≠ dep.this
  | .proxy (.removeAuthorizedAddress ..) => True
  | .proxy (.transferOwnership ..) => True
  | .token q => q.sender ≠ a ∧ q.sender ≠ dep.PROXY

/-- What is authorised of the proxy can only be taken back. -/
theorem Safe.proxyCall (h : Safe dep a t first ms m) {c : Proxy.Call}
    (hc : Fair dep a orders (.proxy c)) :
    wp Boundary.still (Contract.link (onTokens dep chain) (Proxy.entry c))
      (fun _ m' => Safe dep a t first ms m') m := by
  have hchange : (∀ sender token payer payee value, c ≠ .transferFrom sender token payer payee
      value) → (∀ p, Proxy.Change c m.1 p → ∀ b, p.authorized b = true →
        m.1.authorized b = true) →
      wp Boundary.still (Contract.link (onTokens dep chain) (Proxy.entry c))
        (fun _ m' => Safe dep a t first ms m') m := fun hno hless =>
    wp_link_of_closed (wp_mono (Proxy.wp_entry c hno) fun _ p hp =>
      ⟨h.held, h.allowance, fun b hb => h.authorized b (hless p hp b hb)⟩)
  cases c with
  | addAuthorizedAddress sender target => exact hc.elim
  | removeAuthorizedAddress sender target =>
    refine hchange (fun _ _ _ _ _ => by simp) fun p hp b hb => ?_
    cases hp with
    | remove =>
      by_cases hb' : b = target
      · subst hb'
        simp only [Function.update_self] at hb
        exact absurd hb (by simp)
      · simpa only [Function.update_of_ne hb'] using hb
  | transferOwnership sender newOwner =>
    refine hchange (fun _ _ _ _ _ => by simp) fun p hp b hb => ?_
    cases hp with
    | transferOwnership => exact hb
  | transferFrom sender token payer payee value =>
    simp only [Proxy.entry, Proxy.transferFrom, Contract.void, link_bind, link_get, link_require,
      link_extCall, link_pure, wp_bind, wp_get, wp_require]
    exact fun hauth => absurd (h.authorized sender hauth) hc

/-- **One call of such a run**, for the account. -/
theorem safe_world (hkind : chain.kind t ≠ .foreign) {c : WorldCall} (hc : Fair dep a orders c)
    {w : World} (hw : Moving (Safe dep a t first) w) :
    wp Boundary.still (world dep chain c) (fun _ w' => Moving (Safe dep a t first) w') w := by
  cases c with
  | exchange c => exact wp_moving_entry (fun _ _ _ _ => Safe.served hkind) c hw
  | proxy c => exact (wp_zoom _).mpr (hw.proxyCall hc)
  | token q =>
    simp only [world, wp_zoom, wp_void]
    exact hw.tokens hc.1 hc.2 hkind

/-- Only calls of the exchange change its storage, and they do so whatever the market is. -/
theorem wp_world_exchange {I : Storage → Prop} {c : WorldCall} {w : World} (hw : I w.1)
    (hone : ∀ c', c = .exchange c' →
      wp Boundary.still (entry dep c') (fun _ s' => I s') w.1) :
    wp Boundary.still (world dep chain c) (fun _ w' => I w'.1) w := by
  cases c with
  | exchange c =>
    exact wp_mono (wp_link_of_wp (A := fun _ _ => True) (J := fun _ => True)
      (fun _ _ _ _ _ => wp_still_true) (hone c rfl) trivial) fun _ _ h => h.1
  | proxy c => exact (wp_zoom _).mpr (wp_mono wp_still_true fun _ _ _ => hw)
  | token q => exact (wp_zoom _).mpr (wp_mono wp_still_true fun _ _ _ => hw)

theorem signed_world {c : WorldCall} (hc : Fair dep a orders c) {w : World}
    (hw : Signed dep a orders w.1.moves) :
    wp Boundary.still (world dep chain c) (fun _ w' => Signed dep a orders w'.1.moves) w := by
  refine wp_world_exchange (I := fun s => Signed dep a orders s.moves) hw ?_
  rintro c rfl
  obtain ⟨hsender, hsigned, -⟩ := hc
  refine wp_entry (I := fun s => Signed dep a orders s.moves) c (fun o n check sig s h hs => ?_)
    (fun o n s _ hs => wp_cancel (fun _ => hs) fun _ _ _ _ _ _ => hs) hw
  exact signed_fill hsender (fun ha hsig => hsigned o sig h ha hsig) hs

theorem books_world {c : WorldCall} (hc : Fair dep a orders c) {o : OrderData} (ho : o ∈ orders)
    {w : World} (hw : Books dep o w.1) :
    wp Boundary.still (world dep chain c) (fun _ w' => Books dep o w'.1) w := by
  refine wp_world_exchange (I := Books dep o) hw ?_
  rintro c rfl
  obtain ⟨-, -, hnames⟩ := hc
  refine wp_entry c (fun o' n check sig s h hs => ?_) (fun o' n s h hs => ?_) hw
  · exact books_fill (hnames o ho o' (.inl ⟨sig, h⟩)) hs
  · exact books_cancel (hnames o ho o' (.inr h)) hs

/-- Account `10` has 5000 of token `30` and account `20` has 10 of token `40`, all of which the
proxy may take for the exchange. -/
def makerMarket : Market :=
  (⟨6, fun b => decide (b = 1), [1], []⟩, fun token =>
    if token = 30 then (Token.Storage.init.setBalance 10 5000).setAllowed 10 3 5000
    else if token = 40 then (Token.Storage.init.setBalance 20 10).setAllowed 20 3 10
    else Token.Storage.init)

/-- Account `20` fills 4 out of 10 of `sampleOrder`. -/
def makerRun : List (WorldCall × List (Option Uint256)) :=
  [(.exchange (.fill ⟨20, 50⟩ sampleOrder 4 false sampleSig), [])]

end ChainX.Exchange
