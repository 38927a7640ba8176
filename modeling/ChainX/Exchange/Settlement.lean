import ChainX.Exchange.Books
import ChainX.Exchange.Market
import ChainX.Lib.Payments

/-!
# What a fill settles

The exchange on its market (`onMarket`), where all tokens are `StandardTokenWithOverflowProtection`.
A fill that goes through carries out up to four payments one after the other (`fillPayments`),
between accounts that may coincide and in tokens that may. They are those of `chainx.sol:137-172`:
the two sides, and a fee of each party where there is somebody to receive fees and the fee is not
zero.

* An account of `Lib.Payments` is a token together with an address; its limit is what the proxy may
  take of it.
* `Drawn`: what payments through the proxy do to the tokens, from `wp_drawn_transferViaProxy` for
  one to `wp_drawn_settle` for all of a fill.
* `wp_link_isTransferable`: what a predicted fill rests on (`Predicted`).

**`fill_all_or_nothing`**: a fill throws, or declines and leaves everything as it was, or carries
out exactly these payments.
-/

namespace ChainX.Exchange

open ChainX.Evm ChainX.Lib ChainX.Reentry ChainX.Token

-- the hash is never computed in the general results
attribute [local irreducible] getOrderHash

/-! ## Payments -/

/-- What the account `k.2` has of the token `k.1`. -/
def balance (m : Market) (k : Address × Address) : Nat := ((m.2 k.1).balances k.2).val

/-- What the proxy may take of it. -/
def limit (dep : Deployment) (m : Market) (k : Address × Address) : Nat :=
  ((m.2 k.1).allowed k.2 dep.PROXY).val

/-- A transfer, as a payment between accounts of a token. -/
def payment (token payer payee : Address) (value : Nat) : Payment (Address × Address) :=
  ⟨(token, payer), (token, payee), value⟩

/-- The fee a party pays on a fill of `f`. -/
def feePayments (dep : Deployment) (o : OrderData) (payer : Address) (fee f : Uint256) :
    List (Payment (Address × Address)) :=
  if o.1.feeRecipient ≠ 0 ∧ 0 < fee then
    [payment dep.ZRX payer o.1.feeRecipient (f.val * fee.val / o.2.valueT.val)]
  else
    []

/-- The payments of a fill of `f` by `taker`, in their order. -/
def fillPayments (dep : Deployment) (taker : Address) (o : OrderData) (f : Uint256) :
    List (Payment (Address × Address)) :=
  payment o.1.tokenM o.1.maker taker (f.val * o.2.valueM.val / o.2.valueT.val) ::
    payment o.1.tokenT taker o.1.maker f.val ::
      (feePayments dep o o.1.maker o.2.feeM f ++ feePayments dep o taker o.2.feeT f)

variable {O : Type} {dep : Deployment} {chain : Chain O} {s : Storage} {m m' : Market}
  {ps : List (Payment (Address × Address))}

theorem feePayments_of_fee {o : OrderData} {payer : Address} {fee f paid : Uint256}
    (hfee : (dep.order o).feeRecipient ≠ 0 ∧ 0 < fee)
    (hpaid : getPartialValue (dep.order o).valueT f fee = some paid) :
    feePayments dep o payer fee f = [payment dep.ZRX payer o.1.feeRecipient paid.val] := by
  have hval : paid.val = f.val * fee.val / o.2.valueT.val := (getPartialValue_eq_some.mp hpaid).2.2
  rw [hval]
  exact if_pos hfee

theorem feePayments_of_none {o : OrderData} {payer : Address} {fee f : Uint256}
    (hno : ¬ ((dep.order o).feeRecipient ≠ 0 ∧ 0 < fee)) : feePayments dep o payer fee f = [] :=
  if_neg hno

theorem forall_feePayments {P : Payment (Address × Address) → Prop} {o : OrderData}
    {payer : Address} {fee f : Uint256} (h : o.1.feeRecipient ≠ 0 →
      P (payment dep.ZRX payer o.1.feeRecipient (f.val * fee.val / o.2.valueT.val))) :
    ∀ p ∈ feePayments dep o payer fee f, P p := by
  intro p hp
  unfold feePayments at hp
  split at hp
  · rename_i hfee
    rw [List.mem_singleton.mp hp]
    exact h hfee.1
  · exact absurd hp List.not_mem_nil

/-- The two sides, and the fees where there is a recipient. -/
theorem forall_fillPayments {P : Payment (Address × Address) → Prop} {taker : Address}
    {o : OrderData} {f : Uint256}
    (hM : P (payment o.1.tokenM o.1.maker taker (f.val * o.2.valueM.val / o.2.valueT.val)))
    (hT : P (payment o.1.tokenT taker o.1.maker f.val))
    (hfeeM : o.1.feeRecipient ≠ 0 →
      P (payment dep.ZRX o.1.maker o.1.feeRecipient (f.val * o.2.feeM.val / o.2.valueT.val)))
    (hfeeT : o.1.feeRecipient ≠ 0 →
      P (payment dep.ZRX taker o.1.feeRecipient (f.val * o.2.feeT.val / o.2.valueT.val))) :
    ∀ p ∈ fillPayments dep taker o f, P p := by
  intro p hp
  simp only [fillPayments, List.mem_cons, List.mem_append] at hp
  rcases hp with rfl | rfl | hp | hp
  · exact hM
  · exact hT
  · exact forall_feePayments hfeeM p hp
  · exact forall_feePayments hfeeT p hp

/-- Without fees only the two sides are paid. -/
theorem FeeFree.fillPayments {taker : Address} {o : OrderData} {f : Uint256} (hfree : FeeFree o) :
    fillPayments dep taker o f =
      [payment o.1.tokenM o.1.maker taker (f.val * o.2.valueM.val / o.2.valueT.val),
        payment o.1.tokenT taker o.1.maker f.val] := by
  unfold Exchange.fillPayments
  rw [feePayments_of_none (hfree.no_fee (.inl rfl)), feePayments_of_none (hfree.no_fee (.inr rfl))]
  rfl

/-- The payments `ps` through the proxy have led from `m` to `m'`. -/
structure Drawn (dep : Deployment) (m : Market) (ps : List (Payment (Address × Address)))
    (m' : Market) : Prop where
  applied : AppliedAll (balance m) (limit dep m) ps (balance m') (limit dep m')
  proxy : m'.1 = m.1
  /-- What others than the proxy may take stays. -/
  others : ∀ t owner spender, spender ≠ dep.PROXY →
    (m'.2 t).allowed owner spender = (m.2 t).allowed owner spender
  supply : ∀ t, SameSupply (m.2 t) (m'.2 t)

theorem Drawn.nil (dep : Deployment) (m : Market) : Drawn dep m [] m :=
  ⟨.nil _ _, rfl, fun _ _ _ _ => rfl, fun _ => SameSupply.refl _⟩

theorem Drawn.append {ps' : List (Payment (Address × Address))} {m'' : Market}
    (h : Drawn dep m ps m') (h' : Drawn dep m' ps' m'') : Drawn dep m (ps ++ ps') m'' where
  applied := h.applied.append h'.applied
  proxy := h'.proxy.trans h.proxy
  others t owner spender hne := (h'.others t owner spender hne).trans (h.others t owner spender hne)
  supply t := (h.supply t).trans (h'.supply t)

/-- One transfer through the proxy is one payment. -/
theorem Proxied.drawn {token payer payee : Address} {value : Uint256}
    (h : Proxied dep m m' token payer payee value)
    (hle : value.val ≤ ((m.2 token).balances payer).val) :
    Drawn dep m [payment token payer payee value.val] m' := by
  have hspent := h.spent
  have hother : ∀ t, t ≠ token → m'.2 t = m.2 t := h.transferred.others
  refine ⟨.cons ⟨⟨hle, ?_⟩, ?_, ?_⟩ (.nil _ _), h.proxy, ?_, ?_⟩
  · have := hspent payer dep.PROXY
    rw [if_pos ⟨rfl, rfl⟩] at this
    simp only [payment, limit]
    omega
  · rintro ⟨t, owner⟩
    simp only [balance, payment, Prod.mk.injEq]
    by_cases ht : t = token
    · subst ht
      simp only [true_and]
      exact h.transferred.moved.balances owner
    · rw [hother t ht, if_neg fun he => ht he.1, if_neg fun he => ht he.1]
  · rintro ⟨t, owner⟩
    simp only [limit, payment, Prod.mk.injEq]
    by_cases ht : t = token
    · subst ht
      have := hspent owner dep.PROXY
      simp only [and_true] at this
      simpa only [true_and] using this
    · rw [hother t ht, if_neg fun he => ht he.1, Nat.add_zero]
  · intro t owner spender hne
    by_cases ht : t = token
    · subst ht
      have := hspent owner spender
      rw [if_neg fun he => hne he.2, Nat.add_zero] at this
      exact Fin.ext this
    · rw [hother t ht]
  · intro t
    by_cases ht : t = token
    · subst ht
      exact h.transferred.moved.sameSupply
    · rw [hother t ht]
      exact SameSupply.refl _

/-! ## The functions on the market -/

theorem wp_onMarket_le {h : Bytes32} {token payer payee : Address} {value : Uint256}
    (hkind : chain.kind token ≠ .foreign) :
    wp Boundary.closed (onMarket dep chain (.transferFrom h token payer payee value))
      (fun _ _ => value.val ≤ ((m.2 token).balances payer).val ∧
        (chain.kind token = .standard → 0 < value.val)) m := by
  simp only [onMarket, onTokens, Proxy.transferFrom, link_bind, link_get, link_require,
    link_extCall, link_pure, wp_bind, wp_get, wp_pure, wp_require, wp_zoom_closed]
  exact fun _ => wp_mono (wp_tokens_transferFrom_le hkind) fun _ _ h hsuccess => h hsuccess

theorem wp_drawn_transferViaProxy {h : Bytes32} {leg : Leg} {token payer payee : Address}
    {value : Uint256} {post : Bool → Storage × Market → Prop}
    (hkind : chain.kind token ≠ .foreign)
    (hpost : ∀ moves m', m.1.authorized dep.this = true →
      (chain.kind token = .standard → 0 < value.val) →
      Drawn dep m [payment token payer payee value.val] m' →
      post true ({ s with moves := moves }, m')) :
    wp Boundary.closed (Contract.link (onMarket dep chain)
      (transferViaProxy h leg token payer payee value)) post (s, m) := by
  simp only [transferViaProxy, link_bind, link_extCall, link_ite, link_modify, link_pure, wp_bind,
    wp_zoom_closed, wp_ite, wp_modify, wp_pure]
  refine wp_mono (wp_and (wp_onMarket_transferFrom hkind) (wp_onMarket_le hkind)) ?_
  rintro _ m' ⟨⟨rfl, hm'⟩, hle, hpos⟩
  exact ⟨fun _ => hpost _ m' hm'.authorized hpos (hm'.drawn hle),
    fun h => absurd (by decide) h⟩

section Protected

variable (hkind : ∀ t, chain.kind t = .withOverflowProtection)
include hkind

theorem not_foreign (t : Address) : chain.kind t ≠ .foreign := by
  rw [hkind t]
  decide

theorem wp_drawn_payFee {o : OrderData} {leg : Leg} {payer : Address} {fee f : Uint256}
    {post : Uint256 → Storage × Market → Prop}
    (hpost : ∀ paid moves m', Drawn dep m (feePayments dep o payer fee f) m' →
      post paid ({ s with moves := moves }, m')) :
    wp Boundary.closed (Contract.link (onMarket dep chain)
      (payFee dep (dep.order o) leg payer fee f)) post (s, m) := by
  simp only [payFee, link_ite, link_bind, link_ofOption, link_require, link_pure, wp_ite, wp_bind,
    wp_ofOption, wp_require, wp_pure]
  refine ⟨fun hfee paid hpaid => ?_, fun hno => hpost 0 s.moves m ?_⟩
  · refine wp_drawn_transferViaProxy (not_foreign hkind _) fun moves m' _ _ hm' _ =>
      hpost paid moves m' ?_
    rw [feePayments_of_fee hfee hpaid]
    exact hm'
  · rw [feePayments_of_none hno]
    exact Drawn.nil dep m

/-- What a fill of `f` that has gone through has done. -/
structure Settlement (dep : Deployment) (msg : Msg) (o : OrderData) (f : Uint256)
    (st st' : Storage × Market) : Prop where
  traded : ∃ v feeM feeT, getPartialValue o.2.valueT f o.2.valueM = some v ∧
    st'.1.log = fillEvent dep msg (dep.order o) v f feeM feeT :: st.1.log
  filled : ∀ h, (st'.1.filled h).val =
    (st.1.filled h).val + if h = getOrderHash dep o then f.val else 0
  cancelled : st'.1.cancelled = st.1.cancelled
  drawn : Drawn dep st.2 (fillPayments dep msg.sender o f) st'.2

theorem wp_drawn_settle {msg : Msg} {o : OrderData} {f : Uint256} :
    wp Boundary.closed (Contract.link (onMarket dep chain) (settle dep msg (dep.order o) f))
      (fun f' st' => f' = f ∧ Settlement dep msg o f (s, m) st') (s, m) := by
  simp only [settle, emit, link_bind, link_get, link_require, link_ofOption, link_modify,
    link_pure, wp_bind, wp_get, wp_pure, wp_require, wp_ofOption, wp_modify, safeAdd_eq_some]
  intro v hv filled hfilled
  refine wp_drawn_transferViaProxy (not_foreign hkind _) fun _ m1 _ _ h1 _ => ?_
  refine wp_drawn_transferViaProxy (not_foreign hkind _) fun _ m2 _ _ h2 _ => ?_
  refine wp_drawn_payFee hkind fun feeM _ m3 h3 => ?_
  refine wp_drawn_payFee hkind fun feeT _ m4 h4 => ?_
  have hval : v.val = f.val * o.2.valueM.val / o.2.valueT.val := (getPartialValue_eq_some.mp hv).2.2
  refine ⟨trivial, ⟨v, feeM, feeT, hv, rfl⟩, fun h => ?_, rfl, ?_⟩
  · by_cases hh : h = getOrderHash dep o
    · subst hh
      have hself : Function.update s.filled (dep.order o).orderHash filled (getOrderHash dep o) =
          filled := Function.update_self _ _ _
      simp only [hself, if_true]
      exact hfilled
    · have hother : Function.update s.filled (dep.order o).orderHash filled h = s.filled h :=
        Function.update_of_ne hh _ _
      simp only [hother, if_neg hh, Nat.add_zero]
  · rw [fillPayments, ← hval]
    exact h1.append (h2.append (h3.append h4))

/-! ### The prediction -/

theorem link_getBalance (h : Bytes32) (token owner : Address) :
    Contract.link (onMarket dep chain) (getBalance h token owner) (s, m) =
      .ret ((m.2 token).balances owner) (s, m) := by
  have hsame : (Tokens.one token).put m.2 (m.2 token) = m.2 := (Tokens.one token).put_view m.2
  simp only [getBalance, link_extCall, onMarket, tokens, hkind, serve]
  change Proc.ret _ (s, (m.1, (Tokens.one token).put m.2 (m.2 token))) = _
  rw [hsame]
  rfl

theorem link_getAllowance (h : Bytes32) (token owner : Address) :
    Contract.link (onMarket dep chain) (getAllowance dep h token owner) (s, m) =
      .ret ((m.2 token).allowed owner dep.PROXY) (s, m) := by
  have hsame : (Tokens.one token).put m.2 (m.2 token) = m.2 := (Tokens.one token).put_view m.2
  simp only [getAllowance, link_extCall, onMarket, tokens, hkind, serve]
  change Proc.ret _ (s, (m.1, (Tokens.one token).put m.2 (m.2 token))) = _
  rw [hsame]
  rfl

omit hkind in
theorem wp_link_anyBelow_cons {read : M Uint256} {a bound : Uint256}
    {rest : List (M Uint256 × Uint256)} {post : Bool → Storage × Market → Prop}
    (hread : Contract.link (onMarket dep chain) read (s, m) = .ret a (s, m)) :
    wp Boundary.closed (Contract.link (onMarket dep chain) (anyBelow ((read, bound) :: rest)))
        post (s, m) ↔
      (a < bound → post true (s, m)) ∧
        (bound ≤ a → wp Boundary.closed (Contract.link (onMarket dep chain) (anyBelow rest))
          post (s, m)) := by
  have hone : ∀ post : Uint256 → Storage × Market → Prop,
      wp Boundary.closed (Contract.link (onMarket dep chain) read) post (s, m) ↔
        post a (s, m) := by
    intro post
    unfold wp
    rw [hread]
    exact Iff.rfl
  simp only [anyBelow, link_bind, link_ite, link_pure, wp_bind, wp_ite, wp_pure, hone, not_lt]

/-- The four comparisons that the prediction makes of two payments. -/
theorem wp_link_anyBelow {h : Bytes32} {t t' a a' : Address} {v v' : Uint256}
    {post : Bool → Storage × Market → Prop}
    (hpost : ∀ b, (b = false →
      (v.val ≤ balance m (t, a) ∧ v.val ≤ limit dep m (t, a)) ∧
        v'.val ≤ balance m (t', a') ∧ v'.val ≤ limit dep m (t', a')) → post b (s, m)) :
    wp Boundary.closed (Contract.link (onMarket dep chain) (anyBelow
      [(getBalance h t a, v), (getAllowance dep h t a, v), (getBalance h t' a', v'),
        (getAllowance dep h t' a', v')])) post (s, m) := by
  have hlacks : post true (s, m) := hpost true fun h => absurd h (by simp)
  refine (wp_link_anyBelow_cons (link_getBalance hkind h t a)).mpr ⟨fun _ => hlacks, fun h1 => ?_⟩
  refine (wp_link_anyBelow_cons (link_getAllowance hkind h t a)).mpr ⟨fun _ => hlacks, fun h2 => ?_⟩
  refine (wp_link_anyBelow_cons (link_getBalance hkind h t' a')).mpr ⟨fun _ => hlacks, fun h3 => ?_⟩
  refine (wp_link_anyBelow_cons (link_getAllowance hkind h t' a')).mpr
    ⟨fun _ => hlacks, fun h4 => ?_⟩
  exact hpost false fun _ => ⟨⟨h1, h2⟩, h3, h4⟩

/-- What a prediction that a fill of `f` goes through rests on. -/
structure Predicted (dep : Deployment) (taker : Address) (o : OrderData) (f : Uint256)
    (m : Market) : Prop where
  price : ∃ v, getPartialValue o.2.valueT f o.2.valueM = some v
  fees : o.1.feeRecipient ≠ 0 → (∃ v, getPartialValue o.2.valueT f o.2.feeM = some v) ∧
    ∃ v, getPartialValue o.2.valueT f o.2.feeT = some v
  covers : ∀ p ∈ fillPayments dep taker o f, Lib.Covers (balance m) (limit dep m) p

/-- **The rule for `isTransferable`.** -/
theorem wp_link_isTransferable {msg : Msg} {o : OrderData} {f : Uint256} :
    wp Boundary.closed (Contract.link (onMarket dep chain)
        (isTransferable dep msg (dep.order o) f))
      (fun b st' => st' = (s, m) ∧ (b = true → Predicted dep msg.sender o f m)) (s, m) := by
  simp only [isTransferable, link_bind, link_ofOption, link_ite, link_pure, wp_bind, wp_ofOption]
  intro v hv
  have hval := (getPartialValue_eq_some.mp hv).2.2
  refine wp_link_anyBelow hkind fun lacking hclear => ?_
  simp only [wp_ite, wp_bind, wp_ofOption, wp_pure]
  refine ⟨fun _ => ⟨trivial, fun h => absurd h (by simp)⟩, fun hfound => ?_⟩
  obtain ⟨⟨hbM, hlM⟩, hbT, hlT⟩ := hclear (Bool.not_eq_true _ ▸ hfound)
  rw [hval] at hbM hlM
  refine ⟨fun _ feeM hfeeM feeT hfeeT => ?_, fun hnone => ⟨trivial, fun _ => ?_⟩⟩
  · have hvalM := (getPartialValue_eq_some.mp hfeeM).2.2
    have hvalT := (getPartialValue_eq_some.mp hfeeT).2.2
    refine wp_link_anyBelow hkind fun lacking' hclear' => ⟨rfl, fun hb => ?_⟩
    obtain ⟨⟨hbfM, hlfM⟩, hbfT, hlfT⟩ := hclear' (Bool.not_eq_true' _ ▸ hb)
    rw [hvalM] at hbfM hlfM
    rw [hvalT] at hbfT hlfT
    exact ⟨⟨v, hv⟩, fun _ => ⟨⟨feeM, hfeeM⟩, feeT, hfeeT⟩, forall_fillPayments ⟨hbM, hlM⟩
      ⟨hbT, hlT⟩ (fun _ => ⟨hbfM, hlfM⟩) (fun _ => ⟨hbfT, hlfT⟩)⟩
  · exact ⟨⟨v, hv⟩, fun hrecipient => absurd hrecipient hnone, forall_fillPayments ⟨hbM, hlM⟩
      ⟨hbT, hlT⟩ (fun hrecipient => absurd hrecipient hnone)
      (fun hrecipient => absurd hrecipient hnone)⟩

/-! ## A fill settles all or nothing -/

/-- A fill that returns has declined, or settled. -/
theorem wp_link_fill {msg : Msg} {o : OrderData} {n : Uint256} {check : Bool} {sig : Signature} :
    wp Boundary.closed (Contract.link (onMarket dep chain) (fill dep msg o n check sig))
      (fun f st' =>
        (f = 0 ∧ ∃ code, st' = ({ s with
          log := .logError code (getOrderHash dep o) :: s.log }, m)) ∨
        Fits dep o s n f ∧ Settlement dep msg o f (s, m) st') (s, m) := by
  simp only [fill, remainingValueT, getUnavailableValueT, emit, link_bind, link_get, link_require,
    link_ofOption, link_ite, link_modify, link_pure, wp_bind, wp_get, wp_pure, wp_require,
    wp_ofOption, wp_ite, wp_modify, safeAdd_eq_some, safeSub_eq_some]
  refine fun _ => ⟨fun _ => Or.inl ⟨trivial, _, rfl⟩, fun _ unavailable hunavailable r hr => ?_⟩
  refine ⟨fun _ => Or.inl ⟨trivial, _, rfl⟩, fun hpos => ⟨fun _ => Or.inl ⟨trivial, _, rfl⟩,
    fun _ => ?_⟩⟩
  have hfits : Fits dep o s n (minUint n r) := by
    have hsum : unavailable.val = (s.filled (getOrderHash dep o)).val +
      (s.cancelled (getOrderHash dep o)).val := hunavailable
    have hle : unavailable.val ≤ o.2.valueT.val := hr.1
    have hr' : r.val = o.2.valueT.val - unavailable.val := hr.2
    exact fits_minUint (by omega) hpos
  have hsettle : wp Boundary.closed
      (Contract.link (onMarket dep chain) (settle dep msg (dep.order o) (minUint n r)))
      (fun f st' => (f = 0 ∧ ∃ code, st' = ({ s with
          log := .logError code (getOrderHash dep o) :: s.log }, m)) ∨
        Fits dep o s n f ∧ Settlement dep msg o f (s, m) st') (s, m) := by
    refine wp_mono (wp_drawn_settle hkind) ?_
    rintro f st' ⟨rfl, hsettled⟩
    exact Or.inr ⟨hfits, hsettled⟩
  refine ⟨fun _ => wp_mono (wp_link_isTransferable hkind) ?_, fun _ =>
    ⟨fun _ => Or.inl ⟨trivial, _, rfl⟩, fun _ _ => hsettle⟩⟩
  rintro transferable st' ⟨rfl, -⟩
  exact ⟨fun _ => Or.inl ⟨trivial, _, rfl⟩, fun _ _ => hsettle⟩

end Protected

/-- **A fill settles all or nothing.** Whatever the state and the call, and whichever parties and
tokens coincide: the fill throws, which leaves everything as it was; or it returns `0`, with
`filled`, `cancelled` and all tokens unchanged; or it returns an amount `f` that was asked for and
remained, has filled it, and every balance has changed by exactly the payments of the fill, every
allowance of the proxy by what was paid of it, and no other allowance. -/
theorem fill_all_or_nothing (dep : Deployment) (chain : Chain O)
    (hkind : ∀ t, chain.kind t = .withOverflowProtection) (s : Storage) (m : Market) (msg : Msg)
    (o : OrderData) (n : Uint256) (check : Bool) (sig : Signature) :
    let out := Contract.link (onMarket dep chain) (fill dep msg o n check sig) (s, m)
    (out = .throw ∧ land (s, m) [] out = ⟨(s, m), []⟩) ∨
      (∃ s', out = .ret 0 (s', m) ∧ s'.filled = s.filled ∧ s'.cancelled = s.cancelled) ∨
      ∃ f s' m', out = .ret f (s', m') ∧ 0 < f.val ∧ f.val ≤ n.val ∧
        f.val ≤ o.2.valueT.val - (s.filled (getOrderHash dep o)).val -
          (s.cancelled (getOrderHash dep o)).val ∧
        (∀ h, (s'.filled h).val =
          (s.filled h).val + if h = getOrderHash dep o then f.val else 0) ∧
        s'.cancelled = s.cancelled ∧
        (∃ v feeM feeT, s'.log = fillEvent dep msg (dep.order o) v f feeM feeT :: s.log ∧
          v.val = f.val * o.2.valueM.val / o.2.valueT.val ∧
          v.val * o.2.valueT.val ≤ f.val * o.2.valueM.val) ∧
        (∀ token a, balance m' (token, a) + paid (token, a) (fillPayments dep msg.sender o f) =
          balance m (token, a) + received (token, a) (fillPayments dep msg.sender o f)) ∧
        (∀ token a, limit dep m' (token, a) + paid (token, a) (fillPayments dep msg.sender o f) =
          limit dep m (token, a)) ∧
        ∀ token a spender, spender ≠ dep.PROXY →
          (m'.2 token).allowed a spender = (m.2 token).allowed a spender := by
  intro out
  rcases eq_of_closed (wp_link_fill (s := s) (m := m) hkind) with hthrow | ⟨f, st', hret, hend⟩
  · exact Or.inl ⟨hthrow, by rw [show out = _ from hthrow]; rfl⟩
  rcases hend with ⟨rfl, code, rfl⟩ | ⟨hfits, hsettled⟩
  · exact Or.inr (Or.inl ⟨_, hret, rfl, rfl⟩)
  · obtain ⟨v, feeM, feeT, hv, hlog⟩ := hsettled.traded
    have hval := (getPartialValue_eq_some.mp hv).2.2
    have hroom := hfits.room
    refine Or.inr (Or.inr ⟨f, st'.1, st'.2, hret, hfits.pos, hfits.le, by omega, hsettled.filled,
      hsettled.cancelled, ⟨v, feeM, feeT, hlog, hval, ?_⟩, ?_, ?_, hsettled.drawn.others⟩)
    · rw [hval]
      exact Nat.div_mul_le_self _ _
    · exact fun token a => hsettled.drawn.applied.balance_eq (token, a)
    · exact fun token a => hsettled.drawn.applied.limit_eq (token, a)

/-! ### A fill between one account and itself -/

/-- A chain on which every token is a `StandardTokenWithOverflowProtection`. -/
def protectedChain : Chain Token.Query := ⟨fun _ => .withOverflowProtection, id⟩

/-- The exchange is authorised; account `10` has 100 of `ZRX` and account `20` has 100 of token
`40`, all of which the proxy may take. -/
def sampleMarket : Market :=
  (⟨6, fun a => decide (a = 1), [1], []⟩, fun token =>
    { (if token = 2 then Token.Storage.init.setBalance 10 100
      else if token = 40 then Token.Storage.init.setBalance 20 100
      else Token.Storage.init) with allowed := fun _ spender => if spender = 3 then 100 else 0 })

/-- Account `10` is the maker and takes the fees, and both tokens are `ZRX`. -/
def aliasedOrder : OrderData :=
  ({ maker := 10, taker := 0, tokenM := 2, tokenT := 2, feeRecipient := 10 },
    { valueM := 20, valueT := 10, feeM := 10, feeT := 5, expiration := 100, salt := 7 })

/-- Account `10` fills 4 of its own order, and has what it had. -/
theorem fill_all_or_nothing_aliased :
    ∃ s' m', Contract.link (onMarket sample protectedChain)
        (fill sample ⟨10, 50⟩ aliasedOrder 4 true sampleSig) (Storage.init, sampleMarket) =
          .ret 4 (s', m') ∧
      ∀ token a, balance m' (token, a) = balance sampleMarket (token, a) := by
  have hplay : ((Contract.link (onMarket sample protectedChain)
      (fill sample ⟨10, 50⟩ aliasedOrder 4 true sampleSig)
      (Storage.init, sampleMarket)).play []).map Prod.fst = some 4 := by decide +kernel
  rcases fill_all_or_nothing sample protectedChain (fun _ => rfl) Storage.init sampleMarket ⟨10, 50⟩
    aliasedOrder 4 true sampleSig with ⟨hthrow, -⟩ | ⟨s', hret, -⟩ |
      ⟨f, s', m', hret, -, -, -, -, -, -, hbalance, -⟩
  · rw [hthrow] at hplay
    exact absurd hplay (by simp [Proc.play])
  · rw [hret] at hplay
    exact absurd hplay (by simp [Proc.play])
  · rw [hret] at hplay
    obtain rfl : f = 4 := by simpa [Proc.play] using hplay
    refine ⟨s', m', hret, fun token a => ?_⟩
    -- every payment is one to oneself
    have hself : paid (token, a) (fillPayments sample (Msg.mk 10 50).sender aliasedOrder 4) =
        received (token, a) (fillPayments sample (Msg.mk 10 50).sender aliasedOrder 4) := rfl
    have := hbalance token a
    omega

end ChainX.Exchange
