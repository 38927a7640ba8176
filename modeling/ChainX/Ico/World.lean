import ChainX.Ico.Crowdsale
import ChainX.Ico.StandardToken
import ChainX.Reentry.Notes

/-!
# The crowdsale of the ICO on its token

The crowdsale linked with its token (`world`), a `StandardToken` that anyone may call at any time.
The pricing, the state of the sale and the wallet stay outside: they answer anything, and may enter
the sale or the token again before they answer.

* The token answers at once and calls nobody, so that between two questions to the outside a call of
  the crowdsale and its calls of the token are one step.
* An investment asks the state, then the price, and books and assigns when it knows the price; it
  leaves the contract once more, with the money. A preallocation asks for the decimal places.
* The invariant of a result is asked of the storage at each of these questions, and may be another
  one at the last (`wp_investInternal_counted`).

`Sold` is what a sale does to the books, `Assigned` what it does to the token. The rules
`wp_investInternal`, `wp_preallocate` and `wp_entry` say what a call does between the questions it
asks, and `wp_world` adds the calls of the token by others. They are for code whose answers are
noted, and so also for code whose are not (`wp_of_noted`).
-/

namespace ChainX.Ico.Crowdsale

open ChainX.Evm ChainX.Reentry

/-! ## The crowdsale and its token -/

/-- The calls of the token's functions are answered by the token, all others by the outside. -/
def onToken (dep : Deployment) : Query → Contract Token.Storage Query Uint256 Uint256
  | .allowance owner spender => StandardToken.allowance owner spender
  | .transferFrom payer payee value => do
    let success ← StandardToken.transferFrom dep.this payer payee value
    return if success then 1 else 0
  | q => Contract.extCall q

/-- A call of the crowdsale, or of its token. -/
inductive WorldCall where
  | sale (c : Call)
  | token (c : StandardToken.Call)

/-- The code a call runs. -/
def world (dep : Deployment) :
    WorldCall → Contract (Storage × Token.Storage) Query Uint256 Unit
  | .sale c => Contract.link (onToken dep) (entry dep c)
  | .token c => Contract.zoom Lens.snd (StandardToken.entry c)

/-! ## What a sale does -/

/-- The wei amounts that `preallocate` has recorded. -/
def preallocatedWei (s : Storage) : Nat := (s.preallocated.map Fin.val).sum

/-- `tokens` have been sold to `receiver` for `wei`. -/
structure Sold (receiver : Address) (wei tokens : Uint256) (s s' : Storage) : Prop where
  weiRaised : s'.weiRaised.val = s.weiRaised.val + wei.val
  tokensSold : s'.tokensSold.val = s.tokensSold.val + tokens.val
  invested : ∃ x : Uint256, x.val = (s.investedAmountOf receiver).val + wei.val ∧
    s'.investedAmountOf = Function.update s.investedAmountOf receiver x
  credited : ∃ y : Uint256, y.val = (s.tokenAmountOf receiver).val + tokens.val ∧
    s'.tokenAmountOf = Function.update s.tokenAmountOf receiver y
  assigned : s'.assigned = (receiver, tokens) :: s.assigned

/-- The count of investors with this one. -/
def Storage.counted (s : Storage) (receiver : Address) : Uint256 :=
  if s.investedAmountOf receiver = 0 then s.investorCount + 1 else s.investorCount

/-- `tokens` have gone from the pool to `receiver`. -/
structure Assigned (dep : Deployment) (receiver : Address) (tokens : Uint256)
    (t t' : Token.Storage) : Prop where
  room : (t.balances receiver).val + tokens.val < 2 ^ 256
  moved : Token.Moved t t' dep.beneficiary receiver tokens
  spent : Token.Spent t t' dep.beneficiary dep.this tokens
  log : t'.log = .transfer dep.beneficiary receiver tokens :: t.log

variable {dep : Deployment} {s : Storage} {t : Token.Storage}

/-! ## What the functions do -/

section Rules

variable {P : Boundary Storage Query Uint256}
  {B : Boundary (Storage × Token.Storage) Query Uint256}

theorem wp_countInvestor {receiver : Address} {post : Unit → Storage → Prop}
    (hpost : post () { s with investorCount := s.counted receiver }) :
    wp P (countInvestor receiver) post s := by
  simp only [countInvestor, wp_bind, wp_get, wp_ite, wp_modify, wp_pure]
  unfold Storage.counted at hpost
  refine ⟨fun hnew => ?_, fun hknown => ?_⟩
  · rw [if_pos hnew] at hpost
    exact hpost
  · rw [if_neg hknown] at hpost
    exact hpost

theorem wp_updateInvestor {receiver : Address} {wei tokens : Uint256}
    {post : Unit → Storage → Prop}
    (hpost : ∀ x y : Uint256, x.val = (s.investedAmountOf receiver).val + wei.val →
      y.val = (s.tokenAmountOf receiver).val + tokens.val →
      post () { s with
        investedAmountOf := Function.update s.investedAmountOf receiver x
        tokenAmountOf := Function.update s.tokenAmountOf receiver y }) :
    wp P (updateInvestor receiver wei tokens) post s := by
  simp only [updateInvestor, wp_bind, wp_get, wp_ofOption, wp_modify, safeAdd_eq_some]
  exact fun x hx y hy => hpost x y hx hy

theorem wp_updateTotals {wei tokens : Uint256} {post : Unit → Storage → Prop}
    (hpost : ∀ x y : Uint256, x.val = s.weiRaised.val + wei.val →
      y.val = s.tokensSold.val + tokens.val →
      post () { s with weiRaised := x, tokensSold := y }) :
    wp P (updateTotals wei tokens) post s := by
  simp only [updateTotals, wp_bind, wp_get, wp_ofOption, wp_modify, safeAdd_eq_some]
  exact fun x hx y hy => hpost x y hx hy

theorem wp_isBreakingCap {wei tokens wei' tokens' : Uint256}
    {post : Bool → Storage × Token.Storage → Prop} (hpost : ∀ b, post b (s, t)) :
    wp B (Contract.link (onToken dep) (isBreakingCap dep wei tokens wei' tokens')) post (s, t) := by
  simp only [isBreakingCap, getTokensLeft, link_bind, link_get, link_extCall, link_pure, onToken,
    wp_bind, wp_get, wp_pure]
  exact wp_of_closed ((wp_zoom_closed _).mpr (hpost _))

theorem wp_assignTokens {receiver : Address} {tokens : Uint256}
    {post : Unit → Storage × Token.Storage → Prop}
    (hpost : ∀ t', Assigned dep receiver tokens t t' →
      post () ({ s with assigned := (receiver, tokens) :: s.assigned }, t')) :
    wp B (Contract.link (onToken dep) (assignTokens dep receiver tokens)) post (s, t) := by
  simp only [assignTokens, link_bind, link_extCall, link_require, link_modify, onToken, wp_bind,
    wp_require, wp_modify]
  refine wp_of_closed ((wp_zoom_closed _).mpr ?_)
  simp only [wp_bind, wp_pure]
  refine wp_mono (wp_and StandardToken.wp_transferFrom_room StandardToken.wp_transferFrom)
    fun _ t' h _ => ?_
  obtain ⟨hroom, -, hmoved, hspent, hlog⟩ := h
  exact hpost t' ⟨hroom, hmoved, hspent, hlog⟩

end Rules

/-! ## What a call does -/

section Noted

variable {L : Type} {note : Query → Uint256 → L → L}
  {P : Boundary ((Storage × Token.Storage) × L) Query Uint256}
  {I : (Storage × Token.Storage) × L → Prop} {l : L}
  (hout : ∀ q st, q.pays = 0 → I st → P.out q st)
  (hback : ∀ q st a st', q.pays = 0 → I st → P.back q st (some a) st' → I st')
include hout hback

theorem wp_checkState {receiver : Address} (hstate : ∀ a l, note .getState a l = l)
    (h : I ((s, t), l)) :
    wp P ((Contract.link (onToken dep) (checkState receiver)).noted note) (fun _ st => I st)
      ((s, t), l) := by
  simp only [checkState, getState, Contract.noted, onToken, link_bind, link_get, link_extCall,
    link_ite, link_require, link_pure, link_zoom, wp_bind, wp_noting_beside, wp_ite, wp_get,
    wp_require, wp_pure, hstate]
  refine ⟨hout _ _ rfl h, fun a st1 hb1 => ?_⟩
  have h1 := hback _ _ _ _ rfl h hb1
  refine ⟨fun _ _ => h1, fun _ => ⟨hout _ _ rfl h1, fun b st2 hb2 _ => hback _ _ _ _ rfl h1 hb2⟩⟩

/-- **The rule for investments**: the sale is made at once when the price is known, and control
leaves once more with the money. `I` is asked at the questions that carry none. -/
theorem wp_investInternal_counted {sender receiver : Address} {wei : Uint256} {customerId : Uint128}
    {post : Unit → (Storage × Token.Storage) × L → Prop} (hstate : ∀ a l, note .getState a l = l)
    (hdecimals : ∀ a l, note .decimals a l = l)
    (hsale : ∀ s1 t1 l1 weiRaised tokensSold decimals tokens s2 t2 l2, I ((s1, t1), l1) →
      l2 = note (.calculatePrice wei weiRaised tokensSold sender decimals) tokens l1 →
      tokens ≠ 0 → Sold receiver wei tokens s1 s2 → s2.settings = s1.settings → s2.log = s1.log →
      s2.investorCount = s1.counted receiver → s2.preallocated = s1.preallocated →
      Assigned dep receiver tokens t1 t2 →
      P.out (.send s2.settings.multisigWallet wei) ((s2, t2), l2) ∧
        ∀ a s3 t3 l3,
          P.back (.send s2.settings.multisigWallet wei) ((s2, t2), l2) (some a) ((s3, t3), l3) →
          post () (({ s3 with log := .invested receiver wei tokens customerId :: s3.log }, t3),
            note (.send s2.settings.multisigWallet wei) a l3))
    (h : I ((s, t), l)) :
    wp P ((Contract.link (onToken dep) (investInternal dep sender wei receiver customerId)).noted
      note) post ((s, t), l) := by
  simp only [investInternal, emit, Contract.noted, onToken, link_bind, link_get, link_extCall,
    link_require, link_modify, link_pure, link_zoom, wp_bind, wp_get, wp_require,
    wp_noting_beside, wp_pure, wp_modify, hdecimals]
  intro _
  refine wp_mono (wp_checkState hout hback hstate h) ?_
  rintro _ ⟨⟨s1, t1⟩, l1⟩ h1
  refine ⟨hout _ _ rfl h1, ?_⟩
  rintro decimals ⟨⟨s2, t2⟩, l2⟩ hb2
  have h2 := hback _ _ _ _ rfl h1 hb2
  refine ⟨hout _ _ rfl h2, ?_⟩
  rintro tokens ⟨⟨s3, t3⟩, l3⟩ hb3 hne
  -- nothing leaves the contract and its token until the money is sent
  refine wp_link_of_closed (wp_link_of_closed (wp_countInvestor ?_))
  refine wp_link_of_closed (wp_link_of_closed (wp_updateInvestor fun x y hx hy => ?_))
  refine wp_link_of_closed (wp_link_of_closed (wp_updateTotals fun x' y' hx' hy' => ?_))
  refine wp_link_of_closed (wp_isBreakingCap fun _ _ => ?_)
  refine wp_link_of_closed (wp_assignTokens fun t4 hassigned => ?_)
  simp only [pocket, Contract.void, onToken, link_bind, link_get, link_extCall, link_pure,
    link_zoom, wp_bind, wp_get, wp_noting_beside, wp_pure]
  have hsold := hsale s3 t3 l3 s1.weiRaised s1.tokensSold decimals tokens
    { s3 with
      investorCount := s3.counted receiver
      investedAmountOf := Function.update s3.investedAmountOf receiver x
      tokenAmountOf := Function.update s3.tokenAmountOf receiver y
      weiRaised := x'
      tokensSold := y'
      assigned := (receiver, tokens) :: s3.assigned } t4 _ (hback _ _ _ _ rfl h2 hb3) rfl hne
    ⟨hx', hy', ⟨x, hx, rfl⟩, ⟨y, hy, rfl⟩, rfl⟩ rfl rfl rfl rfl hassigned
  refine ⟨hsold.1, ?_⟩
  rintro a ⟨⟨s5, t5⟩, l5⟩ hb5
  exact hsold.2 a s5 t5 l5 hb5

/-- The rule without the count of investors. -/
theorem wp_investInternal {sender receiver : Address} {wei : Uint256} {customerId : Uint128}
    {post : Unit → (Storage × Token.Storage) × L → Prop} (hstate : ∀ a l, note .getState a l = l)
    (hdecimals : ∀ a l, note .decimals a l = l)
    (hsale : ∀ s1 t1 l1 weiRaised tokensSold decimals tokens s2 t2 l2, I ((s1, t1), l1) →
      l2 = note (.calculatePrice wei weiRaised tokensSold sender decimals) tokens l1 →
      tokens ≠ 0 → Sold receiver wei tokens s1 s2 → s2.settings = s1.settings → s2.log = s1.log →
      Assigned dep receiver tokens t1 t2 →
      P.out (.send s2.settings.multisigWallet wei) ((s2, t2), l2) ∧
        ∀ a s3 t3 l3,
          P.back (.send s2.settings.multisigWallet wei) ((s2, t2), l2) (some a) ((s3, t3), l3) →
          post () (({ s3 with log := .invested receiver wei tokens customerId :: s3.log }, t3),
            note (.send s2.settings.multisigWallet wei) a l3))
    (h : I ((s, t), l)) :
    wp P ((Contract.link (onToken dep) (investInternal dep sender wei receiver customerId)).noted
      note) post ((s, t), l) := by
  refine wp_investInternal_counted hout hback hstate hdecimals ?_ h
  intro s1 t1 l1 weiRaised tokensSold decimals tokens s2 t2 l2 h1 hl2 hne hsold hsettings hlog _ _
  exact hsale s1 t1 l1 weiRaised tokensSold decimals tokens s2 t2 l2 h1 hl2 hne hsold hsettings hlog

/-- **The rule for preallocations**: the sale is made at once when the decimal places are known. -/
theorem wp_preallocate_counted {sender receiver : Address} {fullTokens weiPrice : Uint256}
    {post : Unit → (Storage × Token.Storage) × L → Prop}
    (hsale : ∀ s1 t1 l1 decimals s2 t2, I ((s1, t1), l1) →
      Sold receiver (weiPrice * fullTokens) (fullTokens * pow 10 decimals) s1 s2 →
      s2.investorCount = s1.investorCount →
      s2.preallocated = weiPrice * fullTokens :: s1.preallocated →
      Assigned dep receiver (fullTokens * pow 10 decimals) t1 t2 →
      post () ((s2, t2), note .decimals decimals l1))
    (h : I ((s, t), l)) :
    wp P ((Contract.link (onToken dep) (preallocate dep sender receiver fullTokens weiPrice)).noted
      note) post ((s, t), l) := by
  simp only [preallocate, emit, Contract.noted, onToken, link_bind, link_get, link_extCall,
    link_require, link_modify, link_pure, link_zoom, wp_bind, wp_get, wp_require,
    wp_noting_beside, wp_pure, wp_modify]
  refine fun _ => ⟨hout _ _ rfl h, ?_⟩
  rintro decimals ⟨⟨s1, t1⟩, l1⟩ hb1
  refine wp_link_of_closed (wp_link_of_closed (wp_updateTotals fun x' y' hx' hy' => ?_))
  refine wp_link_of_closed (wp_link_of_closed (wp_updateInvestor fun x y hx hy => ?_))
  refine wp_link_of_closed (wp_assignTokens fun t2 hassigned => ?_)
  exact hsale s1 t1 l1 decimals _ t2 (hback _ _ _ _ rfl h hb1)
    ⟨hx', hy', ⟨x, hx, rfl⟩, ⟨y, hy, rfl⟩, rfl⟩ rfl rfl hassigned

/-- The rule without the count of investors. -/
theorem wp_preallocate {sender receiver : Address} {fullTokens weiPrice : Uint256}
    {post : Unit → (Storage × Token.Storage) × L → Prop}
    (hsale : ∀ s1 t1 l1 decimals s2 t2, I ((s1, t1), l1) →
      Sold receiver (weiPrice * fullTokens) (fullTokens * pow 10 decimals) s1 s2 →
      Assigned dep receiver (fullTokens * pow 10 decimals) t1 t2 →
      post () ((s2, t2), note .decimals decimals l1))
    (h : I ((s, t), l)) :
    wp P ((Contract.link (onToken dep) (preallocate dep sender receiver fullTokens weiPrice)).noted
      note) post ((s, t), l) := by
  refine wp_preallocate_counted hout hback ?_ h
  intro s1 t1 l1 decimals s2 t2 h1 hsold _ _
  exact hsale s1 t1 l1 decimals s2 t2 h1 hsold

omit hout hback in
/-- Every call invests, preallocates or sets what is not in the repository. -/
theorem wp_entry {post : Unit → (Storage × Token.Storage) × L → Prop} (c : Call)
    (hinvest : (∀ sender receiver fullTokens weiPrice,
        c ≠ .preallocate sender receiver fullTokens weiPrice) →
      ∀ sender wei receiver customerId,
        wp P ((Contract.link (onToken dep)
          (investInternal dep sender wei receiver customerId)).noted note) post ((s, t), l))
    (hpreallocate : ∀ sender receiver fullTokens weiPrice,
      c = .preallocate sender receiver fullTokens weiPrice →
        wp P ((Contract.link (onToken dep)
          (preallocate dep sender receiver fullTokens weiPrice)).noted note) post ((s, t), l))
    (hconfigure : ∀ settings, post () (({ s with settings := settings }, t), l)) :
    wp P ((Contract.link (onToken dep) (entry dep c)).noted note) post ((s, t), l) := by
  have hcustomer : (∀ sender receiver fullTokens weiPrice,
      c ≠ .preallocate sender receiver fullTokens weiPrice) → ∀ sender value addr customerId,
      wp P ((Contract.link (onToken dep)
        (investWithCustomerId dep sender value addr customerId)).noted note) post ((s, t), l) := by
    intro hc sender value addr customerId
    simp only [investWithCustomerId, Contract.noted, link_bind, link_get, link_require, link_pure,
      wp_bind, wp_get, wp_require, wp_pure]
    exact fun _ _ => hinvest hc sender value addr customerId
  have hsigned : (∀ sender receiver fullTokens weiPrice,
      c ≠ .preallocate sender receiver fullTokens weiPrice) → ∀ sender value addr customerId sig,
      wp P ((Contract.link (onToken dep)
        (investWithSignedAddress dep sender value addr customerId sig)).noted note) post
        ((s, t), l) := by
    intro hc sender value addr customerId sig
    simp only [investWithSignedAddress, Contract.noted, link_bind, link_get, link_require,
      link_pure, wp_bind, wp_get, wp_require, wp_pure]
    exact fun _ _ => hinvest hc sender value addr customerId
  cases c with
  | invest sender value addr =>
    simp only [entry, invest, Contract.noted, link_bind, link_get, link_require, link_pure,
      wp_bind, wp_get, wp_require, wp_pure]
    exact fun _ _ => hinvest (fun _ _ _ _ => by simp) sender value addr 0
  | investWithCustomerId sender value addr customerId =>
    exact hcustomer (fun _ _ _ _ => by simp) sender value addr customerId
  | investWithSignedAddress sender value addr customerId sig =>
    exact hsigned (fun _ _ _ _ => by simp) sender value addr customerId sig
  | buyWithCustomerId sender value customerId =>
    exact hcustomer (fun _ _ _ _ => by simp) sender value sender customerId
  | buyWithSignedAddress sender value customerId sig =>
    exact hsigned (fun _ _ _ _ => by simp) sender value sender customerId sig
  | preallocate sender receiver fullTokens weiPrice =>
    exact hpreallocate sender receiver fullTokens weiPrice rfl
  | configure settings => exact hconfigure settings

omit hout hback in
/-- A call of the token by others leaves the sale alone, and an event. -/
theorem wp_world {post : Unit → (Storage × Token.Storage) × L → Prop} (c : WorldCall)
    (hsale : ∀ c', c = .sale c' →
      wp P ((Contract.link (onToken dep) (entry dep c')).noted note) post ((s, t), l))
    (htoken : ∀ t' e, t'.log = e :: t.log → post () ((s, t'), l)) :
    wp P ((world dep c).noted note) post ((s, t), l) := by
  cases c with
  | sale c => exact hsale c rfl
  | token c =>
    refine wp_link_of_closed ((wp_zoom_closed _).mpr (wp_mono (StandardToken.wp_entry_log c) ?_))
    rintro _ t' ⟨e, he⟩
    exact htoken t' e he

end Noted

/-! ### A deployment -/

/-- A sale at address `1`, for the tokens of account `5`. -/
def sample : Deployment where
  this := 1
  beneficiary := 5
  crypto := ⟨fun _ => 0, fun _ _ => 0⟩
  sha256 := fun _ => 0

/-- Account `5` owns the sale and the tokens, and nobody has to sign. -/
def sampleSettings : Settings := ⟨5, false, 6, false, false, 0, fun _ => false⟩

end ChainX.Ico.Crowdsale
