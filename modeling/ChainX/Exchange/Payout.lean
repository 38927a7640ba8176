import ChainX.Exchange.Settlement
import ChainX.Reentry.Answers

/-!
# When a fill is paid

The payments of a fill in tokens of any kind. Those in the tokens of the repository are carried out
(`carried`); a foreign token is asked, and may report what it likes (`asked`).

* The outside is a list of answers, taken one after the other: a fill that asks foreign tokens uses
  as many of them as it makes payments in such tokens.
* `PaidOut`: payments have gone through, under some answers. `Solvent`: they can, in their order.
  Both are about lists of payments, so that what comes after some of them can be taken by itself
  (`Solvent.rest`).
* `Multiplies` says that no product of a fill overflows. A fill throws where one does.

Results, from one transfer through the proxy to a whole fill:
* `paidOut_settle`, `paidOut_fillOrKill`: what a fill that goes through has paid and needed.
* **`yields_settle`**, `yields_fillOrKill`: where that is there, the fill goes through.
-/

namespace ChainX.Exchange

open ChainX.Evm ChainX.Lib ChainX.Reentry ChainX.Token

-- the hash is never computed here
attribute [local irreducible] getOrderHash

variable {O : Type} {dep : Deployment} {chain : Chain O} {s : Storage} {m m' m'' : Market}
  {ps ps' : List (Payment (Address × Address))} {rs rs' rs'' : List (Option Uint256)}

/-! ## Payments in any tokens -/

/-- The payments in tokens of the repository. -/
def carried (chain : Chain O) (ps : List (Payment (Address × Address))) :
    List (Payment (Address × Address)) :=
  ps.filter fun p => chain.kind p.payer.1 ≠ .foreign

/-- The number of payments in foreign tokens. -/
def asked (chain : Chain O) (ps : List (Payment (Address × Address))) : Nat :=
  ps.countP fun p => chain.kind p.payer.1 = .foreign

theorem carried_append : carried chain (ps ++ ps') = carried chain ps ++ carried chain ps' :=
  List.filter_append _ _

theorem asked_append : asked chain (ps ++ ps') = asked chain ps + asked chain ps' :=
  List.countP_append

/-- The payments `ps` have led from `m` to `m'`, and of the answers `rs` to `rs'`. -/
structure PaidOut (dep : Deployment) (chain : Chain O) (m : Market) (rs : List (Option Uint256))
    (ps : List (Payment (Address × Address))) (m' : Market) (rs' : List (Option Uint256)) :
    Prop where
  authorized : ∀ p ∈ ps, m.1.authorized dep.this = true
  /-- A `StandardToken` refuses to move nothing. -/
  positive : ∀ p ∈ ps, chain.kind p.payer.1 = .standard → 0 < p.value
  drawn : Drawn dep m (carried chain ps) m'
  granted : Granted (asked chain ps) rs rs'

theorem PaidOut.nil (dep : Deployment) (chain : Chain O) (m : Market)
    (rs : List (Option Uint256)) : PaidOut dep chain m rs [] m rs where
  authorized := fun _ hp => absurd hp List.not_mem_nil
  positive := fun _ hp => absurd hp List.not_mem_nil
  drawn := Drawn.nil dep m
  granted := rfl

theorem PaidOut.append (h : PaidOut dep chain m rs ps m' rs')
    (h' : PaidOut dep chain m' rs' ps' m'' rs'') :
    PaidOut dep chain m rs (ps ++ ps') m'' rs'' where
  authorized p hp := by
    rcases List.mem_append.mp hp with hp | hp
    · exact h.authorized p hp
    · rw [← h.drawn.proxy]
      exact h'.authorized p hp
  positive p hp := (List.mem_append.mp hp).elim (h.positive p) (h'.positive p)
  drawn := by
    rw [carried_append]
    exact h.drawn.append h'.drawn
  granted := by
    rw [asked_append]
    exact h.granted.append h'.granted

/-- From `m` the payments `ps` can be made in turn, the answers `rs` leading to `rs'`. -/
structure Solvent (dep : Deployment) (chain : Chain O) (m : Market) (rs : List (Option Uint256))
    (ps : List (Payment (Address × Address))) (rs' : List (Option Uint256)) : Prop where
  authorized : m.1.authorized dep.this = true
  room : ∀ p ∈ ps, (chain.kind p.payer.1).Room (m.2 p.payer.1)
  affordable : Affordable (balance m) (limit dep m) [] (carried chain ps)
  positive : ∀ p ∈ ps, chain.kind p.payer.1 = .standard → 0 < p.value
  granted : Granted (asked chain ps) rs rs'

/-- What comes after some of the payments can still be made when these are. -/
theorem Solvent.rest (h : Solvent dep chain m rs (ps ++ ps') rs'')
    (hpaid : PaidOut dep chain m rs ps m' rs') : Solvent dep chain m' rs' ps' rs'' where
  authorized := by
    rw [hpaid.drawn.proxy]
    exact h.authorized
  room p hp := (h.room p (List.mem_append_right ps hp)).same (hpaid.drawn.supply _)
  affordable := by
    have hcan := h.affordable
    rw [carried_append] at hcan
    exact hpaid.drawn.applied.affordable_rest hcan
  positive p hp := h.positive p (List.mem_append_right ps hp)
  granted := by
    have hgranted := h.granted
    rw [asked_append] at hgranted
    exact hgranted.rest hpaid.granted

/-! ## One payment -/

/-- A foreign token is asked, once the proxy has let the exchange through. -/
theorem yields_transferViaProxy_foreign {h : Bytes32} {leg : Leg} {token payer payee : Address}
    {value : Uint256} {post : Bool → Storage × Market → List (Option Uint256) → Prop}
    (hkind : chain.kind token = .foreign) :
    yields (Contract.link (onMarket dep chain) (transferViaProxy h leg token payer payee value)) rs
        post (s, m) ↔
      m.1.authorized dep.this = true ∧ ∃ a rest, rs = some a :: rest ∧ a ≠ 0 ∧
        post true ({ s with moves := ⟨h, leg, token, payer, payee, value⟩ :: s.moves }, m)
          rest := by
  simp only [transferViaProxy, onMarket, onTokens, Proxy.transferFrom, tokens, hkind, link_bind,
    link_get, link_require, link_extCall, link_ite, link_modify, link_pure, yields_bind,
    yields_get, yields_pure, yields_require, yields_zoom, yields_ite, yields_modify,
    yields_extCall, Lens.snd_view, Lens.snd_put, word_ne_zero, forall_const, not_true_eq_false,
    false_imp_iff, and_true]

/-- A transfer that goes through has paid. -/
theorem paidOut_transferViaProxy {h : Bytes32} {leg : Leg} {token payer payee : Address}
    {value : Uint256} {post : Bool → Storage × Market → List (Option Uint256) → Prop}
    (hends : yields (Contract.link (onMarket dep chain)
      (transferViaProxy h leg token payer payee value)) rs post (s, m)) :
    ∃ moves m' rs', PaidOut dep chain m rs [payment token payer payee value.val] m' rs' ∧
      post true ({ s with moves := moves }, m') rs' := by
  by_cases hkind : chain.kind token = .foreign
  · rw [yields_transferViaProxy_foreign hkind] at hends
    obtain ⟨hauth, a, rest, hrs, ha, hpost⟩ := hends
    have hnone : carried chain [payment token payer payee value.val] = [] := by
      simp [carried, payment, hkind]
    have hone : asked chain [payment token payer payee value.val] = 1 := by
      simp [asked, payment, hkind]
    refine ⟨_, m, rest, ⟨fun _ _ => hauth, fun p hp hstandard => ?_, ?_, ?_⟩, hpost⟩
    · rw [List.mem_singleton.mp hp] at hstandard
      exact absurd (hkind.symm.trans hstandard) (by decide)
    · rw [hnone]
      exact Drawn.nil dep m
    · rw [hone]
      exact ⟨a, rest, hrs, ha, rfl⟩
  · have hdrawn : wp Boundary.closed (Contract.link (onMarket dep chain)
        (transferViaProxy h leg token payer payee value))
        (fun success st' => success = true ∧ m.1.authorized dep.this = true ∧
          (chain.kind token = .standard → 0 < value.val) ∧
          Drawn dep m [payment token payer payee value.val] st'.2 ∧
          ∃ moves, st'.1 = { s with moves := moves }) (s, m) :=
      wp_drawn_transferViaProxy hkind fun moves m' hauth hpos hm' =>
        ⟨rfl, hauth, hpos, hm', moves, rfl⟩
    obtain ⟨_, ⟨s', m'⟩, ⟨rfl, hauth, hpos, hm', moves, rfl⟩, hpost⟩ := yields_elim hdrawn hends
    have hall : carried chain [payment token payer payee value.val] =
        [payment token payer payee value.val] := by
      simp [carried, payment, hkind]
    have hnone : asked chain [payment token payer payee value.val] = 0 := by
      simp [asked, payment, hkind]
    refine ⟨moves, m', rs, ⟨fun _ _ => hauth, fun p hp hstandard => ?_, ?_, ?_⟩, hpost⟩
    · rw [List.mem_singleton.mp hp] at hstandard ⊢
      exact hpos hstandard
    · rw [hall]
      exact hm'
    · rw [hnone]
      rfl

/-- A transfer that can be paid goes through. -/
theorem yields_transferViaProxy {h : Bytes32} {leg : Leg} {token payer payee : Address}
    {value : Uint256} {post : Bool → Storage × Market → List (Option Uint256) → Prop}
    (hsolvent : Solvent dep chain m rs (payment token payer payee value.val :: ps) rs'')
    (hpost : ∀ moves m' rs', PaidOut dep chain m rs [payment token payer payee value.val] m' rs' →
      Solvent dep chain m' rs' ps rs'' → post true ({ s with moves := moves }, m') rs') :
    yields (Contract.link (onMarket dep chain)
      (transferViaProxy h leg token payer payee value)) rs post (s, m) := by
  have hpos := hsolvent.positive _ List.mem_cons_self
  have hends : yields (Contract.link (onMarket dep chain)
      (transferViaProxy h leg token payer payee value)) rs (fun _ _ _ => True) (s, m) := by
    by_cases hkind : chain.kind token = .foreign
    · have hgranted := hsolvent.granted
      have hone : asked chain (payment token payer payee value.val :: ps) =
          asked chain ps + 1 := by
        simp [asked, payment, hkind]
      rw [hone] at hgranted
      obtain ⟨a, rest, hrs, ha, -⟩ := hgranted
      exact (yields_transferViaProxy_foreign hkind).mpr
        ⟨hsolvent.authorized, a, rest, hrs, ha, trivial⟩
    · have hcan := hsolvent.affordable
      have hfirst : carried chain (payment token payer payee value.val :: ps) =
          payment token payer payee value.val :: carried chain ps := by
        simp [carried, payment, hkind]
      rw [hfirst] at hcan
      have hcovers : Lib.Covers (balance m) (limit dep m) (payment token payer payee value.val) :=
        (left_nil _ _).covers_iff.mpr hcan.1
      have hall : Covers dep chain m.2 token payer value :=
        ⟨(hsolvent.room _ List.mem_cons_self).fits hkind hpos, hcovers.balance, hcovers.limit⟩
      have hreturns : returns (Contract.link (onMarket dep chain)
          (transferViaProxy h leg token payer payee value)) (fun _ _ => True) (s, m) :=
        returns_market_transferViaProxy hsolvent.authorized hall fun _ _ => trivial
      exact yields_of_returns hreturns fun _ _ _ => trivial
  refine yields_of_all (P := fun success st' rs' => success = true ∧
    PaidOut dep chain m rs [payment token payer payee value.val] st'.2 rs' ∧
    ∃ moves, st'.1 = { s with moves := moves }) (fun post hends => ?_) hends ?_
  · obtain ⟨moves, m', rs', hpaid, hend⟩ := paidOut_transferViaProxy hends
    exact ⟨_, _, _, ⟨rfl, hpaid, moves, rfl⟩, hend⟩
  · rintro _ ⟨s', m'⟩ rs' ⟨rfl, hpaid, moves, rfl⟩
    exact hpost moves m' rs' hpaid (hsolvent.rest hpaid)

/-! ## A fill -/

/-- No product of a fill of `f` overflows. -/
structure Multiplies (o : OrderData) (f : Uint256) : Prop where
  valueM : f.val * o.2.valueM.val < 2 ^ 256
  feeM : o.1.feeRecipient ≠ 0 → f.val * o.2.feeM.val < 2 ^ 256
  feeT : o.1.feeRecipient ≠ 0 → f.val * o.2.feeT.val < 2 ^ 256

variable {o : OrderData} {f : Uint256}

theorem FeeFree.multiplies {v : Uint256} (hfree : FeeFree o)
    (hprice : getPartialValue o.2.valueT f o.2.valueM = some v) : Multiplies o f where
  valueM := (getPartialValue_eq_some.mp hprice).1
  feeM hrecipient := by
    rcases hfree with hno | ⟨hfee, -⟩
    · exact absurd hno hrecipient
    · rw [hfee]
      exact Nat.two_pow_pos 256
  feeT hrecipient := by
    rcases hfree with hno | ⟨-, hfee⟩
    · exact absurd hno hrecipient
    · rw [hfee]
      exact Nat.two_pow_pos 256

theorem paidOut_payFee {leg : Leg} {payer : Address} {fee : Uint256}
    {post : Uint256 → Storage × Market → List (Option Uint256) → Prop}
    (hends : yields (Contract.link (onMarket dep chain)
      (payFee dep (dep.order o) leg payer fee f)) rs post (s, m)) :
    (o.1.feeRecipient ≠ 0 → f.val * fee.val < 2 ^ 256) ∧ ∃ paid moves m' rs',
      PaidOut dep chain m rs (feePayments dep o payer fee f) m' rs' ∧
        post paid ({ s with moves := moves }, m') rs' := by
  simp only [payFee, link_ite, link_bind, link_ofOption, link_require, link_pure, yields_ite,
    yields_bind, yields_ofOption, yields_require, yields_pure] at hends
  by_cases hfee : (dep.order o).feeRecipient ≠ 0 ∧ 0 < fee
  · obtain ⟨paid, hpaid, hends⟩ := hends.1 hfee
    obtain ⟨moves, m', rs', hout, -, hpost⟩ := paidOut_transferViaProxy hends
    rw [feePayments_of_fee hfee hpaid]
    exact ⟨fun _ => (getPartialValue_eq_some.mp hpaid).1, paid, moves, m', rs', hout, hpost⟩
  · refine ⟨fun hrecipient => ?_, 0, s.moves, m, rs, ?_, hends.2 hfee⟩
    · have hzero : fee = 0 := by
        by_contra hne
        exact hfee ⟨hrecipient, Fin.pos_iff_ne_zero.mpr hne⟩
      rw [hzero, Fin.val_zero, Nat.mul_zero]
      decide
    · rw [feePayments_of_none hfee]
      exact PaidOut.nil dep chain m rs

theorem yields_payFee {leg : Leg} {payer : Address} {fee : Uint256}
    {post : Uint256 → Storage × Market → List (Option Uint256) → Prop}
    (hvalueT : o.2.valueT.val ≠ 0)
    (hfits : o.1.feeRecipient ≠ 0 → f.val * fee.val < 2 ^ 256)
    (hsolvent : Solvent dep chain m rs (feePayments dep o payer fee f ++ ps) rs'')
    (hpost : ∀ paid moves m' rs', PaidOut dep chain m rs (feePayments dep o payer fee f) m' rs' →
      Solvent dep chain m' rs' ps rs'' → post paid ({ s with moves := moves }, m') rs') :
    yields (Contract.link (onMarket dep chain)
      (payFee dep (dep.order o) leg payer fee f)) rs post (s, m) := by
  simp only [payFee, link_ite, link_bind, link_ofOption, link_require, link_pure, yields_ite,
    yields_bind, yields_ofOption, yields_require, yields_pure]
  constructor
  · intro hfee
    have hlt := Nat.lt_of_le_of_lt (Nat.div_le_self (f.val * fee.val) o.2.valueT.val)
      (hfits hfee.1)
    have hpaid : getPartialValue (dep.order o).valueT f fee = some ⟨_, hlt⟩ :=
      getPartialValue_eq_some.mpr ⟨hfits hfee.1, hvalueT, rfl⟩
    rw [feePayments_of_fee hfee hpaid] at hsolvent hpost
    exact ⟨_, hpaid, yields_transferViaProxy hsolvent fun moves m' rs' hout hrest =>
      ⟨rfl, hpost _ moves m' rs' hout hrest⟩⟩
  · intro hno
    rw [feePayments_of_none hno] at hsolvent hpost
    exact hpost 0 s.moves m rs (PaidOut.nil dep chain m rs) hsolvent

variable {msg : Msg}

/-- What a settlement that goes through has paid, and that its products fit. -/
theorem paidOut_settle {post : Uint256 → Storage × Market → List (Option Uint256) → Prop}
    (hends : yields (Contract.link (onMarket dep chain) (settle dep msg (dep.order o) f)) rs post
      (s, m)) :
    Multiplies o f ∧ ∃ s' m' rs',
      PaidOut dep chain m rs (fillPayments dep msg.sender o f) m' rs' ∧
        post f (s', m') rs' := by
  simp only [settle, emit, link_bind, link_get, link_require, link_ofOption, link_modify,
    link_pure, yields_bind, yields_get, yields_pure, yields_require, yields_ofOption,
    yields_modify] at hends
  obtain ⟨v, hv, filled, -, hends⟩ := hends
  obtain ⟨hfits, -, hval⟩ := getPartialValue_eq_some.mp hv
  obtain ⟨_, m1, rs1, h1, -, hends⟩ := paidOut_transferViaProxy hends
  obtain ⟨_, m2, rs2, h2, -, hends⟩ := paidOut_transferViaProxy hends
  obtain ⟨hfeeM, feeM, _, m3, rs3, h3, hends⟩ := paidOut_payFee hends
  obtain ⟨hfeeT, feeT, _, m4, rs4, h4, hends⟩ := paidOut_payFee hends
  refine ⟨⟨hfits, hfeeM, hfeeT⟩, _, m4, rs4, ?_, hends⟩
  have hval' : v.val = f.val * o.2.valueM.val / o.2.valueT.val := hval
  rw [fillPayments, ← hval']
  exact h1.append (h2.append (h3.append h4))

/-- A settlement that can be paid goes through. -/
theorem yields_settle {post : Uint256 → Storage × Market → List (Option Uint256) → Prop}
    (hvalueT : o.2.valueT.val ≠ 0)
    (hroom : (s.filled (getOrderHash dep o)).val + f.val < 2 ^ 256) (hfits : Multiplies o f)
    (hsolvent : Solvent dep chain m rs (fillPayments dep msg.sender o f) rs')
    (hpost : ∀ s' m', PaidOut dep chain m rs (fillPayments dep msg.sender o f) m' rs' →
      post f (s', m') rs') :
    yields (Contract.link (onMarket dep chain) (settle dep msg (dep.order o) f)) rs post
      (s, m) := by
  have hlt := Nat.lt_of_le_of_lt (Nat.div_le_self (f.val * o.2.valueM.val) o.2.valueT.val)
    hfits.valueM
  have hends : yields (Contract.link (onMarket dep chain) (settle dep msg (dep.order o) f)) rs
      (fun _ _ _ => True) (s, m) := by
    have hlist : fillPayments dep msg.sender o f =
        payment o.1.tokenM o.1.maker msg.sender (⟨_, hlt⟩ : Uint256).val ::
          payment o.1.tokenT msg.sender o.1.maker f.val ::
            (feePayments dep o o.1.maker o.2.feeM f ++
              (feePayments dep o msg.sender o.2.feeT f ++ [])) := by
      rw [fillPayments, List.append_nil]
    rw [hlist] at hsolvent
    simp only [settle, emit, link_bind, link_get, link_require, link_ofOption, link_modify,
      link_pure, yields_bind, yields_get, yields_pure, yields_require, yields_ofOption,
      yields_modify, safeAdd_eq_some]
    refine ⟨⟨_, hlt⟩, getPartialValue_eq_some.mpr ⟨hfits.valueM, hvalueT, rfl⟩, ⟨_, hroom⟩, rfl, ?_⟩
    refine yields_transferViaProxy hsolvent fun _ m1 rs1 _ hsolvent => ⟨rfl, ?_⟩
    refine yields_transferViaProxy hsolvent fun _ m2 rs2 _ hsolvent => ⟨rfl, ?_⟩
    refine yields_payFee hvalueT hfits.feeM hsolvent fun _ _ m3 rs3 _ hsolvent => ?_
    exact yields_payFee hvalueT hfits.feeT hsolvent fun _ _ _ _ _ _ => trivial
  refine yields_of_all (P := fun f' st' rs'' => f' = f ∧
    PaidOut dep chain m rs (fillPayments dep msg.sender o f) st'.2 rs'') (fun post hends => ?_)
    hends ?_
  · obtain ⟨-, s', m', rs'', hpaid, hend⟩ := paidOut_settle hends
    exact ⟨_, _, _, ⟨rfl, hpaid⟩, hend⟩
  · rintro _ ⟨s', m'⟩ rs'' ⟨rfl, hpaid⟩
    have hall : rs' = rs'' :=
      (@Solvent.rest _ dep chain m m' _ [] rs rs'' rs' (by rw [List.append_nil]; exact hsolvent)
        hpaid).granted
    subst hall
    exact hpost s' m' hpaid

variable {sig : Signature} {n : Uint256}

/-- What a fill that goes through has checked, paid and needed. -/
theorem paidOut_fillOrKill {post : Bool → Storage × Market → List (Option Uint256) → Prop}
    (hn : 0 < n.val)
    (hends : yields (Contract.link (onMarket dep chain) (fillOrKill dep msg o n sig)) rs post
      (s, m)) :
    Fillable dep msg o n sig s ∧ Multiplies o n ∧ ∃ s' m' rs',
      PaidOut dep chain m rs (fillPayments dep msg.sender o n) m' rs' ∧
        post true (s', m') rs' := by
  have hne : ¬ (0 : Uint256) = n := by
    rintro rfl
    exact absurd hn (by decide)
  simp only [fillOrKill, fill, remainingValueT, getUnavailableValueT, emit, link_bind, link_get,
    link_require, link_ofOption, link_ite, link_modify, link_pure, yields_bind, yields_get,
    yields_pure, yields_require, yields_ofOption, yields_ite, yields_modify, Bool.false_eq_true,
    if_false, hne, false_and, safeAdd_eq_some, safeSub_eq_some] at hends
  obtain ⟨htaker, hunexpired, hends⟩ := hends
  obtain ⟨unavailable, hunavailable, r, ⟨hle, hr⟩, hpos, hends⟩ := hends hunexpired
  obtain ⟨hround, hends⟩ := hends hpos
  obtain ⟨-, hends⟩ := hends hround
  obtain ⟨hsigned, hends⟩ := hends (by simp)
  obtain ⟨hfits, s', m', rs', hpaid, hmin, hpost⟩ := paidOut_settle hends
  have hremaining : (s.filled (getOrderHash dep o)).val + (s.cancelled (getOrderHash dep o)).val +
      r.val = o.2.valueT.val := by
    have hsum : unavailable.val = (s.filled (getOrderHash dep o)).val +
      (s.cancelled (getOrderHash dep o)).val := hunavailable
    have hle' : unavailable.val ≤ o.2.valueT.val := hle
    have hr' : r.val = o.2.valueT.val - unavailable.val := hr
    omega
  have hroom : Fits dep o s n (minUint n r) := fits_minUint hremaining hpos
  rw [hmin] at hfits hpaid hround hroom
  exact ⟨⟨htaker, not_le.mp hunexpired, hroom, Bool.not_eq_true _ ▸ hround, hsigned⟩, hfits, s', m',
    rs', hpaid, hpost⟩

/-- A fill that can be paid goes through. -/
theorem yields_fillOrKill {post : Bool → Storage × Market → List (Option Uint256) → Prop}
    (h : Fillable dep msg o n sig s) (hfits : Multiplies o n)
    (hsolvent : Solvent dep chain m rs (fillPayments dep msg.sender o n) rs')
    (hpost : ∀ s' m', PaidOut dep chain m rs (fillPayments dep msg.sender o n) m' rs' →
      post true (s', m') rs') :
    yields (Contract.link (onMarket dep chain) (fillOrKill dep msg o n sig)) rs post (s, m) := by
  have hpos := h.fits.pos
  have hroom := h.fits.room
  have hvalueT := o.2.valueT.isLt
  unfold yields
  rw [h.link_fillOrKill]
  change yields _ _ _ _
  simp only [yields_bind, yields_require, yields_pure]
  exact yields_settle (by omega) (by omega) hfits hsolvent fun s' m' hpaid =>
    ⟨rfl, hpost s' m' hpaid⟩

end ChainX.Exchange
