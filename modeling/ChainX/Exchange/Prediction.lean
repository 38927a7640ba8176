import ChainX.Exchange.Payout

/-!
# When a predicted fill goes through

`isTransferable` (`chainx.sol:521-543`) is to predict whether any transfer of a fill will fail. It
looks at each transfer by itself, at the balances and allowances before the fill, while the
transfers are made one after the other.

* `Predicted` (in `Settlement`) is what it has compared when it answers `true`: each of the four
  payments with a balance and an allowance, of the accounts before the first of them.
* What the payments need is `Lib.Affordable`, which counts what those before took and brought. So
  what is paid in one token by one account twice is predicted too well, and what an account gets in
  the same fill is not counted for it.

Results:
* `link_settle_iff`: what is settled was affordable, and what is affordable is settled.
* **`predicted_fill_iff`**: a fill that was predicted to go through does so if and only if its
  payments are affordable in their order. Where nobody pays twice in one token, they are
  (`Predicted.affordable`); `prediction_fails` is an order for which they are not.
-/

namespace ChainX.Exchange

open ChainX.Evm ChainX.Lib ChainX.Reentry ChainX.Token

-- the hash is never computed in the general results
attribute [local irreducible] getOrderHash

variable {O : Type} {dep : Deployment} {chain : Chain O} {s : Storage} {m : Market}
  {ps : List (Payment (Address × Address))}

/-! ## Paying in turn -/

/-- The market `m`, after the payments `before` since `m₀`, is ready for more. -/
structure Ready (dep : Deployment) (m₀ : Market) (before : List (Payment (Address × Address)))
    (m : Market) : Prop where
  authorized : m.1.authorized dep.this = true
  supply : ∀ t, supply (m.2 t) < 2 ^ 256
  left : Left (balance m₀) (limit dep m₀) before (balance m) (limit dep m)

section Protected

variable (hkind : ∀ t, chain.kind t = .withOverflowProtection)
include hkind

/-- No token is asked, and each moves any value. -/
theorem Ready.solvent {m₀ : Market} {before : List (Payment (Address × Address))}
    (h : Ready dep m₀ before m) (hcan : Affordable (balance m₀) (limit dep m₀) before ps)
    (rs : List (Option Uint256)) : Solvent dep chain m rs ps rs where
  authorized := h.authorized
  room p _ := by
    rw [hkind]
    exact h.supply _
  affordable := by
    have hall : carried chain ps = ps :=
      List.filter_eq_self.mpr fun _ _ => decide_eq_true (not_foreign hkind _)
    rw [hall]
    exact h.left.affordable_iff.mpr hcan
  positive p _ hstandard := by
    rw [hkind] at hstandard
    exact absurd hstandard (by decide)
  granted := by
    have hnone : asked chain ps = 0 := List.countP_eq_zero.mpr fun _ _ hforeign =>
      not_foreign hkind _ (of_decide_eq_true hforeign)
    rw [hnone]
    rfl

omit hkind in
theorem Predicted.multiplies {taker : Address} {o : OrderData} {f : Uint256}
    (h : Predicted dep taker o f m) : Multiplies o f where
  valueM := (getPartialValue_eq_some.mp h.price.choose_spec).1
  feeM hrecipient := (getPartialValue_eq_some.mp (h.fees hrecipient).1.choose_spec).1
  feeT hrecipient := (getPartialValue_eq_some.mp (h.fees hrecipient).2.choose_spec).1

/-- What is settled was affordable, and what is affordable is settled. -/
theorem link_settle_iff {msg : Msg} {o : OrderData} {f : Uint256}
    (hready : Ready dep m [] m) (hpredicted : Predicted dep msg.sender o f m)
    (hroom : (s.filled (getOrderHash dep o)).val + f.val < 2 ^ 256) :
    Contract.link (onMarket dep chain) (settle dep msg (dep.order o) f) (s, m) ≠ .throw ↔
      Affordable (balance m) (limit dep m) [] (fillPayments dep msg.sender o f) := by
  constructor
  · intro hne
    rcases eq_of_closed (wp_drawn_settle hkind) with hthrow | ⟨_, st', -, -, hsettled⟩
    · exact absurd hthrow hne
    · exact hsettled.drawn.applied.affordable (left_nil _ _)
  · intro hcan hthrow
    obtain ⟨v, hv⟩ := hpredicted.price
    have hends : yields (Contract.link (onMarket dep chain) (settle dep msg (dep.order o) f)) []
        (fun _ _ _ => True) (s, m) :=
      yields_settle (getPartialValue_eq_some.mp hv).2.1 hroom hpredicted.multiplies
        (hready.solvent hkind hcan []) fun _ _ _ => trivial
    obtain ⟨_, _, _, hplay, -⟩ := hends
    rw [hthrow] at hplay
    exact absurd hplay (by simp [Proc.playRest])

end Protected

/-! ## The fill -/

/-- Where nobody pays twice in one token, the prediction is right. -/
theorem Predicted.affordable {taker : Address} {o : OrderData} {f : Uint256}
    (h : Predicted dep taker o f m)
    (honce : ((fillPayments dep taker o f).map Payment.payer).Nodup) :
    Affordable (balance m) (limit dep m) [] (fillPayments dep taker o f) :=
  affordable_of_nodup h.covers honce fun _ _ _ hp => absurd hp List.not_mem_nil

/-- **When a predicted fill goes through.** Where the exchange is authorised and no sum of balances
overflows, a fill that passes its checks and for which `isTransferable` returns `true` throws,
unless its payments are affordable in their order. -/
theorem predicted_fill_iff (dep : Deployment) (chain : Chain O)
    (hkind : ∀ t, chain.kind t = .withOverflowProtection) (s : Storage) (m : Market)
    (hauth : m.1.authorized dep.this = true) (hsupply : ∀ t, supply (m.2 t) < 2 ^ 256) (msg : Msg)
    (o : OrderData) (n f : Uint256) (check : Bool) (sig : Signature)
    (hpasses : Passes dep msg o n sig s f)
    (htrue : Contract.link (onMarket dep chain) (isTransferable dep msg (dep.order o) f) (s, m) =
      .ret true (s, m)) :
    Contract.link (onMarket dep chain) (fill dep msg o n check sig) (s, m) ≠ .throw ↔
      Affordable (balance m) (limit dep m) [] (fillPayments dep msg.sender o f) := by
  have hpredicted : Predicted dep msg.sender o f m := by
    have hw : wp Boundary.closed (Contract.link (onMarket dep chain)
        (isTransferable dep msg (dep.order o) f))
          (fun b st' => st' = (s, m) ∧ (b = true → Predicted dep msg.sender o f m)) (s, m) :=
      wp_link_isTransferable hkind
    unfold wp at hw
    rw [htrue] at hw
    exact hw.2 rfl
  have hroom := hpasses.fits.room
  have hT := o.2.valueT.isLt
  rw [link_fill_eq hpasses fun _ => htrue]
  exact link_settle_iff hkind ⟨hauth, hsupply, left_nil _ _⟩ hpredicted (by omega)

/-! ### A prediction that is right, and one that is wrong -/

/-- The maker `10` gives 100 of `ZRX` for 100 of token `40`, and pays a fee of 2 to account `50`. -/
def feeOrder : OrderData :=
  ({ maker := 10, taker := 0, tokenM := 2, tokenT := 40, feeRecipient := 50 },
    { valueM := 100, valueT := 100, feeM := 2, feeT := 0, expiration := 100, salt := 7 })

theorem sampleMarket_supply (token : Address) : supply (sampleMarket.2 token) < 2 ^ 256 := by
  have hset : ∀ a, supply (Token.Storage.init.setBalance a 100) = 100 := by
    intro a
    have h := supply_setBalance Token.Storage.init a 100
    have hzero : (Token.Storage.init.balances a).val = 0 := rfl
    rw [supply_init, hzero, Nat.add_zero, Nat.zero_add] at h
    exact h
  change supply (if token = 2 then Token.Storage.init.setBalance 10 100
    else if token = 40 then Token.Storage.init.setBalance 20 100 else Token.Storage.init) < 2 ^ 256
  split
  · rw [hset]
    decide
  split
  · rw [hset]
    decide
  · rw [supply_init]
    decide

theorem feeOrder_passes {n : Uint256} (hpos : 0 < n.val) (hle : n.val ≤ 100) :
    Passes sample ⟨20, 50⟩ feeOrder n sampleSig Storage.init n where
  taker := by decide
  unexpired := by decide
  fits := ⟨hpos, Nat.le_refl _, by rw [Nat.add_comm]; exact hle⟩
  greedy := .inl rfl
  rounding := by
    simp [isRoundingError, mulmod, feeOrder]
  signed := by decide +kernel

/-- The prediction, read off a run of the code. -/
theorem predicted_of_play {n : Uint256}
    (hplay : ((Contract.link (onMarket sample protectedChain)
      (isTransferable sample ⟨20, 50⟩ (sample.order feeOrder) n)
      (Storage.init, sampleMarket)).play []).map Prod.fst = some true) :
    Contract.link (onMarket sample protectedChain)
      (isTransferable sample ⟨20, 50⟩ (sample.order feeOrder) n) (Storage.init, sampleMarket) =
        .ret true (Storage.init, sampleMarket) := by
  have hkind : ∀ t, protectedChain.kind t = .withOverflowProtection := fun _ => rfl
  rcases eq_of_closed (wp_link_isTransferable hkind) with hthrow | ⟨b, st', hret, rfl, -⟩
  · rw [hthrow] at hplay
    exact absurd hplay (by simp [Proc.play])
  · rw [hret] at hplay
    obtain rfl : b = true := by simpa [Proc.play] using hplay
    exact hret

/-- A fill of half of `feeOrder` goes through. -/
theorem predicted_fill_iff_half :
    Contract.link (onMarket sample protectedChain)
      (fill sample ⟨20, 50⟩ feeOrder 50 true sampleSig) (Storage.init, sampleMarket) ≠ .throw :=
  (predicted_fill_iff sample protectedChain (fun _ => rfl) Storage.init sampleMarket (by decide)
    sampleMarket_supply ⟨20, 50⟩ feeOrder 50 50 true sampleSig
    (feeOrder_passes (by decide) (by decide)) (predicted_of_play (by decide +kernel))).mpr
      (by decide +kernel)

/-- **A predicted fill fails.** The maker of `feeOrder` has the 100 of `ZRX` and, looked at by
itself, the fee of 2. `isTransferable` returns `true`, and the fill throws. -/
theorem prediction_fails :
    sampleMarket.1.authorized sample.this = true ∧
      (∀ token, supply (sampleMarket.2 token) < 2 ^ 256) ∧
      Passes sample ⟨20, 50⟩ feeOrder 100 sampleSig Storage.init 100 ∧
      Contract.link (onMarket sample protectedChain)
        (isTransferable sample ⟨20, 50⟩ (sample.order feeOrder) 100) (Storage.init, sampleMarket) =
          .ret true (Storage.init, sampleMarket) ∧
      Contract.link (onMarket sample protectedChain)
        (fill sample ⟨20, 50⟩ feeOrder 100 true sampleSig) (Storage.init, sampleMarket) =
          .throw := by
  refine ⟨by decide, sampleMarket_supply, feeOrder_passes (by decide) (by decide),
    predicted_of_play (by decide +kernel), ?_⟩
  have hplay : (Contract.link (onMarket sample protectedChain)
      (fill sample ⟨20, 50⟩ feeOrder 100 true sampleSig)
      (Storage.init, sampleMarket)).play [] |>.isNone := by decide +kernel
  have hkind : ∀ t, protectedChain.kind t = .withOverflowProtection := fun _ => rfl
  rcases eq_of_closed (wp_link_fill hkind) with hthrow | ⟨f, st', hret, -⟩
  · exact hthrow
  · rw [hret] at hplay
    exact absurd hplay (by simp [Proc.play])

end ChainX.Exchange
