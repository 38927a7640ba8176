import ChainX.Ico.Transfers
import ChainX.Ico.World

/-!
# The pool of the ICO, `Contracts/ICO/AllocatedCrowdsale.sol`

`getTokensLeft` (`AllocatedCrowdsale.sol:44-46`) reads what the *owner* allows the sale to spend,
`assignTokens` (`AllocatedCrowdsale.sol:53-55`) spends what the *beneficiary*, "the party who holds
the full token pool", allows it to. `isCrowdsaleFull` and `isBreakingCap` go by the former.

* `CapIsPool` is what the comments together say: an amount breaks the cap exactly where the
  assignment of it would not be covered, an investment lowers what is left by what it sells, and the
  sale is full exactly where no assignment is covered.
* `Covers` leaves the balances out: they are those of the beneficiary and the receiver, whatever the
  allowance is (`covers_iff`).
* `CanSell` is one token being sold in the state at hand. Where nothing can be sold, a sale that
  calls itself full is not wrong.

**`capIsPool_iff`**: the cap is the pool exactly where the two are one account, or allow the same
while not a single token can be sold. `full_of_tokens` is a sale of another owner.
-/

namespace ChainX.Ico.Crowdsale

open ChainX.Evm ChainX.Reentry

/-- What `getTokensLeft()` returns. -/
def tokensLeft (dep : Deployment) (st : Storage × Token.Storage) : Uint256 :=
  st.2.allowed st.1.settings.owner dep.this

/-- The allowance that `assignTokens` draws on covers the amount: there are balances with which the
assignment goes through. -/
def Covers (dep : Deployment) (s : Storage) (t : Token.Storage) (receiver : Address)
    (tokens : Uint256) : Prop :=
  ∃ balances, returns (Contract.link (onToken dep) (assignTokens dep receiver tokens))
    (fun _ _ => True) (s, { t with balances := balances })

/-- The cap is the pool that the sale sells from. -/
structure CapIsPool (dep : Deployment) (s : Storage) (t : Token.Storage) : Prop where
  passes : ∀ receiver wei tokens wei' tokens',
    Contract.link (onToken dep) (isBreakingCap dep wei tokens wei' tokens') (s, t) =
      .ret false (s, t) ↔ Covers dep s t receiver tokens
  /-- An investment that goes through, while nobody else calls the sale or the token. -/
  lowers : ∀ sender wei receiver customerId answers st',
    (Contract.link (onToken dep) (investInternal dep sender wei receiver customerId) (s, t)).play
      answers = some ((), st') →
      ∃ tokens : Uint256, st'.1.assigned = (receiver, tokens) :: s.assigned ∧
        (tokensLeft dep st').val + tokens.val = (tokensLeft dep (s, t)).val
  full : Contract.link (onToken dep) (isCrowdsaleFull dep) (s, t) = .ret true (s, t) ↔
    ∀ receiver (tokens : Uint256), tokens ≠ 0 → ¬ Covers dep s t receiver tokens

/-- One token can be sold. -/
structure CanSell (dep : Deployment) (s : Storage) (t : Token.Storage) : Prop where
  running : s.settings.halted = false
  total : s.tokensSold.val + 1 < 2 ^ 256
  allowed : 1 ≤ (t.allowed dep.beneficiary dep.this).val
  buyer : ∃ receiver, (s.tokenAmountOf receiver).val + 1 < 2 ^ 256 ∧
    (t.balances receiver).val + 1 < 2 ^ 256 ∧
    (dep.beneficiary ≠ receiver → 1 ≤ (t.balances dep.beneficiary).val)

variable {dep : Deployment} {s : Storage} {t : Token.Storage}

/-! ## What the functions answer -/

theorem isBreakingCap_eq (wei tokens wei' tokens' : Uint256) :
    Contract.link (onToken dep) (isBreakingCap dep wei tokens wei' tokens') (s, t) =
      .ret (decide (tokensLeft dep (s, t) < tokens)) (s, t) := by
  simp only [isBreakingCap, getTokensLeft, link_bind, link_get, link_extCall, link_pure, onToken]
  rfl

theorem isBreakingCap_eq_false {wei tokens wei' tokens' : Uint256} :
    Contract.link (onToken dep) (isBreakingCap dep wei tokens wei' tokens') (s, t) =
      .ret false (s, t) ↔ tokens.val ≤ (tokensLeft dep (s, t)).val := by
  rw [isBreakingCap_eq]
  simp only [Proc.ret.injEq, decide_eq_false_iff_not, and_true, not_lt]
  exact Iff.rfl

theorem isCrowdsaleFull_eq :
    Contract.link (onToken dep) (isCrowdsaleFull dep) (s, t) =
      .ret (decide (tokensLeft dep (s, t) = 0)) (s, t) := by
  simp only [isCrowdsaleFull, getTokensLeft, link_bind, link_get, link_extCall, link_pure, onToken]
  rfl

theorem returns_assignTokens_iff {receiver : Address} {tokens : Uint256} :
    returns (Contract.link (onToken dep) (assignTokens dep receiver tokens)) (fun _ _ => True)
      (s, t) ↔
      returns (StandardToken.transferFrom dep.this dep.beneficiary receiver tokens :
        Contract Token.Storage Query Uint256 Bool) (fun _ _ => True) t := by
  simp only [assignTokens, link_bind, link_extCall, link_require, link_modify, onToken,
    returns_bind, returns_zoom, returns_require, returns_modify, returns_pure, and_true]
  refine ⟨fun h => returns_mono h fun _ _ _ => trivial, fun h => ?_⟩
  refine returns_mono (returns_and h (StandardToken.wp_transferFrom (B := Boundary.closed))) ?_
  rintro _ _ ⟨-, rfl, -⟩
  decide

/-- The balances are no obstacle. -/
theorem covers_iff {receiver : Address} {tokens : Uint256} :
    Covers dep s t receiver tokens ↔ tokens.val ≤ (t.allowed dep.beneficiary dep.this).val := by
  unfold Covers
  simp only [returns_assignTokens_iff, StandardToken.returns_transferFrom_iff]
  constructor
  · rintro ⟨_, -, -, hle⟩
    exact hle
  · intro hle
    refine ⟨Function.update (fun _ => 0) dep.beneficiary
      (if dep.beneficiary = receiver then 0 else tokens), ?_, fun hne => ?_, hle⟩
    · by_cases hself : dep.beneficiary = receiver
      · subst hself
        simp only [Function.update_self, if_pos]
        exact (Nat.zero_add _).symm ▸ tokens.isLt
      · simp only [Function.update_of_ne (Ne.symm hself)]
        exact (Nat.zero_add _).symm ▸ tokens.isLt
    · simp only [Function.update_self, if_neg hne, le_refl]

/-! ## What an investment does -/

/-- What holds after an investment if its sale ensures it. -/
theorem wp_still_investInternal {sender receiver : Address} {wei : Uint256} {customerId : Uint128}
    {post : Unit → Storage × Token.Storage → Prop}
    (hsale : ∀ tokens s' t', s.settings.halted = false → tokens ≠ 0 →
      Sold receiver wei tokens s s' → s'.settings = s.settings → Assigned dep receiver tokens t t' →
      ∀ log, post () ({ s' with log := log }, t')) :
    wp Boundary.still
      (Contract.link (onToken dep) (investInternal dep sender wei receiver customerId)) post
      (s, t) := by
  by_cases hrunning : s.settings.halted = false
  · have hnoted : wp (Boundary.still.noted Unit)
        ((Contract.link (onToken dep) (investInternal dep sender wei receiver customerId)).noted
          fun _ _ l => l) (fun a st => post a st.1) ((s, t), ()) := by
      refine wp_investInternal (I := fun st => st.1 = (s, t)) (fun _ _ _ _ => trivial)
        (fun _ _ _ _ _ h hback => Eq.trans hback h) (fun _ _ => rfl) (fun _ _ => rfl) ?_ rfl
      rintro s1 t1 _ _ _ _ tokens s2 t2 _ h1 - hne hsold hsettings - hassigned
      cases h1
      refine ⟨trivial, fun _ s3 t3 _ h3 => ?_⟩
      cases h3
      exact hsale tokens s2 t2 hrunning hne hsold hsettings hassigned _
    exact wp_of_noted () hnoted
  · have hthrow : wp Boundary.still
        (Contract.link (onToken dep) (investInternal dep sender wei receiver customerId))
        (fun _ _ => False) (s, t) := by
      simp [investInternal, hrunning]
    exact wp_mono hthrow fun _ _ h => h.elim

section Sells

variable {receiver : Address}

theorem returns_countInvestor :
    returns (Contract.link (onToken dep) (countInvestor receiver))
      (fun _ st' => ∃ s', st' = (s', t) ∧ s'.settings = s.settings ∧
        s'.tokensSold = s.tokensSold ∧ s'.tokenAmountOf = s.tokenAmountOf) (s, t) := by
  simp only [countInvestor, link_bind, link_get, link_ite, link_modify, link_pure, returns_bind,
    returns_get, returns_ite, returns_modify, returns_pure]
  exact ⟨fun _ => ⟨_, rfl, rfl, rfl, rfl⟩, fun _ => ⟨s, rfl, rfl, rfl, rfl⟩⟩

/-- An investor who sends nothing is credited. -/
theorem returns_updateInvestor (hroom : (s.tokenAmountOf receiver).val + 1 < 2 ^ 256) :
    returns (Contract.link (onToken dep) (updateInvestor receiver 0 1))
      (fun _ st' => ∃ s', st' = (s', t) ∧ s'.settings = s.settings ∧
        s'.tokensSold = s.tokensSold) (s, t) := by
  simp only [updateInvestor, link_bind, link_get, link_ofOption, link_modify,
    returns_bind, returns_get, returns_ofOption, returns_modify, returns_pure, safeAdd_eq_some]
  exact ⟨s.investedAmountOf receiver, rfl, ⟨_, hroom⟩, rfl, _, rfl, rfl, rfl⟩

theorem returns_updateTotals (hroom : s.tokensSold.val + 1 < 2 ^ 256) :
    returns (Contract.link (onToken dep) (updateTotals 0 1))
      (fun _ st' => ∃ s', st' = (s', t) ∧ s'.settings = s.settings) (s, t) := by
  simp only [updateTotals, link_bind, link_get, link_ofOption, link_modify,
    returns_bind, returns_get, returns_ofOption, returns_modify, returns_pure, safeAdd_eq_some]
  exact ⟨s.weiRaised, rfl, ⟨_, hroom⟩, rfl, _, rfl, rfl⟩

end Sells

theorem CanSell.sells (h : CanSell dep s t)
    (hallowed : tokensLeft dep (s, t) = t.allowed dep.beneficiary dep.this) :
    ∃ sender wei receiver customerId, ¬ wp Boundary.still
      (Contract.link (onToken dep) (investInternal dep sender wei receiver customerId))
      (fun _ _ => False) (s, t) := by
  obtain ⟨receiver, hcredit, hroom, hbalance⟩ := h.buyer
  refine ⟨0, 0, receiver, 0, fun hwp => ?_⟩
  simp only [investInternal, checkState, getState, onToken, link_bind, link_get, link_extCall,
    link_ite, link_require, link_pure, wp_bind, wp_get, wp_require, wp_ite, wp_pure,
    wp_zoom_extCall] at hwp
  obtain ⟨-, hstate⟩ := hwp h.running
  obtain ⟨-, hstate⟩ := (hstate 4 (s, t) rfl).2 (by decide)
  obtain ⟨-, hdecimals⟩ := hstate 3 (s, t) rfl (by decide)
  obtain ⟨-, hprice⟩ := hdecimals 0 (s, t) rfl
  have hwp := hprice 1 (s, t) rfl (by decide)
  obtain ⟨_, _, ⟨s1, rfl, hsettings, hsold, hcredited⟩, hwp⟩ :=
    exists_of_returns returns_countInvestor hwp
  obtain ⟨_, _, ⟨s2, rfl, hsettings2, hsold2⟩, hwp⟩ :=
    exists_of_returns (returns_updateInvestor (hcredited ▸ hcredit)) hwp
  obtain ⟨_, _, ⟨s3, rfl, hsettings3⟩, hwp⟩ :=
    exists_of_returns (returns_updateTotals (hsold2 ▸ hsold ▸ h.total)) hwp
  have hleft : tokensLeft dep (s3, t) = t.allowed dep.beneficiary dep.this := by
    rw [← hallowed]
    simp only [tokensLeft, hsettings3, hsettings2, hsettings]
  have hpass : ¬ tokensLeft dep (s3, t) < 1 := Nat.not_lt.mpr (hleft ▸ h.allowed)
  have hpasses : returns (Contract.link (onToken dep)
      (isBreakingCap dep 0 1 s3.weiRaised s3.tokensSold))
      (fun breaking st' => breaking = false ∧ st' = (s3, t)) (s3, t) :=
    returns_iff_ret.mpr ⟨_, _, isBreakingCap_eq _ _ _ _, decide_eq_false hpass, rfl⟩
  obtain ⟨_, _, ⟨hbreaking, rfl⟩, hwp⟩ := exists_of_returns hpasses hwp
  have hmoves : returns (StandardToken.transferFrom dep.this dep.beneficiary receiver 1 :
      Contract Token.Storage Query Uint256 Bool) (fun _ _ => True) t :=
    StandardToken.returns_transferFrom_iff.mpr ⟨hroom, hbalance, h.allowed⟩
  obtain ⟨_, ⟨s', t'⟩, -, hwp⟩ :=
    exists_of_returns (returns_assignTokens_iff.mpr hmoves) (hwp hbreaking)
  simp only [pocket, emit, Contract.void, onToken, link_bind, link_get, link_extCall, link_modify,
    link_pure, wp_bind, wp_get, wp_modify, wp_zoom_extCall, wp_pure] at hwp
  exact hwp.2 1 _ rfl


/-! ## When the cap is the pool -/

/-- A sale shows that one token could be sold. -/
theorem canSell_of_sold {receiver : Address} {wei tokens : Uint256} {s' : Storage}
    {t' : Token.Storage} (hrunning : s.settings.halted = false) (hne : tokens ≠ 0)
    (hsold : Sold receiver wei tokens s s') (hassigned : Assigned dep receiver tokens t t') :
    CanSell dep s t := by
  have hpos : 1 ≤ tokens.val := Nat.one_le_iff_ne_zero.mpr fun h => hne (Fin.ext h)
  have htotal := hsold.tokensSold
  obtain ⟨y, hy, -⟩ := hsold.credited
  have hroom := hassigned.room
  have hspent := hassigned.spent dep.beneficiary dep.this
  have hmoved := hassigned.moved.balances dep.beneficiary
  rw [if_pos ⟨rfl, rfl⟩] at hspent
  rw [if_pos rfl] at hmoved
  refine ⟨hrunning, ?_, by omega, receiver, ?_, by omega, fun hself => ?_⟩
  · have := s'.tokensSold.isLt
    omega
  · have := y.isLt
    omega
  · rw [if_neg hself] at hmoved
    omega

/-- What an investment takes is what the beneficiary allows. -/
theorem tokensLeft_of_assigned {receiver : Address} {tokens : Uint256} {s' : Storage}
    {t' : Token.Storage} (hsettings : s'.settings = s.settings)
    (hassigned : Assigned dep receiver tokens t t') :
    (tokensLeft dep (s', t')).val +
        (if s.settings.owner = dep.beneficiary then tokens.val else 0) =
      (tokensLeft dep (s, t)).val := by
  have hspent := hassigned.spent s.settings.owner dep.this
  simpa only [tokensLeft, hsettings, and_true] using hspent

/-- **The cap is the pool** exactly where the owner is the beneficiary, or both have allowed the
sale the same and no token can be sold. -/
theorem capIsPool_iff (dep : Deployment) (s : Storage) (t : Token.Storage) :
    CapIsPool dep s t ↔ s.settings.owner = dep.beneficiary ∨
      (t.allowed s.settings.owner dep.this = t.allowed dep.beneficiary dep.this ∧
        ¬ CanSell dep s t) := by
  constructor
  · intro h
    have hcap : ∀ tokens : Uint256, tokens.val ≤ (tokensLeft dep (s, t)).val ↔
        tokens.val ≤ (t.allowed dep.beneficiary dep.this).val := fun tokens =>
      isBreakingCap_eq_false.symm.trans ((h.passes 0 0 tokens 0 0).trans covers_iff)
    have hallowed : tokensLeft dep (s, t) = t.allowed dep.beneficiary dep.this :=
      Fin.ext (Nat.le_antisymm ((hcap _).mp le_rfl) ((hcap _).mpr le_rfl))
    refine or_iff_not_imp_left.mpr fun hne => ⟨hallowed, fun hcan => ?_⟩
    obtain ⟨sender, wei, receiver, customerId, hsells⟩ := hcan.sells hallowed
    -- an investment that goes through lowers nothing, although tokens have been sold
    have hsame : wp Boundary.still
        (Contract.link (onToken dep) (investInternal dep sender wei receiver customerId))
        (fun _ st' => ∃ tokens : Uint256, tokens ≠ 0 ∧
          st'.1.assigned = (receiver, tokens) :: s.assigned ∧
          (tokensLeft dep st').val = (tokensLeft dep (s, t)).val) (s, t) := by
      refine wp_still_investInternal fun tokens s' t' _ hpos hsold hsettings hassigned log => ?_
      have hleft := tokensLeft_of_assigned hsettings hassigned
      rw [if_neg hne, Nat.add_zero] at hleft
      exact ⟨tokens, hpos, hsold.assigned, hleft⟩
    refine hsells (wp_mono (wp_and (wp_still_iff.mpr fun answers _ st' hplay =>
      h.lowers sender wei receiver customerId answers st' hplay) hsame) ?_)
    rintro _ st' ⟨⟨tokens, hassigned, hleft⟩, tokens', hpos, hassigned', hleft'⟩
    rw [hassigned, List.cons.injEq, Prod.mk.injEq] at hassigned'
    obtain ⟨⟨-, rfl⟩, -⟩ := hassigned'
    exact hpos (Fin.ext (Nat.add_left_cancel (hleft.trans hleft'.symm)))
  · intro h
    have hallowed : tokensLeft dep (s, t) = t.allowed dep.beneficiary dep.this := by
      rcases h with howner | ⟨hsame, -⟩
      · exact congrArg (fun a => t.allowed a dep.this) howner
      · exact hsame
    refine ⟨fun receiver wei tokens wei' tokens' => ?_, ?_, ?_⟩
    · rw [isBreakingCap_eq_false, covers_iff, hallowed]
    · intro sender wei receiver customerId answers st' hplay
      have hlowers : wp Boundary.still
          (Contract.link (onToken dep) (investInternal dep sender wei receiver customerId))
          (fun _ st' => ∃ tokens : Uint256,
            st'.1.assigned = (receiver, tokens) :: s.assigned ∧
            (tokensLeft dep st').val + tokens.val = (tokensLeft dep (s, t)).val) (s, t) := by
        refine wp_still_investInternal
          fun tokens s' t' hrunning hpos hsold hsettings hassigned log => ?_
        rcases h with howner | ⟨-, hcannot⟩
        · have hleft := tokensLeft_of_assigned hsettings hassigned
          rw [if_pos howner] at hleft
          exact ⟨tokens, hsold.assigned, hleft⟩
        · exact (hcannot (canSell_of_sold hrunning hpos hsold hassigned)).elim
      exact wp_still_iff.mp hlowers answers () st' hplay
    · simp only [isCrowdsaleFull_eq, Proc.ret.injEq, decide_eq_true_iff, and_true, covers_iff,
        ← hallowed]
      constructor
      · intro hzero receiver tokens hpos hle
        rw [hzero] at hle
        exact hpos (Fin.ext (Nat.le_zero.mp hle))
      · intro hfull
        by_contra hpos
        exact hfull 0 _ hpos le_rfl

/-- The sale belongs to account `7`, and not to the beneficiary. -/
def delegated : Storage := Storage.init { sampleSettings with owner := 7 }

/-- The beneficiary has 50 tokens and allows the sale to sell them. -/
def pool : Token.Storage := (Token.Storage.init.setBalance 5 50).setAllowed 5 1 50

/-- **A pool that is never opened.** The sale is full and refuses to sell 10 of the 50 tokens. -/
theorem full_of_tokens :
    Contract.link (onToken sample) (isCrowdsaleFull sample) (delegated, pool) =
        .ret true (delegated, pool) ∧
      Contract.link (onToken sample) (isBreakingCap sample 0 10 0 10) (delegated, pool) =
        .ret true (delegated, pool) ∧
      Covers sample delegated pool 20 10 ∧ ¬ CapIsPool sample delegated pool := by
  have hcovers : Covers sample delegated pool 20 10 := covers_iff.mpr (by decide +kernel)
  refine ⟨?_, ?_, hcovers, fun h => ?_⟩
  · rw [isCrowdsaleFull_eq]
    rfl
  · rw [isBreakingCap_eq]
    rfl
  · have hpass := isBreakingCap_eq_false.mp ((h.passes 20 0 10 0 10).mpr hcovers)
    exact absurd hpass (by decide +kernel)

end ChainX.Ico.Crowdsale
