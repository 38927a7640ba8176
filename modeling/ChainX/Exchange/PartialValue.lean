import ChainX.Exchange.Books

/-!
# What the exchange computes in `tokenM`

`getPartialValue` (`chainx.sol:478-483`) is the only arithmetic of the exchange that is neither on
`tokenT` amounts nor a sum: a product that may overflow and a quotient that is rounded down. Two
functions meet its limits.

* `isRoundingError` (`chainx.sol:466-471`) is documented as "rounding error > 0.1%". It looks at the
  total `valueM` only; **`rounding_guard_iff`** says for which amounts it lets pass that is enough,
  and `rounding_guard_fails` is an order on which a taker pays and receives nothing.
* `cancel` (`chainx.sol:195-242`) computes a partial value for its event alone, and throws when that
  overflows: **`maker_cancels_iff`**, `maker_cannot_cancel`.

`Precise` is the documented 0.1%, without a quotient: what is rounded off, times a thousand, is at
most the exact amount, both as numbers over `value`. It is the same as a bound on the remainder of
the product (`precise_iff`), which is what the code could look at.
-/

namespace ChainX.Exchange

open ChainX.Evm ChainX.Reentry

-- the hash is never computed in the general results
attribute [local irreducible] getOrderHash

/-! ## The rounding guard -/

/-- `v` falls short of the exact `f * target / value` by at most 0.1% of it. -/
def Precise (value f target v : Uint256) : Prop :=
  (f.val * target.val : ℚ) / value.val - v.val ≤ (f.val * target.val : ℚ) / value.val / 1000

/-- What is rounded off is a remainder, and its share of the exact amount is one of the product. -/
theorem precise_iff {value f target v : Uint256} (hv : getPartialValue value f target = some v) :
    Precise value f target v ↔
      1000 * (f.val * target.val % value.val) ≤ f.val * target.val := by
  obtain ⟨-, hne, hval⟩ := getPartialValue_eq_some.mp hv
  have hpos : (0 : ℚ) < value.val := Nat.cast_pos.mpr (Nat.pos_of_ne_zero hne)
  have hdiv := Nat.div_add_mod (f.val * target.val) value.val
  rw [← hval] at hdiv
  have hsplit : (f.val * target.val : ℚ) =
      value.val * v.val + (f.val * target.val % value.val : Nat) := by
    exact_mod_cast hdiv.symm
  have hexact : (f.val * target.val : ℚ) / value.val - v.val =
      (f.val * target.val % value.val : Nat) / value.val := by
    rw [hsplit]
    field_simp
    ring
  unfold Precise
  rw [hexact, div_div, mul_comm (value.val : ℚ) 1000, ← div_div, div_le_div_iff_of_pos_right hpos,
    le_div_iff₀ (by norm_num : (0 : ℚ) < 1000)]
  constructor
  · intro h
    have : f.val * target.val % value.val * 1000 ≤ f.val * target.val := by exact_mod_cast h
    omega
  · intro h
    have : f.val * target.val % value.val * 1000 ≤ f.val * target.val := by omega
    exact_mod_cast this

/-- A precise amount is positive when the exact one is. -/
theorem pos_of_precise {value f target v : Uint256} (hv : getPartialValue value f target = some v)
    (hprecise : Precise value f target v) (hf : 0 < f.val) (htarget : 0 < target.val) :
    0 < v.val := by
  obtain ⟨-, hne, hval⟩ := getPartialValue_eq_some.mp hv
  rw [precise_iff hv] at hprecise
  have hprod : 0 < f.val * target.val := Nat.mul_pos hf htarget
  rw [hval]
  refine Nat.div_pos ?_ (Nat.pos_of_ne_zero hne)
  by_contra hlt
  rw [Nat.mod_eq_of_lt (Nat.lt_of_not_le hlt)] at hprecise
  omega

/-- **What the rounding guard ensures.** The amounts it lets pass give a precise `tokenM` amount,
and a positive one for a positive `valueM`, in exactly these cases: `valueM` is below 1000, where
the guard looks at the remainder; `getPartialValue` throws; or the remainder is at most a thousandth
of the product. -/
theorem rounding_guard_iff {valueT f valueM : Uint256} (hf : 0 < f.val) (hle : f.val ≤ valueT.val) :
    (isRoundingError valueT f valueM = false → ∀ v, getPartialValue valueT f valueM = some v →
        Precise valueT f valueM v ∧ (0 < valueM.val → 0 < v.val)) ↔
      valueM.val < 10 ^ 3 ∨ 2 ^ 256 ≤ f.val * valueM.val ∨
        1000 * mulmod valueM f valueT ≤ f.val * valueM.val := by
  have hne : valueT.val ≠ 0 := by omega
  have hmulmod : mulmod valueM f valueT = f.val * valueM.val % valueT.val := by
    rw [mulmod, if_neg hne, Nat.mul_comm]
  have hguard : isRoundingError valueT f valueM = false ↔
      (valueM.val < 10 ^ 3 → f.val * valueM.val % valueT.val = 0) := by
    rw [isRoundingError, hmulmod, Bool.and_eq_false_imp, decide_eq_true_iff, bne_eq_false_iff_eq]
  rw [hguard, hmulmod]
  constructor
  · intro h
    by_cases hM : valueM.val < 10 ^ 3
    · exact Or.inl hM
    by_cases hlt : f.val * valueM.val < 2 ^ 256
    · have hquot : f.val * valueM.val / valueT.val < 2 ^ 256 :=
        Nat.lt_of_le_of_lt (Nat.div_le_self _ _) hlt
      have hv : getPartialValue valueT f valueM = some ⟨_, hquot⟩ :=
        getPartialValue_eq_some.mpr ⟨hlt, hne, rfl⟩
      exact Or.inr (Or.inr ((precise_iff hv).mp (h (fun h => absurd h hM) _ hv).1))
    · exact Or.inr (Or.inl (Nat.le_of_not_lt hlt))
  · intro hcond hpass v hv
    have hlt := (getPartialValue_eq_some.mp hv).1
    have hprecise : Precise valueT f valueM v := by
      rw [precise_iff hv]
      rcases hcond with hM | hover | hsmall
      · rw [hpass hM]
        exact Nat.zero_le _
      · exact absurd hlt (Nat.not_lt_of_le hover)
      · exact hsmall
    exact ⟨hprecise, fun hM => pos_of_precise hv hprecise hf hM⟩

/-- A third of 9001 is rounded by less than a thousandth. -/
theorem rounding_guard_iff_third :
    isRoundingError 9 3 9001 = false ∧ getPartialValue 9 3 9001 = some 3000 ∧
      Precise 9 3 9001 3000 := by
  refine ⟨by decide, by decide, ?_⟩
  exact ((rounding_guard_iff (by decide) (by decide)).mpr (Or.inr (Or.inr (by decide))) (by decide)
    3000 (by decide)).1

/-- The maker `10` gives 1000 of token `30` for a million of token `40`. -/
def coarseOrder : OrderData :=
  ({ maker := 10, taker := 0, tokenM := 30, tokenT := 40, feeRecipient := 0 },
    { valueM := 1000, valueT := 1000000, feeM := 0, feeT := 0, expiration := 100, salt := 7 })

/-- **The guard lets a fill of 1 of `coarseOrder` pass**, whose `tokenM` amount rounds to nothing:
account `20` pays and receives no token. -/
theorem rounding_guard_fails :
    isRoundingError 1000000 1 1000 = false ∧ getPartialValue 1000000 1 1000 = some 0 ∧
      ¬ Precise 1000000 1 1000 0 ∧
      (once (entry sample) Storage.init (.fill ⟨20, 50⟩ coarseOrder 1 true sampleSig)
        [some 1000, some 1000, some 1000, some 1000, some 1, some 1]).moves.map
          (fun m => (m.token, m.payer, m.payee, m.value)) = [(40, 20, 10, 1), (30, 10, 20, 0)] := by
  have hzero : getPartialValue 1000000 1 1000 = some 0 := by decide
  refine ⟨by decide, hzero, ?_, by decide +kernel⟩
  rw [precise_iff hzero]
  decide

/-! ## Cancelling -/

variable {dep : Deployment} {msg : Msg} {o : OrderData} {n : Uint256} {s : Storage}

/-- What a successful `cancel` of `n` does: it takes `n` or, if that is less, what remains, and
changes nothing else. -/
structure Cancelled (dep : Deployment) (o : OrderData) (n f : Uint256) (s s' : Storage) : Prop where
  amount : f.val = min n.val (o.2.valueT.val -
    ((s.filled (getOrderHash dep o)).val + (s.cancelled (getOrderHash dep o)).val))
  cancelled : (s'.cancelled (getOrderHash dep o)).val =
    (s.cancelled (getOrderHash dep o)).val + f.val
  others : ∀ h, h ≠ getOrderHash dep o → s'.cancelled h = s.cancelled h
  filled : s'.filled = s.filled

/-- The arithmetic of `cancel` throws only where the amount for the event overflows. -/
theorem returns_cancel_iff (hmaker : msg.sender = o.1.maker)
    (hunexpired : msg.timestamp < o.2.expiration)
    (hremaining : (s.filled (getOrderHash dep o)).val + (s.cancelled (getOrderHash dep o)).val <
      o.2.valueT.val) (hn : 0 < n.val) :
    returns (cancel dep msg o n) (fun f s' => Cancelled dep o n f s s') s ↔
      min n.val (o.2.valueT.val -
        ((s.filled (getOrderHash dep o)).val + (s.cancelled (getOrderHash dep o)).val)) *
          o.2.valueM.val < 2 ^ 256 := by
  have hT := o.2.valueT.isLt
  have hlive : ¬ (dep.order o).expiration ≤ msg.timestamp := not_le.mpr hunexpired
  generalize hR : o.2.valueT.val - ((s.filled (getOrderHash dep o)).val +
    (s.cancelled (getOrderHash dep o)).val) = R
  have hRlt : R < 2 ^ 256 := by omega
  have hmin : (minUint n ⟨R, hRlt⟩).val = min n.val R := minUint_val _ _
  have hpos : minUint n ⟨R, hRlt⟩ ≠ 0 := by
    intro h
    have : min n.val R = 0 := by
      rw [← hmin, h]
      rfl
    omega
  have hsum : (s.filled (getOrderHash dep o)).val + (s.cancelled (getOrderHash dep o)).val <
      2 ^ 256 := by omega
  have hcancelled : (s.cancelled (getOrderHash dep o)).val + min n.val R < 2 ^ 256 := by omega
  simp only [cancel, remainingValueT, getUnavailableValueT, returns_bind, returns_require,
    returns_ite, returns_get, returns_ofOption, returns_modify, returns_pure, safeAdd_eq_some,
    safeSub_eq_some]
  constructor
  · rintro ⟨-, -, h⟩
    obtain ⟨unavailable, hunavailable, r, ⟨-, hr⟩, -, h⟩ := h hlive
    have : r = ⟨R, hRlt⟩ := Fin.ext (by rw [hr, hunavailable]; exact hR)
    subst this
    obtain ⟨x, -, v, hv, -⟩ := h hpos
    rw [← hmin]
    exact (getPartialValue_eq_some.mp hv).1
  · intro hfits
    have hquot : (minUint n ⟨R, hRlt⟩).val * o.2.valueM.val / o.2.valueT.val < 2 ^ 256 := by
      rw [hmin]
      exact Nat.lt_of_le_of_lt (Nat.div_le_self _ _) hfits
    have hv : getPartialValue (dep.order o).valueT (minUint n ⟨R, hRlt⟩) (dep.order o).valueM =
        some ⟨_, hquot⟩ :=
      getPartialValue_eq_some.mpr ⟨by rw [hmin]; exact hfits,
        by simp only [Deployment.order]; omega, rfl⟩
    have hleft : (s.filled (dep.order o).orderHash).val +
        (s.cancelled (dep.order o).orderHash).val ≤ (dep.order o).valueT.val :=
      Nat.le_of_lt hremaining
    refine ⟨hmaker.symm, fun he => absurd he hlive, fun _ => ⟨⟨_, hsum⟩, rfl, ⟨R, hRlt⟩,
      ⟨hleft, hR.symm⟩, fun h => absurd h hpos, fun _ => ⟨⟨_, hcancelled⟩, ?_, _, hv, ?_⟩⟩⟩
    · rw [hmin]
      rfl
    · have hself : ∀ x : Uint256, Function.update s.cancelled (dep.order o).orderHash x
          (getOrderHash dep o) = x := fun x => Function.update_self _ _ _
      refine ⟨?_, ?_, fun h hne => Function.update_of_ne hne _ _, rfl⟩
      · rw [hmin, hR]
      · simp only [hself, hmin]

/-- **When a maker can cancel.** At every moment of every run, interleaved or not, a `cancel` of an
order that has not expired and of which something remains, by its maker, returns the amount asked
for or what remains, and cancels exactly that, if and only if the product of that amount with
`valueM` does not overflow. -/
theorem maker_cancels_iff (dep : Deployment) (moves : List (Reentry.Move Call Uint256))
    {msg : Msg} {o : OrderData} {n : Uint256} (hmaker : msg.sender = o.1.maker)
    (hunexpired : msg.timestamp < o.2.expiration) (hn : 0 < n.val) :
    ∀ s, s = (exec (entry dep) ⟨Storage.init, []⟩ moves).cur →
      (s.filled (getOrderHash dep o)).val + (s.cancelled (getOrderHash dep o)).val <
        o.2.valueT.val →
      (returns (cancel dep msg o n) (fun f s' => Cancelled dep o n f s s') s ↔
        min n.val (o.2.valueT.val -
          ((s.filled (getOrderHash dep o)).val + (s.cancelled (getOrderHash dep o)).val)) *
            o.2.valueM.val < 2 ^ 256) :=
  fun _ _ hremaining => returns_cancel_iff hmaker hunexpired hremaining hn

/-- After a fill of 4, the maker cancels 3 of the 6 that remain. -/
theorem maker_cancels_iff_sample :
    ∃ s, s = (exec (entry sample) ⟨Storage.init, []⟩ [.enter (.fill ⟨20, 50⟩ sampleOrder 4 false
        sampleSig), .answer (some 1), .answer (some 1)]).cur ∧
      (s.filled (getOrderHash sample sampleOrder)).val +
          (s.cancelled (getOrderHash sample sampleOrder)).val = 4 ∧
        returns (cancel sample ⟨10, 60⟩ sampleOrder 3)
          (fun f s' => Cancelled sample sampleOrder 3 f s s') s := by
  refine ⟨_, rfl, by decide +kernel, ?_⟩
  exact (maker_cancels_iff sample _ (by decide) (by decide) (by decide) _ rfl
    (by decide +kernel)).mpr (by decide +kernel)

/-- The maker `10` asks for 4 of token `40` and gives half of all the words there are. -/
def hugeOrder : OrderData :=
  ({ maker := 10, taker := 0, tokenM := 30, tokenT := 40, feeRecipient := 0 },
    { valueM := ⟨2 ^ 255, by decide⟩, valueT := 4, feeM := 0, feeT := 0, expiration := 100,
      salt := 7 })

/-- **The maker of `hugeOrder` cannot cancel it**, neither all of it nor half: right after
deployment the calls throw. -/
theorem maker_cannot_cancel :
    (exec (entry sample) ⟨Storage.init, []⟩ []).cur = Storage.init ∧
      (60 : Uint256) < hugeOrder.2.expiration ∧
      completes (entry sample) Storage.init (.cancel ⟨10, 60⟩ hugeOrder 4) [] = false ∧
      completes (entry sample) Storage.init (.cancel ⟨10, 60⟩ hugeOrder 2) [] = false ∧
      ¬ returns (cancel sample ⟨10, 60⟩ hugeOrder 4)
        (fun f s' => Cancelled sample hugeOrder 4 f Storage.init s') Storage.init := by
  refine ⟨rfl, by decide, by decide +kernel, by decide +kernel, ?_⟩
  rw [returns_cancel_iff rfl (by decide) (by decide +kernel) (by decide)]
  decide +kernel

end ChainX.Exchange
