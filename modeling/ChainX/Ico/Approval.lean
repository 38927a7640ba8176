import ChainX.Ico.StandardToken

/-!
# What an approval allows, `Contracts/ICO/StandardToken.sol:58-68`

A spender may see a new approval coming and use up the old allowance before it is set. The token of
the ICO answers this in `approve`: a value other than `0` is only set where the allowance is `0`.

The calls of all accounts are mined one after the other, in any order; a call that throws changes
nothing. `spending_step` is what one of them does to one allowance, and **`approval_bounds`** what
follows for every run: between two approvals no more than the first is spent, and in all no more
than was approved.

* `spends` and `approves` read off a call what it moves out of an account on behalf of a spender and
  what it allows; both are zero for a call that has thrown, as the run has it.
* The inequality is the invariant: what was spent and what the allowance still is come to what was
  approved at most. A `transferFrom` moves it from the one to the other, and an approval that adds
  to it has found the allowance at zero (`approve_spec`).
-/

namespace ChainX.Ico.StandardToken

open ChainX.Evm ChainX.Reentry ChainX.Token

variable {Q R : Type} {s : Storage} {owner spender : Address}

/-- What a call moves out of the account of `owner` on behalf of `spender`. -/
def spends (owner spender : Address) : Call → Nat
  | .transferFrom sender payer _ value => if payer = owner ∧ sender = spender then value.val else 0
  | _ => 0

/-- What a call of `owner` allows `spender`. -/
def approves (owner spender : Address) : Call → Nat
  | .approve sender spender' value =>
    if sender = owner ∧ spender' = spender then value.val else 0
  | _ => 0

theorem allowed_setAllowed (s : Storage) (a b owner spender : Address) (value : Uint256) :
    (s.setAllowed a b value).allowed owner spender =
      if a = owner ∧ b = spender then value else s.allowed owner spender := by
  unfold Storage.setAllowed
  by_cases ha : a = owner
  · subst ha
    by_cases hb : b = spender
    · subst hb
      simp
    · simp [hb, Ne.symm hb]
  · simp [ha, Ne.symm ha]

/-- What is spent comes out of the allowance, and an approval that adds to it finds nothing left. -/
theorem spending_step (c : Call) :
    wp Boundary.still (entry c : Contract Storage Q R Unit)
      (fun _ s' => (s'.allowed owner spender).val + spends owner spender c ≤
        (s.allowed owner spender).val + approves owner spender c) s := by
  cases c with
  | transfer sender dataLength payee value =>
    simp only [entry, wp_void]
    refine wp_mono wp_transfer fun _ s' h => ?_
    obtain ⟨-, -, hallowed, -⟩ := h
    rw [hallowed]
    exact Nat.le_refl _
  | transferFrom sender payer payee value =>
    simp only [entry, wp_void]
    refine wp_mono wp_transferFrom fun _ s' h => ?_
    obtain ⟨-, -, hspent, -⟩ := h
    have hleft := hspent owner spender
    simp only [spends, approves, Nat.add_zero, eq_comm (a := payer), eq_comm (a := sender)]
    exact Nat.le_of_eq hleft
  | approve sender spender' value =>
    simp only [entry, wp_void]
    refine wp_mono wp_approve fun _ s' h => ?_
    obtain ⟨-, hrace, -, hallowed, -⟩ := h
    rw [hallowed, allowed_setAllowed]
    simp only [spends, approves, Nat.add_zero]
    split
    · exact Nat.le_add_left _ _
    · exact Nat.le_refl _

/-- No call changes the sum of the balances. -/
theorem supply_step (c : Call) :
    wp Boundary.still (entry c : Contract Storage Q R Unit)
      (fun _ s' => supply s' = supply s) s := by
  cases c with
  | transfer sender dataLength payee value =>
    simp only [entry, wp_void]
    exact wp_mono wp_transfer fun _ s' h => h.2.1.supply
  | transferFrom sender payer payee value =>
    simp only [entry, wp_void]
    exact wp_mono wp_transferFrom fun _ s' h => h.2.1.supply
  | approve sender spender' value =>
    simp only [entry, wp_void]
    refine wp_mono wp_approve fun _ s' h => ?_
    obtain ⟨-, -, hbalances, -⟩ := h
    unfold supply
    rw [hbalances]

/-- An approval that goes through sets the allowance, and one of a value other than `0` has found
it at `0`. -/
theorem approve_spec {value : Uint256} {rs : List (Option R)}
    (hc : completes (entry (Q := Q)) s (.approve owner spender value) rs = true) :
    (value ≠ 0 → s.allowed owner spender = 0) ∧
      (once (entry (Q := Q)) s (.approve owner spender value) rs).allowed owner spender =
        value := by
  have hentry : wp Boundary.still (entry (Q := Q) (R := R) (.approve owner spender value))
      (fun _ s' => (value ≠ 0 → s.allowed owner spender = 0) ∧
        s'.allowed owner spender = value) s := by
    simp only [entry, wp_void]
    refine wp_mono wp_approve fun _ s' h => ?_
    obtain ⟨-, hrace, -, hallowed, -⟩ := h
    refine ⟨hrace, ?_⟩
    rw [hallowed, allowed_setAllowed, if_pos ⟨rfl, rfl⟩]
  obtain ⟨_, hpost⟩ := completes_spec hentry hc
  exact hpost

/-- **What approvals allow.** Over every run of calls by all accounts that starts without
allowances, and for every owner and spender: what the spender has moved out of the owner's account
and what the allowance still is come to the sum of the values approved at most, and the sum of the
balances stays. Between a successful approval of a value other than `0` and the next one the spender
moves at most the first value, and the next one finds an allowance of exactly `0`. -/
theorem approval_bounds (s : Storage) (hnew : ∀ a b, s.allowed a b = 0)
    (calls : List (Call × List (Option R))) (owner spender : Address) :
    let run := runSeq (entry (Q := Q) (R := R))
    let moved := sumCompleted (entry (Q := Q) (R := R)) (spends owner spender)
    let approved := sumCompleted (entry (Q := Q) (R := R)) (approves owner spender)
    moved s calls + ((run s calls).allowed owner spender).val ≤ approved s calls ∧
      supply (run s calls) = supply s ∧
      ∀ before first rs between second rs' after,
        calls = before ++ (.approve owner spender first, rs) ::
          (between ++ (.approve owner spender second, rs') :: after) →
        ∀ s₁ s₂ s₃, s₁ = run s before →
          s₂ = once (entry (Q := Q)) s₁ (.approve owner spender first) rs → s₃ = run s₂ between →
          completes (entry (Q := Q)) s₁ (.approve owner spender first) rs = true → first ≠ 0 →
          approved s₂ between = 0 →
          completes (entry (Q := Q)) s₃ (.approve owner spender second) rs' = true → second ≠ 0 →
          moved s₂ between ≤ first.val ∧ s₃.allowed owner spender = 0 := by
  intro run moved approved
  have hstep : ∀ c s, wp Boundary.still (entry c : Contract Storage Q R Unit)
      (fun _ s' => (s'.allowed owner spender).val + spends owner spender c ≤
        (s.allowed owner spender).val + approves owner spender c) s := fun c _ => spending_step c
  have hbound : ∀ calls s, ((run s calls).allowed owner spender).val + moved s calls ≤
      (s.allowed owner spender).val + approved s calls := runSeq_bound hstep
  refine ⟨?_, ?_, ?_⟩
  · have h := hbound calls s
    have hzero : (s.allowed owner spender).val = 0 := congrArg Fin.val (hnew owner spender)
    omega
  · refine runSeq_invariant (I := fun s' => supply s' = supply s) calls s
      (fun c _ s' hs' => ?_) rfl
    exact wp_mono (supply_step c.1) fun _ s'' h => h.trans hs'
  · rintro before first rs between second rs' after - s₁ s₂ s₃ - rfl rfl hfirst - hnone hsecond hne
    have h := hbound between (once (entry (Q := Q)) s₁ (.approve owner spender first) rs)
    have hset := (approve_spec hfirst).2
    rw [hset] at h
    exact ⟨by omega, (approve_spec hsecond).1 hne⟩

/-- Account `1` approves 5 for account `2`, which spends 3; a change to 7 fails until the rest has
been reset, and account `2` then spends all of the 7. -/
def raceRun : List (Call × List (Option Unit)) :=
  [(.approve 1 2 5, []), (.transferFrom 2 1 3 3, []), (.approve 1 2 7, []), (.approve 1 2 0, []),
    (.approve 1 2 7, []), (.transferFrom 2 1 2 7, [])]

/-- A token of which account `1` holds 20. -/
def twentyTokens : Storage := Storage.init.setBalance 1 20

theorem approval_bounds_race :
    let code : Call → Contract Storage Unit Unit Unit := entry
    sumCompleted code (spends 1 2) twentyTokens raceRun = 10 ∧
      10 ≤ sumCompleted code (approves 1 2) twentyTokens raceRun ∧
      sumCompleted code (spends 1 2) (once code twentyTokens (.approve 1 2 5) [])
        [(.transferFrom 2 1 3 3, []), (.approve 1 2 7, []), (.approve 1 2 0, [])] ≤ 5 := by
  intro code
  have hspent : sumCompleted code (spends 1 2) twentyTokens raceRun = 10 := by decide +kernel
  obtain ⟨hall, -, hbetween⟩ :=
    approval_bounds (Q := Unit) twentyTokens (fun _ _ => rfl) raceRun 1 2
  refine ⟨hspent, hspent ▸ Nat.le_of_add_right_le hall, ?_⟩
  exact (hbetween [] 5 [] [(.transferFrom 2 1 3 3, []), (.approve 1 2 7, []), (.approve 1 2 0, [])]
    7 [] [(.transferFrom 2 1 2 7, [])] rfl _ _ _ rfl rfl rfl (by decide +kernel) (by decide)
    (by decide +kernel) (by decide +kernel) (by decide)).1

end ChainX.Ico.StandardToken
