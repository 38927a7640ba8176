import ChainX.Ico.World

/-!
# The books of the ICO

`Books` is what holds of the records of the crowdsale, its token, and the ether that has left it.
**`crowdsale_books`**: they balance at every moment of every run.

The ether is not recorded by the contract. What has left it is read off the run: `adding` adds up
the sends that were answered with success, and a send that waits for its answer has taken its ether
along (`exec_waiting`).

* `pocket` sends the money last (`Crowdsale.sol:215-216`), when everything is booked, and rethrows
  when the send fails. So while a send waits, its wei is booked and has left; if it fails, the call
  is undone with all that was booked (`Books.answered`).
* The tokens are moved by `assignTokens` out of the account of the beneficiary, each with an event
  of the token (`assignments`), and counted in `tokensSold`.
* `preallocate` books wei that came another way. The contract's own record of it, which is only
  there for the statement, is the difference of what is booked and what was sent.
-/

namespace ChainX.Ico.Crowdsale

open ChainX.Evm ChainX.Lib ChainX.Reentry

/-! ## What is recorded -/

/-- The tokens that `assignTokens` has moved out of the beneficiary's account. -/
def assignedTokens (s : Storage) : Nat := (s.assigned.map fun a => a.2.val).sum

/-- The events of the transfers of `assignTokens`, newest first. -/
def assignments (dep : Deployment) (s : Storage) : List Token.Event :=
  s.assigned.map fun a => .transfer dep.beneficiary a.1 a.2

/-- A call, with the wei added up that its answered sends have moved. -/
def paying (dep : Deployment) (c : WorldCall) :
    Contract ((Storage × Token.Storage) × Nat) Query Uint256 Unit :=
  (world dep c).noted (adding fun q _ => q.pays)

/-- The wei that a run has sent to the wallet: by the sends that were answered with success, in
calls that were not taken back, and by those that wait for their answer. -/
def sentWei (dep : Deployment) (settings : Settings) (t₀ : Token.Storage)
    (moves : List (Move WorldCall Uint256)) : Nat :=
  (exec (paying dep) ⟨((Storage.init settings, t₀), 0), []⟩ moves).cur.2 +
    ((exec (world dep) ⟨(Storage.init settings, t₀), []⟩ moves).stack.map fun F =>
      F.query.pays).sum

/-- The books balance over the questions `waiting`. -/
structure Books (dep : Deployment) (waiting : List Query) (st : (Storage × Token.Storage) × Nat) :
    Prop where
  invested : st.1.1.weiRaised.val = total fun a => (st.1.1.investedAmountOf a).val
  credited : st.1.1.tokensSold.val = total fun a => (st.1.1.tokenAmountOf a).val
  assigned : st.1.1.tokensSold.val = assignedTokens st.1.1
  paid : st.1.1.weiRaised.val =
    preallocatedWei st.1.1 + (st.2 + (waiting.map Query.pays).sum)
  /-- The token has made the transfers that `assignTokens` has recorded. -/
  moved : (assignments dep st.1.1).Sublist st.1.2.log

variable {dep : Deployment} {waiting waiting' : List Query} {s s' : Storage}
  {t t' : Token.Storage} {l l' : Nat}

theorem books_init (dep : Deployment) (settings : Settings) (t : Token.Storage) :
    Books dep [] ((Storage.init settings, t), 0) := by
  have hzero : total (fun _ : Address => 0) = 0 := Finset.sum_const_zero
  exact ⟨hzero.symm, hzero.symm, rfl, rfl, List.nil_sublist _⟩

/-- **A sale keeps the books**, once its wei is accounted for. -/
theorem Books.sold {receiver : Address} {wei tokens : Uint256} (h : Books dep waiting ((s, t), l))
    (hsold : Sold receiver wei tokens s s')
    (hpaid : preallocatedWei s' + (l' + (waiting'.map Query.pays).sum) =
      preallocatedWei s + (l + (waiting.map Query.pays).sum) + wei.val)
    (hlog : t'.log = .transfer dep.beneficiary receiver tokens :: t.log) :
    Books dep waiting' ((s', t'), l') := by
  obtain ⟨x, hx, hinvested⟩ := hsold.invested
  obtain ⟨y, hy, hcredited⟩ := hsold.credited
  constructor
  · have hwei := hsold.weiRaised
    have hbefore := h.invested
    have hsum := total_update_apply Fin.val s.investedAmountOf receiver x
    simp only [hinvested]
    simp only at hbefore
    omega
  · have htokens := hsold.tokensSold
    have hbefore := h.credited
    have hsum := total_update_apply Fin.val s.tokenAmountOf receiver y
    simp only [hcredited]
    simp only at hbefore
    omega
  · have htokens := hsold.tokensSold
    have hbefore := h.assigned
    simp only [assignedTokens, hsold.assigned, List.map_cons, List.sum_cons] at hbefore ⊢
    omega
  · have hwei := hsold.weiRaised
    have hbefore := h.paid
    simp only at hbefore ⊢
    omega
  · simp only [assignments, hsold.assigned, List.map_cons, hlog]
    exact h.moved.cons_cons _

/-- A question that carries no wei is no burden on the books. -/
theorem books_cons_iff {q : Query} {st : (Storage × Token.Storage) × Nat} (hq : q.pays = 0) :
    Books dep (q :: waiting) st ↔ Books dep waiting st := by
  have hsum : ((q :: waiting).map Query.pays).sum = (waiting.map Query.pays).sum := by
    rw [List.map_cons, List.sum_cons, hq, Nat.zero_add]
  constructor
  · rintro ⟨hinvested, hcredited, hassigned, hpaid, hmoved⟩
    exact ⟨hinvested, hcredited, hassigned, hsum ▸ hpaid, hmoved⟩
  · rintro ⟨hinvested, hcredited, hassigned, hpaid, hmoved⟩
    exact ⟨hinvested, hcredited, hassigned, hsum.symm ▸ hpaid, hmoved⟩

/-- An answered send has moved what it carried. -/
theorem Books.answered {q : Query} {a : Uint256} (h : Books dep (q :: waiting) ((s, t), l)) :
    Books dep waiting ((s, t), adding (fun q _ => q.pays) q a l) := by
  have hpaid := h.paid
  refine ⟨h.invested, h.credited, h.assigned, ?_, h.moved⟩
  simp only [List.map_cons, List.sum_cons, adding] at hpaid ⊢
  omega

/-! ## Every call keeps the books -/

theorem books_entry (c : Call) (h : Books dep waiting ((s, t), l)) :
    wp (Boundary.waiting (Books dep) waiting) (paying dep (.sale c))
      (fun _ st' => Books dep waiting st') ((s, t), l) := by
  have hout : ∀ (q : Query) st, q.pays = 0 → Books dep waiting st →
      (Boundary.waiting (R := Uint256) (Books dep) waiting).out q st :=
    fun q st hq h => (books_cons_iff hq).mpr h
  have hback : ∀ (q : Query) st a st', q.pays = 0 → Books dep waiting st →
      (Boundary.waiting (R := Uint256) (Books dep) waiting).back q st (some a) st' →
      Books dep waiting st' := fun q st a st' hq _ h => (books_cons_iff hq).mp h.1
  refine wp_entry c ?_ ?_ ?_
  · intro _ sender wei receiver customerId
    refine wp_investInternal_counted hout hback (fun _ _ => rfl) (fun _ _ => rfl) ?_ h
    intro s1 t1 l1 _ _ _ tokens s2 t2 l2 h1 hl2 _ hsold _ _ _ hpreallocated hassigned
    refine ⟨h1.sold hsold ?_ hassigned.log, fun a s3 t3 l3 hb3 => ?_⟩
    · simp only [preallocatedWei, hpreallocated, hl2, adding, Query.pays, List.map_cons,
        List.sum_cons]
      omega
    · have h3 := hb3.1.answered (a := a)
      exact ⟨h3.invested, h3.credited, h3.assigned, h3.paid, h3.moved⟩
  · intro sender receiver fullTokens weiPrice _
    refine wp_preallocate_counted hout hback ?_ h
    intro s1 t1 l1 decimals s2 t2 h1 hsold _ hpreallocated hassigned
    refine h1.sold hsold ?_ hassigned.log
    simp only [preallocatedWei, hpreallocated, adding, Query.pays, List.map_cons, List.sum_cons]
    omega
  · intro settings
    exact ⟨h.invested, h.credited, h.assigned, h.paid, h.moved⟩

theorem books_world (c : WorldCall) (h : Books dep waiting ((s, t), l)) :
    wp (Boundary.waiting (Books dep) waiting) (paying dep c)
      (fun _ st' => Books dep waiting st') ((s, t), l) := by
  refine wp_world c (fun c' hc => ?_) fun t' e he => ?_
  · subst hc
    exact books_entry c' h
  · refine ⟨h.invested, h.credited, h.assigned, h.paid, ?_⟩
    simp only [he]
    exact h.moved.cons e

/-- Account `5` allows the sale 50 of its tokens, account `20` invests 100 wei at 10 tokens while
the sale is on, and then the owner preallocates 3 tokens without decimal places at 4 wei. -/
def sampleMoves : List (Move WorldCall Uint256) :=
  [.enter (.token (.approve 5 1 50)), .enter (.sale (.invest 20 100 20)), .answer (some 3),
    .answer (some 3), .answer (some 0), .answer (some 10), .answer (some 1),
    .enter (.sale (.preallocate 5 21 3 4)), .answer (some 0)]

example :
    let cur := (exec (world sample) ⟨(Storage.init sampleSettings,
      Token.Storage.init.setBalance 5 50), []⟩ sampleMoves).cur
    (cur.1.weiRaised, cur.1.tokensSold, cur.2.balances 20, cur.2.balances 21) =
        (112, 13, 10, 3) ∧
      sentWei sample sampleSettings (Token.Storage.init.setBalance 5 50) sampleMoves = 100 := by
  decide +kernel

end ChainX.Ico.Crowdsale
