import ChainX.Ico.Books
import ChainX.Ico.Totals

/-!
# The investors of the ICO

`investorCount` is to say how many addresses have invested. `investInternal` counts a receiver that
has nothing booked so far (`Crowdsale.sol:194-197`), and `preallocate` (`Crowdsale.sol:236-251`),
which books too, counts none.

* An address that is preallocated to for money is missing from the count, and stays so when it
  invests afterwards: it has something booked by then.
* An investor who is sold something for nothing has nothing booked, and is counted again by the next
  investment. `Paid` leaves such runs out.
* The count changes together with what is booked, with no question in between, so the invariant is
  one on the storage, and nested calls see it hold (`CountsIfPaid`).

**`counts_run`**: if nothing is sold for nothing, the count is at most the number of addresses with
something booked, and the difference is at most the number of preallocations for money.
-/

namespace ChainX.Ico.Crowdsale

open ChainX.Evm ChainX.Lib ChainX.Reentry

/-! ## Who has invested -/

/-- The addresses with something booked. -/
def investors (s : Storage) : Finset Address := Finset.univ.filter fun a => s.investedAmountOf a ≠ 0

/-- How many preallocations were for money. -/
def paidPreallocations (s : Storage) : Nat := s.preallocated.countP (· ≠ 0)

/-- The count is right but for the preallocations. -/
structure Counts (s : Storage) : Prop where
  le_card : s.investorCount.val ≤ (investors s).card
  card_le : (investors s).card ≤ s.investorCount.val + paidPreallocations s

/-- Every investment was for money. -/
def Paid (sales : List Sale) : Prop := ∀ wei tokens, .invested wei tokens ∈ sales → wei ≠ 0

section Booking

variable {s s' : Storage} {receiver : Address} {wei tokens : Uint256}

theorem card_investors (s : Storage) :
    (investors s).card = total fun a => if s.investedAmountOf a ≠ 0 then 1 else 0 :=
  Finset.card_filter _ _

theorem card_investors_lt (s : Storage) : (investors s).card + 1 < 2 ^ 256 := by
  have hle : (investors s).card ≤ 2 ^ 160 := (Finset.card_le_univ _).trans_eq (Fintype.card_fin _)
  omega

/-- Booking makes an investor of a receiver that was none. -/
theorem Sold.card_investors (h : Sold receiver wei tokens s s') : (investors s').card =
    (investors s).card + if s.investedAmountOf receiver = 0 ∧ wei ≠ 0 then 1 else 0 := by
  obtain ⟨x, hx, hinvested⟩ := h.invested
  have hsum := total_update_apply (fun w : Uint256 => if w ≠ 0 then 1 else 0) s.investedAmountOf
    receiver x
  rw [Crowdsale.card_investors, Crowdsale.card_investors, hinvested]
  have hzero : x = 0 ↔ s.investedAmountOf receiver = 0 ∧ wei = 0 := by
    rw [← Fin.val_eq_zero_iff, ← Fin.val_eq_zero_iff, ← Fin.val_eq_zero_iff, hx]
    omega
  by_cases hnew : s.investedAmountOf receiver = 0
  · by_cases hwei : wei = 0
    · simp_all
    · simp_all
  · simp_all

theorem Counts.invested (h : Counts s) (hsold : Sold receiver wei tokens s s') (hwei : wei ≠ 0)
    (hcount : s'.investorCount = s.counted receiver)
    (hpreallocated : s'.preallocated = s.preallocated) : Counts s' := by
  have hcard := hsold.card_investors
  have hlt := card_investors_lt s
  have hle := h.le_card
  have hge := h.card_le
  have hcounted : s'.investorCount.val =
      s.investorCount.val + if s.investedAmountOf receiver = 0 ∧ wei ≠ 0 then 1 else 0 := by
    rw [hcount, Storage.counted]
    by_cases hnew : s.investedAmountOf receiver = 0
    · rw [if_pos hnew, if_pos ⟨hnew, hwei⟩, Fin.val_add]
      exact Nat.mod_eq_of_lt (by change s.investorCount.val + 1 < 2 ^ 256; omega)
    · rw [if_neg hnew, if_neg fun h => hnew h.1, Nat.add_zero]
  constructor
  · omega
  · rw [paidPreallocations, hpreallocated, ← paidPreallocations]
    omega

theorem Counts.preallocated (h : Counts s) (hsold : Sold receiver wei tokens s s')
    (hcount : s'.investorCount = s.investorCount)
    (hpreallocated : s'.preallocated = wei :: s.preallocated) : Counts s' := by
  have hcard := hsold.card_investors
  have hle := h.le_card
  have hge := h.card_le
  constructor
  · rw [hcount]
    omega
  · have hpaid : paidPreallocations s' = paidPreallocations s + if wei ≠ 0 then 1 else 0 := by
      rw [paidPreallocations, hpreallocated, List.countP_cons, paidPreallocations]
      simp
    rw [hcount, hpaid]
    by_cases hwei : wei = 0
    · simp_all
    · rw [if_pos hwei]
      split at hcard <;> omega

end Booking

/-! ## Every call keeps the count -/

/-- The count is right as long as nothing is sold for nothing. -/
def CountsIfPaid (st : (Storage × Token.Storage) × List Sale) : Prop := Paid st.2 → Counts st.1.1

theorem Paid.of_cons {a : Sale} {sales : List Sale} (h : Paid (a :: sales)) : Paid sales :=
  fun wei tokens hmem => h wei tokens (List.mem_cons_of_mem a hmem)

section Entry

variable {dep : Deployment} {s : Storage} {t : Token.Storage} {sales : List Sale}

theorem counts_entry (c : Call) (h : CountsIfPaid ((s, t), sales)) :
    wp (Boundary.keeping CountsIfPaid)
      ((Contract.link (onToken dep) (entry dep c)).noted (noteSale (.sale c)))
      (fun _ st' => CountsIfPaid st') ((s, t), sales) := by
  refine wp_entry c ?_ ?_ ?_
  · intro hc sender wei receiver customerId
    refine wp_investInternal_counted (I := CountsIfPaid) (fun _ _ _ h => h)
      (fun _ _ _ _ _ _ h => And.left h)
      (noteSale_of_ne hc .getState) (noteSale_of_ne hc .decimals) ?_ h
    intro s1 t1 l1 weiRaised tokensSold decimals tokens s2 t2 l2 h1 hl2 _ hsold _ _ hcount hpre _
    rw [noteSale_of_ne hc] at hl2
    subst hl2
    refine ⟨fun hpaid => ?_, fun a s3 t3 l3 hb3 hpaid => ?_⟩
    · exact (h1 hpaid.of_cons).invested hsold (hpaid wei tokens List.mem_cons_self) hcount hpre
    · rw [noteSale_of_ne hc] at hpaid
      have h3 := hb3.1 hpaid
      exact ⟨h3.le_card, h3.card_le⟩
  · rintro sender receiver fullTokens weiPrice rfl
    refine wp_preallocate_counted (I := CountsIfPaid) (fun _ _ _ h => h)
      (fun _ _ _ _ _ _ h => And.left h) ?_ h
    intro s1 t1 l1 decimals s2 t2 h1 hsold hcount hpre _ hpaid
    exact (h1 hpaid.of_cons).preallocated hsold hcount hpre
  · intro settings hpaid
    exact ⟨(h hpaid).le_card, (h hpaid).card_le⟩

theorem counts_world (c : WorldCall) (h : CountsIfPaid ((s, t), sales)) :
    wp (Boundary.keeping CountsIfPaid) ((world dep c).noted (noteSale c))
      (fun _ st' => CountsIfPaid st') ((s, t), sales) := by
  refine wp_world c (fun c' hc => ?_) fun t' _ _ hpaid => ?_
  · subst hc
    exact counts_entry c' h
  · exact ⟨(h hpaid).le_card, (h hpaid).card_le⟩

end Entry

theorem notedRun_counts (dep : Deployment) (settings : Settings) (t₀ : Token.Storage)
    (moves : List (Move WorldCall Uint256)) :
    CountsIfPaid (notedRun dep settings t₀ moves).cur := by
  refine exec_keeping (fun c _ h => counts_world c h) (fun _ => ⟨Nat.zero_le _, ?_⟩) moves
  simp [investors, Storage.init]

/-- **Over every run in which nothing is sold for nothing, `investorCount` is at most the number of
addresses with something booked, and falls short of it by at most the number of preallocations for
money.** -/
theorem counts_run (dep : Deployment) (settings : Settings) (t₀ : Token.Storage)
    (moves : List (Move WorldCall Uint256))
    (hpaid : ∀ wei tokens, .invested wei tokens ∈ salesOf dep settings t₀ moves → wei ≠ 0) :
    let s := (exec (world dep) ⟨(Storage.init settings, t₀), []⟩ moves).cur.1
    s.investorCount.val ≤ (investors s).card ∧
      (investors s).card ≤ s.investorCount.val + s.preallocated.countP (· ≠ 0) := by
  intro s
  have herase : (notedRun dep settings t₀ moves).cur.1 =
      (exec (world dep) ⟨(Storage.init settings, t₀), []⟩ moves).cur :=
    (exec_noted moves _ _).cur
  have hcounts := notedRun_counts dep settings t₀ moves hpaid
  rw [herase] at hcounts
  exact ⟨hcounts.le_card, hcounts.card_le⟩

/-- The run of an investment and a preallocation counts one of the two investors. -/
theorem counts_run_sample :
    let s := (exec (world sample) ⟨(Storage.init sampleSettings,
      Token.Storage.init.setBalance 5 50), []⟩ sampleMoves).cur.1
    s.investorCount.val ≤ (investors s).card ∧
      (investors s).card ≤ s.investorCount.val + s.preallocated.countP (· ≠ 0) := by
  have hsales : salesOf sample sampleSettings (Token.Storage.init.setBalance 5 50) sampleMoves =
      [.preallocated 3 4 0, .invested 100 10] := by
    decide +kernel
  refine counts_run sample sampleSettings (Token.Storage.init.setBalance 5 50) sampleMoves ?_
  intro wei tokens hmem
  rw [hsales] at hmem
  simp only [List.mem_cons, reduceCtorEq, Sale.invested.injEq, List.not_mem_nil, or_false,
    false_or] at hmem
  rw [hmem.1]
  decide

end ChainX.Ico.Crowdsale
