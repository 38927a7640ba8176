import ChainX.Ico.World
import Mathlib.Algebra.Order.BigOperators.Group.List

/-!
# The totals of the ICO

`investInternal` and `preallocate` add to `weiRaised` and `tokensSold` with `plus`, which is exact
or throws. What `preallocate` adds are products modulo `2 ^ 256` (`Crowdsale.sol:238-239`): the
tokens with a power of ten, and the price with the tokens.

* `salesOf` notes what the calls that went through have sold, as unbounded numbers, with the answer
  that decides it: the price of an investment, or the decimal places of a preallocation. The notes
  of a call that is undone go with it.
* `Sale.Fits` is a condition on the arguments of a preallocation, and on the answer: neither product
  wraps. Of an investment there is nothing to ask, as nothing is multiplied.

Results:
* **`totals_iff`**: the totals are the sums of the sales exactly if every preallocation among them
  fits into words. Totals that are right are sums of what fits (`Totals.fits`), so that a single
  product that has wrapped is enough to make them wrong.
* `preallocation_wraps`: one that sells nothing for nothing.
-/

namespace ChainX.Ico.Crowdsale

open ChainX.Evm ChainX.Reentry

/-! ## What is sold -/

/-- A sale, with what decides its amounts. -/
inductive Sale where
  /-- An investment, at the price the outside has named. -/
  | invested (wei tokens : Uint256)
  /-- A preallocation, with the decimal places of the token. -/
  | preallocated (fullTokens weiPrice decimals : Uint256)
  deriving DecidableEq

/-- The tokens sold. -/
def Sale.tokens : Sale → Nat
  | .invested _ tokens => tokens.val
  | .preallocated fullTokens _ decimals => fullTokens.val * 10 ^ decimals.val

/-- The wei they are sold for. -/
def Sale.wei : Sale → Nat
  | .invested wei _ => wei.val
  | .preallocated fullTokens weiPrice _ => weiPrice.val * fullTokens.val

/-- The amounts of the sale fit into words. -/
structure Sale.Fits (a : Sale) : Prop where
  tokens : a.tokens < 2 ^ 256
  wei : a.wei < 2 ^ 256

/-- The note of the answer that decides what a call sells. -/
def noteSale : WorldCall → Query → Uint256 → List Sale → List Sale
  | .sale (.preallocate _ _ fullTokens weiPrice), .decimals, decimals, sales =>
    .preallocated fullTokens weiPrice decimals :: sales
  | .sale (.preallocate ..), _, _, sales => sales
  | .sale _, .calculatePrice wei _ _ _ _, tokens, sales => .invested wei tokens :: sales
  | _, _, _, sales => sales

/-- The run with its sales noted. -/
def notedRun (dep : Deployment) (settings : Settings) (t₀ : Token.Storage)
    (moves : List (Move WorldCall Uint256)) :
    Config ((Storage × Token.Storage) × List Sale) Query Uint256 Unit :=
  exec (fun c => (world dep c).noted (noteSale c)) ⟨((Storage.init settings, t₀), []), []⟩ moves

/-- The sales of a run, newest first. -/
def salesOf (dep : Deployment) (settings : Settings) (t₀ : Token.Storage)
    (moves : List (Move WorldCall Uint256)) : List Sale :=
  (notedRun dep settings t₀ moves).cur.2

/-- The totals are what the sales add up to. -/
structure Totals (s : Storage) (sales : List Sale) : Prop where
  tokensSold : s.tokensSold.val = (sales.map Sale.tokens).sum
  weiRaised : s.weiRaised.val = (sales.map Sale.wei).sum

/-! ## What a sale adds -/

theorem mul_val_of_lt {a b : Uint256} (h : a.val * b.val < 2 ^ 256) :
    (a * b).val = a.val * b.val := by
  rw [Fin.val_mul]
  exact Nat.mod_eq_of_lt h

/-- Even where the power alone does not fit. -/
theorem mul_pow_val_of_lt {a d : Uint256} (h : a.val * 10 ^ d.val < 2 ^ 256) :
    (a * pow 10 d).val = a.val * 10 ^ d.val := by
  have hten : (10 : Uint256).val = 10 := rfl
  rw [Fin.val_mul, pow, hten, Fin.val_ofNat, Nat.mul_mod_mod]
  exact Nat.mod_eq_of_lt h

theorem Totals.sold {s s' : Storage} {sales : List Sale} {receiver : Address} {wei tokens : Uint256}
    {a : Sale} (h : Totals s sales) (hsold : Sold receiver wei tokens s s')
    (htokens : tokens.val = a.tokens) (hwei : wei.val = a.wei) : Totals s' (a :: sales) := by
  constructor
  · rw [List.map_cons, List.sum_cons, ← h.tokensSold, ← htokens, hsold.tokensSold, Nat.add_comm]
  · rw [List.map_cons, List.sum_cons, ← h.weiRaised, ← hwei, hsold.weiRaised, Nat.add_comm]

/-- Totals that fit are sums of what fits. -/
theorem Totals.fits {s : Storage} {sales : List Sale} (h : Totals s sales) :
    ∀ a ∈ sales, a.Fits := by
  intro a ha
  constructor
  · calc a.tokens ≤ (sales.map Sale.tokens).sum := List.le_sum_of_mem (List.mem_map_of_mem ha)
      _ = s.tokensSold.val := h.tokensSold.symm
      _ < 2 ^ 256 := s.tokensSold.isLt
  · calc a.wei ≤ (sales.map Sale.wei).sum := List.le_sum_of_mem (List.mem_map_of_mem ha)
      _ = s.weiRaised.val := h.weiRaised.symm
      _ < 2 ^ 256 := s.weiRaised.isLt

/-! ## Every call keeps the totals -/

/-- The totals are right as long as everything fits. -/
def TotalsIfFits (st : (Storage × Token.Storage) × List Sale) : Prop :=
  (∀ a ∈ st.2, a.Fits) → Totals st.1.1 st.2

theorem noteSale_of_ne {c : Call} (hc : ∀ sender receiver fullTokens weiPrice,
    c ≠ .preallocate sender receiver fullTokens weiPrice) (q : Query) (a : Uint256)
    (sales : List Sale) :
    noteSale (.sale c) q a sales = match q with
      | .calculatePrice wei _ _ _ _ => .invested wei a :: sales
      | _ => sales := by
  cases c <;> cases q <;> first | rfl | exact absurd rfl (hc _ _ _ _)

section Entry

variable {dep : Deployment} {s : Storage} {t : Token.Storage} {sales : List Sale}

theorem totals_entry (c : Call) (h : TotalsIfFits ((s, t), sales)) :
    wp (Boundary.keeping TotalsIfFits)
      ((Contract.link (onToken dep) (entry dep c)).noted (noteSale (.sale c)))
      (fun _ st' => TotalsIfFits st') ((s, t), sales) := by
  refine wp_entry c ?_ ?_ ?_
  · intro hc sender wei receiver customerId
    refine wp_investInternal (I := TotalsIfFits) (fun _ _ _ h => h)
      (fun _ _ _ _ _ _ h => And.left h)
      (noteSale_of_ne hc .getState) (noteSale_of_ne hc .decimals) ?_ h
    intro s1 t1 l1 weiRaised tokensSold decimals tokens s2 t2 l2 h1 hl2 _ hsold _ _ _
    rw [noteSale_of_ne hc] at hl2
    subst hl2
    refine ⟨fun hfits => ?_, fun a s3 t3 l3 hb3 => ?_⟩
    · exact (h1 fun b hb => hfits b (List.mem_cons_of_mem _ hb)).sold hsold rfl rfl
    · rw [noteSale_of_ne hc]
      intro hfits
      have h3 := hb3.1 hfits
      exact ⟨h3.tokensSold, h3.weiRaised⟩
  · rintro sender receiver fullTokens weiPrice rfl
    refine wp_preallocate (I := TotalsIfFits) (fun _ _ _ h => h)
      (fun _ _ _ _ _ _ h => And.left h) ?_ h
    intro s1 t1 l1 decimals s2 t2 h1 hsold _ hfits
    have hfit : (Sale.preallocated fullTokens weiPrice decimals).Fits :=
      hfits _ List.mem_cons_self
    exact (h1 fun b hb => hfits b (List.mem_cons_of_mem _ hb)).sold hsold
      (mul_pow_val_of_lt hfit.tokens) (mul_val_of_lt hfit.wei)
  · intro settings hfits
    exact ⟨(h hfits).tokensSold, (h hfits).weiRaised⟩

theorem totals_world (c : WorldCall) (h : TotalsIfFits ((s, t), sales)) :
    wp (Boundary.keeping TotalsIfFits) ((world dep c).noted (noteSale c))
      (fun _ st' => TotalsIfFits st') ((s, t), sales) := by
  refine wp_world c (fun c' hc => ?_) fun t' _ _ hfits => ?_
  · subst hc
    exact totals_entry c' h
  · exact ⟨(h hfits).tokensSold, (h hfits).weiRaised⟩

end Entry

theorem notedRun_totals (dep : Deployment) (settings : Settings) (t₀ : Token.Storage)
    (moves : List (Move WorldCall Uint256)) :
    TotalsIfFits (notedRun dep settings t₀ moves).cur :=
  exec_keeping (fun c _ h => totals_world c h) (fun _ => ⟨rfl, rfl⟩) moves

/-- **When nothing has wrapped.** After every run of investments, preallocations and calls of the
token, from any state of the token, the totals are the sums of what was sold exactly if the products
of every preallocation that went through fit; and so does everything sold. -/
theorem totals_iff (dep : Deployment) (settings : Settings) (t₀ : Token.Storage)
    (moves : List (Move WorldCall Uint256)) :
    let cur := (exec (world dep) ⟨(Storage.init settings, t₀), []⟩ moves).cur
    let sales := salesOf dep settings t₀ moves
    let preallocationsFit := ∀ fullTokens weiPrice decimals,
      .preallocated fullTokens weiPrice decimals ∈ sales →
        fullTokens.val * 10 ^ decimals.val < 2 ^ 256 ∧ weiPrice.val * fullTokens.val < 2 ^ 256
    ((cur.1.tokensSold.val = (sales.map Sale.tokens).sum ∧
        cur.1.weiRaised.val = (sales.map Sale.wei).sum) ↔ preallocationsFit) ∧
      ((∀ a ∈ sales, a.tokens < 2 ^ 256 ∧ a.wei < 2 ^ 256) ↔ preallocationsFit) := by
  intro cur sales preallocationsFit
  have hfits : (∀ a ∈ sales, a.Fits) ↔ preallocationsFit := by
    constructor
    · intro h fullTokens weiPrice decimals hmem
      exact ⟨(h _ hmem).tokens, (h _ hmem).wei⟩
    · intro h a ha
      cases a with
      | invested wei tokens => exact ⟨tokens.isLt, wei.isLt⟩
      | preallocated fullTokens weiPrice decimals => exact ⟨(h _ _ _ ha).1, (h _ _ _ ha).2⟩
  have herase : (notedRun dep settings t₀ moves).cur.1 = cur := (exec_noted moves _ _).cur
  refine ⟨⟨fun h => ?_, fun h => ?_⟩, ⟨fun h => ?_, fun h a ha => ?_⟩⟩
  · exact hfits.mp (Totals.fits ⟨h.1, h.2⟩)
  · have htotals := notedRun_totals dep settings t₀ moves (hfits.mpr h)
    rw [herase] at htotals
    exact ⟨htotals.tokensSold, htotals.weiRaised⟩
  · exact hfits.mp fun a ha => ⟨(h a ha).1, (h a ha).2⟩
  · exact ⟨(hfits.mpr h a ha).tokens, (hfits.mpr h a ha).wei⟩

/-- The owner preallocates `2 ^ 255` tokens with 18 decimal places to account `20`, for free. -/
def wrappingMoves : List (Move WorldCall Uint256) :=
  [.enter (.sale (.preallocate 5 20 (Fin.ofNat _ (2 ^ 255)) 0)), .answer (some 18)]

/-- **A preallocation that has wrapped.** It goes through, and nothing has been sold. -/
theorem preallocation_wraps :
    let cfg := exec (world sample) ⟨(Storage.init sampleSettings, Token.Storage.init), []⟩
      wrappingMoves
    let sales := salesOf sample sampleSettings Token.Storage.init wrappingMoves
    cfg.stack.length = 0 ∧ sales = [.preallocated (Fin.ofNat _ (2 ^ 255)) 0 18] ∧
      cfg.cur.1.tokensSold.val = 0 ∧ (sales.map Sale.tokens).sum = 2 ^ 255 * 10 ^ 18 ∧
      cfg.cur.1.tokensSold.val ≠ (sales.map Sale.tokens).sum := by
  decide +kernel

end ChainX.Ico.Crowdsale
