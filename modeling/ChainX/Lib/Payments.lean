import Mathlib.Data.List.Nodup

/-!
# Payments one after the other

A settlement is a list of payments between accounts, carried out in turn. Each account has a balance
and a limit on what may be taken from it; a payment needs both and uses up both (`Applied`). An
account may occur in any number of payments, on either side or on both.

* What an account receives raises its balance for the payments that come later, and never its limit.
* `paid` and `received` are the sums over a list for one account; a payment to oneself counts in
  both.
* `Left bal lim before bal' lim'`: what the payments `before` have made of the accounts, as
  equations over the natural numbers.

Results:
* `AppliedAll.balance_eq`, `AppliedAll.limit_eq`: what a settlement comes to for each account.
* `Affordable`: every payment is covered, counting what those before it took and brought. It speaks
  of the accounts before the settlement only; `Left.covers_iff` and `Left.applied` tie it to
  carrying the payments out, **`AppliedAll.affordable`** is one direction of that.
* `affordable_of_nodup`: where no account pays twice, it is enough to look at each payment alone.
-/

namespace ChainX.Lib

variable {K : Type} [DecidableEq K]

/-- A payment of `value` from `payer` to `payee`. -/
structure Payment (K : Type) where
  payer : K
  payee : K
  value : Nat

/-- What `k` pays in all. -/
def paid (k : K) : List (Payment K) → Nat
  | [] => 0
  | l :: ls => (if k = l.payer then l.value else 0) + paid k ls

/-- What `k` receives in all. -/
def received (k : K) : List (Payment K) → Nat
  | [] => 0
  | l :: ls => (if k = l.payee then l.value else 0) + received k ls

/-- The payer of `l` has the value and may spend it. -/
structure Covers (bal lim : K → Nat) (l : Payment K) : Prop where
  balance : l.value ≤ bal l.payer
  limit : l.value ≤ lim l.payer

/-- The payment `l` was carried out. -/
structure Applied (bal lim bal' lim' : K → Nat) (l : Payment K) : Prop where
  covers : Covers bal lim l
  balance : ∀ k, bal' k + (if k = l.payer then l.value else 0) =
    bal k + if k = l.payee then l.value else 0
  limit : ∀ k, lim' k + (if k = l.payer then l.value else 0) = lim k

/-- The payments were carried out one after the other. -/
inductive AppliedAll : (K → Nat) → (K → Nat) → List (Payment K) → (K → Nat) → (K → Nat) → Prop
  | nil (bal lim : K → Nat) : AppliedAll bal lim [] bal lim
  | cons {bal lim bal₁ lim₁ bal' lim' : K → Nat} {l : Payment K} {ls : List (Payment K)}
      (hone : Applied bal lim bal₁ lim₁ l) (hrest : AppliedAll bal₁ lim₁ ls bal' lim') :
      AppliedAll bal lim (l :: ls) bal' lim'

/-- Each payment is covered in its turn, the payments `before` having been carried out first. -/
def Affordable (bal lim : K → Nat) : List (Payment K) → List (Payment K) → Prop
  | _, [] => True
  | before, l :: ls =>
    (l.value + paid l.payer before ≤ bal l.payer + received l.payer before ∧
      l.value + paid l.payer before ≤ lim l.payer) ∧ Affordable bal lim (l :: before) ls

instance decidableAffordable (bal lim : K → Nat) :
    ∀ before ls : List (Payment K), Decidable (Affordable bal lim before ls)
  | _, [] => inferInstanceAs (Decidable True)
  | before, l :: ls =>
    have := decidableAffordable bal lim (l :: before) ls
    inferInstanceAs (Decidable (_ ∧ _))

variable {bal lim bal₁ lim₁ bal' lim' : K → Nat} {before ls : List (Payment K)} {l : Payment K}

/-! ## What a settlement comes to -/

theorem AppliedAll.append {ls' : List (Payment K)} {bal₂ lim₂ : K → Nat}
    (h : AppliedAll bal lim ls bal₁ lim₁) (h' : AppliedAll bal₁ lim₁ ls' bal₂ lim₂) :
    AppliedAll bal lim (ls ++ ls') bal₂ lim₂ := by
  induction h with
  | nil => exact h'
  | cons hone _ ih => exact .cons hone (ih h')

theorem AppliedAll.one (h : AppliedAll bal lim [l] bal' lim') : Applied bal lim bal' lim' l := by
  cases h with
  | cons hone hrest =>
    cases hrest with
    | nil => exact hone

theorem AppliedAll.balance_eq (h : AppliedAll bal lim ls bal' lim') (k : K) :
    bal' k + paid k ls = bal k + received k ls := by
  induction h with
  | nil => rfl
  | cons hone _ ih =>
    have := hone.balance k
    simp only [paid, received]
    omega

theorem AppliedAll.limit_eq (h : AppliedAll bal lim ls bal' lim') (k : K) :
    lim' k + paid k ls = lim k := by
  induction h with
  | nil => rfl
  | cons hone _ ih =>
    have := hone.limit k
    simp only [paid]
    omega

/-! ## When it can be carried out -/

/-- `bal'` and `lim'` are what the payments `before` have left of `bal` and `lim`. -/
structure Left (bal lim : K → Nat) (before : List (Payment K)) (bal' lim' : K → Nat) : Prop where
  balance : ∀ k, bal' k + paid k before = bal k + received k before
  limit : ∀ k, lim' k + paid k before = lim k

theorem left_nil (bal lim : K → Nat) : Left bal lim [] bal lim := ⟨fun _ => rfl, fun _ => rfl⟩

/-- The test that `Affordable` makes of a payment. -/
theorem Left.covers_iff (h : Left bal lim before bal₁ lim₁) :
    Covers bal₁ lim₁ l ↔
      l.value + paid l.payer before ≤ bal l.payer + received l.payer before ∧
        l.value + paid l.payer before ≤ lim l.payer := by
  have hbalance := h.balance l.payer
  have hlimit := h.limit l.payer
  constructor
  · rintro ⟨h1, h2⟩
    constructor <;> omega
  · rintro ⟨h1, h2⟩
    constructor <;> omega

theorem Left.applied (h : Left bal lim before bal₁ lim₁) (hone : Applied bal₁ lim₁ bal' lim' l) :
    Left bal lim (l :: before) bal' lim' := by
  constructor
  · intro k
    have := h.balance k
    have := hone.balance k
    simp only [paid, received]
    omega
  · intro k
    have := h.limit k
    have := hone.limit k
    simp only [paid]
    omega

/-- **Payments that were carried out were affordable.** -/
theorem AppliedAll.affordable (h : AppliedAll bal₁ lim₁ ls bal' lim')
    (hleft : Left bal lim before bal₁ lim₁) : Affordable bal lim before ls := by
  induction h generalizing before with
  | nil => trivial
  | cons hone _ ih => exact ⟨hleft.covers_iff.mp hone.covers, ih (hleft.applied hone)⟩

theorem paid_append (k : K) (ls ls' : List (Payment K)) :
    paid k (ls ++ ls') = paid k ls + paid k ls' := by
  induction ls with
  | nil => exact (Nat.zero_add _).symm
  | cons l ls ih => rw [List.cons_append, paid, paid, ih, Nat.add_assoc]

theorem received_append (k : K) (ls ls' : List (Payment K)) :
    received k (ls ++ ls') = received k ls + received k ls' := by
  induction ls with
  | nil => exact (Nat.zero_add _).symm
  | cons l ls ih => rw [List.cons_append, received, received, ih, Nat.add_assoc]

/-- What was carried out before may be taken off the accounts instead. -/
theorem Left.affordable_iff (h : Left bal lim before bal₁ lim₁) {before' : List (Payment K)} :
    Affordable bal₁ lim₁ before' ls ↔ Affordable bal lim (before' ++ before) ls := by
  induction ls generalizing before' with
  | nil => exact Iff.rfl
  | cons l ls ih =>
    have hbalance := h.balance l.payer
    have hlimit := h.limit l.payer
    unfold Affordable
    rw [ih, List.cons_append, paid_append, received_append]
    refine and_congr (and_congr ?_ ?_) Iff.rfl <;> omega

/-- What was affordable after payments that are carried out still is. -/
theorem AppliedAll.affordable_rest {ls' : List (Payment K)}
    (h : AppliedAll bal lim ls bal' lim') (hcan : Affordable bal lim [] (ls ++ ls')) :
    Affordable bal' lim' [] ls' := by
  induction h with
  | nil => exact hcan
  | cons hone _ ih => exact ih (((left_nil _ _).applied hone).affordable_iff.mpr hcan.2)

theorem paid_eq_zero {k : K} (hno : ∀ l ∈ ls, l.payer ≠ k) : paid k ls = 0 := by
  induction ls with
  | nil => rfl
  | cons l ls ih =>
    rw [paid, if_neg (Ne.symm (hno l List.mem_cons_self)), Nat.zero_add]
    exact ih fun l' hl' => hno l' (List.mem_cons_of_mem l hl')

/-- Where no account pays twice, payments that are covered each by itself are affordable. -/
theorem affordable_of_nodup (hcovers : ∀ l ∈ ls, Covers bal lim l)
    (hnodup : (ls.map Payment.payer).Nodup)
    (hapart : ∀ l ∈ ls, ∀ l' ∈ before, l'.payer ≠ l.payer) : Affordable bal lim before ls := by
  induction ls generalizing before with
  | nil => trivial
  | cons l ls ih =>
    rw [List.map_cons, List.nodup_cons] at hnodup
    have hnone : paid l.payer before = 0 := paid_eq_zero (hapart l List.mem_cons_self)
    obtain ⟨hbalance, hlimit⟩ := hcovers l List.mem_cons_self
    refine ⟨⟨by omega, by omega⟩, ih (fun l' hl' => hcovers l' (List.mem_cons_of_mem l hl'))
      hnodup.2 fun l' hl' => ?_⟩
    intro l'' hl''
    rcases List.mem_cons.mp hl'' with rfl | hmem
    · exact fun he => hnodup.1 (he ▸ List.mem_map_of_mem hl')
    · exact hapart l' (List.mem_cons_of_mem l hl') l'' hmem

end ChainX.Lib
