import ChainX.Lib.Total
import ChainX.Token.Basic

/-!
# What the token functions do

One rule per function of `Basic`, for both codes. A transfer that goes through moves its value
(`Moved`), and one on behalf of another also uses up that much of the allowance (`Spent`); both
speak of every account, whether or not the parties coincide. `wp_…` says what has happened when a
function returns, `returns_…` when it does return.

* `Moved` is an equation in `Nat` for every account: what it has afterwards and what it paid is what
  it had and what it got. So it needs no case where payer and payee are one.
* The checked functions are `decrease` and `increase` one after the other, in either order
  (`moved_of_decrease_increase`, `moved_of_increase_decrease`), each of which is exact where it does
  not throw (`wp_decrease`, `wp_increase`). The unchecked ones test first, and their sums are exact
  because of the tests.
* A supply below half of the words rules out that any check wraps around (`room_of_supply`), which
  is when a transfer that is covered goes through.

`Moved.supply`: whatever moves, the sum of the balances stays.
-/

namespace ChainX.Token

open ChainX.Evm ChainX.Lib ChainX.Reentry

/-! ## What the accounts hold -/

/-- The sum of all balances. -/
def supply (s : Storage) : Nat := total fun a => (s.balances a).val

theorem balance_le_supply (s : Storage) (owner : Address) : (s.balances owner).val ≤ supply s :=
  le_total (fun a => (s.balances a).val) owner

theorem supply_init : supply Storage.init = 0 := by
  simp [supply, total, Storage.init]

/-- `value` has gone from `payer` to `payee`. -/
structure Moved (s s' : Storage) (payer payee : Address) (value : Uint256) : Prop where
  balances : ∀ a, (s'.balances a).val + (if a = payer then value.val else 0) =
    (s.balances a).val + (if a = payee then value.val else 0)
  totalSupply : s'.totalSupply = s.totalSupply

/-- `value` of what `owner` allowed `spender` has been used. -/
def Spent (s s' : Storage) (owner spender : Address) (value : Uint256) : Prop :=
  ∀ a b, (s'.allowed a b).val + (if a = owner ∧ b = spender then value.val else 0) =
    (s.allowed a b).val

variable {Q R : Type} {B : Boundary Storage Q R} {s s' : Storage}

theorem Moved.supply {payer payee : Address} {value : Uint256} (h : Moved s s' payer payee value) :
    supply s' = supply s := by
  have hsum : total (fun a => (s'.balances a).val + if a = payer then value.val else 0) =
      total fun a => (s.balances a).val + if a = payee then value.val else 0 :=
    congrArg total (funext h.balances)
  rw [total_add_ite, total_add_ite] at hsum
  exact Nat.add_right_cancel hsum

theorem supply_setBalance (s : Storage) (owner : Address) (x : Uint256) :
    supply (s.setBalance owner x) + (s.balances owner).val = supply s + x.val :=
  total_update_apply Fin.val s.balances owner x

theorem supply_protocolToken (creator : Address) :
    supply (ProtocolToken.init creator) = 10 ^ 26 := by
  have h := supply_setBalance Storage.init creator ⟨10 ^ 26, by decide⟩
  have hzero : (Storage.init.balances creator).val = 0 := rfl
  rw [supply_init, hzero, Nat.zero_add, Nat.add_zero] at h
  exact h

/-! ## The parts -/

theorem wp_increase {owner : Address} {value : Uint256} {post : Unit → Storage → Prop} :
    wp B (increase owner value) post s ↔
      ∀ x : Uint256, x.val = (s.balances owner).val + value.val →
        post () (s.setBalance owner x) := by
  simp only [increase, wp_bind, wp_get, wp_ofOption, wp_modify, safeAdd_eq_some]

theorem wp_decrease {owner : Address} {value : Uint256} {post : Unit → Storage → Prop} :
    wp B (decrease owner value) post s ↔
      ∀ x : Uint256, value.val ≤ (s.balances owner).val ∧
        x.val = (s.balances owner).val - value.val → post () (s.setBalance owner x) := by
  simp only [decrease, wp_bind, wp_get, wp_ofOption, wp_modify, safeSub_eq_some]

theorem returns_increase_iff {owner : Address} {value : Uint256} {post : Unit → Storage → Prop} :
    returns (increase owner value : Contract Storage Q R Unit) post s ↔
      ∃ x : Uint256, x.val = (s.balances owner).val + value.val ∧
        post () (s.setBalance owner x) := by
  simp only [increase, returns_bind, returns_get, returns_ofOption, returns_modify,
    safeAdd_eq_some]

theorem returns_decrease_iff {owner : Address} {value : Uint256} {post : Unit → Storage → Prop} :
    returns (decrease owner value : Contract Storage Q R Unit) post s ↔
      ∃ x : Uint256, (value.val ≤ (s.balances owner).val ∧
        x.val = (s.balances owner).val - value.val) ∧ post () (s.setBalance owner x) := by
  simp only [decrease, returns_bind, returns_get, returns_ofOption, returns_modify,
    safeSub_eq_some]

theorem returns_increase {owner : Address} {value : Uint256} {post : Unit → Storage → Prop}
    (hfits : (s.balances owner).val + value.val < 2 ^ 256)
    (hpost : ∀ x : Uint256, x.val = (s.balances owner).val + value.val →
      post () (s.setBalance owner x)) :
    returns (increase owner value : Contract Storage Q R Unit) post s :=
  returns_increase_iff.mpr ⟨⟨_, hfits⟩, rfl, hpost _ rfl⟩

theorem returns_decrease {owner : Address} {value : Uint256} {post : Unit → Storage → Prop}
    (hle : value.val ≤ (s.balances owner).val)
    (hpost : ∀ x : Uint256, x.val = (s.balances owner).val - value.val →
      post () (s.setBalance owner x)) :
    returns (decrease owner value : Contract Storage Q R Unit) post s := by
  have hx := Fin.sub_val_of_le (show value ≤ s.balances owner from hle)
  exact returns_decrease_iff.mpr ⟨_, ⟨hle, hx⟩, hpost _ hx⟩

/-- Taking what is there is exact. -/
theorem decrease_eq {owner : Address} {value : Uint256} (hle : value ≤ s.balances owner) :
    (decrease owner value : Contract Storage Q R Unit) s =
      .ret () (s.setBalance owner (s.balances owner - value)) := by
  have hsub : safeSub (s.balances owner) value = some (s.balances owner - value) := if_pos hle
  rw [decrease, Contract.bind_ret (Contract.get_apply s), hsub]
  rfl

theorem decrease_of_not_le {owner : Address} {value : Uint256}
    (hno : ¬ value ≤ s.balances owner) :
    (decrease owner value : Contract Storage Q R Unit) s = .throw := by
  have hsub : safeSub (s.balances owner) value = none := if_neg hno
  rw [decrease, Contract.bind_ret (Contract.get_apply s), hsub]
  rfl

/-- Adding what fits is exact. -/
theorem increase_eq {owner : Address} {value : Uint256}
    (hroom : (s.balances owner).val + value.val < 2 ^ 256) :
    (increase owner value : Contract Storage Q R Unit) s =
      .ret () (s.setBalance owner (s.balances owner + value)) := by
  have hadd : safeAdd (s.balances owner) value = some (s.balances owner + value) :=
    safeAdd_eq_some.mpr (add_val hroom)
  rw [increase, Contract.bind_ret (Contract.get_apply s), hadd]
  rfl

/-- Taking from one account and then adding to one, the same or another, moves. -/
theorem moved_of_decrease_increase (s1 : Storage) {payer payee : Address} {value x y : Uint256}
    (hle : value.val ≤ (s.balances payer).val) (hx : x.val = (s.balances payer).val - value.val)
    (h1 : s1.balances = Function.update s.balances payer x)
    (hy : y.val = (s1.balances payee).val + value.val)
    (h2 : s'.balances = Function.update s1.balances payee y)
    (ht : s'.totalSupply = s.totalSupply) : Moved s s' payer payee value := by
  refine ⟨fun a => ?_, ht⟩
  rw [h1] at hy
  rw [h2, h1]
  by_cases hpayee : a = payee
  · subst hpayee
    rw [Function.update_self, hy, if_pos rfl]
    by_cases hpayer : a = payer
    · subst hpayer
      rw [Function.update_self, if_pos rfl]
      omega
    · rw [Function.update_of_ne hpayer, if_neg hpayer]
      omega
  · rw [Function.update_of_ne hpayee, if_neg hpayee]
    by_cases hpayer : a = payer
    · subst hpayer
      rw [Function.update_self, if_pos rfl]
      omega
    · rw [Function.update_of_ne hpayer, if_neg hpayer]

/-- So does adding first and taking then. -/
theorem moved_of_increase_decrease (s1 : Storage) {payer payee : Address} {value x y : Uint256}
    (hy : y.val = (s.balances payee).val + value.val)
    (h1 : s1.balances = Function.update s.balances payee y)
    (hle : value.val ≤ (s1.balances payer).val) (hx : x.val = (s1.balances payer).val - value.val)
    (h2 : s'.balances = Function.update s1.balances payer x)
    (ht : s'.totalSupply = s.totalSupply) : Moved s s' payer payee value := by
  refine ⟨fun a => ?_, ht⟩
  rw [h1] at hle hx
  rw [h2, h1]
  by_cases hpayer : a = payer
  · subst hpayer
    rw [Function.update_self, hx, if_pos rfl]
    by_cases hpayee : a = payee
    · subst hpayee
      rw [Function.update_self, if_pos rfl] at *
      omega
    · rw [Function.update_of_ne hpayee] at *
      rw [if_neg hpayee]
      omega
  · rw [Function.update_of_ne hpayer, if_neg hpayer]
    by_cases hpayee : a = payee
    · subst hpayee
      rw [Function.update_self, if_pos rfl]
      omega
    · rw [Function.update_of_ne hpayee, if_neg hpayee]

theorem spent_setAllowed {owner spender : Address} {value x : Uint256}
    (hle : value.val ≤ (s.allowed owner spender).val)
    (hx : x.val = (s.allowed owner spender).val - value.val)
    (h : s'.allowed = (s.setAllowed owner spender x).allowed) :
    Spent s s' owner spender value := by
  intro a b
  rw [h]
  unfold Storage.setAllowed
  by_cases ha : a = owner
  · subst ha
    by_cases hb : b = spender
    · subst hb
      rw [if_pos ⟨rfl, rfl⟩]
      simp only [Function.update_self]
      omega
    · rw [if_neg fun h => hb h.2]
      simp only [Function.update_self, Function.update_of_ne hb, Nat.add_zero]
  · rw [if_neg fun h => ha h.1]
    simp only [Function.update_of_ne ha, Nat.add_zero]

/-! ## The functions -/

theorem wp_approve {sender spender : Address} {value : Uint256} :
    wp B (approve sender spender value) (fun success s' => success = true ∧
      s'.balances = s.balances ∧ s'.totalSupply = s.totalSupply ∧
      s'.allowed = (s.setAllowed sender spender value).allowed) s := by
  simp only [approve, wp_bind, wp_modify, wp_pure]
  exact ⟨trivial, rfl, rfl, trivial⟩

namespace StandardTokenWithOverflowProtection

theorem wp_transfer {sender payee : Address} {value : Uint256} :
    wp B (transfer sender payee value) (fun success s' => success = true ∧
      Moved s s' sender payee value ∧ s'.allowed = s.allowed) s := by
  simp only [transfer, wp_bind, wp_decrease, wp_increase, wp_modify, wp_pure]
  rintro x ⟨hle, hx⟩ y hy
  exact ⟨trivial, moved_of_decrease_increase (s.setBalance sender x) hle hx rfl hy rfl rfl, rfl⟩

theorem wp_transferFrom {sender payer payee : Address} {value : Uint256} :
    wp B (transferFrom sender payer payee value) (fun success s' => success = true ∧
      Moved s s' payer payee value ∧ Spent s s' payer sender value) s := by
  simp only [transferFrom, wp_bind, wp_decrease, wp_increase, wp_pure, wp_get, wp_ofOption,
    wp_modify, safeSub_eq_some]
  rintro x ⟨hle, hx⟩ z ⟨hle', hz⟩ y hy
  refine ⟨trivial, ?_, spent_setAllowed hle' hz rfl⟩
  exact moved_of_decrease_increase ((s.setBalance payer x).setAllowed payer sender z) hle hx
    rfl hy rfl rfl

/-- A payer has what is taken from it, even where it is the payee itself. -/
theorem wp_transferFrom_le {sender payer payee : Address} {value : Uint256} :
    wp B (transferFrom sender payer payee value)
      (fun _ _ => value.val ≤ (s.balances payer).val) s := by
  simp only [transferFrom, wp_bind, wp_decrease, wp_increase, wp_pure, wp_get, wp_ofOption,
    wp_modify]
  rintro x ⟨hle, -⟩ z - y -
  exact hle

/-- What is left after taking `value` from `payer` leaves room for it anywhere. -/
theorem room_of_supply {payer payee : Address} {value x : Uint256} (hfits : supply s < 2 ^ 256)
    (hle : value.val ≤ (s.balances payer).val) (hx : x.val = (s.balances payer).val - value.val) :
    ((s.setBalance payer x).balances payee).val + value.val < 2 ^ 256 := by
  have h := supply_setBalance s payer x
  have := balance_le_supply (s.setBalance payer x) payee
  omega

theorem returns_transfer {sender payee : Address} {value : Uint256}
    (hfits : supply s < 2 ^ 256) (hle : value.val ≤ (s.balances sender).val) :
    returns (transfer sender payee value : Contract Storage Q R Bool)
      (fun success _ => success = true) s := by
  simp only [transfer, returns_bind, returns_modify, returns_pure]
  refine returns_decrease hle fun x hx => ?_
  exact returns_increase (room_of_supply hfits hle hx) fun _ _ => trivial

theorem returns_transferFrom {sender payer payee : Address} {value : Uint256}
    (hfits : supply s < 2 ^ 256) (hle : value.val ≤ (s.balances payer).val)
    (hallow : value.val ≤ (s.allowed payer sender).val) :
    returns (transferFrom sender payer payee value : Contract Storage Q R Bool)
      (fun success _ => success = true) s := by
  simp only [transferFrom, returns_bind, returns_get, returns_ofOption, returns_modify,
    returns_pure]
  refine returns_decrease hle fun x hx => ?_
  have hz := Fin.sub_val_of_le (show value ≤ s.allowed payer sender from hallow)
  refine ⟨_, safeSub_eq_some.mpr ⟨hallow, hz⟩, ?_⟩
  exact returns_increase (room_of_supply hfits hle hx) fun _ _ => trivial

end StandardTokenWithOverflowProtection

namespace StandardToken

/-- What fits an account fits it after `value` is taken from one. -/
theorem setBalance_room {owner payee : Address} {value : Uint256}
    (hle : value ≤ s.balances owner) (hroom : (s.balances payee).val + value.val < 2 ^ 256) :
    ((s.setBalance owner (s.balances owner - value)).balances payee).val + value.val < 2 ^ 256 := by
  unfold Storage.setBalance
  by_cases he : payee = owner
  · subst he
    have := Fin.sub_val_of_le hle
    simp only [Function.update_self]
    omega
  · simp only [Function.update_of_ne he]
    exact hroom

/-- What an account has it still has after `value` is added to one. -/
theorem le_setBalance {owner payee : Address} {value : Uint256}
    (hle : value ≤ s.balances owner) (hroom : (s.balances payee).val + value.val < 2 ^ 256) :
    value ≤ (s.setBalance payee (s.balances payee + value)).balances owner := by
  unfold Storage.setBalance
  by_cases he : owner = payee
  · subst he
    have := add_val hroom
    simp only [Function.update_self]
    rw [Fin.le_def]
    omega
  · simp only [Function.update_of_ne he]
    exact hle

theorem wp_transfer {sender payee : Address} {value : Uint256} :
    wp B (transfer sender payee value) (fun success s' =>
      (success = true → Moved s s' sender payee value ∧ s'.allowed = s.allowed) ∧
      (success = false → s' = s)) s := by
  simp only [transfer, wp_bind, wp_get, wp_ite, wp_modify, wp_pure, lt_add_iff]
  refine ⟨?_, fun _ => ⟨fun h => absurd h (by simp), fun _ => trivial⟩⟩
  rintro ⟨hle, -, hroom⟩
  refine ⟨fun _ => ⟨?_, rfl⟩, fun h => absurd h (by simp)⟩
  exact moved_of_decrease_increase (s.setBalance sender (s.balances sender - value)) hle
    (Fin.sub_val_of_le hle) rfl (add_val (setBalance_room hle hroom)) rfl rfl

theorem wp_transferFrom {sender payer payee : Address} {value : Uint256} :
    wp B (transferFrom sender payer payee value) (fun success s' =>
      (success = true → Moved s s' payer payee value ∧ Spent s s' payer sender value) ∧
      (success = false → s' = s)) s := by
  simp only [transferFrom, wp_bind, wp_get, wp_ite, wp_modify, wp_pure, lt_add_iff]
  refine ⟨?_, fun _ => ⟨fun h => absurd h (by simp), fun _ => trivial⟩⟩
  rintro ⟨hle, hallow, -, hroom⟩
  refine ⟨fun _ => ⟨?_, ?_⟩, fun h => absurd h (by simp)⟩
  · have hle' := le_setBalance hle hroom
    exact moved_of_increase_decrease (s.setBalance payee (s.balances payee + value))
      (add_val hroom) rfl hle' (Fin.sub_val_of_le hle') rfl rfl
  · exact spent_setAllowed hallow (Fin.sub_val_of_le hallow) rfl

/-- Nothing is not moved. -/
theorem wp_transfer_pos {sender payee : Address} {value : Uint256} :
    wp B (transfer sender payee value) (fun success _ => success = true → 0 < value.val) s := by
  simp only [transfer, wp_bind, wp_get, wp_ite, wp_modify, wp_pure, lt_add_iff]
  exact ⟨fun h _ => h.2.1, fun _ h => absurd h (by simp)⟩

theorem wp_transferFrom_le {sender payer payee : Address} {value : Uint256} :
    wp B (transferFrom sender payer payee value) (fun success _ =>
      success = true → value.val ≤ (s.balances payer).val ∧ 0 < value.val) s := by
  simp only [transferFrom, wp_bind, wp_get, wp_ite, wp_modify, wp_pure, lt_add_iff]
  exact ⟨fun h _ => ⟨h.1, h.2.2.1⟩, fun _ h => absurd h (by simp)⟩

/-- A sum below half of the words rules out that any check wraps around. -/
theorem returns_transfer {sender payee : Address} {value : Uint256} (hfits : supply s < 2 ^ 255)
    (hpos : 0 < value.val) (hle : value.val ≤ (s.balances sender).val) :
    returns (transfer sender payee value : Contract Storage Q R Bool)
      (fun success _ => success = true) s := by
  have h1 := balance_le_supply s payee
  have h2 := balance_le_supply s sender
  simp only [transfer, returns_bind, returns_get, returns_ite, returns_modify, returns_pure,
    lt_add_iff]
  exact ⟨fun _ => trivial, fun h => absurd ⟨hle, hpos, by omega⟩ h⟩

theorem returns_transferFrom {sender payer payee : Address} {value : Uint256}
    (hfits : supply s < 2 ^ 255) (hpos : 0 < value.val) (hle : value.val ≤ (s.balances payer).val)
    (hallow : value.val ≤ (s.allowed payer sender).val) :
    returns (transferFrom sender payer payee value : Contract Storage Q R Bool)
      (fun success _ => success = true) s := by
  have h1 := balance_le_supply s payee
  have h2 := balance_le_supply s payer
  simp only [transferFrom, returns_bind, returns_get, returns_ite, returns_modify, returns_pure,
    lt_add_iff]
  exact ⟨fun _ => trivial, fun h => absurd ⟨hle, hallow, hpos, by omega⟩ h⟩

end StandardToken

end ChainX.Token
