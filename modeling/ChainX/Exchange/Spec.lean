import ChainX.Exchange.Basic

/-!
# What the exchange's functions do

One rule per function, each computed once from the code of `Basic.lean`; the results about
runs cite them and never unfold the code again.

* `wp_fill`: where `fill` can leave, and what it has checked when it reaches `settle` (`Passes`),
  with an amount that fits the order's remaining value at the time that value was read (`Fits`). The
  transfer check in between makes external calls; `P` is what the caller of the rule knows of the
  storage while they last.
* `wp_settle`, `wp_settle_still`: the update and the transfers, for an outside that keeps `P`, and
  exactly, for an outside that leaves the storage alone.
* `wp_fill_still`, `wp_fillOrKill_still`: the two ways in which these return there.
* `wp_cancel`: the same for `cancel`, which makes no external call.
* `wp_entry`: what `fill` and `cancel` keep, every entry point keeps, loops included.
-/

namespace ChainX.Exchange

open ChainX.Evm ChainX.Reentry

variable {dep : Deployment} {B : Boundary Storage Query Uint256} {s : Storage}

/-- The query belongs to the transfer check of an order with hash `h`. -/
def Query.IsCheck (h : Bytes32) : Query → Prop
  | .transferFrom .. => False
  | .balanceOf h' .. => h' = h
  | .allowance h' .. => h' = h

/-- The query is a transfer out of the maker's or the taker's account, as `settle` makes them. -/
def Query.Settles (maker taker : Address) : Query → Prop
  | .transferFrom _ _ payer _ _ => payer = maker ∨ payer = taker
  | .balanceOf .. => False
  | .allowance .. => False

/-- An amount `f` is positive, at most `n`, and fits the value of `o` that is neither filled nor
cancelled in `s`. -/
structure Fits (dep : Deployment) (o : OrderData) (s : Storage) (n f : Uint256) : Prop where
  pos : 0 < f.val
  le : f.val ≤ n.val
  room : (s.filled (getOrderHash dep o)).val + (s.cancelled (getOrderHash dep o)).val + f.val ≤
    o.2.valueT.val

/-- `fill` of `n` passes its checks at `s`, with the amount `f`: all of `n`, or what remains. -/
structure Passes (dep : Deployment) (msg : Msg) (o : OrderData) (n : Uint256) (sig : Signature)
    (s : Storage) (f : Uint256) : Prop where
  taker : o.1.taker = 0 ∨ o.1.taker = msg.sender
  unexpired : msg.timestamp < o.2.expiration
  fits : Fits dep o s n f
  greedy : f = n ∨
    (s.filled (getOrderHash dep o)).val + (s.cancelled (getOrderHash dep o)).val + f.val =
      o.2.valueT.val
  rounding : isRoundingError o.2.valueT f o.2.valueM = false
  signed : isValidSignature dep.crypto o.1.maker (getOrderHash dep o) sig = true

/-- The event of a fill that has gone through. -/
def fillEvent (dep : Deployment) (msg : Msg) (order : Order) (m f feeM feeT : Uint256) : Event :=
  .logFill order.maker msg.sender order.feeRecipient order.tokenM order.tokenT m f feeM feeT
    (dep.crypto.sha3 (packAddress order.tokenM ++ packAddress order.tokenT)) order.orderHash

@[simp] theorem wp_nth {α : Type} {xs : List α} {i : Nat} {post : α → Storage → Prop} :
    wp B (nth xs i) post s ↔ ∀ a, xs[i]? = some a → post a s := wp_ofOption

theorem getPartialValue_eq_some {value fillValue target c : Uint256} :
    getPartialValue value fillValue target = some c ↔
      fillValue.val * target.val < 2 ^ 256 ∧ value.val ≠ 0 ∧
        c.val = fillValue.val * target.val / value.val := by
  unfold getPartialValue
  rw [Option.bind_eq_some_iff]
  constructor
  · rintro ⟨p, hp, hc⟩
    rw [safeMul_eq_some] at hp
    rw [safeDiv_eq_some, hp] at hc
    exact ⟨hp ▸ p.isLt, hc⟩
  · rintro ⟨hlt, hc⟩
    exact ⟨⟨_, hlt⟩, safeMul_eq_some.mpr rfl, safeDiv_eq_some.mpr hc⟩

theorem minUint_val (a b : Uint256) : (minUint a b).val = min a.val b.val := val_ite_lt a b

theorem minUint_eq_left {a b : Uint256} (h : a.val ≤ b.val) : minUint a b = a :=
  Fin.ext ((minUint_val a b).trans (Nat.min_eq_left h))

/-- What `fill` and `cancel` take of the remaining value `r` fits. -/
theorem fits_minUint {o : OrderData} {n r : Uint256}
    (hr : (s.filled (getOrderHash dep o)).val + (s.cancelled (getOrderHash dep o)).val + r.val =
      o.2.valueT.val) (hne : minUint n r ≠ 0) : Fits dep o s n (minUint n r) := by
  have hpos : (minUint n r).val ≠ 0 := fun e => hne (Fin.ext e)
  have hval := minUint_val n r
  exact ⟨Nat.pos_of_ne_zero hpos, by omega, by omega⟩

theorem wp_remainingValueT {order : Order} {post : Uint256 → Storage → Prop} :
    wp B (remainingValueT order) post s ↔ ∀ r : Uint256,
      (s.filled order.orderHash).val + (s.cancelled order.orderHash).val + r.val =
        order.valueT.val → post r s := by
  simp only [remainingValueT, getUnavailableValueT, wp_bind, wp_get, wp_ofOption,
    safeAdd_eq_some, safeSub_eq_some]
  constructor
  · intro h r hr
    have hlt : (s.filled order.orderHash).val + (s.cancelled order.orderHash).val < 2 ^ 256 := by
      omega
    exact h ⟨_, hlt⟩ rfl r ⟨by simp only; omega, by simp only; omega⟩
  · intro h u hu r hr
    exact h r (by omega)

/-! ## The transfer check -/

/-- A chain of checks ends in a storage the outside keeps in `P`. -/
theorem wp_anyBelow {P : Storage → Prop} {post : Bool → Storage → Prop}
    (hpost : ∀ b s', P s' → post b s') :
    ∀ (checks : List (M Uint256 × Uint256)),
      (∀ c ∈ checks, ∀ s', P s' → wp B c.1 (fun _ s'' => P s'') s') →
      ∀ s, P s → wp B (anyBelow checks) post s
  | [], _, s, hs => hpost false s hs
  | c :: rest, hc, s, hs => by
    simp only [anyBelow, wp_bind, wp_ite, wp_pure]
    refine wp_mono (hc c List.mem_cons_self s hs) fun a s' hs' => ⟨fun _ => hpost true s' hs', ?_⟩
    exact fun _ => wp_anyBelow hpost rest (fun d hd => hc d (List.mem_cons_of_mem c hd)) s' hs'

section Check

variable {h : Bytes32} {P : Storage → Prop}

theorem wp_getBalance (hout : ∀ q s', q.IsCheck h → P s' → B.out q s')
    (hback : ∀ q s' a s'', q.IsCheck h → P s' → B.back q s' (some a) s'' → P s'')
    (token owner : Address) (hs : P s) :
    wp B (getBalance h token owner) (fun _ s' => P s') s := by
  simp only [getBalance, wp_extCall]
  exact ⟨hout _ s rfl hs, fun a s' hb => hback (.balanceOf h token owner) s a s' rfl hs hb⟩

theorem wp_getAllowance (hout : ∀ q s', q.IsCheck h → P s' → B.out q s')
    (hback : ∀ q s' a s'', q.IsCheck h → P s' → B.back q s' (some a) s'' → P s'')
    (token owner : Address) (hs : P s) :
    wp B (getAllowance dep h token owner) (fun _ s' => P s') s := by
  simp only [getAllowance, wp_extCall]
  exact ⟨hout _ s rfl hs,
    fun a s' hb => hback (.allowance h token owner dep.PROXY) s a s' rfl hs hb⟩

/-- The transfer check changes nothing itself. -/
theorem wp_isTransferable {msg : Msg} {order : Order} {f : Uint256}
    {post : Bool → Storage → Prop} (hh : order.orderHash = h)
    (hout : ∀ q s', q.IsCheck h → P s' → B.out q s')
    (hback : ∀ q s' a s'', q.IsCheck h → P s' → B.back q s' (some a) s'' → P s'')
    (hpost : ∀ b s', P s' → post b s') (hs : P s) :
    wp B (isTransferable dep msg order f) post s := by
  have hread : ∀ a b c d (w x y z : Uint256), ∀ e ∈ [(getBalance h a b, w),
      (getAllowance dep h a b, x), (getBalance h c d, y), (getAllowance dep h c d, z)],
      ∀ s', P s' → wp B e.1 (fun _ s'' => P s'') s' := by
    intro a b c d w x y z e he s' hs'
    simp only [List.mem_cons, List.not_mem_nil, or_false] at he
    rcases he with rfl | rfl | rfl | rfl
    · exact wp_getBalance hout hback a b hs'
    · exact wp_getAllowance hout hback a b hs'
    · exact wp_getBalance hout hback c d hs'
    · exact wp_getAllowance hout hback c d hs'
  simp only [isTransferable, hh, wp_bind, wp_ofOption]
  intro m _
  refine wp_anyBelow (fun b s' hs' => ?_) _ (hread _ _ _ _ _ _ _ _) s hs
  simp only [wp_ite, wp_bind, wp_ofOption, wp_pure]
  refine ⟨fun _ => hpost _ s' hs', fun _ => ⟨fun _ => ?_, fun _ => hpost _ s' hs'⟩⟩
  intro fM _ fT _
  exact wp_anyBelow (fun b s'' hs'' => hpost _ s'' hs'') _ (hread _ _ _ _ _ _ _ _) s' hs'

/-- **The rule for `fill`.** -/
theorem wp_fill {msg : Msg} {o : OrderData} {n : Uint256} {check : Bool} {sig : Signature}
    {post : Uint256 → Storage → Prop} (hh : getOrderHash dep o = h)
    (hout : ∀ q s', q.IsCheck h → P s' → B.out q s')
    (hback : ∀ q s' a s'', q.IsCheck h → P s' → B.back q s' (some a) s'' → P s'') (hs : P s)
    (hskip : ∀ code s', P s' → post 0 { s' with log := .logError code h :: s'.log })
    (hgo : ∀ f s', P s' → Passes dep msg o n sig s f →
      wp B (settle dep msg (dep.order o) f) post s') :
    wp B (fill dep msg o n check sig) post s := by
  have hoh : (dep.order o).orderHash = h := hh
  simp only [fill, wp_bind, wp_ite, wp_require, wp_modify, wp_pure, hoh]
  refine fun htaker => ⟨fun _ => hskip _ s hs, fun hunexpired => ?_⟩
  rw [wp_remainingValueT, hoh]
  intro r hr
  refine ⟨fun _ => hskip _ s hs, fun hpos => ⟨fun _ => hskip _ s hs, fun hround => ?_⟩⟩
  have hfits : Fits dep o s n (minUint n r) := fits_minUint (by rw [hh]; exact hr) hpos
  have hgreedy : minUint n r = n ∨ (s.filled (getOrderHash dep o)).val +
      (s.cancelled (getOrderHash dep o)).val + (minUint n r).val = o.2.valueT.val := by
    rcases Nat.le_total n.val r.val with hle | hle
    · exact Or.inl (minUint_eq_left hle)
    · rw [minUint_val, Nat.min_eq_right hle, hh]
      exact Or.inr hr
  have hlast : ∀ b s', P s' →
      (b = false → post 0 { s' with log := .logError ERROR_FILL_BALANCE_ALLOWANCE h :: s'.log }) ∧
        (¬ b = false → isValidSignature dep.crypto (dep.order o).maker h sig = true →
          wp B (settle dep msg (dep.order o) (minUint n r)) post s') := by
    refine fun b s' hs' => ⟨fun _ => hskip _ s' hs', fun _ hsig => hgo _ s' hs' ?_⟩
    exact ⟨htaker, not_le.mp hunexpired, hfits, hgreedy, Bool.not_eq_true _ ▸ hround, hh ▸ hsig⟩
  exact ⟨fun _ => wp_isTransferable hoh hout hback hlast hs, fun _ => hlast true s hs⟩

end Check

/-! ## The update and the transfers -/

/-- A transfer, for an outside that keeps `P`. -/
theorem wp_transferViaProxy {P : Storage → Prop} {h : Bytes32} {leg : Leg}
    {token payer payee : Address} {value : Uint256}
    (hout : ∀ s', P s' → B.out (.transferFrom h token payer payee value) s')
    (hback : ∀ q s' a s'', P s' → B.back q s' (some a) s'' → P s'')
    (hmove : ∀ m s', P s' → P { s' with moves := m :: s'.moves }) (hs : P s) :
    wp B (transferViaProxy h leg token payer payee value) (fun _ s' => P s') s := by
  simp only [transferViaProxy, wp_bind, wp_extCall, wp_ite, wp_modify, wp_pure]
  exact ⟨hout s hs, fun a s' hb =>
    ⟨fun _ => hmove _ s' (hback _ s a s' hs hb), fun _ => hback _ s a s' hs hb⟩⟩

theorem wp_payFee {P : Storage → Prop} {order : Order} {leg : Leg} {payer taker : Address}
    {fee f : Uint256} (hpayer : payer = order.maker ∨ payer = taker)
    (hout : ∀ q s', q.Settles order.maker taker → P s' → B.out q s')
    (hback : ∀ q s' a s'', P s' → B.back q s' (some a) s'' → P s'')
    (hmove : ∀ m s', P s' → P { s' with moves := m :: s'.moves }) (hs : P s) :
    wp B (payFee dep order leg payer fee f) (fun _ s' => P s') s := by
  simp only [payFee, wp_bind, wp_ite, wp_ofOption, wp_require, wp_pure]
  refine ⟨fun _ paid _ => ?_, fun _ => hs⟩
  exact wp_mono (wp_transferViaProxy (fun s' h => hout _ s' hpayer h) hback hmove hs)
    fun _ s' hs' _ => hs'

/-- **The rule for `settle`**, for an outside that keeps `P`. -/
theorem wp_settle {P : Storage → Prop} {msg : Msg} {order : Order} {f : Uint256}
    {post : Uint256 → Storage → Prop}
    (hout : ∀ q s', q.Settles order.maker msg.sender → P s' → B.out q s')
    (hback : ∀ q s' a s'', P s' → B.back q s' (some a) s'' → P s'')
    (hmove : ∀ m s', P s' → P { s' with moves := m :: s'.moves })
    (hpost : ∀ e s', P s' → post f { s' with log := e :: s'.log })
    (hupdate : ∀ x : Uint256, x.val = (s.filled order.orderHash).val + f.val →
      P { s with filled := Function.update s.filled order.orderHash x }) :
    wp B (settle dep msg order f) post s := by
  have hmaker : order.maker = order.maker ∨ order.maker = msg.sender := .inl rfl
  have htaker : msg.sender = order.maker ∨ msg.sender = msg.sender := .inr rfl
  simp only [settle, wp_bind, wp_ofOption, wp_get, wp_modify, wp_require, wp_pure, safeAdd_eq_some]
  intro m _ x hx
  refine wp_mono (wp_transferViaProxy (fun s' h => hout _ s' hmaker h) hback hmove
    (hupdate x hx)) fun _ s1 h1 _ => ?_
  refine wp_mono (wp_transferViaProxy (fun s' h => hout _ s' htaker h) hback hmove h1)
    fun _ s2 h2 _ => ?_
  refine wp_mono (wp_payFee hmaker hout hback hmove h2) fun _ s3 h3 => ?_
  exact wp_mono (wp_payFee htaker hout hback hmove h3) fun _ s4 h4 => hpost _ s4 h4

/-! ### Within `still` -/

theorem wp_transferViaProxy_still {h : Bytes32} {leg : Leg} {token payer payee : Address}
    {value : Uint256} {post : Bool → Storage → Prop}
    (htrue : post true { s with moves := ⟨h, leg, token, payer, payee, value⟩ :: s.moves })
    (hfalse : post false s) :
    wp Boundary.still (transferViaProxy h leg token payer payee value) post s := by
  simp only [transferViaProxy, wp_bind, wp_extCall, wp_ite, wp_modify, wp_pure]
  refine ⟨trivial, fun a s' hs' => ?_⟩
  cases hs'
  exact ⟨fun _ => htrue, fun _ => hfalse⟩

/-- The moves `ms` and the amount `paid` of a fee block. -/
inductive FeeMoves (dep : Deployment) (order : Order) (leg : Leg) (payer : Address)
    (fee f : Uint256) : List Move → Uint256 → Prop
  | none (h : order.feeRecipient = 0 ∨ fee = 0) : FeeMoves dep order leg payer fee f [] 0
  | one (paid : Uint256) (h : order.feeRecipient ≠ 0)
      (hp : paid.val = f.val * fee.val / order.valueT.val) :
      FeeMoves dep order leg payer fee f
        [⟨order.orderHash, leg, dep.ZRX, payer, order.feeRecipient, paid⟩] paid

theorem wp_payFee_still {order : Order} {leg : Leg} {payer : Address} {fee f : Uint256}
    {post : Uint256 → Storage → Prop}
    (hpost : ∀ ms paid, FeeMoves dep order leg payer fee f ms paid →
      post paid { s with moves := ms ++ s.moves }) :
    wp Boundary.still (payFee dep order leg payer fee f) post s := by
  simp only [payFee, wp_bind, wp_ite, wp_ofOption, wp_require, wp_pure]
  refine ⟨fun h paid hp => ?_, fun h => hpost [] 0 (.none ?_)⟩
  · refine wp_transferViaProxy_still (fun _ => ?_) (fun h => absurd h (by simp))
    exact hpost _ paid (.one paid h.1 (getPartialValue_eq_some.mp hp).2.2)
  · rw [not_and_or, not_not] at h
    refine h.imp_right fun h => Fin.ext ?_
    simpa using h

/-- **The rule for `settle`**, for an outside that leaves the storage alone. -/
theorem wp_settle_still {msg : Msg} {order : Order} {f : Uint256}
    {post : Uint256 → Storage → Prop}
    (hpost : ∀ (filled m feeM feeT : Uint256) (msM msT : List Move),
      filled.val = (s.filled order.orderHash).val + f.val →
      m.val = f.val * order.valueM.val / order.valueT.val →
      FeeMoves dep order .feeM order.maker order.feeM f msM feeM →
      FeeMoves dep order .feeT msg.sender order.feeT f msT feeT →
      post f { s with
        filled := Function.update s.filled order.orderHash filled
        moves := msT ++ (msM ++
          (⟨order.orderHash, .tokenT, order.tokenT, msg.sender, order.maker, f⟩ ::
            ⟨order.orderHash, .tokenM, order.tokenM, order.maker, msg.sender, m⟩ :: s.moves))
        log := fillEvent dep msg order m f feeM feeT :: s.log }) :
    wp Boundary.still (settle dep msg order f) post s := by
  simp only [settle, wp_bind, wp_ofOption, wp_get, wp_modify, wp_require, wp_pure, safeAdd_eq_some]
  intro m hm filled hfilled
  refine wp_transferViaProxy_still (fun _ => ?_) (fun h => absurd h (by simp))
  refine wp_transferViaProxy_still (fun _ => ?_) (fun h => absurd h (by simp))
  refine wp_payFee_still fun msM feeM hM => ?_
  refine wp_payFee_still fun msT feeT hT => ?_
  exact hpost filled m feeM feeT msM msT hfilled (getPartialValue_eq_some.mp hm).2.2 hM hT

/-- What a fill of `f` that has gone through has made of the storage `s`. -/
inductive Settled (dep : Deployment) (msg : Msg) (o : OrderData) (f : Uint256) (s : Storage) :
    Storage → Prop
  | intro (filled m feeM feeT : Uint256) (msM msT : List Move)
      (hfilled : filled.val = (s.filled (getOrderHash dep o)).val + f.val)
      (hm : m.val = f.val * o.2.valueM.val / o.2.valueT.val)
      (hM : FeeMoves dep (dep.order o) .feeM o.1.maker o.2.feeM f msM feeM)
      (hT : FeeMoves dep (dep.order o) .feeT msg.sender o.2.feeT f msT feeT) :
      Settled dep msg o f s { s with
        filled := Function.update s.filled (getOrderHash dep o) filled
        moves := msT ++ (msM ++
          (⟨getOrderHash dep o, .tokenT, o.1.tokenT, msg.sender, o.1.maker, f⟩ ::
            ⟨getOrderHash dep o, .tokenM, o.1.tokenM, o.1.maker, msg.sender, m⟩ :: s.moves))
        log := fillEvent dep msg (dep.order o) m f feeM feeT :: s.log }

theorem Settled.filled_val {msg : Msg} {o : OrderData} {f : Uint256} {s' : Storage}
    (h : Settled dep msg o f s s') (k : Bytes32) :
    (s'.filled k).val = (s.filled k).val + if k = getOrderHash dep o then f.val else 0 := by
  cases h with
  | intro filled m feeM feeT msM msT hfilled hm hM hT =>
    by_cases hk : k = getOrderHash dep o
    · subst hk
      simp only [Function.update_self, if_true, hfilled]
    · simp only [Function.update_of_ne hk, if_neg hk, Nat.add_zero]

theorem Settled.cancelled_eq {msg : Msg} {o : OrderData} {f : Uint256} {s' : Storage}
    (h : Settled dep msg o f s s') : s'.cancelled = s.cancelled := by
  cases h with
  | intro => rfl

/-- **The rule for `fill`**, for an outside that leaves the storage alone. -/
theorem wp_fill_still {msg : Msg} {o : OrderData} {n : Uint256} {check : Bool} {sig : Signature}
    {post : Uint256 → Storage → Prop}
    (hskip : ∀ code, post 0 { s with log := .logError code (getOrderHash dep o) :: s.log })
    (hgo : ∀ f s', Passes dep msg o n sig s f → Settled dep msg o f s s' → post f s') :
    wp Boundary.still (fill dep msg o n check sig) post s := by
  refine wp_fill (P := fun s' => s' = s) rfl (fun _ _ _ _ => trivial)
    (fun _ _ _ _ _ h hb => Eq.trans hb h) rfl (fun code s' hs' => ?_) fun f s' hs' hpasses => ?_
  · subst hs'
    exact hskip code
  · subst hs'
    exact wp_settle_still fun filled m feeM feeT msM msT hfilled hm hM hT =>
      hgo f _ hpasses (.intro filled m feeM feeT msM msT hfilled hm hM hT)

/-- **The rule for `fillOrKill`**, for an outside that leaves the storage alone: nothing was asked
for, or exactly what was asked for is filled. -/
theorem wp_fillOrKill_still {msg : Msg} {o : OrderData} {n : Uint256} {sig : Signature}
    {post : Bool → Storage → Prop}
    (hnone : n.val = 0 → ∀ code,
      post true { s with log := .logError code (getOrderHash dep o) :: s.log })
    (hall : ∀ s', Passes dep msg o n sig s n → Settled dep msg o n s s' → post true s') :
    wp Boundary.still (fillOrKill dep msg o n sig) post s := by
  simp only [fillOrKill, wp_bind, wp_require, wp_pure]
  refine wp_fill_still (fun code h => ?_) fun f s' hpasses hsettled h => ?_
  · exact hnone (by rw [← h]; rfl) code
  · subst h
    exact hall s' hpasses hsettled

/-! ## Cancelling -/

/-- **The rule for `cancel`.** -/
theorem wp_cancel {msg : Msg} {o : OrderData} {n : Uint256} {post : Uint256 → Storage → Prop}
    (hskip : ∀ e, post 0 { s with log := e :: s.log })
    (hgo : ∀ f x e, Fits dep o s n f →
      x.val = (s.cancelled (getOrderHash dep o)).val + f.val → msg.sender = o.1.maker →
      post f { s with
        cancelled := Function.update s.cancelled (getOrderHash dep o) x
        log := e :: s.log }) :
    wp B (cancel dep msg o n) post s := by
  simp only [cancel, wp_bind, wp_ite, wp_require, wp_pure, wp_remainingValueT, wp_get, wp_ofOption,
    wp_modify, safeAdd_eq_some]
  intro hmaker
  refine ⟨fun _ => hskip _, fun _ r hr => ⟨fun _ => hskip _, fun hpos x hx cM _ => ?_⟩⟩
  exact hgo _ x _ (fits_minUint hr hpos) hx hmaker.symm

/-! ## Entry points -/

/-- The batch holds the order `o` with the signature `sig` at some index. -/
def Batch.Has (b : Batch) (o : OrderData) (sig : Signature) : Prop :=
  ∃ i : Nat, b.orderAddresses[i]? = some o.1 ∧ b.orderValues[i]? = some o.2 ∧
    b.v[i]? = some sig.v ∧ b.r[i]? = some sig.r ∧ b.s[i]? = some sig.s

/-- The call tries to fill `o` with the signature `sig`. -/
def Call.Fills : Call → OrderData → Signature → Prop
  | .fill _ o _ _ sig, o', sig' => o' = o ∧ sig' = sig
  | .fillOrKill _ o _ sig, o', sig' => o' = o ∧ sig' = sig
  | .batchFill _ b _ _, o', sig' => b.Has o' sig'
  | .batchFillOrKill _ b _, o', sig' => b.Has o' sig'
  | .fillUpTo _ b _ _, o', sig' => b.Has o' sig'
  | .cancel .., _, _ => False
  | .batchCancel .., _, _ => False

/-- The call tries to cancel `o`. -/
def Call.Cancels : Call → OrderData → Prop
  | .cancel _ o _, o' => o' = o
  | .batchCancel _ as vs _, o' => ∃ i : Nat, as[i]? = some o'.1 ∧ vs[i]? = some o'.2
  | _, _ => False

/-- Who calls, and when. -/
def Call.msg : Call → Msg
  | .fill msg .. => msg
  | .fillOrKill msg .. => msg
  | .batchFill msg .. => msg
  | .batchFillOrKill msg .. => msg
  | .fillUpTo msg .. => msg
  | .cancel msg .. => msg
  | .batchCancel msg .. => msg

/-- The call names the order `o`. -/
def Call.Names (c : Call) (o : OrderData) : Prop := (∃ sig, c.Fills o sig) ∨ c.Cancels o

theorem wp_orderAt {b : Batch} {i : Nat} {post : OrderData → Storage → Prop} :
    wp B (b.orderAt i) post s ↔ ∀ o : OrderData, b.orderAddresses[i]? = some o.1 →
      b.orderValues[i]? = some o.2 → post o s := by
  simp only [Batch.orderAt, wp_bind, wp_nth, wp_pure]
  exact ⟨fun h o h1 h2 => h o.1 h1 o.2 h2, fun h a h1 v h2 => h (a, v) h1 h2⟩

theorem wp_sigAt {b : Batch} {i : Nat} {post : Signature → Storage → Prop} :
    wp B (b.sigAt i) post s ↔ ∀ sig : Signature, b.v[i]? = some sig.v → b.r[i]? = some sig.r →
      b.s[i]? = some sig.s → post sig s := by
  simp only [Batch.sigAt, wp_bind, wp_nth, wp_pure]
  exact ⟨fun h sig h1 h2 h3 => h sig.v h1 sig.r h2 sig.s h3,
    fun h v h1 r h2 t h3 => h ⟨v, r, t⟩ h1 h2 h3⟩

section Entry

variable {I : Storage → Prop} {msg : Msg} {b : Batch}

theorem wp_fillOrKill {o : OrderData} {sig : Signature}
    (hfill : ∀ n check, wp B (fill dep msg o n check sig) (fun _ s' => I s') s) (n : Uint256) :
    wp B (fillOrKill dep msg o n sig) (fun _ s' => I s') s := by
  simp only [fillOrKill, wp_bind, wp_require, wp_pure]
  exact wp_mono (hfill n false) fun _ s' hs' _ => hs'

theorem wp_fillUpToLoop {n : Uint256} {check : Bool}
    (hfill : ∀ o n' sig s', b.Has o sig → I s' →
      wp B (fill dep msg o n' check sig) (fun _ s'' => I s'') s') :
    ∀ k i acc s, I s → wp B (fillUpToLoop dep msg b n check k i acc) (fun _ s' => I s') s
  | 0, _, _, s, hs => hs
  | k + 1, i, acc, s, hs => by
    simp only [fillUpToLoop, wp_bind, wp_orderAt, wp_sigAt, wp_nth, wp_require, wp_ofOption,
      wp_ite, wp_pure]
    intro o h1 h2 _ _ _ want _ sig h3 h4 h5
    refine wp_mono (hfill o want sig s ⟨i, h1, h2, h3, h4, h5⟩ hs) fun f s' hs' acc' _ => ?_
    exact ⟨fun _ => hs', fun _ => wp_fillUpToLoop hfill k (i + 1) acc' s' hs'⟩

/-- **What `fill` and `cancel` keep, every entry point keeps.** -/
theorem wp_entry (c : Call)
    (hfill : ∀ o n check sig s, c.Fills o sig → I s →
      wp B (fill dep c.msg o n check sig) (fun _ s' => I s') s)
    (hcancel : ∀ o n s, c.Cancels o → I s →
      wp B (cancel dep c.msg o n) (fun _ s' => I s') s) (hs : I s) :
    wp B (entry dep c) (fun _ s' => I s') s := by
  cases c with
  | fill msg o n check sig =>
    simp only [entry, wp_void]
    exact hfill o n check sig s ⟨rfl, rfl⟩ hs
  | fillOrKill msg o n sig =>
    simp only [entry, wp_void]
    exact wp_fillOrKill (fun n check => hfill o n check sig s ⟨rfl, rfl⟩ hs) n
  | batchFill msg b ns check =>
    simp only [entry, wp_void, batchFill, wp_bind, wp_pure]
    refine wp_forLoop (fun i s' _ hs' => ?_) hs
    simp only [wp_bind, wp_orderAt, wp_sigAt, wp_nth, wp_void]
    intro o h1 h2 n _ sig h3 h4 h5
    exact hfill o n check sig s' ⟨i, h1, h2, h3, h4, h5⟩ hs'
  | batchFillOrKill msg b ns =>
    simp only [entry, wp_void, batchFillOrKill, wp_bind, wp_pure]
    refine wp_forLoop (fun i s' _ hs' => ?_) hs
    simp only [wp_bind, wp_orderAt, wp_sigAt, wp_nth, wp_require]
    intro o h1 h2 n _ sig h3 h4 h5
    refine wp_mono (wp_fillOrKill (fun n check => ?_) n) fun _ s'' hs'' _ => hs''
    exact hfill o n check sig s' ⟨i, h1, h2, h3, h4, h5⟩ hs'
  | fillUpTo msg b n check =>
    simp only [entry, wp_void, fillUpTo]
    exact wp_fillUpToLoop (fun o n' sig s' h hs' => hfill o n' check sig s' h hs') _ _ _ s hs
  | cancel msg o n =>
    simp only [entry, wp_void]
    exact hcancel o n s rfl hs
  | batchCancel msg as vs ns =>
    simp only [entry, wp_void, batchCancel, wp_bind, wp_pure]
    refine wp_forLoop (fun i s' _ hs' => ?_) hs
    simp only [wp_bind, wp_nth, wp_void]
    intro a h1 v h2 n _
    exact hcancel (a, v) n s' ⟨i, h1, h2⟩ hs'

end Entry

end ChainX.Exchange
