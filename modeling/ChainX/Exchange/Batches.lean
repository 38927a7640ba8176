import ChainX.Exchange.Books

/-!
# Batches, `Contracts/chainx.sol:286-395`

The loops `batchFillOrKill` and `fillUpTo`, over lists of orders of any length in which the same
order may occur again; the proxy and the tokens do not call back.

* A `Batch` is the four arrays of the call, which need not be of the same length: the loops run over
  the first one, and an index past the end of another one throws.
* `killRound` is one round of `batchFillOrKill`, which throws unless it fills its amount.

Results:
* `batchFillOrKill` fills every position entirely or throws. It throws at the first position that is
  `Stuck` in the storage that the positions before it have left, and adds to each order the sum of
  the amounts at its positions: **`batchFillOrKill_all_or_nothing`**.
* `fillUpTo` asks of each position what is still missing. One event is emitted at each position
  (`Turn`), so what a call has done is read off its events: **`fillUpTo_greedy`**. Its own sums and
  differences are exact (`fillUpTo_eq_unchecked`).
-/

namespace ChainX.Exchange

open ChainX.Evm ChainX.Reentry ChainX.Lib

-- the hash is never computed here
attribute [local irreducible] getOrderHash

variable {dep : Deployment} {msg : Msg} {b : Batch} {ns : List Uint256} {s : Storage}

/-! ## All or nothing -/

/-- The arrays of the batch reach the position `i`, with these entries. -/
structure Batch.At (b : Batch) (ns : List Uint256) (i : Nat) (o : OrderData) (n : Uint256)
    (sig : Signature) : Prop where
  addresses : b.orderAddresses[i]? = some o.1
  values : b.orderValues[i]? = some o.2
  amount : ns[i]? = some n
  v : b.v[i]? = some sig.v
  r : b.r[i]? = some sig.r
  s : b.s[i]? = some sig.s

/-- The hash of the order at the position `i`. -/
def Batch.hashAt (dep : Deployment) (b : Batch) (i : Nat) : Option Bytes32 := do
  let addresses ← b.orderAddresses[i]?
  let values ← b.orderValues[i]?
  return getOrderHash dep (addresses, values)

/-- The sum of the amounts at those of the first `k` positions whose order has the hash `h`. -/
def Batch.asked (dep : Deployment) (b : Batch) (ns : List Uint256) (h : Bytes32) (k : Nat) : Nat :=
  ∑ i ∈ Finset.range k, if b.hashAt dep i = some h then (ns.getD i 0).val else 0

/-- In the storage `s` and under the answers `rs`, `n` of `o` is filled entirely. -/
def FillsEntirely (dep : Deployment) (msg : Msg) (o : OrderData) (n : Uint256) (sig : Signature)
    (s : Storage) (rs : List (Option Uint256)) : Prop :=
  ∃ s' rs', (fill dep msg o n false sig s).playRest rs = some (n, s', rs')

/-- One round of the loop of `batchFillOrKill`. -/
def killRound (dep : Deployment) (msg : Msg) (b : Batch) (ns : List Uint256) (i : Nat) :
    M Unit := do
  let o ← b.orderAt i
  let fillValueT ← nth ns i
  let sig ← b.sigAt i
  Contract.require ((← fillOrKill dep msg o fillValueT sig) = true)

theorem batchFillOrKill_eq :
    batchFillOrKill dep msg b ns = (do
      Contract.forLoop b.orderAddresses.length (killRound dep msg b ns)
      return true) := rfl

/-- The position `i` cannot be filled entirely: an array ends before it, or the positions before it
leave a storage, and answers, in which its amount is not what `fill` returns. -/
def Stuck (dep : Deployment) (msg : Msg) (b : Batch) (ns : List Uint256) (s : Storage)
    (rs : List (Option Uint256)) (i : Nat) : Prop :=
  (∀ o n sig, ¬ b.At ns i o n sig) ∨
    ∃ o n sig, b.At ns i o n sig ∧ ∃ s' rs',
      (Contract.forLoop i (killRound dep msg b ns) s).playRest rs = some ((), s', rs') ∧
        ¬ FillsEntirely dep msg o n sig s' rs'

theorem Batch.At.hashAt {i : Nat} {o : OrderData} {n : Uint256} {sig : Signature}
    (h : b.At ns i o n sig) : b.hashAt dep i = some (getOrderHash dep o) := by
  simp [Batch.hashAt, h.addresses, h.values]

/-- A round in which the arrays reach far enough throws unless it fills entirely. -/
theorem killRound_eq_none {i : Nat} {o : OrderData} {n : Uint256} {sig : Signature}
    (hat : b.At ns i o n sig) {rs : List (Option Uint256)} :
    (killRound dep msg b ns i s).playRest rs = none ↔ ¬ FillsEntirely dep msg o n sig s rs := by
  have hround : killRound dep msg b ns i =
      (do Contract.require ((← fillOrKill dep msg o n sig) = true)) := by
    unfold killRound Batch.orderAt Batch.sigAt nth
    rw [hat.addresses, hat.values, hat.amount, hat.v, hat.r, hat.s]
    rfl
  unfold FillsEntirely
  rw [hround, fillOrKill, playRest_bind, playRest_bind]
  cases hfill : (fill dep msg o n false sig s).playRest rs with
  | none => simp
  | some r =>
    obtain ⟨f, s1, rs1⟩ := r
    rw [Option.bind_some, playRest_bind, Contract.require_apply]
    by_cases hf : f = n
    · subst hf
      simp [Proc.playRest, pure, Contract.require]
    · simp [hf, Proc.playRest]

/-- A round for which an array is too short throws. -/
theorem killRound_short {i : Nat} (hshort : ∀ o n sig, ¬ b.At ns i o n sig)
    (rs : List (Option Uint256)) : (killRound dep msg b ns i s).playRest rs = none := by
  refine playRest_eq_none ?_
  simp only [killRound, wp_bind, wp_orderAt, wp_nth, wp_sigAt]
  intro o ha hv n hn sig hsv hsr hss
  exact absurd ⟨ha, hv, hn, hsv, hsr, hss⟩ (hshort o n sig)

/-- A round adds its amount to its order. -/
theorem wp_killRound {i : Nat} {s' : Storage}
    (hfilled : ∀ h, (s'.filled h).val = (s.filled h).val + b.asked dep ns h i)
    (hcancelled : s'.cancelled = s.cancelled) :
    wp Boundary.still (killRound dep msg b ns i) (fun _ s'' =>
      (∀ h, (s''.filled h).val = (s.filled h).val + b.asked dep ns h (i + 1)) ∧
        s''.cancelled = s.cancelled) s' := by
  simp only [killRound, wp_bind, wp_orderAt, wp_nth, wp_sigAt, wp_require]
  intro o ha hv n hn sig hsv hsr hss
  have hat : b.At ns i o n sig := ⟨ha, hv, hn, hsv, hsr, hss⟩
  have hasked : ∀ h, b.asked dep ns h (i + 1) =
      b.asked dep ns h i + if h = getOrderHash dep o then n.val else 0 := by
    intro h
    have hget : ns.getD i 0 = n := by rw [List.getD_eq_getElem?_getD, hn, Option.getD_some]
    rw [Batch.asked, Finset.sum_range_succ, hat.hashAt, hget]
    simp only [Option.some.injEq, eq_comm, Batch.asked]
  refine wp_fillOrKill_still (fun hzero code _ => ⟨fun h => ?_, hcancelled⟩)
    fun s'' hpasses hsettled _ => ⟨fun h => ?_, hsettled.cancelled_eq.trans hcancelled⟩
  · have hnothing : (if h = getOrderHash dep o then n.val else 0) = 0 := by
      rw [hzero, ite_self]
    rw [hasked, hnothing, Nat.add_zero]
    exact hfilled h
  · rw [hsettled.filled_val, hasked, hfilled, Nat.add_assoc]

theorem wp_batchFillOrKill :
    wp Boundary.still (batchFillOrKill dep msg b ns) (fun _ s' =>
      (∀ h, (s'.filled h).val =
        (s.filled h).val + b.asked dep ns h b.orderAddresses.length) ∧
        s'.cancelled = s.cancelled) s := by
  rw [batchFillOrKill_eq, wp_bind]
  refine wp_mono (wp_loopFrom (I := fun i s' => (∀ h, (s'.filled h).val =
    (s.filled h).val + b.asked dep ns h i) ∧ s'.cancelled = s.cancelled)
      (fun i s' _ _ hs' => wp_killRound hs'.1 hs'.2) ⟨fun h => ?_, rfl⟩) fun _ s' hs' => ?_
  · rw [Batch.asked, Finset.sum_range_zero, Nat.add_zero]
  · rw [Nat.zero_add] at hs'
    exact hs'

/-- **The whole call throws exactly if some position is stuck.** -/
theorem batchFillOrKill_eq_none {rs : List (Option Uint256)} :
    (batchFillOrKill dep msg b ns s).play rs = none ↔
      ∃ i < b.orderAddresses.length, Stuck dep msg b ns s rs i := by
  have hloop : (batchFillOrKill dep msg b ns s).play rs = none ↔
      (Contract.loopFrom (killRound dep msg b ns) b.orderAddresses.length 0 s).playRest rs =
        none := by
    rw [Proc.play_eq, batchFillOrKill_eq, playRest_bind, Option.map_eq_none_iff, Contract.forLoop]
    cases (Contract.loopFrom (killRound dep msg b ns) b.orderAddresses.length 0 s).playRest rs with
    | none => simp
    | some r => exact iff_of_false (by simp [pure, Proc.playRest]) (by simp)
  rw [hloop, loopFrom_eq_none]
  constructor
  · rintro ⟨i, hi, s', rs', hleft, hthrow⟩
    rw [Nat.zero_add] at hthrow
    refine ⟨i, hi, ?_⟩
    by_cases hat : ∃ o n sig, b.At ns i o n sig
    · obtain ⟨o, n, sig, hat⟩ := hat
      exact Or.inr ⟨o, n, sig, hat, s', rs', hleft, (killRound_eq_none hat).mp hthrow⟩
    · exact Or.inl fun o n sig h => hat ⟨o, n, sig, h⟩
  · rintro ⟨i, hi, hshort | ⟨o, n, sig, hat, s', rs', hleft, hnot⟩⟩
    · -- the call throws before it reaches the position, or there
      cases hleft : (Contract.loopFrom (killRound dep msg b ns) i 0 s).playRest rs with
      | none =>
        obtain ⟨j, hj, hthrow⟩ := loopFrom_eq_none.mp hleft
        exact ⟨j, Nat.lt_trans hj hi, hthrow⟩
      | some r =>
        refine ⟨i, hi, r.2.1, r.2.2, hleft, ?_⟩
        rw [Nat.zero_add]
        exact killRound_short hshort _
    · refine ⟨i, hi, s', rs', hleft, ?_⟩
      rw [Nat.zero_add]
      exact (killRound_eq_none hat).mpr hnot

/-- **`batchFillOrKill` is all or nothing.** If the call goes through, each order has been filled by
exactly the sum of the amounts at its positions and nothing is cancelled; and it throws and changes
nothing exactly if some position is stuck: an array is too short for it, or its amount cannot be
filled entirely in what the positions before it have left. -/
theorem batchFillOrKill_all_or_nothing (dep : Deployment) (msg : Msg) (b : Batch)
    (ns : List Uint256) (s : Storage) (rs : List (Option Uint256)) :
    let s' := once (entry dep) s (.batchFillOrKill msg b ns) rs
    (completes (entry dep) s (.batchFillOrKill msg b ns) rs = true →
        (∀ h, (s'.filled h).val =
          (s.filled h).val + b.asked dep ns h b.orderAddresses.length) ∧
          s'.cancelled = s.cancelled) ∧
      (completes (entry dep) s (.batchFillOrKill msg b ns) rs = false → s' = s) ∧
      (completes (entry dep) s (.batchFillOrKill msg b ns) rs = false ↔
        ∃ i < b.orderAddresses.length, Stuck dep msg b ns s rs i) := by
  intro s'
  have hentry : wp Boundary.still (entry dep (.batchFillOrKill msg b ns)) (fun _ s' =>
      (∀ h, (s'.filled h).val =
        (s.filled h).val + b.asked dep ns h b.orderAddresses.length) ∧
        s'.cancelled = s.cancelled) s := wp_void.mpr wp_batchFillOrKill
  have hnone : completes (entry dep) s (.batchFillOrKill msg b ns) rs = false ↔
      (batchFillOrKill dep msg b ns s).play rs = none := by
    rw [completes, entry, play_void, Option.isSome_map, Option.isSome_eq_false_iff,
      Option.isNone_iff_eq_none]
  refine ⟨fun hc => ?_, fun hc => ?_, hnone.trans batchFillOrKill_eq_none⟩
  · obtain ⟨_, h⟩ := completes_spec hentry hc
    exact h
  · exact once_of_not_completes hc

/-! ## Greedy filling -/

/-- The order an event is about. -/
def Event.orderHash : Event → Bytes32
  | .logFill _ _ _ _ _ _ _ _ _ _ orderHash => orderHash
  | .logCancel _ _ _ _ _ _ _ orderHash => orderHash
  | .logError _ orderHash => orderHash

/-- The amount of `tokenT` that the event reports as filled. -/
def Event.filledValueT : Event → Nat
  | .logFill _ _ _ _ _ _ filledValueT _ _ _ _ => filledValueT.val
  | _ => 0

/-- What the events report as filled of the order with the hash `h`. -/
def reported (h : Bytes32) : List Event → Nat
  | [] => 0
  | e :: es => reported h es + if h = e.orderHash then e.filledValueT else 0

/-- The fill of `o` that asked for `n` at `s` has ended in `s'` with the event `e`: it is refused
with an error code, or fills all of `n` or all that remained. -/
structure Turn (dep : Deployment) (o : OrderData) (n : Uint256) (s s' : Storage) (e : Event) :
    Prop where
  hash : e.orderHash = getOrderHash dep o
  log : s'.log = e :: s.log
  filled : ∀ h, (s'.filled h).val =
    (s.filled h).val + if h = getOrderHash dep o then e.filledValueT else 0
  cancelled : s'.cancelled = s.cancelled
  le : e.filledValueT ≤ n.val
  outcome : (∃ code, e = .logError code (getOrderHash dep o)) ∨ e.filledValueT = n.val ∨
    o.2.valueT.val ≤ (s'.filled (getOrderHash dep o)).val + (s'.cancelled (getOrderHash dep o)).val

theorem wp_fill_turn {o : OrderData} {n : Uint256} {check : Bool} {sig : Signature} :
    wp Boundary.still (fill dep msg o n check sig)
      (fun f s' => ∃ e, Turn dep o n s s' e ∧ f.val = e.filledValueT) s := by
  refine wp_fill_still (fun code => ?_) fun f s' hpasses hsettled => ?_
  · refine ⟨.logError code (getOrderHash dep o), ⟨rfl, rfl, fun h => ?_, rfl, Nat.zero_le _,
      Or.inl ⟨code, rfl⟩⟩, rfl⟩
    simp [Event.filledValueT]
  · have hfilled := hsettled.filled_val
    have hcancelled := hsettled.cancelled_eq
    have hgreedy := hpasses.greedy
    cases hsettled with
    | intro filled m feeM feeT msM msT =>
      refine ⟨_, ⟨rfl, rfl, hfilled, hcancelled, hpasses.fits.le, Or.inr ?_⟩, rfl⟩
      refine hgreedy.imp (congrArg Fin.val) fun hused => ?_
      have hself := hfilled (getOrderHash dep o)
      rw [if_pos rfl] at hself
      rw [hself, hcancelled]
      omega

/-- What the events of a call report, over all hashes that occur in it. -/
theorem sum_reported {g : Bytes32 → Nat} {es : List Event} {hashes : Finset Bytes32}
    (hall : ∀ e ∈ es, e.orderHash ∈ hashes) :
    ∑ h ∈ hashes, (g h + reported h es) =
      ∑ h ∈ hashes, g h + (es.map Event.filledValueT).sum := by
  induction es with
  | nil => simp only [reported, Nat.add_zero, List.map_nil, List.sum_nil]
  | cons e es ih =>
    have hone : ∑ h ∈ hashes, (if h = e.orderHash then e.filledValueT else 0) =
        e.filledValueT := by
      rw [Finset.sum_ite_eq', if_pos (hall e List.mem_cons_self)]
    simp only [reported, ← Nat.add_assoc]
    rw [Finset.sum_add_distrib, ih fun e' he' => hall e' (List.mem_cons_of_mem e he'), hone,
      List.map_cons, List.sum_cons]
    omega

theorem reported_eq_zero {h : Bytes32} {es : List Event} (hno : ∀ e ∈ es, e.orderHash ≠ h) :
    reported h es = 0 := by
  induction es with
  | nil => rfl
  | cons e es ih =>
    rw [reported, if_neg (Ne.symm (hno e List.mem_cons_self)), Nat.add_zero]
    exact ih fun e' he' => hno e' (List.mem_cons_of_mem e he')

/-- `k` rounds from the position `i`, with `acc` filled before them, have come to `turns`, a total
and the storage `s'`. -/
structure Greedy (dep : Deployment) (b : Batch) (n : Uint256) (k i : Nat) (acc : Uint256)
    (s : Storage) (total : Uint256) (s' : Storage) (turns : List Event) : Prop where
  log : s'.log = turns.reverse ++ s.log
  length : turns.length ≤ k
  total_val : total.val = acc.val + (turns.map Event.filledValueT).sum
  le : total.val ≤ n.val
  filled : ∀ h, (s'.filled h).val = (s.filled h).val + reported h turns
  cancelled : s'.cancelled = s.cancelled
  /-- The loop ends early only where the target is reached. -/
  stop : turns.length < k → total = n
  /-- Each position has its turn; short of the target it is refused, or nothing of it remains. -/
  turn : ∀ j e, turns[j]? = some e → ∃ o : OrderData, b.orderAddresses[i + j]? = some o.1 ∧
    b.orderValues[i + j]? = some o.2 ∧ e.orderHash = getOrderHash dep o ∧
    (total.val < n.val → (∃ code, e = .logError code (getOrderHash dep o)) ∨
      o.2.valueT.val ≤
        (s'.filled (getOrderHash dep o)).val + (s'.cancelled (getOrderHash dep o)).val)

variable {n acc : Uint256} {k i : Nat} {o : OrderData} {s1 s' : Storage} {total : Uint256}
  {e : Event} {turns : List Event}

theorem greedy_nil (hle : acc.val ≤ n.val) : Greedy dep b n 0 i acc s acc s [] where
  log := rfl
  length := Nat.le_refl 0
  total_val := rfl
  le := hle
  filled _ := rfl
  cancelled := rfl
  stop h := absurd h (Nat.lt_irrefl 0)
  turn j e h := by
    rw [List.getElem?_nil] at h
    cases h

/-- The round that reaches the target is the last one. -/
theorem Turn.greedy_last {wanted : Uint256} (h : Turn dep o wanted s s' e)
    (haddresses : b.orderAddresses[i]? = some o.1) (hvalues : b.orderValues[i]? = some o.2)
    (htotal : n.val = acc.val + e.filledValueT) : Greedy dep b n (k + 1) i acc s n s' [e] where
  log := h.log
  length := Nat.succ_le_succ (Nat.zero_le k)
  total_val := by simpa using htotal
  le := Nat.le_refl _
  filled k := by rw [h.filled, reported, reported, h.hash, Nat.zero_add]
  cancelled := h.cancelled
  stop _ := rfl
  turn j e' hj := by
    cases j with
    | zero =>
      cases hj
      exact ⟨o, haddresses, hvalues, h.hash, fun hlt => absurd hlt (Nat.lt_irrefl _)⟩
    | succ j =>
      rw [List.getElem?_cons_succ, List.getElem?_nil] at hj
      cases hj

/-- A round that does not reach the target is refused or leaves nothing of its order. -/
theorem Turn.greedy_cons {wanted next : Uint256} (h : Turn dep o wanted s s1 e)
    (haddresses : b.orderAddresses[i]? = some o.1) (hvalues : b.orderValues[i]? = some o.2)
    (hwanted : acc.val + wanted.val = n.val) (hnext : next.val = acc.val + e.filledValueT)
    (hne : next ≠ n) (hrest : Greedy dep b n k (i + 1) next s1 total s' turns) :
    Greedy dep b n (k + 1) i acc s total s' (e :: turns) where
  log := by rw [hrest.log, h.log, List.reverse_cons, List.append_assoc, List.singleton_append]
  length := Nat.succ_le_succ hrest.length
  total_val := by
    rw [hrest.total_val, hnext, List.map_cons, List.sum_cons, Nat.add_assoc]
  le := hrest.le
  filled h' := by
    rw [hrest.filled, h.filled, reported, h.hash]
    omega
  cancelled := hrest.cancelled.trans h.cancelled
  stop hlt := hrest.stop (Nat.lt_of_succ_lt_succ hlt)
  turn j e' hj := by
    cases j with
    | zero =>
      cases hj
      refine ⟨o, haddresses, hvalues, h.hash, fun _ => ?_⟩
      rcases h.outcome with hrefused | hall | hused
      · exact Or.inl hrefused
      · refine absurd (Fin.ext ?_) hne
        omega
      · -- what is filled and cancelled of the order later on only adds to that
        refine Or.inr (Nat.le_trans hused ?_)
        rw [hrest.cancelled, hrest.filled]
        omega
    | succ j =>
      obtain ⟨o', h1, h2, h3⟩ := hrest.turn j e' hj
      rw [Nat.add_right_comm, Nat.add_assoc] at h1 h2
      exact ⟨o', h1, h2, h3⟩

theorem wp_fillUpToLoop_greedy {check : Bool} (hle : acc.val ≤ n.val) :
    wp Boundary.still (fillUpToLoop dep msg b n check k i acc)
      (fun total s' => ∃ turns, Greedy dep b n k i acc s total s' turns) s := by
  induction k generalizing i acc s with
  | zero => exact ⟨[], greedy_nil hle⟩
  | succ k ih =>
    simp only [fillUpToLoop, wp_bind, wp_orderAt, wp_sigAt, wp_nth, wp_require, wp_ofOption,
      wp_ite, wp_pure, safeSub_eq_some, safeAdd_eq_some]
    rintro o haddresses hvalues _ _ _ wanted ⟨-, hwanted⟩ sig _ _ _
    refine wp_mono wp_fill_turn ?_
    rintro f s1 ⟨e, hturn, hf⟩ next hnext
    have hwanted' : acc.val + wanted.val = n.val := by omega
    have hnext' : next.val = acc.val + e.filledValueT := by omega
    refine ⟨?_, fun hne => ?_⟩
    · rintro rfl
      exact ⟨[e], hturn.greedy_last haddresses hvalues hnext'⟩
    · have hle' := hturn.le
      refine wp_mono (ih (by omega)) ?_
      rintro total s' ⟨turns, hrest⟩
      exact ⟨e :: turns, hturn.greedy_cons haddresses hvalues hwanted' hnext' hne hrest⟩

/-! ### Its own arithmetic -/

/-- `fillUpToLoop` with the wrapping sums and differences of the machine in place of the checked
ones. -/
def fillUpToLoopUnchecked (dep : Deployment) (msg : Msg) (b : Batch) (fillValueT : Uint256)
    (shouldCheckTransfer : Bool) : Nat → Nat → Uint256 → M Uint256
  | 0, _, filledValueT => return filledValueT
  | k + 1, i, filledValueT => do
    let o ← b.orderAt i
    let first ← nth b.orderAddresses 0
    Contract.require (o.1.tokenT = first.tokenT)
    let sig ← b.sigAt i
    let f ← fill dep msg o (fillValueT - filledValueT) shouldCheckTransfer sig
    if filledValueT + f = fillValueT then
      return filledValueT + f
    else
      fillUpToLoopUnchecked dep msg b fillValueT shouldCheckTransfer k (i + 1) (filledValueT + f)

/-- `fill` never returns more than it is asked for, whatever the outside does. -/
theorem wp_fill_le {check : Bool} {sig : Signature} :
    wp Boundary.free (fill dep msg o n check sig) (fun f _ => f.val ≤ n.val) s :=
  wp_fill (P := fun _ => True) rfl (fun _ _ _ _ => trivial) (fun _ _ _ _ _ _ _ => trivial) trivial
    (fun _ _ _ => Nat.zero_le _) fun _ _ _ hpasses =>
      wp_settle (P := fun _ => True) (fun _ _ _ _ => trivial) (fun _ _ _ _ _ _ => trivial)
        (fun _ _ _ => trivial) (fun _ _ _ => hpasses.fits.le) fun _ _ => trivial

theorem fillUpToLoop_eq_unchecked {check : Bool} (hle : acc.val ≤ n.val) :
    fillUpToLoop dep msg b n check k i acc = fillUpToLoopUnchecked dep msg b n check k i acc := by
  induction k generalizing i acc with
  | zero => rfl
  | succ k ih =>
    have hsub : safeSub n acc = some (n - acc) := if_pos hle
    have hval := Fin.sub_val_of_le (show acc ≤ n from hle)
    unfold fillUpToLoop fillUpToLoopUnchecked
    refine congrArg _ (funext fun o => congrArg _ (funext fun first => congrArg _ (funext fun _ =>
      ?_)))
    rw [hsub, Contract.ofOption_some_bind]
    refine congrArg _ (funext fun sig => ?_)
    refine bind_congr_of_wp (P := fun f => f.val ≤ (n - acc).val) (fun s => wp_fill_le)
      fun f hf => ?_
    have hfits : acc.val + f.val < 2 ^ 256 := by omega
    have hadd : safeAdd acc f = some (acc + f) := safeAdd_eq_some.mpr (add_val hfits)
    have hsum := add_val hfits
    rw [hadd, Contract.ofOption_some_bind, ih (by omega)]

/-- **The loop's own arithmetic never throws**: without its checks it is the same code. -/
theorem fillUpTo_eq_unchecked {check : Bool} :
    fillUpTo dep msg b n check =
      fillUpToLoopUnchecked dep msg b n check b.orderAddresses.length 0 0 :=
  fillUpToLoop_eq_unchecked (Nat.zero_le n.val)

/-! ### What a call has done -/

/-- **`fillUpTo` is greedy and never fills too much.** When the call returns, the total is at most
the target, is the increase of `filled` over all orders of the batch, and was computed without a
throw of the loop's own arithmetic. The orders had their turns one after the other until the target
was reached, and others are as they were; and short of the target each order of the batch was
refused with an error code at its turn, or nothing of it remains. -/
theorem fillUpTo_greedy (dep : Deployment) (msg : Msg) (b : Batch) (n : Uint256) (check : Bool)
    (s : Storage) (rs : List (Option Uint256)) {total : Uint256} {s' : Storage}
    (hplay : (fillUpTo dep msg b n check s).play rs = some (total, s')) :
    total.val ≤ n.val ∧
      (∀ hashes : Finset Bytes32, (∀ i h, b.hashAt dep i = some h → h ∈ hashes) →
        ∑ h ∈ hashes, (s'.filled h).val = ∑ h ∈ hashes, (s.filled h).val + total.val) ∧
      fillUpTo dep msg b n check =
        fillUpToLoopUnchecked dep msg b n check b.orderAddresses.length 0 0 ∧
      ∃ turns : List Event, s'.log = turns.reverse ++ s.log ∧
        turns.length ≤ b.orderAddresses.length ∧
        (turns.length < b.orderAddresses.length → total = n) ∧
        (∀ (i : Nat) (e : Event), turns[i]? = some e → b.hashAt dep i = some e.orderHash) ∧
        (∀ h, (s'.filled h).val = (s.filled h).val + reported h turns) ∧
        (∀ h, (∀ i < turns.length, b.hashAt dep i ≠ some h) → s'.filled h = s.filled h) ∧
        s'.cancelled = s.cancelled ∧
        (total.val < n.val → ∀ (i : Nat) (o : OrderData), b.orderAddresses[i]? = some o.1 →
          b.orderValues[i]? = some o.2 → ∃ e : Event, turns[i]? = some e ∧
            ((∃ code, e = .logError code (getOrderHash dep o)) ∨
              o.2.valueT.val ≤ (s'.filled (getOrderHash dep o)).val +
                (s'.cancelled (getOrderHash dep o)).val)) := by
  have hloop : wp Boundary.still (fillUpTo dep msg b n check) (fun total s' => ∃ turns,
      Greedy dep b n b.orderAddresses.length 0 0 s total s' turns) s :=
    wp_fillUpToLoop_greedy (Nat.zero_le n.val)
  obtain ⟨turns, h⟩ := wp_still_iff.mp hloop rs total s' hplay
  have hhash : ∀ i e, turns[i]? = some e → b.hashAt dep i = some e.orderHash := by
    intro i e he
    obtain ⟨o, h1, h2, h3, -⟩ := h.turn i e he
    rw [Nat.zero_add] at h1 h2
    rw [h3]
    simp [Batch.hashAt, h1, h2]
  refine ⟨h.le, fun hashes hall => ?_, fillUpTo_eq_unchecked, turns, h.log, h.length, h.stop, hhash,
    h.filled, fun k hk => Fin.ext ?_, h.cancelled, fun hlt i o h1 h2 => ?_⟩
  · have hmem : ∀ e ∈ turns, e.orderHash ∈ hashes := by
      intro e he
      obtain ⟨i, hi⟩ := List.mem_iff_getElem?.mp he
      exact hall i _ (hhash i e hi)
    have htotal : total.val = (turns.map Event.filledValueT).sum := by
      rw [h.total_val]
      exact Nat.zero_add _
    rw [htotal, ← sum_reported hmem]
    exact Finset.sum_congr rfl fun h' _ => h.filled h'
  · have hnone : ∀ e ∈ turns, e.orderHash ≠ k := by
      rintro e he rfl
      obtain ⟨i, hi⟩ := List.mem_iff_getElem?.mp he
      exact hk i (List.getElem?_eq_some_iff.mp hi).1 (hhash i e hi)
    rw [h.filled, reported_eq_zero hnone, Nat.add_zero]
  · -- the loop did not end early, so the position had its turn
    have hlength : turns.length = b.orderAddresses.length := by
      refine Nat.le_antisymm h.length (Nat.le_of_not_lt fun hshort => ?_)
      rw [h.stop hshort] at hlt
      exact Nat.lt_irrefl _ hlt
    have hi : i < turns.length := hlength ▸ (List.getElem?_eq_some_iff.mp h1).1
    obtain ⟨o', h1', h2', -, hturn⟩ := h.turn i _ (List.getElem?_eq_getElem hi)
    rw [Nat.zero_add] at h1' h2'
    have hsame : o' = o := Prod.ext (Option.some.inj (h1'.symm.trans h1))
      (Option.some.inj (h2'.symm.trans h2))
    subst hsame
    exact ⟨_, List.getElem?_eq_getElem hi, hturn hlt⟩

/-- `sampleOrder` twice: the second turn finds nothing left of it. -/
def twice : Batch where
  orderAddresses := [sampleOrder.1, sampleOrder.1]
  orderValues := [sampleOrder.2, sampleOrder.2]
  v := [27, 27]
  r := [0, 0]
  s := [0, 0]

example : completes (entry sample) Storage.init (.batchFillOrKill ⟨20, 50⟩ twice [4, 6])
    [some 1, some 1, some 1, some 1] = true := by decide +kernel

example : completes (entry sample) Storage.init (.batchFillOrKill ⟨20, 50⟩ twice [4, 7])
    [some 1, some 1, some 1, some 1] = false := by decide +kernel

theorem fillUpTo_greedy_twice :
    ∃ total s', (fillUpTo sample ⟨20, 50⟩ twice 12 false Storage.init).play [some 1, some 1] =
        some (total, s') ∧ total = 10 ∧ total.val ≤ 12 ∧ s'.cancelled = Storage.init.cancelled := by
  have hten : ((fillUpTo sample ⟨20, 50⟩ twice 12 false Storage.init).play
      [some 1, some 1]).map Prod.fst = some 10 := by decide +kernel
  obtain ⟨⟨total, s'⟩, hplay, htotal⟩ := Option.map_eq_some_iff.mp hten
  obtain ⟨hle, -, -, turns, -, -, -, -, -, -, hcancelled, -⟩ :=
    fillUpTo_greedy sample ⟨20, 50⟩ twice 12 false Storage.init _ hplay
  exact ⟨total, s', hplay, htotal, hle, hcancelled⟩

end ChainX.Exchange
