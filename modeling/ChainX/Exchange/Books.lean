import ChainX.Exchange.Spec
import ChainX.Lib.ProRata

/-!
# The books of an order

What has been filled of an order, what has been cancelled and what has been moved for it, over whole
sequential runs: any calls by any senders at any block timestamps, any answers of the proxy and the
tokens, which do not call back.

`Books o s` is the invariant for one order `o`. A fill of `f` adds `f` to `filled` and to the
`tokenT` moved, and shares of `f` to the other three legs; the shares are rounded down at every
partial fill, so their sums stay below the share of the total (`ChainX.Lib.share_add_le`).

An order is known to the exchange by its hash only. The results assume that no other order named in
the run has the hash of the order they are about.
-/

namespace ChainX.Exchange

open ChainX.Evm ChainX.Reentry ChainX.Lib

-- the hash is never computed here
attribute [local irreducible] getOrderHash

variable {dep : Deployment} {o : OrderData} {s : Storage}

/-- The amounts moved for the order with hash `h` on one leg. -/
def moved (h : Bytes32) (leg : Leg) (ms : List Move) : Nat :=
  ((ms.filter fun m => m.orderHash = h ∧ m.leg = leg).map fun m => m.value.val).sum

@[simp] theorem moved_nil (h : Bytes32) (leg : Leg) : moved h leg [] = 0 := rfl

theorem moved_cons (h : Bytes32) (leg : Leg) (m : Move) (ms : List Move) :
    moved h leg (m :: ms) =
      (if m.orderHash = h ∧ m.leg = leg then m.value.val else 0) + moved h leg ms := by
  unfold moved
  by_cases hm : m.orderHash = h ∧ m.leg = leg
  · rw [List.filter_cons_of_pos (by simpa using hm), if_pos hm, List.map_cons, List.sum_cons]
  · rw [List.filter_cons_of_neg (by simpa using hm), if_neg hm, Nat.zero_add]

theorem moved_append (h : Bytes32) (leg : Leg) (ms ms' : List Move) :
    moved h leg (ms ++ ms') = moved h leg ms + moved h leg ms' := by
  simp [moved]

/-- A transfer for `o` goes between the parties and in the token its leg names. -/
def Move.Proper (dep : Deployment) (o : OrderData) (m : Move) : Prop :=
  match m.leg with
  | .tokenM => m.token = o.1.tokenM ∧ m.payer = o.1.maker
  | .tokenT => m.token = o.1.tokenT ∧ m.payee = o.1.maker
  | .feeM => m.token = dep.ZRX ∧ m.payer = o.1.maker ∧ m.payee = o.1.feeRecipient
  | .feeT => m.token = dep.ZRX ∧ m.payee = o.1.feeRecipient

/-- **The books of the order `o` balance.** -/
structure Books (dep : Deployment) (o : OrderData) (s : Storage) : Prop where
  bound : (s.filled (getOrderHash dep o)).val + (s.cancelled (getOrderHash dep o)).val ≤
    o.2.valueT.val
  tokenT : moved (getOrderHash dep o) .tokenT s.moves = (s.filled (getOrderHash dep o)).val
  tokenM : moved (getOrderHash dep o) .tokenM s.moves ≤
    share o.2.valueT.val (s.filled (getOrderHash dep o)).val o.2.valueM.val
  feeM : moved (getOrderHash dep o) .feeM s.moves ≤
    share o.2.valueT.val (s.filled (getOrderHash dep o)).val o.2.feeM.val
  feeT : moved (getOrderHash dep o) .feeT s.moves ≤
    share o.2.valueT.val (s.filled (getOrderHash dep o)).val o.2.feeT.val
  proper : ∀ m ∈ s.moves, m.orderHash = getOrderHash dep o → m.Proper dep o

theorem books_init : Books dep o Storage.init where
  bound := Nat.zero_le _
  tokenT := rfl
  tokenM := Nat.zero_le _
  feeM := Nat.zero_le _
  feeT := Nat.zero_le _
  proper := fun _ hm => absurd hm List.not_mem_nil

/-- The books read only the order's own entries and the moves. -/
theorem Books.congr {s' : Storage} (hb : Books dep o s)
    (hf : s'.filled (getOrderHash dep o) = s.filled (getOrderHash dep o))
    (hc : (s'.cancelled (getOrderHash dep o)).val + (s.filled (getOrderHash dep o)).val ≤
      o.2.valueT.val)
    (hm : ∀ leg, moved (getOrderHash dep o) leg s'.moves = moved (getOrderHash dep o) leg s.moves)
    (hp : ∀ m ∈ s'.moves, m.orderHash = getOrderHash dep o → m ∈ s.moves) : Books dep o s' where
  bound := by rw [hf]; omega
  tokenT := by rw [hf, hm]; exact hb.tokenT
  tokenM := by rw [hf, hm]; exact hb.tokenM
  feeM := by rw [hf, hm]; exact hb.feeM
  feeT := by rw [hf, hm]; exact hb.feeT
  proper := fun m hm' he => hb.proper m (hp m hm' he) he

/-! ## What the moves of a fee block add -/

theorem FeeMoves.moved_self {order : Order} {leg : Leg} {payer : Address} {fee f paid : Uint256}
    {ms : List Move} (h : FeeMoves dep order leg payer fee f ms paid) :
    moved order.orderHash leg ms ≤ share order.valueT.val f.val fee.val := by
  cases h with
  | none => exact Nat.zero_le _
  | one paid _ hp =>
    rw [moved_cons, if_pos ⟨rfl, rfl⟩, moved_nil]
    exact Nat.le_of_eq hp

theorem FeeMoves.moved_other {order : Order} {leg leg' : Leg} {payer : Address}
    {fee f paid : Uint256} {ms : List Move} {h' : Bytes32}
    (h : FeeMoves dep order leg payer fee f ms paid) (hne : h' ≠ order.orderHash ∨ leg' ≠ leg) :
    moved h' leg' ms = 0 := by
  cases h with
  | none => rfl
  | one paid _ _ =>
    rw [moved_cons, if_neg, moved_nil]
    rintro ⟨rfl, rfl⟩
    exact hne.elim (fun h => h rfl) (fun h => h rfl)

theorem FeeMoves.mem {order : Order} {leg : Leg} {payer : Address} {fee f paid : Uint256}
    {ms : List Move} (h : FeeMoves dep order leg payer fee f ms paid) {m : Move} (hm : m ∈ ms) :
    m.orderHash = order.orderHash ∧ m.leg = leg ∧ m.token = dep.ZRX ∧ m.payer = payer ∧
      m.payee = order.feeRecipient := by
  cases h with
  | none => exact absurd hm List.not_mem_nil
  | one paid _ _ =>
    rw [List.mem_singleton.mp hm]
    exact ⟨rfl, rfl, rfl, rfl, rfl⟩

/-! ## One call -/

/-- A fill of `o` itself keeps its books. -/
theorem books_settle {msg : Msg} {n f : Uint256} (hb : Books dep o s) (hf : Fits dep o s n f) :
    wp Boundary.still (settle dep msg (dep.order o) f) (fun _ s' => Books dep o s') s := by
  refine wp_settle_still fun filled m feeM feeT msM msT hfilled hm hM hT => ?_
  replace hfilled : filled.val = (s.filled (getOrderHash dep o)).val + f.val := hfilled
  have hsum : ∀ amount : Uint256, share o.2.valueT.val (s.filled (getOrderHash dep o)).val
      amount.val + share o.2.valueT.val f.val amount.val ≤
        share o.2.valueT.val filled.val amount.val := fun amount => by
    rw [hfilled]
    exact share_add_le _ _ _ _
  have hroom := hf.room
  have hself : ∀ x : Uint256, Function.update s.filled (dep.order o).orderHash x
      (getOrderHash dep o) = x := fun x => Function.update_self _ _ _
  constructor
  · simp only [hself]
    omega
  · simp only [hself, moved_append, moved_cons]
    rw [hT.moved_other (.inr (by decide)), hM.moved_other (.inr (by decide)), hb.tokenT]
    simp only [Deployment.order, and_true, if_true, reduceCtorEq, and_false, if_false]
    omega
  · simp only [hself, moved_append, moved_cons]
    rw [hT.moved_other (.inr (by decide)), hM.moved_other (.inr (by decide))]
    have hM' : m.val = share o.2.valueT.val f.val o.2.valueM.val := hm
    have := hb.tokenM
    have := hsum o.2.valueM
    simp only [Deployment.order, and_true, if_true, reduceCtorEq, and_false, if_false]
    omega
  · simp only [hself, moved_append, moved_cons]
    rw [hT.moved_other (.inr (by decide))]
    have hM' : moved (getOrderHash dep o) .feeM msM ≤ share o.2.valueT.val f.val o.2.feeM.val :=
      hM.moved_self
    have := hb.feeM
    have := hsum o.2.feeM
    simp only [reduceCtorEq, and_false, if_false]
    omega
  · simp only [hself, moved_append, moved_cons]
    rw [hM.moved_other (.inr (by decide))]
    have hT' : moved (getOrderHash dep o) .feeT msT ≤ share o.2.valueT.val f.val o.2.feeT.val :=
      hT.moved_self
    have := hb.feeT
    have := hsum o.2.feeT
    simp only [reduceCtorEq, and_false, if_false]
    omega
  · intro k hk hh
    simp only [List.mem_append, List.mem_cons] at hk
    rcases hk with hk | hk | rfl | rfl | hk
    · obtain ⟨-, h2, h3, -, h5⟩ := hT.mem hk
      unfold Move.Proper
      rw [h2]
      exact ⟨h3, h5⟩
    · obtain ⟨-, h2, h3, h4, h5⟩ := hM.mem hk
      unfold Move.Proper
      rw [h2]
      exact ⟨h3, h4, h5⟩
    · exact ⟨rfl, rfl⟩
    · exact ⟨rfl, rfl⟩
    · exact hb.proper k hk hh

/-- A fill of an order with another hash leaves the books of `o` alone. -/
theorem books_settle_other {msg : Msg} {o' : OrderData} {f : Uint256}
    (hne : getOrderHash dep o' ≠ getOrderHash dep o) (hb : Books dep o s) :
    wp Boundary.still (settle dep msg (dep.order o') f) (fun _ s' => Books dep o s') s := by
  refine wp_settle_still fun filled m feeM feeT msM msT _ _ hM hT => ?_
  refine hb.congr (Function.update_of_ne hne.symm _ _) ?_ (fun leg => ?_) fun k hk hh => ?_
  · have := hb.bound
    simp only
    omega
  · simp only [moved_append, moved_cons]
    rw [hT.moved_other (.inl hne.symm), hM.moved_other (.inl hne.symm), if_neg (fun h => hne h.1),
      if_neg (fun h => hne h.1)]
    omega
  · simp only [List.mem_append, List.mem_cons] at hk
    rcases hk with hk | hk | rfl | rfl | hk
    · exact absurd ((hT.mem hk).1.symm.trans hh) hne
    · exact absurd ((hM.mem hk).1.symm.trans hh) hne
    · exact absurd hh hne
    · exact absurd hh hne
    · exact hk

theorem books_fill {msg : Msg} {o' : OrderData} {n : Uint256} {check : Bool} {sig : Signature}
    (hcf : getOrderHash dep o' = getOrderHash dep o → o' = o) (hb : Books dep o s) :
    wp Boundary.still (fill dep msg o' n check sig) (fun _ s' => Books dep o s') s := by
  refine wp_fill (P := fun s' => s' = s) rfl (fun _ _ _ _ => trivial)
    (fun _ _ _ _ _ h hb => Eq.trans hb h) rfl (fun _ s' hs' => ?_) fun f s' hs' hf => ?_
  · subst hs'
    exact hb.congr rfl (by have := hb.bound; simp only; omega) (fun _ => rfl) fun _ h _ => h
  · subst hs'
    by_cases he : getOrderHash dep o' = getOrderHash dep o
    · obtain rfl := hcf he
      exact books_settle hb hf.fits
    · exact books_settle_other he hb

theorem books_cancel {msg : Msg} {o' : OrderData} {n : Uint256}
    (hcf : getOrderHash dep o' = getOrderHash dep o → o' = o) (hb : Books dep o s) :
    wp Boundary.still (cancel dep msg o' n) (fun _ s' => Books dep o s') s := by
  have hbound := hb.bound
  refine wp_cancel (fun e => hb.congr rfl (by simp only; omega) (fun _ => rfl) fun _ h _ => h)
    fun f x e hf hx _ => ?_
  refine hb.congr rfl ?_ (fun _ => rfl) fun _ h _ => h
  by_cases he : getOrderHash dep o' = getOrderHash dep o
  · obtain rfl := hcf he
    have hroom := hf.room
    simp only [Function.update_self]
    omega
  · simp only [Function.update_of_ne (Ne.symm he)]
    omega

/-! ## Runs -/

/-- The books balance after every run. -/
theorem books_run (calls : List (Call × List (Option Uint256)))
    (hcf : ∀ c ∈ calls, ∀ o', c.1.Names o' → getOrderHash dep o' = getOrderHash dep o → o' = o) :
    Books dep o (runSeq (entry dep) Storage.init calls) := by
  refine runSeq_invariant calls _ (fun c hc s hb => ?_) books_init
  refine wp_entry c.1 (fun o' n check sig s' h hb' => ?_) (fun o' n s' h hb' => ?_) hb
  · exact books_fill (hcf c hc o' (.inl ⟨sig, h⟩)) hb'
  · exact books_cancel (hcf c hc o' (.inr h)) hb'

/-- **The books of every order balance after every run**, and so after every prefix of one:
`filled + cancelled ≤ valueT`; the maker has been sent exactly `filled` of `tokenT`; of `tokenM` at
most `⌊filled · valueM / valueT⌋ ≤ valueM` has been taken from the maker; and the fees stay below
`feeM` and `feeT`. -/
theorem exchange_books (dep : Deployment) (o : OrderData)
    (calls : List (Call × List (Option Uint256)))
    (hcf : ∀ c ∈ calls, ∀ o', c.1.Names o' → getOrderHash dep o' = getOrderHash dep o → o' = o) :
    let s := runSeq (entry dep) Storage.init calls
    let h := getOrderHash dep o
    (s.filled h).val + (s.cancelled h).val ≤ o.2.valueT.val ∧
      moved h .tokenT s.moves = (s.filled h).val ∧
      moved h .tokenM s.moves ≤ (s.filled h).val * o.2.valueM.val / o.2.valueT.val ∧
      moved h .tokenM s.moves ≤ o.2.valueM.val ∧
      moved h .feeM s.moves ≤ o.2.feeM.val ∧
      moved h .feeT s.moves ≤ o.2.feeT.val ∧
      ∀ m ∈ s.moves, m.orderHash = h → m.Proper dep o := by
  intro s h
  have hb : Books dep o s := books_run calls hcf
  have hle : (s.filled h).val ≤ o.2.valueT.val := Nat.le_trans (Nat.le_add_right _ _) hb.bound
  exact ⟨hb.bound, hb.tokenT, hb.tokenM, Nat.le_trans hb.tokenM (share_le hle _),
    Nat.le_trans hb.feeM (share_le hle _), Nat.le_trans hb.feeT (share_le hle _), hb.proper⟩

/-- What is filled and cancelled stays so. -/
structure Later (s s' : Storage) : Prop where
  filled : ∀ h, (s.filled h).val ≤ (s'.filled h).val
  cancelled : ∀ h, (s.cancelled h).val ≤ (s'.cancelled h).val

/-- **No call ever gives back anything of any order.** Its transfers go out of the accounts of its
sender and of the makers it names. -/
theorem later_entry (c : Call) {A : Query → Storage → Prop}
    (hcheck : ∀ q h s, q.IsCheck h → A q s)
    (hsettle : ∀ o' sig q s, c.Fills o' sig → q.Settles o'.1.maker c.msg.sender → A q s) :
    wp (Boundary.asking A) (entry dep c) (fun _ s' => Later s s') s := by
  have hraise : ∀ {g g' : Bytes32 → Uint256} {k : Bytes32} {x : Uint256},
      (∀ h, (g h).val ≤ (g' h).val) → (g' k).val ≤ x.val →
      ∀ h, (g h).val ≤ (Function.update g' k x h).val := by
    intro g g' k x hle hx h
    by_cases he : h = k
    · subst he
      rw [Function.update_self]
      exact Nat.le_trans (hle h) hx
    · rw [Function.update_of_ne he]
      exact hle h
  refine wp_entry (I := Later s) c (fun o' n check sig s1 hc h1 => ?_) (fun o' n s1 _ h1 => ?_)
    ⟨fun _ => Nat.le_refl _, fun _ => Nat.le_refl _⟩
  · refine wp_fill (P := Later s) rfl (fun q s2 hq _ => hcheck q _ s2 hq)
      (fun _ s2 _ s3 _ h2 hb => ?_) h1 (fun _ _ h => ⟨h.filled, h.cancelled⟩) fun f s2 h2 _ => ?_
    · replace hb : s3 = s2 := hb
      exact hb ▸ h2
    · refine wp_settle (P := Later s) (fun q s3 hq _ => hsettle o' sig q s3 hc hq)
        (fun _ s3 _ s4 h3 hb => ?_)
        (fun _ _ h => ⟨h.filled, h.cancelled⟩) (fun _ _ h => ⟨h.filled, h.cancelled⟩)
        fun x hx => ⟨hraise h2.filled (by omega), h2.cancelled⟩
      replace hb : s4 = s3 := hb
      exact hb ▸ h3
  · exact wp_cancel (fun _ => ⟨h1.filled, h1.cancelled⟩)
      fun f x e _ hx _ => ⟨h1.filled, hraise h1.cancelled (by omega)⟩

/-! ### A run -/

/-- A deployment with a positional digest for `sha3`, and a recovery that knows the signer `10` by
`v = 27` and takes every other signature for invalid. -/
def sample : Deployment where
  this := 1
  ZRX := 2
  PROXY := 3
  crypto := {
    sha3 := fun bs => BitVec.ofNat 256 (bs.foldl (fun acc b => acc * 257 + b.toNat + 1) 0)
    ecrecover := fun _ sig => if sig.v = 27 then 10 else 0 }

/-- The maker `10` gives 2000 of token `30` for 10 of token `40`, to anyone, without fees. -/
def sampleOrder : OrderData :=
  ({ maker := 10, taker := 0, tokenM := 30, tokenT := 40, feeRecipient := 0 },
    { valueM := 2000, valueT := 10, feeM := 0, feeT := 0, expiration := 100, salt := 7 })

/-- The signature that `sample` recovers the maker of. -/
def sampleSig : Signature := ⟨27, 0, 0⟩

/-- Account `20` fills 4 out of 10, and the maker cancels 3. -/
def sampleRun : List (Call × List (Option Uint256)) :=
  [(.fill ⟨20, 50⟩ sampleOrder 4 false sampleSig, [some 1, some 1]),
    (.cancel ⟨10, 60⟩ sampleOrder 3, [])]

theorem exchange_books_sample :
    let s := runSeq (entry sample) Storage.init sampleRun
    let h := getOrderHash sample sampleOrder
    (s.filled h).val = 4 ∧ (s.cancelled h).val = 3 ∧
      moved h .tokenT s.moves = (s.filled h).val ∧ moved h .tokenM s.moves ≤ 2000 := by
  have hb := exchange_books sample sampleOrder sampleRun (by
    intro c hc o' hn _
    simp only [sampleRun, List.mem_cons, List.not_mem_nil, or_false] at hc
    rcases hc with rfl | rfl
    · exact hn.elim (fun ⟨_, h⟩ => h.1) (fun h => h.elim)
    · exact hn.elim (fun ⟨_, h⟩ => h.elim) id)
  exact ⟨by decide +kernel, by decide +kernel, hb.2.1, hb.2.2.2.1⟩

end ChainX.Exchange
