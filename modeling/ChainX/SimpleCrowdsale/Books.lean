import ChainX.Exchange.Books
import ChainX.Reentry.Notes
import ChainX.SimpleCrowdsale.Basic

/-!
# The books of the crowdsale

The crowdsale linked with its exchange (`system`): payments and the owner's calls, interleaved with
any calls of the exchange by others. The tokens, the proxy and the receivers of refunds are left to
the outside, which may answer anything but does not call back.

* `Paid` says what a payment (`SimpleCrowdsale.sol:74-96`) does when it goes through, and
  `SystemStep` what any call does; what a call keeps is read off it. `paid_fallback` is the one rule
  that goes through the code of the fallback function.
* `Sold` are the books: what was deposited is filled of the order, of which others may fill more,
  and what was forwarded is at most the share of it, as each payment's share is rounded down.
* `Noted`: the effects that are stored are those of the answered questions, so that nothing is
  recorded that was not done.

**`passes_on`**: over every run the deposits stay below `valueT` and what is forwarded below
`valueM`, a payment that goes through does what `Paid` says, and a finished sale stays finished.
-/

namespace ChainX.SimpleCrowdsale

open ChainX.Evm ChainX.Lib ChainX.Reentry
open ChainX.Exchange (OrderData Leg)

-- the hash is never computed here
attribute [local irreducible] Exchange.getOrderHash

/-! ## The crowdsale and its exchange -/

/-- The questions of both contracts to the outside. -/
abbrev Ask := Exchange.Query ⊕ Query

/-- The calls of the exchange are answered by the exchange, all others by the outside. -/
def onExchange (dep : Deployment) : Query → Contract Exchange.Storage Ask Uint256 Uint256
  | .getUnavailableValueT orderHash =>
    Contract.relabel Sum.inl (Exchange.getUnavailableValueT orderHash)
  | .fillOrKill timestamp o fillValueT sig => do
    let success ← Contract.relabel Sum.inl
      (Exchange.fillOrKill dep.exchange ⟨dep.this, timestamp⟩ o fillValueT sig)
    return if success then 1 else 0
  | q => Contract.extCall (.inr q)

/-- A call of the crowdsale, or of the exchange by somebody else. -/
inductive SystemCall where
  | sale (c : Call)
  | exchange (c : Exchange.Call)

/-- The code a call runs. -/
def system (dep : Deployment) :
    SystemCall → Contract (Storage × Exchange.Storage) Ask Uint256 Unit
  | .sale c => Contract.link (onExchange dep) (entry dep c)
  | .exchange c => Contract.zoom Lens.snd (Contract.relabel Sum.inl (Exchange.entry dep.exchange c))

/-! ## What is counted -/

/-- What the answer to a question makes happen. -/
def noteEffect : Ask → Uint256 → List Effect → List Effect
  | .inr (.deposit value), _, es => .deposited value :: es
  | .inr (.transfer payee value), success, es =>
    if success ≠ 0 then .forwarded payee value :: es else es
  | .inr (.send receiver value), _, es => .refunded receiver value :: es
  | _, _, es => es

/-- What was deposited. -/
def deposited : List Effect → Nat
  | [] => 0
  | .deposited value :: es => value.val + deposited es
  | .forwarded .. :: es => deposited es
  | .refunded .. :: es => deposited es

/-- The tokens that were forwarded. -/
def forwarded : List Effect → Nat
  | [] => 0
  | .deposited _ :: es => forwarded es
  | .forwarded _ value :: es => value.val + forwarded es
  | .refunded .. :: es => forwarded es

/-- The `tokenM` that moved to `payee`. -/
def received (payee : Address) (ms : List Exchange.Move) : Nat :=
  ((ms.filter fun m => m.leg = Leg.tokenM ∧ m.payee = payee).map fun m => m.value.val).sum

theorem received_append (payee : Address) (ms ms' : List Exchange.Move) :
    received payee (ms ++ ms') = received payee ms + received payee ms' := by
  simp [received]

/-- Fees are no `tokenM`. -/
theorem received_feeMoves {dep : Exchange.Deployment} {order : Exchange.Order} {leg : Leg}
    {payer payee : Address} {fee f paid : Uint256} {ms : List Exchange.Move}
    (h : Exchange.FeeMoves dep order leg payer fee f ms paid) (hleg : leg ≠ .tokenM) :
    received payee ms = 0 := by
  have hnil : (ms.filter fun m => m.leg = Leg.tokenM ∧ m.payee = payee) = [] := by
    rw [List.filter_eq_nil_iff]
    intro m hm
    rw [(h.mem hm).2.1, decide_eq_true_iff]
    exact fun h => hleg h.1
  unfold received
  rw [hnil]
  rfl

/-! ## One payment -/

/-- What a fill of `n` by the crowdsale does on the exchange. -/
structure Filled (dep : Deployment) (o : OrderData) (sig : Signature) (n : Uint256)
    (ex ex' : Exchange.Storage) (ms : List Exchange.Move) : Prop where
  signed : 0 < n.val → Exchange.isValidSignature dep.crypto o.1.maker
    (Exchange.getOrderHash dep.exchange o) sig = true
  filled : (ex'.filled (Exchange.getOrderHash dep.exchange o)).val =
    (ex.filled (Exchange.getOrderHash dep.exchange o)).val + n.val
  cancelled : ex'.cancelled = ex.cancelled
  moves : ex'.moves = ms ++ ex.moves
  received : received dep.this ms = n.val * o.2.valueM.val / o.2.valueT.val

theorem filled_fillOrKill {dep : Deployment} {timestamp n : Uint256} {o : OrderData}
    {sig : Signature} {ex : Exchange.Storage} :
    wp Boundary.still (Exchange.fillOrKill dep.exchange ⟨dep.this, timestamp⟩ o n sig)
      (fun success ex' => success = true ∧ ∃ ms, Filled dep o sig n ex ex' ms) ex := by
  refine Exchange.wp_fillOrKill_still (fun hn _ => ⟨rfl, [], ?_, ?_, rfl, rfl, ?_⟩)
    fun ex' hpasses hsettled => ?_
  · exact fun h => absurd h (by omega)
  · rw [hn]
    rfl
  · rw [hn, Nat.zero_mul, Nat.zero_div]
    rfl
  cases hsettled with
  | intro filled m feeM feeT msM msT hfilled hm hM hT =>
    refine ⟨rfl, msT ++ (msM ++
      [⟨Exchange.getOrderHash dep.exchange o, .tokenT, o.1.tokenT, dep.this, o.1.maker, n⟩,
        ⟨Exchange.getOrderHash dep.exchange o, .tokenM, o.1.tokenM, o.1.maker, dep.this, m⟩]),
      fun _ => hpasses.signed, ?_, rfl, ?_, ?_⟩
    · simp only [Function.update_self]
      exact hfilled
    · simp
    · rw [received_append, received_append, received_feeMoves hT (by decide),
        received_feeMoves hM (by decide), ← hm]
      simp [received]

/-- What a payment does that goes through: `d` is deposited and filled, `f` forwarded. -/
structure Paid (dep : Deployment) (msg : Msg) (value : Uint256)
    (st st' : Storage × Exchange.Storage) (d f : Uint256) (ms : List Exchange.Move) : Prop where
  isInitialized : st.1.isInitialized = true ∧ st'.1.isInitialized = true
  unfinished : st.1.isFinished = false
  order : st'.1.order = st.1.order
  /-- The exchange accepts the stored signature. -/
  signed : 0 < d.val → Exchange.isValidSignature dep.crypto st.1.order.data.1.maker
    st.1.order.orderHash st.1.order.sig = true
  /-- The deposit fits the remaining value, and the exchange fills exactly it. -/
  fits : (st.2.filled st.1.order.orderHash).val + (st.2.cancelled st.1.order.orderHash).val +
    d.val ≤ st.1.order.data.2.valueT.val
  filled : (st'.2.filled st.1.order.orderHash).val =
    (st.2.filled st.1.order.orderHash).val + d.val
  cancelled : st'.2.cancelled = st.2.cancelled
  /-- What the crowdsale received is what it forwards. -/
  moves : st'.2.moves = ms ++ st.2.moves
  received : received dep.this ms = f.val
  price : f.val = share st.1.order.data.2.valueT.val d.val st.1.order.data.2.valueM.val
  /-- A payment beyond the remaining value is refunded in part, and ends the sale. -/
  effects : ((st.2.filled st.1.order.orderHash).val +
        (st.2.cancelled st.1.order.orderHash).val + value.val ≤ st.1.order.data.2.valueT.val ∧
      d = value ∧ st'.1.isFinished = false ∧
      st'.1.effects = .forwarded msg.sender f :: .deposited d :: st.1.effects) ∨
    (st.1.order.data.2.valueT.val < (st.2.filled st.1.order.orderHash).val +
        (st.2.cancelled st.1.order.orderHash).val + value.val ∧
      (st.2.filled st.1.order.orderHash).val + (st.2.cancelled st.1.order.orderHash).val + d.val =
        st.1.order.data.2.valueT.val ∧
      ∃ r : Uint256, 0 < r.val ∧ d.val + r.val = value.val ∧ st'.1.isFinished = true ∧
        st'.1.effects = .refunded msg.sender r :: .forwarded msg.sender f :: .deposited d ::
          st.1.effects)

theorem price_eq_some {order : Order} {d f : Uint256} (h : price order d = some f) :
    f.val = share order.data.2.valueT.val d.val order.data.2.valueM.val := by
  unfold price at h
  rw [Option.bind_eq_some_iff] at h
  obtain ⟨product, hmul, hdiv⟩ := h
  rw [safeMul_eq_some] at hmul
  rw [safeDiv_eq_some, hmul, Nat.mul_comm] at hdiv
  exact hdiv.2

theorem minUint_val (a b : Uint256) : (minUint a b).val = min a.val b.val := val_ite_lt a b

/-- **The rule for the fallback function.** -/
theorem paid_fallback {dep : Deployment} {msg : Msg} {value : Uint256} {s : Storage}
    {ex : Exchange.Storage}
    (hhash : s.isInitialized = true →
      s.order.orderHash = Exchange.getOrderHash dep.exchange s.order.data) :
    wp Boundary.still (Contract.link (onExchange dep) (fallback msg value))
      (fun _ st' => ∃ d f ms, Paid dep msg value (s, ex) st' d f ms) (s, ex) := by
  simp only [fallback, deposit, fillOrKill, forward, refund, record, onExchange,
    Exchange.getUnavailableValueT, Lens.snd, link_bind, link_get, link_require, link_extCall,
    link_ofOption, link_ite, link_modify, link_pure, wp_bind, wp_get, wp_pure, wp_require,
    wp_ofOption, wp_zoom, wp_relabel, wp_ite, wp_modify, wp_extCall, safeAdd_eq_some,
    safeSub_eq_some]
  intro hinit hunfinished unavailable hunavailable remaining hremaining
  refine ⟨trivial, fun _ ex0 hex0 => ?_⟩
  cases hex0
  refine wp_mono filled_fillOrKill ?_
  rintro _ ex' ⟨-, ms, hsigned, hfilled, hcancelled, hmoves, hreceived⟩ - f hf
  refine ⟨trivial, fun _ ex1 hex1 _ => ?_⟩
  cases hex1
  have hprice := price_eq_some hf
  have hd := minUint_val value remaining
  obtain ⟨hle, hremaining⟩ := hremaining
  rw [← hhash hinit] at hfilled hsigned
  have hmul : (minUint value remaining).val * s.order.data.2.valueM.val /
      s.order.data.2.valueT.val = f.val := hprice.symm
  rw [hmul] at hreceived
  have hfits : (ex.filled s.order.orderHash).val + (ex.cancelled s.order.orderHash).val +
      (minUint value remaining).val ≤ s.order.data.2.valueT.val := by omega
  refine ⟨fun hlt r hr => ⟨trivial, fun _ ex2 hex2 => ?_⟩, fun hge => ?_⟩
  · cases hex2
    have hlt' : (minUint value remaining).val < value.val := hlt
    have hover : s.order.data.2.valueT.val < (ex.filled s.order.orderHash).val +
        (ex.cancelled s.order.orderHash).val + value.val := by omega
    have hall : (ex.filled s.order.orderHash).val + (ex.cancelled s.order.orderHash).val +
        (minUint value remaining).val = s.order.data.2.valueT.val := by omega
    exact ⟨_, f, ms, ⟨hinit, hinit⟩, hunfinished, rfl, hsigned, hfits, hfilled, hcancelled, hmoves,
      hreceived, hprice, Or.inr ⟨hover, hall, r, by omega, by omega, rfl, rfl⟩⟩
  · have hge' : ¬ (minUint value remaining).val < value.val := hge
    have hwithin : (ex.filled s.order.orderHash).val + (ex.cancelled s.order.orderHash).val +
        value.val ≤ s.order.data.2.valueT.val := by omega
    have heq : minUint value remaining = value := Fin.ext (by omega)
    exact ⟨_, f, ms, ⟨hinit, hinit⟩, hunfinished, rfl, hsigned, hfits, hfilled, hcancelled, hmoves,
      hreceived, hprice, Or.inl ⟨hwithin, heq, hunfinished, rfl⟩⟩

/-! ## One call -/

variable {dep : Deployment} {st st' : Storage × Exchange.Storage}

/-- What `init` does that goes through. -/
structure Started (dep : Deployment) (o : OrderData) (sig : Signature)
    (st st' : Storage × Exchange.Storage) : Prop where
  fresh : st.1.isInitialized = false
  tokenM : o.1.tokenM = dep.PROTOCOL_TOKEN_ADDRESS
  tokenT : o.1.tokenT = dep.CHX_TOKEN_ADDRESS
  signed : isValidSignature dep.crypto o.1.maker (getOrderHash dep o) sig = true
  result : st' = ({ st.1 with order := ⟨o, sig, getOrderHash dep o⟩, isInitialized := true }, st.2)

/-- **What a call does that goes through.** -/
inductive SystemStep (dep : Deployment) (st : Storage × Exchange.Storage) :
    SystemCall → Storage × Exchange.Storage → Prop
  | paid {msg : Msg} {value d f : Uint256} {ms : List Exchange.Move}
      {st' : Storage × Exchange.Storage} (h : Paid dep msg value st st' d f ms) :
      SystemStep dep st (.sale (.pay msg value)) st'
  | started {sender : Address} {o : OrderData} {sig : Signature}
      {st' : Storage × Exchange.Storage} (h : Started dep o sig st st') :
      SystemStep dep st (.sale (.init sender o sig)) st'
  | administered (c : Call) (owner : Address) :
      SystemStep dep st (.sale c) ({ st.1 with owner := owner }, st.2)
  | exchanged (c : Exchange.Call) {ex : Exchange.Storage} (h : Exchange.Later st.2 ex) :
      SystemStep dep st (.exchange c) (st.1, ex)

theorem started_init {sender : Address} {o : OrderData} {sig : Signature} :
    wp Boundary.still (Contract.link (onExchange dep) (init dep sender o sig))
      (fun _ st' => Started dep o sig st st') st := by
  simp only [init, setTokenAllowance, onExchange, Lens.snd, link_bind, link_get, link_require,
    link_extCall, link_modify, link_pure, wp_bind, wp_get, wp_pure, wp_require, wp_zoom, wp_modify,
    wp_extCall]
  intro hfresh _ htokenM htokenT hsig _
  refine ⟨trivial, fun _ ex hex _ _ => ?_⟩
  cases hex
  exact ⟨hfresh, htokenM, htokenT, hsig, rfl⟩

/-- The stored hash is that of the stored order. -/
def Hashed (dep : Deployment) (s : Storage) : Prop :=
  s.isInitialized = true → s.order.orderHash = Exchange.getOrderHash dep.exchange s.order.data

theorem step_entry (c : Call) (hhash : Hashed dep st.1) :
    wp Boundary.still (Contract.link (onExchange dep) (entry dep c))
      (fun _ st' => SystemStep dep st (.sale c) st') st := by
  cases c with
  | pay msg value =>
    refine wp_mono (paid_fallback hhash) ?_
    rintro _ st' ⟨_, _, _, h⟩
    exact .paid h
  | init sender o sig => exact wp_mono started_init fun _ st' h => .started h
  | setTokenAllowance sender token allowance =>
    simp only [entry, setTokenAllowance, Contract.void, onExchange, Lens.snd, link_bind, link_get,
      link_require, link_extCall, link_pure, wp_bind, wp_get, wp_pure, wp_require, wp_zoom,
      wp_extCall]
    refine fun _ => ⟨trivial, fun _ ex hex _ => ?_⟩
    cases hex
    exact .administered _ st.1.owner
  | transferOwnership sender newOwner =>
    simp only [entry, transferOwnership, link_bind, link_get, link_require, link_ite, link_modify,
      link_pure, wp_bind, wp_get, wp_pure, wp_require, wp_ite, wp_modify]
    exact fun _ => ⟨fun _ => .administered _ newOwner, fun _ => .administered _ st.1.owner⟩

/-- **The rule for the system.** -/
theorem step_system (c : SystemCall) (hhash : Hashed dep st.1) :
    wp Boundary.still (system dep c) (fun _ st' => SystemStep dep st c st') st := by
  cases c with
  | sale c => exact step_entry c hhash
  | exchange c =>
    rw [system, wp_zoom, wp_relabel]
    exact wp_mono (Exchange.later_entry (A := fun _ _ => True) c (fun _ _ _ _ => trivial)
      fun _ _ _ _ _ _ => trivial) fun _ ex hex => .exchanged c hex

/-! ## The effects are those of the answers -/

/-- What is noted are the effects. -/
def Noted (st : (Storage × Exchange.Storage) × List Effect) : Prop := st.2 = st.1.1.effects

/-- The exchange's own questions are not noted. -/
theorem wp_noted_exchange {α : Type} {m : Contract Exchange.Storage Exchange.Query Uint256 α}
    {post : α → Exchange.Storage × List Effect → Prop} {ex : Exchange.Storage × List Effect}
    (h : ∀ a ex', post a (ex', ex.2)) :
    wp Boundary.still (Contract.link (noting noteEffect) (Contract.relabel Sum.inl m)) post ex := by
  rw [link_relabel]
  refine wp_mono (wp_link_of_wp (A := fun _ _ => True) (J := (· = ex.2)) ?_ wp_still_true rfl) ?_
  · rintro q _ es - rfl
    simp only [noting, wp_bind, wp_extCall, wp_modify, wp_pure]
    exact ⟨trivial, fun _ _ hes => hes⟩
  · rintro a ⟨ex', es⟩ ⟨-, rfl⟩
    exact h a ex'

theorem noted_entry (c : Call) {st : (Storage × Exchange.Storage) × List Effect} (h : Noted st) :
    wp Boundary.still ((Contract.link (onExchange dep) (entry dep c)).noted noteEffect)
      (fun _ st' => Noted st') st := by
  cases c with
  | pay msg value =>
    simp only [entry, fallback, deposit, fillOrKill, forward, refund, record, onExchange,
      Exchange.getUnavailableValueT, Contract.noted, link_bind, link_get, link_require,
      link_extCall, link_zoom, link_ofOption, link_ite, link_modify, link_pure, wp_bind, wp_get,
      wp_pure, wp_require, wp_ofOption, wp_ite, wp_modify, wp_noting_beside]
    intro _ _
    rw [wp_zoom]
    refine wp_noted_exchange fun unavailable ex1 remaining _ => ⟨trivial, ?_⟩
    rintro _ _ rfl
    rw [wp_zoom, wp_bind]
    refine wp_noted_exchange fun success ex2 _ f _ => ⟨trivial, ?_⟩
    rintro a _ rfl hne
    have hforwarded : Noted ((({ st.1.1 with
        effects := .forwarded msg.sender f :: .deposited (minUint value remaining) ::
          st.1.1.effects }), ex2), noteEffect (.inr (.transfer msg.sender f)) a
            (.deposited (minUint value remaining) :: st.2)) := by
      rw [Noted, noteEffect, if_pos hne, h]
    refine ⟨fun _ change _ => ⟨trivial, ?_⟩, fun _ => hforwarded⟩
    rintro _ _ rfl
    exact congrArg (Effect.refunded msg.sender change :: ·) hforwarded
  | init sender o sig =>
    simp only [entry, init, setTokenAllowance, onExchange, Contract.noted, link_bind, link_get,
      link_require, link_extCall, link_zoom, link_modify, link_pure, wp_bind, wp_get, wp_pure,
      wp_require, wp_modify, wp_noting_beside]
    refine fun _ _ _ _ _ _ => ⟨trivial, ?_⟩
    rintro _ _ rfl _ _
    exact h
  | setTokenAllowance sender token allowance =>
    simp only [entry, setTokenAllowance, Contract.void, onExchange, Contract.noted, link_bind,
      link_get, link_require, link_extCall, link_zoom, link_pure, wp_bind, wp_get, wp_pure,
      wp_require, wp_noting_beside]
    refine fun _ => ⟨trivial, ?_⟩
    rintro _ _ rfl _
    exact h
  | transferOwnership sender newOwner =>
    simp only [entry, transferOwnership, Contract.noted, link_bind, link_get, link_require,
      link_ite, link_modify, link_pure, wp_bind, wp_get, wp_pure, wp_require, wp_ite, wp_modify]
    exact fun _ => ⟨fun _ => h, fun _ => h⟩

theorem noted_system (c : SystemCall) {st : (Storage × Exchange.Storage) × List Effect}
    (h : Noted st) :
    wp Boundary.still ((system dep c).noted noteEffect) (fun _ st' => Noted st') st := by
  cases c with
  | sale c => exact noted_entry c h
  | exchange c =>
    simp only [system, Contract.noted, link_zoom]
    rw [wp_zoom]
    exact wp_noted_exchange fun _ _ => h

/-! ## Runs -/

/-- **The books of the crowdsale balance.** -/
structure Sold (dep : Deployment) (st : Storage × Exchange.Storage) : Prop where
  fresh : st.1.isInitialized = false → st.1.effects = []
  hash : Hashed dep st.1
  filled : deposited st.1.effects ≤ (st.2.filled st.1.order.orderHash).val
  bound : deposited st.1.effects ≤ st.1.order.data.2.valueT.val
  forwarded : forwarded st.1.effects ≤ share st.1.order.data.2.valueT.val
    (deposited st.1.effects) st.1.order.data.2.valueM.val

theorem sold_init (owner : Address) (ex : Exchange.Storage) :
    Sold dep (Storage.init owner, ex) where
  fresh := fun _ => rfl
  hash := fun h => absurd h (by simp [Storage.init])
  filled := Nat.zero_le _
  bound := Nat.zero_le _
  forwarded := Nat.zero_le _

theorem Paid.deposited {msg : Msg} {value d f : Uint256} {ms : List Exchange.Move}
    (h : Paid dep msg value st st' d f ms) :
    deposited st'.1.effects = d.val + deposited st.1.effects := by
  rcases h.effects with ⟨-, -, -, he⟩ | ⟨-, -, r, -, -, -, he⟩
  · rw [he]
    rfl
  · rw [he]
    rfl

theorem Paid.forwarded {msg : Msg} {value d f : Uint256} {ms : List Exchange.Move}
    (h : Paid dep msg value st st' d f ms) :
    forwarded st'.1.effects = f.val + forwarded st.1.effects := by
  rcases h.effects with ⟨-, -, -, he⟩ | ⟨-, -, r, -, -, -, he⟩
  · rw [he]
    rfl
  · rw [he]
    rfl

/-- A payment keeps the books: the shares of the deposits add up to at most the share of their
sum. -/
theorem Paid.sold {msg : Msg} {value d f : Uint256} {ms : List Exchange.Move}
    (h : Paid dep msg value st st' d f ms) (hs : Sold dep st) : Sold dep st' := by
  have hfits := h.fits
  have hfilled := hs.filled
  refine ⟨fun hno => ?_, fun _ => ?_, ?_, ?_, ?_⟩
  · rw [h.isInitialized.2] at hno
    exact absurd hno (by simp)
  · rw [h.order]
    exact hs.hash h.isInitialized.1
  · rw [h.deposited, h.order, h.filled]
    omega
  · rw [h.deposited, h.order]
    omega
  · rw [h.deposited, h.order, h.forwarded, h.price]
    have hsum := share_add_le st.1.order.data.2.valueT.val d.val
      (SimpleCrowdsale.deposited st.1.effects) st.1.order.data.2.valueM.val
    have := hs.forwarded
    omega

/-- **Every call keeps the books of the crowdsale**; `init` starts them. -/
theorem SystemStep.sold {c : SystemCall} (h : SystemStep dep st c st') (hs : Sold dep st) :
    Sold dep st' := by
  cases h with
  | paid h => exact h.sold hs
  | started h =>
    obtain ⟨hfresh, -, -, -, rfl⟩ := h
    have heffects : st.1.effects = [] := hs.fresh hfresh
    refine ⟨fun h => absurd h (by simp), fun _ => getOrderHash_eq dep _, ?_, ?_, ?_⟩ <;>
      rw [heffects] <;>
      exact Nat.zero_le _
  | administered c owner => exact ⟨hs.fresh, hs.hash, hs.filled, hs.bound, hs.forwarded⟩
  | exchanged c h =>
    exact ⟨hs.fresh, hs.hash, Nat.le_trans hs.filled (h.filled _), hs.bound, hs.forwarded⟩

/-- A finished sale stays finished. -/
theorem SystemStep.finished {c : SystemCall} (h : SystemStep dep st c st')
    (hs : st.1.isFinished = true) : st'.1.isFinished = true := by
  cases h with
  | paid h =>
    rw [h.unfinished] at hs
    exact absurd hs (by simp)
  | started h =>
    obtain ⟨-, -, -, -, rfl⟩ := h
    exact hs
  | administered c owner => exact hs
  | exchanged c h => exact hs

theorem sold_run (calls : List (SystemCall × List (Option Uint256))) (hs : Sold dep st) :
    Sold dep (runSeq (system dep) st calls) :=
  runSeq_invariant calls st (fun c _ _ hs => wp_mono (step_system c.1 hs.hash) fun _ _ h =>
    h.sold hs) hs

/-- **The crowdsale passes on what it receives.** After every run of payments and owner's calls,
interleaved with any calls of the exchange, the deposits total at most `valueT` and the forwarded
tokens at most `valueM`; a payment that then goes through finds an initialised and unfinished sale
and does what `Paid` says; a sale that was finished at some time of the run is finished; and the
effects on record are those of the deposits, transfers and sends that were answered. -/
theorem passes_on (dep : Deployment) (owner : Address) (ex : Exchange.Storage)
    (calls : List (SystemCall × List (Option Uint256))) :
    let st := runSeq (system dep) (Storage.init owner, ex) calls
    deposited st.1.effects ≤ st.1.order.data.2.valueT.val ∧
      forwarded st.1.effects ≤ st.1.order.data.2.valueM.val ∧
      (∀ msg value rs, completes (system dep) st (.sale (.pay msg value)) rs = true →
        ∃ d f ms,
          Paid dep msg value st (once (system dep) st (.sale (.pay msg value)) rs) d f ms) ∧
      (∀ before after, calls = before ++ after →
        (runSeq (system dep) (Storage.init owner, ex) before).1.isFinished = true →
        st.1.isFinished = true) ∧
      st.1.effects =
        noteAll noteEffect [] (answeredSeq (system dep) (Storage.init owner, ex) calls) := by
  intro st
  have hs : Sold dep st := sold_run calls (sold_init owner ex)
  have hnoted : Noted (st, noteAll noteEffect []
      (answeredSeq (system dep) (Storage.init owner, ex) calls)) :=
    runSeq_noted (J := fun st es => Noted (st, es)) (fun c _ _ h => noted_system c h) calls _ _ rfl
  refine ⟨hs.bound, Nat.le_trans hs.forwarded (share_le hs.bound _), fun msg value rs hc => ?_, ?_,
    hnoted.symm⟩
  · have hpaid : wp Boundary.still (system dep (.sale (.pay msg value)))
        (fun _ st' => ∃ d f ms, Paid dep msg value st st' d f ms) st := paid_fallback hs.hash
    obtain ⟨_, h⟩ := completes_spec hpaid hc
    exact h
  · rintro before after rfl hfinished
    have hsplit : st = runSeq (system dep)
        (runSeq (system dep) (Storage.init owner, ex) before) after := List.foldl_append
    rw [hsplit]
    refine (runSeq_invariant after _ (I := fun st => Sold dep st ∧ st.1.isFinished = true)
      (fun c _ st hs => wp_mono (step_system c.1 hs.1.hash) fun _ _ h => ?_)
      ⟨sold_run before (sold_init owner ex), hfinished⟩).2
    exact ⟨h.sold hs.1, h.finished hs.2⟩

/-- Of a sale of 10 that was started by its owner `7`, account `20` has bought 4. -/
def boughtFour : List (SystemCall × List (Option Uint256)) :=
  [(.sale (.init 7 Exchange.sampleOrder Exchange.sampleSig), [some 1]),
    (.sale (.pay ⟨20, 50⟩ 4), [some 1, some 1, some 1, some 1])]

/-- Account `21` pays 8, of which 6 are left to buy, and gets 2 back. -/
theorem passes_on_boughtFour :
    let dep : Deployment := ⟨Exchange.sample, 5, 30, 40⟩
    let st := runSeq (system dep) (Storage.init 7, Exchange.Storage.init) boughtFour
    let st' := once (system dep) st (.sale (.pay ⟨21, 50⟩ 8))
      [some 1, some 1, some 1, some 1, some 1]
    (∃ d f ms, Paid dep ⟨21, 50⟩ 8 st st' d f ms) ∧ st'.1.isFinished = true ∧
      st'.1.effects = [.refunded 21 2, .forwarded 21 1200, .deposited 6, .forwarded 20 800,
        .deposited 4] := by
  intro dep st st'
  have hpaid := (passes_on dep 7 Exchange.Storage.init boughtFour).2.2.1 ⟨21, 50⟩ 8
    [some 1, some 1, some 1, some 1, some 1] (by decide +kernel)
  exact ⟨hpaid, by decide +kernel, by decide +kernel⟩

end ChainX.SimpleCrowdsale
