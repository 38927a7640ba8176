import ChainX.Exchange.Market
import ChainX.SimpleCrowdsale.Books
import ChainX.Token.ChainXToken

/-!
# The crowdsale among all contracts

The crowdsale and its exchange linked with the proxy and the tokens: `PROTOCOL_TOKEN_ADDRESS` holds
a `StandardToken`, `CHX_TOKEN_ADDRESS` the `ChainXToken`. What is left to the outside are foreign
tokens and the receivers of `send`, which get only the gas stipend.

* A `WorldCall` is a call of any of the contracts by anybody. Runs of them start from any tokens and
  any proxy, and so from whatever other contracts have done before.
* The deposit of a payment is a call of the CHX token by the crowdsale, and its withdrawals send
  ether, which the outside may refuse.

Results:
* `Selling`: the sale is of a stored order; `Backing`: no sum of the two tokens wraps around.
* `supplied_world`: no call changes a supply but that of the CHX token, which stays backed.
* **`world_run`**, `supplied_run`: the same over every run of calls by anybody.
-/

namespace ChainX.SimpleCrowdsale

open ChainX.Evm ChainX.Reentry ChainX.Token
open ChainX.Exchange (OrderData)

-- the hash is never computed here
attribute [local irreducible] Exchange.getOrderHash

/-! ## The market -/

/-- What is left to the outside. -/
inductive Outside where
  /-- A call of a foreign token. -/
  | token (q : Token.Query)
  | send (receiver : Address) (amount : Uint256)

/-- The tokens of the chain. -/
def chain (kind : Address → Kind) : Chain Outside := ⟨kind, .token⟩

/-- The questions of the crowdsale and its exchange are answered by the proxy and the tokens. -/
def onMarket (dep : Deployment) (kind : Address → Kind) :
    Ask → Contract Exchange.Market Outside Uint256 Uint256
  | .inl q => Exchange.onMarket dep.exchange (chain kind) q
  | .inr (.deposit value) => do
    Contract.zoom (Lens.snd.comp (Tokens.one dep.CHX_TOKEN_ADDRESS))
      (ChainXToken.deposit dep.this value)
    return 0
  | .inr (.transfer payee value) => Contract.zoom Lens.snd
      (tokens (chain kind) ⟨dep.PROTOCOL_TOKEN_ADDRESS, dep.this, .transfer payee value⟩)
  | .inr (.approve token spender value) => Contract.zoom Lens.snd
      (tokens (chain kind) ⟨token, dep.this, .approve spender value⟩)
  | .inr (.send receiver value) => Contract.extCall (.send receiver value)
  -- the exchange has answered these two
  | .inr (.getUnavailableValueT _) => Contract.revert
  | .inr (.fillOrKill ..) => Contract.revert

/-- The crowdsale, the exchange, the proxy and the tokens. -/
abbrev World := (Storage × Exchange.Storage) × Exchange.Market

/-- One token of the world. -/
def World.token (token : Address) : Lens World Token.Storage :=
  Lens.snd.comp (Lens.snd.comp (Tokens.one token))

/-- A call of any of the contracts, by anybody. -/
inductive WorldCall where
  | system (c : SystemCall)
  | proxy (c : Proxy.Call)
  | token (q : Token.Query)
  | chx (c : ChainXToken.Call)

/-- The code a call runs. -/
def world (dep : Deployment) (kind : Address → Kind) :
    WorldCall → Contract World Outside Uint256 Unit
  | .system c => Contract.link (onMarket dep kind) (system dep c)
  | .proxy c => Contract.zoom Lens.snd
      (Contract.link (Exchange.onTokens dep.exchange (chain kind)) (Proxy.entry c))
  | .token q => Contract.zoom (Lens.snd.comp Lens.snd) (tokens (chain kind) q).void
  | .chx c => Contract.zoom (World.token dep.CHX_TOKEN_ADDRESS)
      (Contract.relabel (fun q => .send q.receiver q.amount)
        (Contract.reanswer (fun _ => ()) (ChainXToken.entry c)))

/-! ## What stays -/

variable {dep : Deployment} {kind : Address → Kind}

/-- The sale is of a stored order, and ends with it. -/
structure Selling (dep : Deployment) (st : Storage × Exchange.Storage) : Prop where
  hash : Hashed dep st.1
  fresh : st.1.isInitialized = false → st.1.isFinished = false
  order : st.1.isInitialized = true →
    st.1.order.data.1.tokenM = dep.PROTOCOL_TOKEN_ADDRESS ∧
      st.1.order.data.1.tokenT = dep.CHX_TOKEN_ADDRESS ∧
      isValidSignature dep.crypto st.1.order.data.1.maker st.1.order.orderHash st.1.order.sig = true
  finished : st.1.isFinished = true → st.1.order.data.2.valueT.val ≤
    (st.2.filled st.1.order.orderHash).val + (st.2.cancelled st.1.order.orderHash).val

theorem selling_init (owner : Address) (ex : Exchange.Storage) :
    Selling dep (Storage.init owner, ex) where
  hash := fun h => absurd h (by simp [Storage.init])
  fresh := fun _ => rfl
  order := fun h => absurd h (by simp [Storage.init])
  finished := fun h => absurd h (by simp [Storage.init])

theorem SystemStep.selling {c : SystemCall} {st st' : Storage × Exchange.Storage}
    (h : SystemStep dep st c st') (hs : Selling dep st) : Selling dep st' := by
  cases h with
  | paid h =>
    obtain ⟨hinit, hinit'⟩ := h.isInitialized
    refine ⟨fun _ => ?_, fun hno => ?_, fun _ => ?_, fun hfinished => ?_⟩
    · rw [h.order]
      exact hs.hash hinit
    · rw [hinit'] at hno
      exact absurd hno (by simp)
    · rw [h.order]
      exact hs.order hinit
    · rw [h.order, h.filled, h.cancelled]
      rcases h.effects with ⟨-, -, hno, -⟩ | ⟨-, hall, -⟩
      · rw [hno] at hfinished
        exact absurd hfinished (by simp)
      · omega
  | started h =>
    obtain ⟨hfresh, htokenM, htokenT, hsig, rfl⟩ := h
    refine ⟨fun _ => getOrderHash_eq dep _, fun h => absurd h (by simp),
      fun _ => ⟨htokenM, htokenT, hsig⟩, fun hfinished => ?_⟩
    have hno := hs.fresh hfresh
    simp only [hno, Bool.false_eq_true] at hfinished
  | administered c owner => exact ⟨hs.hash, hs.fresh, hs.order, hs.finished⟩
  | exchanged c h =>
    refine ⟨hs.hash, hs.fresh, hs.order, fun hfinished => ?_⟩
    have hle := hs.finished hfinished
    have hfilled := h.filled st.1.order.orderHash
    have hcancelled := h.cancelled st.1.order.orderHash
    simp only
    omega

/-- The protocol token's supply rules out that any of its sums wraps around, and the CHX token is
fully backed. -/
structure Backing (dep : Deployment) (m : Exchange.Market) : Prop where
  protocol : supply (m.2 dep.PROTOCOL_TOKEN_ADDRESS) < 2 ^ 255
  chx : ChainXToken.Backed (m.2 dep.CHX_TOKEN_ADDRESS)

/-- One contract is not both tokens. -/
theorem protocol_ne_chx (hP : kind dep.PROTOCOL_TOKEN_ADDRESS = .standard)
    (hC : kind dep.CHX_TOKEN_ADDRESS = .withOverflowProtection) :
    dep.PROTOCOL_TOKEN_ADDRESS ≠ dep.CHX_TOKEN_ADDRESS := by
  intro he
  rw [he, hC] at hP
  exact absurd hP (by decide)

theorem Backing.room_protocol {m : Exchange.Market} (hm : Backing dep m)
    (hP : kind dep.PROTOCOL_TOKEN_ADDRESS = .standard) :
    (kind dep.PROTOCOL_TOKEN_ADDRESS).Room (m.2 dep.PROTOCOL_TOKEN_ADDRESS) := by
  rw [hP]
  exact hm.protocol

/-- A backed token counts its balances in one word. -/
theorem room_of_backed {s : Token.Storage}
    (hC : kind dep.CHX_TOKEN_ADDRESS = .withOverflowProtection) (hs : ChainXToken.Backed s) :
    (kind dep.CHX_TOKEN_ADDRESS).Room s := by
  have hsupply : supply s = s.totalSupply.val := hs
  rw [hC]
  exact s.totalSupply.isLt.trans_le' hsupply.le

/-- What a call does to the supplies: none changes but that of the CHX token, which stays backed. -/
structure Supplied (dep : Deployment) (m m' : Exchange.Market) : Prop where
  others : ∀ t, t ≠ dep.CHX_TOKEN_ADDRESS → SameSupply (m.2 t) (m'.2 t)
  chx : ChainXToken.Backed (m.2 dep.CHX_TOKEN_ADDRESS) →
    ChainXToken.Backed (m'.2 dep.CHX_TOKEN_ADDRESS)

theorem Supplied.refl (dep : Deployment) (m : Exchange.Market) : Supplied dep m m :=
  ⟨fun _ _ => SameSupply.refl _, id⟩

theorem Supplied.trans {m m' m'' : Exchange.Market} (h : Supplied dep m m')
    (h' : Supplied dep m' m'') : Supplied dep m m'' :=
  ⟨fun t ht => (h.others t ht).trans (h'.others t ht), fun hm => h'.chx (h.chx hm)⟩

theorem supplied_of_same {m m' : Exchange.Market} (h : ∀ t, SameSupply (m.2 t) (m'.2 t)) :
    Supplied dep m m' := by
  refine ⟨fun t _ => h t, fun hm => ?_⟩
  unfold ChainXToken.Backed
  rw [(h _).supply, (h _).totalSupply]
  exact hm

/-- A call of the CHX token leaves all others alone. -/
theorem supplied_chxUpdate {m : Exchange.Market} {s' : Token.Storage}
    (h : ChainXToken.Backed (m.2 dep.CHX_TOKEN_ADDRESS) → ChainXToken.Backed s') :
    Supplied dep m (m.1, Function.update m.2 dep.CHX_TOKEN_ADDRESS s') := by
  refine ⟨fun t ht => ?_, fun hm => ?_⟩
  · simp only [Function.update_of_ne ht]
    exact SameSupply.refl _
  · simp only [Function.update_self]
    exact h hm

theorem Supplied.backing {m m' : Exchange.Market} (h : Supplied dep m m')
    (hne : dep.PROTOCOL_TOKEN_ADDRESS ≠ dep.CHX_TOKEN_ADDRESS) (hm : Backing dep m) :
    Backing dep m' := by
  refine ⟨?_, h.chx hm.chx⟩
  rw [(h.others _ hne).supply]
  exact hm.protocol

theorem supplied_onMarket (q : Ask) {m : Exchange.Market} :
    wp Boundary.still (onMarket dep kind q) (fun _ m' => Supplied dep m m') m := by
  cases q with
  | inl q => exact wp_mono (Exchange.wp_onMarket_supply q) fun _ _ h => supplied_of_same h
  | inr q =>
    cases q with
    | getUnavailableValueT orderHash => trivial
    | fillOrKill timestamp o fillValueT sig => trivial
    | deposit value =>
      simp only [onMarket, wp_bind, wp_zoom, wp_pure]
      exact wp_mono ChainXToken.wp_deposit fun _ s' h => supplied_chxUpdate h.backed
    | transfer payee value =>
      exact (wp_zoom _).mpr (wp_mono (wp_tokens_supply _) fun _ _ h => supplied_of_same h)
    | approve token spender value =>
      exact (wp_zoom _).mpr (wp_mono (wp_tokens_supply _) fun _ _ h => supplied_of_same h)
    | send receiver value =>
      refine wp_extCall.mpr ⟨trivial, fun _ m' hm' => ?_⟩
      rw [show m' = m from hm']
      exact Supplied.refl dep m

/-- **What a call of any contract does to the supplies.** -/
theorem supplied_world (c : WorldCall) {w : World} :
    wp Boundary.still (world dep kind c) (fun _ w' => Supplied dep w.2 w'.2) w := by
  cases c with
  | system c =>
    have hkeep : ∀ (q : Ask) (_ : Storage × Exchange.Storage) (m : Exchange.Market),
        True → Supplied dep w.2 m →
          wp Boundary.still (onMarket dep kind q) (fun _ m' => Supplied dep w.2 m') m :=
      fun q _ _ _ hm => wp_mono (supplied_onMarket q) fun _ _ h => hm.trans h
    exact wp_mono (wp_link_of_wp (A := fun _ _ => True) hkeep wp_still_true (Supplied.refl dep w.2))
      fun _ _ h => h.2
  | proxy c =>
    refine (wp_zoom _).mpr (wp_mono (wp_link_of_wp (A := fun _ _ => True)
      (J := fun ts => ∀ t, SameSupply (w.2.2 t) (ts t)) (fun q _ ts _ hts => ?_) wp_still_true
      fun t => SameSupply.refl _) fun _ m' h => supplied_of_same h.2)
    exact wp_mono (wp_tokens_supply _) fun _ _ h t => (hts t).trans (h t)
  | token q =>
    simp only [world, wp_zoom, wp_void]
    exact wp_mono (wp_tokens_supply _) fun _ _ h => supplied_of_same h
  | chx c =>
    simp only [world, wp_zoom, wp_relabel]
    by_cases hbacked : ChainXToken.Backed (w.2.2 dep.CHX_TOKEN_ADDRESS)
    · refine wp_reanswer _ (wp_mono (ChainXToken.keeps_backed c hbacked) fun _ s' h => ?_)
      exact supplied_chxUpdate fun _ => h
    · refine wp_reanswer _ (wp_mono wp_still_true fun _ s' _ => ?_)
      exact supplied_chxUpdate fun h => absurd h hbacked

/-- **Every call keeps the sale and the backing.** -/
theorem world_keeps (hne : dep.PROTOCOL_TOKEN_ADDRESS ≠ dep.CHX_TOKEN_ADDRESS) (c : WorldCall)
    {w : World} (hs : Selling dep w.1) (hm : Backing dep w.2) :
    wp Boundary.still (world dep kind c) (fun _ w' => Selling dep w'.1 ∧ Backing dep w'.2) w := by
  have hselling : wp Boundary.still (world dep kind c) (fun _ w' => Selling dep w'.1) w := by
    cases c with
    | system c =>
      refine wp_mono (wp_link_of_wp (A := fun _ _ => True) (J := fun _ => True)
        (fun _ _ _ _ _ => wp_still_true) (step_system c hs.hash) trivial) ?_
      exact fun _ _ h => h.1.selling hs
    | proxy c => exact (wp_zoom _).mpr (wp_mono wp_still_true fun _ _ _ => hs)
    | token q => exact (wp_zoom _).mpr (wp_mono wp_still_true fun _ _ _ => hs)
    | chx c => exact (wp_zoom _).mpr (wp_mono wp_still_true fun _ _ _ => hs)
  exact wp_mono (wp_and hselling (supplied_world c)) fun _ _ h => ⟨h.1, h.2.backing hne hm⟩

/-! ## Runs -/

/-- The sale and the backing are kept over every run. -/
theorem world_run (hne : dep.PROTOCOL_TOKEN_ADDRESS ≠ dep.CHX_TOKEN_ADDRESS) (owner : Address)
    (ex : Exchange.Storage) {m : Exchange.Market} (hm : Backing dep m)
    (calls : List (WorldCall × List (Option Uint256))) :
    Selling dep (runSeq (world dep kind) ((Storage.init owner, ex), m) calls).1 ∧
      Backing dep (runSeq (world dep kind) ((Storage.init owner, ex), m) calls).2 :=
  runSeq_invariant calls _ (I := fun W : World => Selling dep W.1 ∧ Backing dep W.2)
    (fun c _ _ hW => world_keeps hne c.1 hW.1 hW.2) ⟨selling_init owner ex, hm⟩

/-- The supplies are kept over every run. -/
theorem supplied_run (st : Storage × Exchange.Storage) (m : Exchange.Market)
    (calls : List (WorldCall × List (Option Uint256))) :
    Supplied dep m (runSeq (world dep kind) (st, m) calls).2 :=
  runSeq_invariant calls _ (I := fun W : World => Supplied dep m W.2)
    (fun c _ _ hW => wp_mono (supplied_world c.1) fun _ _ h => hW.trans h) (Supplied.refl dep m)

/-- Where no sum overflowed, none overflows. -/
theorem Supplied.room {m m' : Exchange.Market} {t : Address} (h : Supplied dep m m')
    (hC : kind dep.CHX_TOKEN_ADDRESS = .withOverflowProtection)
    (hbacked : ChainXToken.Backed (m.2 dep.CHX_TOKEN_ADDRESS))
    (hroom : (kind t).Room (m.2 t)) : (kind t).Room (m'.2 t) := by
  by_cases ht : t = dep.CHX_TOKEN_ADDRESS
  · subst ht
    exact room_of_backed hC (h.chx hbacked)
  · exact hroom.same (h.others t ht)

end ChainX.SimpleCrowdsale
