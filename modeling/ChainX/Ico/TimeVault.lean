import ChainX.Ico.Approval
import ChainX.Ico.Transfers
import ChainX.Token.Market

/-!
# The vault of the team, `Contracts/ICO/TimeVault.sol`

The vault linked with the token it holds (`world`), a `StandardToken` that anyone may call between
the calls of the vault. `now` is given with a call. The constructor names a token that nothing
declares and is left out, so that any vault may be what a run starts from.

* `unlock` (`TimeVault.sol:42-50`) asks for the balance of the vault and moves all of it to the
  team; the fallback function throws.
* `Between` is what lies between two storages of the token: the events in between account for every
  balance, and what they take from the vault is allowed. It composes along a run, so that it is
  stated once for any part of it (`Kept`).
* That nobody may spend for the vault is asked of the token where the run starts, and stays, as the
  vault approves nothing.

**`vault_locked`**: in every run whose calls come from others than the vault, what a call takes from
the vault goes to the team, and the call is one of `unlock` after `unlockedAt`; and from then on a
call of `unlock` goes through and takes all there is.
-/

namespace ChainX.Ico.TimeVault

open ChainX.Evm ChainX.Reentry ChainX.Token

/-! ## Functions -/

/-- The events. -/
inductive Event where
  | unlocked

/-- The storage of `contract TimeVault`. -/
structure Storage where
  isTimeVault : Bool
  teamMultisig : Address
  unlockedAt : Uint256
  /-- The events, newest first. -/
  log : List Event

/-- A call of the token. -/
inductive Query where
  | balanceOf (owner : Address)
  | transfer (payee : Address) (value : Uint256)

variable (this : Address)

/-- `getTokenBalance`: what the token says the vault has. -/
def getTokenBalance : Contract Storage Query Uint256 Uint256 := Contract.extCall (.balanceOf this)

/-- `unlock`: all of it goes to the team, but not before `unlockedAt`. -/
def unlock (now : Uint256) : Contract Storage Query Uint256 Unit := do
  let s ← Contract.get
  Contract.require (¬ now < s.unlockedAt)
  let value ← getTokenBalance this
  let _ ← Contract.extCall (.transfer s.teamMultisig value)
  Contract.modify fun s => { s with log := .unlocked :: s.log }

/-- Everything that no function is for. -/
def fallback : Contract Storage Query Uint256 Unit := Contract.revert

/-! ## The vault and its token -/

variable {Q R : Type}

/-- The data of a call of `transfer` are a selector and two words. -/
def onToken : Query → Contract Token.Storage Q R Uint256
  | .balanceOf owner => Token.balanceOf owner
  | .transfer payee value => do
    return word (← StandardToken.transfer this (4 + 2 * 32) payee value)

/-- A call of the vault, or of its token. -/
inductive WorldCall where
  | unlock (now : Uint256)
  | fallback
  | token (c : StandardToken.Call)

/-- The code a call runs. -/
def world : WorldCall → Contract (Storage × Token.Storage) Q R Unit
  | .unlock now => Contract.link (onToken this) (unlock this now)
  | .fallback => Contract.link (onToken this) fallback
  | .token c => Contract.zoom Lens.snd (StandardToken.entry c)

/-- Who calls the token. -/
def sender : StandardToken.Call → Address
  | .transfer sender _ _ _ => sender
  | .transferFrom sender _ _ _ => sender
  | .approve sender _ _ => sender

/-- The vault has no other code that calls the token. -/
def FromOthers : WorldCall → Prop
  | .unlock _ => True
  | .fallback => True
  | .token c => sender c ≠ this

/-! ## What the events tell -/

/-- What an event takes from an account. -/
def taken (a : Address) : Token.Event → Nat
  | .transfer payer _ value => if a = payer then value.val else 0
  | .approval .. => 0

/-- What it adds to an account. -/
def given (a : Address) : Token.Event → Nat
  | .transfer _ payee value => if a = payee then value.val else 0
  | .approval .. => 0

/-- What lies between two storages of the token: every change of a balance is in the events, and
what they take from the vault is allowed. -/
structure Between (allowed : Token.Event → Prop) (t t' : Token.Storage) : Prop where
  events : ∃ new, t'.log = new ++ t.log ∧
    (∀ a, (t'.balances a).val + (new.map (taken a)).sum =
      (t.balances a).val + (new.map (given a)).sum) ∧
    ∀ e ∈ new, taken this e ≠ 0 → allowed e
  /-- Nobody may take anything from the vault. -/
  allowance : ∀ spender, t'.allowed this spender = 0

variable {this} {allowed : Token.Event → Prop} {t t' t'' : Token.Storage}

theorem Between.refl (h : ∀ spender, t.allowed this spender = 0) : Between this allowed t t :=
  ⟨⟨[], rfl, fun _ => rfl, fun _ he => absurd he List.not_mem_nil⟩, h⟩

/-- One event more. -/
theorem Between.cons {e : Token.Event} (h : Between this allowed t t')
    (hlog : t''.log = e :: t'.log)
    (hbalances : ∀ a, (t''.balances a).val + taken a e = (t'.balances a).val + given a e)
    (hallowed : taken this e ≠ 0 → allowed e)
    (hallowance : ∀ spender, t''.allowed this spender = 0) : Between this allowed t t'' := by
  obtain ⟨⟨new, hnew, hsums, hall⟩, -⟩ := h
  refine ⟨⟨e :: new, ?_, fun a => ?_, fun e' he' => ?_⟩, hallowance⟩
  · rw [hlog, hnew, List.cons_append]
  · have hone := hbalances a
    have hrest := hsums a
    simp only [List.map_cons, List.sum_cons]
    omega
  · rcases List.mem_cons.mp he' with rfl | he'
    · exact hallowed
    · exact hall e' he'

/-! ## What a call does -/

/-- What others do with the token takes nothing from the vault. -/
theorem wp_token {c : StandardToken.Call} (hc : sender c ≠ this) {s : Storage}
    (h : Between this allowed t t') :
    wp Boundary.still (world this (.token c) : Contract (Storage × Token.Storage) Q R Unit)
      (fun _ st => st.1 = s ∧ Between this allowed t st.2) (s, t') := by
  simp only [world, wp_zoom, Lens.snd_view, Lens.snd_put]
  cases c with
  | transfer payer dataLength payee value =>
    simp only [StandardToken.entry, wp_void]
    refine wp_mono StandardToken.wp_transfer ?_
    rintro _ t'' ⟨-, hmoved, hallow, hlog⟩
    refine ⟨trivial, ?_⟩
    refine h.cons hlog hmoved.balances (fun htaken => ?_) (hallow ▸ h.allowance)
    exact absurd (if_neg fun he => hc he.symm) htaken
  | transferFrom spender payer payee value =>
    simp only [StandardToken.entry, wp_void]
    refine wp_mono StandardToken.wp_transferFrom ?_
    rintro _ t'' ⟨-, hmoved, hspent, hlog⟩
    refine ⟨trivial, ?_⟩
    have hzero : ∀ b, (t'.allowed this b).val = 0 := fun b => by rw [h.allowance b]; rfl
    refine h.cons hlog hmoved.balances (fun htaken => ?_) fun b => ?_
    · -- the allowance would have to be spent
      refine absurd htaken ?_
      by_cases he : this = payer
      · have hs := hspent this spender
        rw [hzero, if_pos ⟨he, rfl⟩] at hs
        rw [taken, if_pos he]
        omega
      · exact not_not.mpr (if_neg he)
    · have hs := hspent this b
      rw [hzero] at hs
      exact Fin.ext (by simp only [Fin.val_zero]; omega)
  | approve owner spender value =>
    simp only [StandardToken.entry, wp_void]
    refine wp_mono StandardToken.wp_approve ?_
    rintro _ t'' ⟨-, -, hbalances, hallow, hlog⟩
    refine ⟨trivial, ?_⟩
    refine h.cons hlog (fun a => ?_) (fun htaken => absurd rfl htaken) fun b => ?_
    · rw [hbalances]
      rfl
    · have hsame : t''.allowed this = t'.allowed this :=
        (congrFun hallow this).trans (Function.update_of_ne (Ne.symm hc) _ _)
      rw [hsame, h.allowance b]

/-- **The rule for `unlock`**: not before `unlockedAt`, and then all that is there. -/
theorem wp_unlock {now : Uint256} {s : Storage} :
    wp Boundary.still (world this (.unlock now) : Contract (Storage × Token.Storage) Q R Unit)
      (fun _ st => s.unlockedAt ≤ now ∧ st.1 = { s with log := .unlocked :: s.log } ∧
        Moved t st.2 this s.teamMultisig (t.balances this) ∧ st.2.allowed = t.allowed ∧
        st.2.log = .transfer this s.teamMultisig (t.balances this) :: t.log) (s, t) := by
  simp only [world, unlock, getTokenBalance, onToken, Token.balanceOf, link_bind, link_get,
    link_extCall, link_require, link_modify, wp_bind, wp_get, wp_require, wp_zoom, wp_pure,
    wp_modify, Lens.snd_view, Lens.snd_put, not_lt]
  intro hnow
  refine wp_mono StandardToken.wp_transfer ?_
  rintro _ t' ⟨-, hmoved, hallow, hlog⟩
  exact ⟨hnow, trivial, hmoved, hallow, hlog⟩

/-- When the time has come, `unlock` goes through. -/
theorem returns_unlock {now : Uint256} {s : Storage} (hnow : s.unlockedAt ≤ now)
    (hsum : supply t < 2 ^ 256) :
    returns (world this (.unlock now) : Contract (Storage × Token.Storage) Q R Unit)
      (fun _ _ => True) (s, t) := by
  simp only [world, unlock, getTokenBalance, onToken, Token.balanceOf, link_bind, link_get,
    link_extCall, link_require, link_modify, returns_bind, returns_get, returns_require,
    returns_zoom, returns_pure, returns_modify, Lens.snd_view, Lens.snd_put, not_lt]
  exact ⟨hnow, (StandardToken.returns_transfer_iff (Nat.le_refl _) hsum).mpr (Nat.le_refl _)⟩

/-! ## Runs -/

/-- What may take something from the vault in a run: a transfer to the team, in a call of `unlock`
that does not come before `unlockedAt`. -/
def Unlocking (this : Address) (s : Storage) (calls : List (WorldCall × List (Option R)))
    (e : Token.Event) : Prop :=
  (∃ value, e = .transfer this s.teamMultisig value) ∧
    ∃ now rs, (WorldCall.unlock now, rs) ∈ calls ∧ s.unlockedAt ≤ now

/-- What holds after any part of a run. -/
structure Kept (this : Address) (allowed : Token.Event → Prop) (s : Storage) (t : Token.Storage)
    (st : Storage × Token.Storage) : Prop where
  teamMultisig : st.1.teamMultisig = s.teamMultisig
  unlockedAt : st.1.unlockedAt = s.unlockedAt
  between : Between this allowed t st.2
  supply : supply st.2 = supply t

/-- One call. -/
theorem Kept.step {s : Storage} {calls : List (WorldCall × List (Option R))}
    {c : WorldCall × List (Option R)} (hmem : c ∈ calls) (hc : FromOthers this c.1)
    {st : Storage × Token.Storage} (h : Kept this (Unlocking this s calls) s t st) :
    wp Boundary.still (world this c.1 : Contract (Storage × Token.Storage) Q R Unit)
      (fun _ st' => Kept this (Unlocking this s calls) s t st') st := by
  obtain ⟨c, rs⟩ := c
  cases c with
  | unlock now =>
    refine wp_mono wp_unlock ?_
    rintro _ st' ⟨hnow, hst, hmoved, hallow, hlog⟩
    rw [h.unlockedAt] at hnow
    rw [h.teamMultisig] at hmoved hlog
    refine ⟨by rw [hst, h.teamMultisig], by rw [hst, h.unlockedAt],
      h.between.cons hlog hmoved.balances ?_ ?_, hmoved.supply.trans h.supply⟩
    · exact fun _ => ⟨⟨_, rfl⟩, now, rs, hmem, hnow⟩
    · exact hallow ▸ h.between.allowance
  | fallback => exact trivial
  | token call =>
    have hsupply : wp Boundary.still
        (world this (.token call) : Contract (Storage × Token.Storage) Q R Unit)
        (fun _ st' => Token.supply st'.2 = Token.supply st.2) st :=
      (wp_zoom Lens.snd).mpr (StandardToken.supply_step call)
    refine wp_mono (wp_and (wp_token hc h.between) hsupply) ?_
    rintro _ st' ⟨⟨hst, hbetween⟩, hsum⟩
    exact ⟨hst ▸ h.teamMultisig, hst ▸ h.unlockedAt, hbetween, hsum.trans h.supply⟩

/-- Where nothing may be taken, there is never less than there was. -/
theorem balance_le_of_between {allowed : Token.Event → Prop} (h : Between this allowed t t')
    (hnone : ∀ e, ¬ allowed e) : (t.balances this).val ≤ (t'.balances this).val := by
  obtain ⟨new, -, hsums, hall⟩ := h.events
  have hzero : (new.map (taken this)).sum = 0 := by
    refine List.sum_eq_zero fun n hn => ?_
    obtain ⟨e, he, rfl⟩ := List.mem_map.mp hn
    exact Decidable.byContradiction fun hne => hnone e (hall e he hne)
  have := hsums this
  omega

/-- A run. -/
theorem kept_run {s : Storage} (hallowance : ∀ spender, t.allowed this spender = 0)
    (calls : List (WorldCall × List (Option R))) (hcalls : ∀ c ∈ calls, FromOthers this c.1) :
    Kept this (Unlocking this s calls) s t (runSeq (world (Q := Q) this) (s, t) calls) :=
  runSeq_invariant calls (s, t) (fun c hc _ h => Kept.step hc (hcalls c hc) h)
    ⟨rfl, rfl, .refl hallowance, rfl⟩

theorem unlocking_congr {s s' : Storage} (hteam : s'.teamMultisig = s.teamMultisig)
    (hunlocked : s'.unlockedAt = s.unlockedAt) (calls : List (WorldCall × List (Option R))) :
    Unlocking this s' calls = Unlocking this s calls := by
  funext e
  rw [Unlocking, Unlocking, hteam, hunlocked]

/-- **The vault is locked until its time has come, and then it opens.** In every run whose calls
come from others, from a token that lets nobody spend for the vault: every balance is accounted for
by the events, over the run and over each of its calls; and what leaves the vault in a call leaves
it in a transfer to the team, and the call is one of `unlock` that does not come before
`unlockedAt`. So while no call of `unlock` comes that late, the vault never has less than it had.
From `unlockedAt` on, a call of `unlock` goes through after the run, and the team has then all that
the vault had. -/
theorem vault_locked (this : Address) (s : Storage) (t : Token.Storage)
    (calls : List (WorldCall × List (Option R))) (hcalls : ∀ c ∈ calls, FromOthers this c.1)
    (hallowance : ∀ spender, t.allowed this spender = 0) (hsum : supply t < 2 ^ 256) :
    let st := runSeq (world (Q := Q) this) (s, t) calls
    Between this (Unlocking this s calls) t st.2 ∧
      (∀ before c after, calls = before ++ c :: after →
        Between this (Unlocking this s [c])
          (runSeq (world (Q := Q) this) (s, t) before).2
          (runSeq (world (Q := Q) this) (s, t) (before ++ [c])).2) ∧
      ((∀ now rs, (WorldCall.unlock now, rs) ∈ calls → now < s.unlockedAt) →
        (t.balances this).val ≤ (st.2.balances this).val) ∧
      ∀ now, s.unlockedAt ≤ now →
        ∃ st', (world this (.unlock now) : Contract (Storage × Token.Storage) Q R Unit) st =
            .ret () st' ∧
          Moved st.2 st'.2 this s.teamMultisig (st.2.balances this) := by
  intro st
  have hkept : Kept this (Unlocking this s calls) s t st := kept_run hallowance calls hcalls
  refine ⟨hkept.between, ?_, fun hearly => ?_, fun now hnow => ?_⟩
  · rintro before c after rfl
    have hbefore := kept_run (Q := Q) (s := s) hallowance before fun d hd =>
      hcalls d (List.mem_append_left _ hd)
    have hone := kept_run (Q := Q) (s := (runSeq (world (Q := Q) this) (s, t) before).1)
      hbefore.between.allowance [c] fun d hd =>
        hcalls d (List.mem_append_right before (List.mem_singleton.mp hd ▸ List.mem_cons_self))
    rw [unlocking_congr hbefore.teamMultisig hbefore.unlockedAt] at hone
    have happend : runSeq (world (Q := Q) this) (s, t) (before ++ [c]) =
        runSeq (world (Q := Q) this) (runSeq (world (Q := Q) this) (s, t) before) [c] :=
      List.foldl_append
    rw [happend]
    exact hone.between
  · refine balance_le_of_between hkept.between ?_
    rintro e ⟨-, now, rs, hmem, hnow⟩
    exact absurd (hearly now rs hmem) (not_lt.mpr hnow)
  · have hreturns : returns
        (world this (.unlock now) : Contract (Storage × Token.Storage) Q R Unit)
        (fun _ _ => True) (st.1, st.2) := by
      refine returns_unlock ?_ ?_
      · rw [hkept.unlockedAt]
        exact hnow
      · rw [hkept.supply]
        exact hsum
    obtain ⟨_, st', hst', -, -, -, hmoved, -⟩ :=
      returns_iff_ret.mp (returns_and (B := .still) hreturns wp_unlock)
    rw [hkept.teamMultisig] at hmoved
    exact ⟨st', hst', hmoved⟩

/-! ## A run -/

/-- The vault at `7` of account `9`, until time `100`. -/
def hundred : Storage := ⟨true, 9, 100, []⟩

/-- Account `1` gives the vault `15` tokens, and the team comes too early. -/
def early : List (WorldCall × List (Option Unit)) :=
  [(.token (.transfer 1 68 7 15), []), (.unlock 50, [])]

theorem vault_locked_hundred :
    ∃ st', (world 7 (.unlock 100) : Contract (Storage × Token.Storage) Unit Unit Unit)
        (runSeq (world (Q := Unit) 7) (hundred, StandardToken.generous) early) = .ret () st' ∧
      Moved (runSeq (world (Q := Unit) 7) (hundred, StandardToken.generous) early).2 st'.2 7 9
        ((runSeq (world (Q := Unit) 7) (hundred, StandardToken.generous) early).2.balances 7) := by
  obtain ⟨-, -, -, hopen⟩ := vault_locked (Q := Unit) 7 hundred StandardToken.generous early
    (by
      intro c hc
      simp only [early, List.mem_cons, List.not_mem_nil, or_false] at hc
      rcases hc with rfl | rfl
      · exact (by decide : (1 : Address) ≠ 7)
      · trivial)
    (fun spender => congrFun (Function.update_of_ne (by decide : (7 : Address) ≠ 1)
      (Function.update (fun _ => 0) 2 50) fun _ _ => (0 : Uint256)) spender)
    (StandardToken.supply_generous ▸ by decide)
  exact hopen 100 (le_refl _)

end ChainX.Ico.TimeVault
