import ChainX.Lib.SwapRemove
import ChainX.Proxy.Basic
import ChainX.Reentry.Machine

/-!
# The authorities of the proxy

Tokens are arbitrary code: a token that is asked for a transfer may call the proxy again, to any
depth, before it answers, and a transfer that fails undoes what happened during it. `ProxyStep` says
once what a move of such a run can do; the sequential runs are those without nesting.

A successful `addAuthorizedAddress` or `removeAuthorizedAddress` leaves its event in the log, which
is undone with the storage, and nothing else writes there. So the last event about an address tells
the last successful call that named it (`lastChange`).

**`authorities_exact`**: in every run the list and the mapping say the same, an address is
authorised exactly when the last change of it was an addition, by the owner of that moment, and a
token is called only for an address that is authorised then.
-/

namespace ChainX.Proxy

open ChainX.Evm ChainX.Lib ChainX.Reentry

variable {B : Boundary Storage Query Uint256} {s s' : Storage}

/-! ## What a call does -/

/-- The loop leaves the array that `cutLoop` computes. -/
theorem wp_removeLoop {target : Address} {post : Unit → Storage → Prop} :
    ∀ {k i : Nat} {s : Storage},
      post () { s with authorities := cutLoop target k i s.authorities } →
        wp B (removeLoop target k i) post s
  | 0, _, _, h => h
  | k + 1, i, s, h => by
    simp only [removeLoop, wp_bind, wp_get, wp_ofOption, wp_ite, wp_modify]
    intro entry hentry
    rw [cutLoop, hentry] at h
    refine ⟨fun he last hlast => ?_, fun hne => ?_⟩
    · rw [← List.getLast?_eq_getElem?] at hlast
      rw [if_pos (congrArg some he), hlast] at h
      exact h
    · rw [if_neg fun e => hne (Option.some.inj e)] at h
      exact wp_removeLoop h

/-- `s'` is `s` after the call, which passed its checks and does not call a token. -/
inductive Change : Call → Storage → Storage → Prop
  | add {s : Storage} (target : Address) (hnot : s.authorized target = false) :
      Change (.addAuthorizedAddress s.owner target) s
        { s with
          authorized := Function.update s.authorized target true
          authorities := s.authorities ++ [target]
          log := .logAuthorizedAddressAdded target s.owner :: s.log }
  | remove {s : Storage} (target : Address) (hauthorized : s.authorized target = true) :
      Change (.removeAuthorizedAddress s.owner target) s
        { s with
          authorized := Function.update s.authorized target false
          authorities := cut target s.authorities
          log := .logAuthorizedAddressRemoved target s.owner :: s.log }
  | transferOwnership {s : Storage} (newOwner : Address) :
      Change (.transferOwnership s.owner newOwner) s
        { s with owner := if newOwner = 0 then s.owner else newOwner }

/-- How `transferFrom` goes on with the answer of the token. -/
def resumeTransfer : Option Uint256 → Storage → Proc Storage Query Uint256 Unit
  | some success, s => if success ≠ 0 then .ret () s else .throw
  | none, _ => .throw

theorem entry_transferFrom (sender token payer payee : Address) (value : Uint256) (s : Storage) :
    entry (.transferFrom sender token payer payee value) s =
      if s.authorized sender = true then .call ⟨token, payer, payee, value⟩ s resumeTransfer
      else .throw := by
  simp only [entry, transferFrom, Contract.void, Contract.bind_apply, Contract.get_apply, Proc.bind,
    Contract.require_apply]
  by_cases h : s.authorized sender = true
  · rw [if_pos h, if_pos h]
    simp only [Contract.extCall, Contract.tryCall, Proc.bind, Contract.bind_apply]
    congr 1
    funext r s'
    cases r with
    | none => rfl
    | some success =>
      simp only [Contract.ofOption_some, Proc.bind, Contract.bind_apply, Contract.require_apply,
        resumeTransfer]
      by_cases hs : success ≠ 0
      · rw [if_pos hs]
        rfl
      · rw [if_neg hs]
        rfl
  · rw [if_neg h, if_neg h]
    rfl

/-- The calls that do not call a token. -/
theorem wp_entry (c : Call) (hc : ∀ sender token payer payee value,
    c ≠ .transferFrom sender token payer payee value) :
    wp Boundary.closed (entry c) (fun _ s' => Change c s s') s := by
  cases c with
  | addAuthorizedAddress sender target =>
    simp only [entry, addAuthorizedAddress, wp_void, wp_bind, wp_get, wp_require, wp_modify,
      wp_pure]
    rintro rfl hnot
    exact .add target hnot
  | removeAuthorizedAddress sender target =>
    simp only [entry, removeAuthorizedAddress, wp_void, wp_bind, wp_get, wp_require, wp_modify]
    rintro rfl hauthorized
    refine wp_removeLoop ?_
    simp only [wp_pure]
    exact .remove target hauthorized
  | transferOwnership sender newOwner =>
    simp only [entry, transferOwnership, wp_bind, wp_get, wp_require, wp_ite, wp_modify, wp_pure]
    rintro rfl
    have hchange := Change.transferOwnership (s := s) newOwner
    refine ⟨fun hne => ?_, fun hnull => ?_⟩
    · rwa [if_neg hne] at hchange
    · rwa [if_pos (not_not.mp hnull)] at hchange
  | transferFrom sender token payer payee value =>
    exact absurd rfl (hc sender token payer payee value)

/-! ## What a move does -/

/-- What a move of a run can do. -/
inductive ProxyStep : Move Call Uint256 → Config Storage Query Uint256 Unit →
    Config Storage Query Uint256 Unit → Prop
  /-- A call throws. -/
  | threw {c : Call} {cfg : Config Storage Query Uint256 Unit} (hthrow : entry c cfg.cur = .throw) :
      ProxyStep (.enter c) cfg cfg
  /-- A call that does not call a token succeeds. -/
  | changed {c : Call} {s s' : Storage} (h : Change c s s')
      (stack : List (Frame Storage Query Uint256 Unit)) :
      ProxyStep (.enter c) ⟨s, stack⟩ ⟨s', stack⟩
  /-- A call of `transferFrom`, made by an authorised address, calls the token. -/
  | asked {s : Storage} (sender token payer payee : Address) (value : Uint256)
      (hauthorized : s.authorized sender = true)
      (stack : List (Frame Storage Query Uint256 Unit)) :
      ProxyStep (.enter (.transferFrom sender token payer payee value)) ⟨s, stack⟩
        ⟨s, ⟨⟨token, payer, payee, value⟩, s, s, resumeTransfer⟩ :: stack⟩
  /-- Nothing waits for an answer. -/
  | idle (r : Option Uint256) (s : Storage) : ProxyStep (.answer r) ⟨s, []⟩ ⟨s, []⟩
  /-- A transfer succeeds; what happened during it stays. -/
  | transferred {success : Uint256} (hsuccess : success ≠ 0) (s : Storage)
      (F : Frame Storage Query Uint256 Unit)
      (stack : List (Frame Storage Query Uint256 Unit)) :
      ProxyStep (.answer (some success)) ⟨s, F :: stack⟩ ⟨s, stack⟩
  /-- A transfer fails; what happened during it is undone. -/
  | undone {r : Option Uint256} (hr : r = none ∨ r = some 0) (s : Storage)
      (F : Frame Storage Query Uint256 Unit)
      (stack : List (Frame Storage Query Uint256 Unit)) :
      ProxyStep (.answer r) ⟨s, F :: stack⟩ ⟨F.start, stack⟩

/-- **What a move does**, where the waiting calls are those of `transferFrom`. -/
theorem proxyStep {cfg : Config Storage Query Uint256 Unit}
    (hwait : ∀ F ∈ cfg.stack, F.resume = resumeTransfer) (m : Move Call Uint256) :
    ProxyStep m cfg (step entry cfg m) := by
  obtain ⟨s, stack⟩ := cfg
  cases m with
  | enter c =>
    by_cases hc : ∀ sender token payer payee value,
        c ≠ .transferFrom sender token payer payee value
    · have hclosed : wp Boundary.closed (entry c) (fun _ s' => Change c s s') s := wp_entry c hc
      rcases eq_of_closed hclosed with hthrow | ⟨_, s', hret, hchange⟩
      · rw [step, hthrow]
        exact .threw hthrow
      · rw [step, hret]
        exact .changed hchange stack
    · simp only [ne_eq, not_forall, not_not] at hc
      obtain ⟨sender, token, payer, payee, value, rfl⟩ := hc
      have hcode := entry_transferFrom sender token payer payee value s
      by_cases h : s.authorized sender = true
      · rw [if_pos h] at hcode
        rw [step, hcode]
        exact .asked sender token payer payee value h stack
      · rw [if_neg h] at hcode
        rw [step, hcode]
        exact .threw hcode
  | answer r =>
    cases stack with
    | nil => exact .idle r s
    | cons F below =>
      have hresume := hwait F List.mem_cons_self
      simp only [step, hresume]
      cases r with
      | none => exact .undone (.inl rfl) s F below
      | some success =>
        by_cases hs : success ≠ 0
        · simp only [resumeTransfer, if_pos hs, land]
          exact .transferred hs s F below
        · simp only [resumeTransfer, if_neg hs, land]
          exact .undone (.inr (congrArg some (not_not.mp hs))) s F below

/-! ## Runs -/

/-- Whether the last event about `a` in a log, newest first, is an addition. -/
def lastChange (a : Address) : List Event → Option Bool
  | [] => none
  | .logAuthorizedAddressAdded target _ :: log =>
    if target = a then some true else lastChange a log
  | .logAuthorizedAddressRemoved target _ :: log =>
    if target = a then some false else lastChange a log

/-- The list and the mapping say the same, and what the last change of an address says. -/
structure Exact (s : Storage) : Prop where
  nodup : (getAuthorizedAddresses s).Nodup
  mem_iff : ∀ a, a ∈ getAuthorizedAddresses s ↔ s.authorized a = true
  last : ∀ a, s.authorized a = true ↔ lastChange a s.log = some true

theorem exact_init (owner : Address) : Exact (Storage.init owner) where
  nodup := List.nodup_nil
  mem_iff a := by simp [getAuthorizedAddresses, Storage.init]
  last a := by simp [Storage.init, lastChange]

/-- **Every change keeps the authorities exact.** -/
theorem Change.exact {c : Call} (h : Change c s s') (hs : Exact s) : Exact s' := by
  have hnodup : s.authorities.Nodup := hs.nodup
  have hmem : ∀ a, a ∈ s.authorities ↔ s.authorized a = true := hs.mem_iff
  cases h with
  | add target hnot =>
    have hfresh : target ∉ s.authorities := by
      rw [hmem, hnot]
      exact Bool.false_ne_true
    refine ⟨?_, fun a => ?_, fun a => ?_⟩
    · simp only [getAuthorizedAddresses, List.nodup_append]
      refine ⟨hnodup, List.nodup_singleton _, fun a ha b hb => ?_⟩
      rintro rfl
      exact hfresh (List.mem_singleton.mp hb ▸ ha)
    · simp only [getAuthorizedAddresses, List.mem_append, List.mem_singleton]
      by_cases ha : a = target
      · subst ha
        simp
      · simp only [Function.update_of_ne ha, ha, or_false]
        exact hmem a
    · by_cases ha : a = target
      · subst ha
        simp [lastChange]
      · simp only [Function.update_of_ne ha, lastChange, if_neg (Ne.symm ha)]
        exact hs.last a
  | remove target hauthorized =>
    refine ⟨nodup_cut hnodup target, fun a => ?_, fun a => ?_⟩
    · simp only [getAuthorizedAddresses, mem_cut hnodup]
      by_cases ha : a = target
      · subst ha
        simp
      · simp only [Function.update_of_ne ha, ne_eq, ha, not_false_eq_true, true_and]
        exact hmem a
    · by_cases ha : a = target
      · subst ha
        simp [lastChange]
      · simp only [Function.update_of_ne ha, lastChange, if_neg (Ne.symm ha)]
        exact hs.last a
  | transferOwnership newOwner => exact ⟨hs.nodup, hs.mem_iff, hs.last⟩

/-- The authorities are exact, also where a failing transfer goes back to. -/
structure Sound (cfg : Config Storage Query Uint256 Unit) : Prop where
  cur : Exact cfg.cur
  resume : ∀ F ∈ cfg.stack, F.resume = resumeTransfer
  start : ∀ F ∈ cfg.stack, Exact F.start

theorem ProxyStep.sound {m : Move Call Uint256} {cfg cfg' : Config Storage Query Uint256 Unit}
    (h : ProxyStep m cfg cfg') (hs : Sound cfg) : Sound cfg' := by
  cases h with
  | threw hthrow => exact hs
  | changed h stack => exact ⟨h.exact hs.cur, hs.resume, hs.start⟩
  | asked sender token payer payee value hauthorized stack =>
    refine ⟨hs.cur, ?_, ?_⟩
    · rw [List.forall_mem_cons]
      exact ⟨rfl, hs.resume⟩
    · rw [List.forall_mem_cons]
      exact ⟨hs.cur, hs.start⟩
  | idle r s => exact hs
  | transferred hsuccess s F stack =>
    exact ⟨hs.cur, (List.forall_mem_cons.mp hs.resume).2, (List.forall_mem_cons.mp hs.start).2⟩
  | undone hr s F stack =>
    obtain ⟨hF, hstart⟩ := List.forall_mem_cons.mp hs.start
    exact ⟨hF, (List.forall_mem_cons.mp hs.resume).2, hstart⟩

theorem sound_exec : ∀ (moves : List (Move Call Uint256))
    {cfg : Config Storage Query Uint256 Unit}, Sound cfg → Sound (exec entry cfg moves)
  | [], _, hs => hs
  | m :: moves, _, hs => sound_exec moves ((proxyStep hs.resume m).sound hs)

/-- Where a run from deployment by `deployer` has come to. -/
def reached (deployer : Address) (moves : List (Move Call Uint256)) :
    Config Storage Query Uint256 Unit :=
  exec entry ⟨Storage.init deployer, []⟩ moves

/-- **The authorisation is exact over whole runs**, by any callers, with tokens that may call back.
At every moment the list has no duplicates and holds exactly the authorised addresses, which are
those whose last successful addition or removal was an addition; and every further move is one of
`ProxyStep`: a call that does not throw makes its change with its event or calls the token, only the
owner of the moment adds or removes, and only an authorised address gets a token called. -/
theorem authorities_exact (deployer : Address) (moves : List (Move Call Uint256)) :
    Exact (reached deployer moves).cur ∧
      ∀ m, ProxyStep m (reached deployer moves) (step entry (reached deployer moves) m) := by
  have hinit : Sound ⟨Storage.init deployer, []⟩ :=
    ⟨exact_init deployer, fun _ h => absurd h List.not_mem_nil,
      fun _ h => absurd h List.not_mem_nil⟩
  have hs : Sound (reached deployer moves) := sound_exec moves hinit
  exact ⟨hs.cur, proxyStep hs.resume⟩

end ChainX.Proxy
