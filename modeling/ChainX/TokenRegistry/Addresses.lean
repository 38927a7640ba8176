import ChainX.TokenRegistry.Lookups

/-!
# The address list of the registry

`addToken` pushes what passes `tokenDoesNotExist` (`TokenRegistry.sol:57-61`), `removeToken` cuts
out what passes `tokenExists` (`TokenRegistry.sol:51-55`). Both modifiers take the field `token` of
the record for a presence flag, which the null address cannot set: it passes `tokenDoesNotExist`
whenever it is added (`null_listed`).

* The removal goes through the whole array, takes the last entry for the one it removes, cuts the
  array and leaves the loop: that is `Lib.cut`, so it takes out one occurrence and no more.
* `Listed` is the invariant: the list has no duplicates, and holds what `tokenExists` lets through.
  A token that is overwritten keeps its place in both (`Listed.overwrite`).
* The condition on a run is on the calls alone: none of them adds the null address as the owner.

**`addresses_exact`**: in every run in which the owner does not add the null address, the list has
no duplicates and holds exactly the tokens that `tokenExists` lets through.
-/

namespace ChainX.TokenRegistry

open ChainX.Evm ChainX.Lib ChainX.Reentry

variable {s s' : Storage}

/-- The list holds, once each, the tokens that `tokenExists` lets through. -/
structure Listed (s : Storage) : Prop where
  nodup : (getTokenAddresses s).Nodup
  mem_iff : ∀ a, a ∈ getTokenAddresses s ↔ (s.tokens a).token ≠ 0

/-- The owner does not add the null address. -/
def notNull : Rules Storage Empty Call where
  mayEnter c s := ∀ name symbol url decimals ipfsHash swarmHash,
    c ≠ .addToken s.owner 0 name symbol url decimals ipfsHash swarmHash
  mayAnswer _ _ _ := True

theorem listed_init (owner : Address) : Listed (Storage.init owner) where
  nodup := List.nodup_nil
  mem_iff a := by simp [getTokenAddresses, Storage.init, TokenMetadata.empty]

/-- Writing a record with the same presence flag lists nothing new. -/
theorem Listed.overwrite (hs : Listed s) {token : Address} {data : TokenMetadata}
    (hlist : s'.tokenAddresses = s.tokenAddresses)
    (htokens : s'.tokens = Function.update s.tokens token data)
    (hflag : data.token = (s.tokens token).token) : Listed s' := by
  refine ⟨?_, fun a => ?_⟩
  · unfold getTokenAddresses
    rw [hlist]
    exact hs.nodup
  · unfold getTokenAddresses
    rw [hlist, htokens]
    by_cases ha : a = token
    · subst ha
      rw [Function.update_self, hflag]
      exact hs.mem_iff a
    · rw [Function.update_of_ne ha]
      exact hs.mem_iff a

/-- **Every call but the adding of the null address keeps the list exact.** -/
theorem Change.listed {c : Call} (h : Change c s s') (hc : notNull.mayEnter c s) (hs : Listed s) :
    Listed s' := by
  cases h with
  | transferOwnership newOwner owner => exact ⟨hs.nodup, hs.mem_iff⟩
  | skipped c => exact hs
  | addToken data log hnew =>
    have hzero : data.token ≠ 0 := by
      intro h0
      exact hc _ _ _ _ _ _ (by rw [h0])
    have hnot : data.token ∉ s.tokenAddresses := by
      intro hmem
      exact (hs.mem_iff _).mp hmem hnew
    refine ⟨?_, fun a => ?_⟩
    · simp only [getTokenAddresses, List.nodup_append]
      refine ⟨hs.nodup, List.nodup_singleton _, fun a ha b hb => ?_⟩
      rintro rfl
      exact hnot (List.mem_singleton.mp hb ▸ ha)
    · simp only [getTokenAddresses, List.mem_append, List.mem_singleton]
      by_cases ha : a = data.token
      · subst ha
        simp [hzero]
      · simp only [Function.update_of_ne ha, ha, or_false]
        exact hs.mem_iff a
  | removeToken token log hold =>
    have hnodup : s.tokenAddresses.Nodup := hs.nodup
    refine ⟨nodup_cut hnodup token, fun a => ?_⟩
    simp only [getTokenAddresses, mem_cut hnodup]
    by_cases ha : a = token
    · subst ha
      simp [TokenMetadata.empty]
    · simp only [Function.update_of_ne ha, ne_eq, ha, not_false_eq_true, true_and]
      exact hs.mem_iff a
  | setTokenName token name log hold => exact hs.overwrite rfl rfl rfl
  | setTokenSymbol token symbol log hold => exact hs.overwrite rfl rfl rfl
  | setField c token data log hold htoken hname hsymbol => exact hs.overwrite rfl rfl htoken

/-- **The address list is exact** after every run in which the owner does not add the null address.
-/
theorem addresses_exact (owner : Address) (moves : List (Move Call Unit))
    (hruns : Runs entry notNull ⟨Storage.init owner, []⟩ moves) : Listed (reached owner moves) :=
  exec_ruled (fun c _ hc hs => wp_mono (wp_entry c) fun _ _ h => h.listed hc hs) (listed_init owner)
    hruns

/-- The owner `1` registers three tokens and removes the first. -/
def removeRun : List (Move Call Unit) :=
  [.enter (.addToken 1 10 [1] [2] [] 18 0 0), .enter (.addToken 1 11 [3] [4] [] 18 0 0),
    .enter (.addToken 1 12 [5] [6] [] 18 0 0), .enter (.removeToken 1 10)]

theorem addresses_exact_remove :
    Listed (reached 1 removeRun) ∧ getTokenAddresses (reached 1 removeRun) = [12, 11] := by
  refine ⟨addresses_exact 1 removeRun ⟨?_, ?_, ?_, ?_, trivial⟩, by decide +kernel⟩
  all_goals
    intro _ _ _ _ _ _ h
    cases h

/-- The owner `1` adds the null address twice. -/
def nullRun : List (Move Call Unit) :=
  [.enter (.addToken 1 0 [1] [2] [] 18 0 0), .enter (.addToken 1 0 [3] [4] [] 18 0 0)]

/-- **The null address is listed twice**, and `tokenExists` does not let it through. -/
theorem null_listed :
    getTokenAddresses (reached 1 nullRun) = [0, 0] ∧ ((reached 1 nullRun).tokens 0).token = 0 ∧
      ¬ Listed (reached 1 nullRun) := by
  refine ⟨by decide +kernel, by decide +kernel, fun h => ?_⟩
  exact absurd h.nodup (by decide +kernel)

end ChainX.TokenRegistry
