import ChainX.Lib.Index
import ChainX.TokenRegistry.Basic

/-!
# The lookups of the registry

`getTokenAddressByName` and `getTokenAddressBySymbol` (`TokenRegistry.sol:211-220`) after any run of
the functions that change the registry.

`Change` says once what a call that returns has done. The two mappings `tokenByName` and
`tokenBySymbol` are secondary indexes of the table of tokens, whose keys need not be unique; every
call is an `Index.Step` of both (`Change.byName`, `Change.bySymbol`).

* The name of a token is a key while the token is registered, which `keyBy` reads off the record.
* `Sound` and `Whole` are what is kept of both indexes together, over every run and over those in
  which names and symbols stay distinct.

Results:
* **`points_right`**: after any run a lookup gives the null address or a registered token with the
  name or symbol asked for.
* Where two tokens share a name or a symbol only one is found by it, and removing or renaming that
  one empties the slot for both (`removed_symbol_lost`). **`findable_of_distinct`**: in every run in
  which no call gives a token the name or symbol of another, every registered token is found.
-/

namespace ChainX.TokenRegistry

open ChainX.Evm ChainX.Lib ChainX.Reentry

variable {B : Boundary Storage Empty Unit} {s s' : Storage}

/-! ## What a call does -/

/-- `token` is registered. -/
def Registered (s : Storage) (token : Address) : Prop := (s.tokens token).token = token ∧ token ≠ 0

instance (s : Storage) (token : Address) : Decidable (Registered s token) :=
  inferInstanceAs (Decidable (_ ∧ _))

/-- `s'` is `s` after the call, which has returned. -/
inductive Change : Call → Storage → Storage → Prop
  | transferOwnership {s : Storage} (newOwner owner : Address) :
      Change (.transferOwnership s.owner newOwner) s { s with owner := owner }
  /-- The presence flag did not fit. -/
  | skipped {s : Storage} (c : Call) : Change c s s
  | addToken {s : Storage} (data : TokenMetadata) (log : List Event)
      (hnew : (s.tokens data.token).token = 0) :
      Change (.addToken s.owner data.token data.name data.symbol data.url data.decimals
          data.ipfsHash data.swarmHash) s
        { s with
          tokens := Function.update s.tokens data.token data
          tokenAddresses := s.tokenAddresses ++ [data.token]
          tokenBySymbol := Function.update s.tokenBySymbol data.symbol data.token
          tokenByName := Function.update s.tokenByName data.name data.token
          log := log }
  | removeToken {s : Storage} (token : Address) (log : List Event)
      (hold : (s.tokens token).token ≠ 0) :
      Change (.removeToken s.owner token) s
        { s with
          tokens := Function.update s.tokens token .empty
          tokenAddresses := cut token s.tokenAddresses
          tokenBySymbol := Function.update s.tokenBySymbol (s.tokens token).symbol 0
          tokenByName := Function.update s.tokenByName (s.tokens token).name 0
          log := log }
  | setTokenName {s : Storage} (token : Address) (name : Str) (log : List Event)
      (hold : (s.tokens token).token ≠ 0) :
      Change (.setTokenName s.owner token name) s
        { s with
          tokens := Function.update s.tokens token { s.tokens token with name := name }
          tokenByName := Function.update
            (Function.update s.tokenByName (s.tokens token).name 0) name token
          log := log }
  | setTokenSymbol {s : Storage} (token : Address) (symbol : Str) (log : List Event)
      (hold : (s.tokens token).token ≠ 0) :
      Change (.setTokenSymbol s.owner token symbol) s
        { s with
          tokens := Function.update s.tokens token { s.tokens token with symbol := symbol }
          tokenBySymbol := Function.update
            (Function.update s.tokenBySymbol (s.tokens token).symbol 0) symbol token
          log := log }
  /-- A field without an index is written. -/
  | setField {s : Storage} (c : Call) (token : Address) (data : TokenMetadata) (log : List Event)
      (hold : (s.tokens token).token ≠ 0) (htoken : data.token = (s.tokens token).token)
      (hname : data.name = (s.tokens token).name)
      (hsymbol : data.symbol = (s.tokens token).symbol) :
      Change c s { s with tokens := Function.update s.tokens token data, log := log }

@[simp] theorem wp_onlyOwner {sender : Address} {body : M Unit} {post : Unit → Storage → Prop} :
    wp B (onlyOwner sender body) post s ↔ (sender = s.owner → wp B body post s) := by
  simp only [onlyOwner, wp_bind, wp_get, wp_require]

@[simp] theorem wp_tokenExists {token : Address} {body : M Unit} {post : Unit → Storage → Prop} :
    wp B (tokenExists token body) post s ↔
      ((s.tokens token).token ≠ 0 → wp B body post s) ∧
        ((s.tokens token).token = 0 → post () s) := by
  simp only [tokenExists, wp_bind, wp_get, wp_ite, wp_pure, ne_eq, not_not]

@[simp] theorem wp_tokenDoesNotExist {token : Address} {body : M Unit}
    {post : Unit → Storage → Prop} :
    wp B (tokenDoesNotExist token body) post s ↔
      ((s.tokens token).token = 0 → wp B body post s) ∧
        ((s.tokens token).token ≠ 0 → post () s) := by
  simp only [tokenDoesNotExist, wp_bind, wp_get, wp_ite, wp_pure, ne_eq]

theorem wp_setField {c : Call} {sender token : Address} {event : TokenMetadata → Event}
    {write : TokenMetadata → TokenMetadata} (htoken : ∀ data, (write data).token = data.token)
    (hname : ∀ data, (write data).name = data.name)
    (hsymbol : ∀ data, (write data).symbol = data.symbol) :
    wp B (setField sender token event write) (fun _ s' => Change c s s') s := by
  simp only [setField, wp_onlyOwner, wp_tokenExists, wp_bind, wp_get, wp_modify]
  exact fun _ => ⟨fun hold => .setField c token _ _ hold (htoken _) (hname _) (hsymbol _),
    fun _ => .skipped c⟩

/-- **What a call does.** -/
theorem wp_entry (c : Call) : wp B (entry c) (fun _ s' => Change c s s') s := by
  cases c with
  | transferOwnership sender newOwner =>
    simp only [entry, transferOwnership, wp_onlyOwner, wp_ite, wp_modify, wp_pure]
    rintro rfl
    exact ⟨fun _ => .transferOwnership newOwner newOwner, fun _ => .skipped _⟩
  | addToken sender token name symbol url decimals ipfsHash swarmHash =>
    simp only [entry, addToken, wp_onlyOwner, wp_tokenDoesNotExist, wp_bind, wp_modify]
    rintro rfl
    exact ⟨fun hnew => .addToken ⟨token, name, symbol, url, decimals, ipfsHash, swarmHash⟩ _ hnew,
      fun _ => .skipped _⟩
  | removeToken sender token =>
    simp only [entry, removeToken, wp_onlyOwner, wp_tokenExists, wp_bind, wp_get, wp_modify]
    rintro rfl
    exact ⟨fun hold => .removeToken token _ hold, fun _ => .skipped _⟩
  | setTokenName sender token name =>
    simp only [entry, setTokenName, wp_onlyOwner, wp_tokenExists, wp_bind, wp_get, wp_modify]
    rintro rfl
    exact ⟨fun hold => .setTokenName token name _ hold, fun _ => .skipped _⟩
  | setTokenSymbol sender token symbol =>
    simp only [entry, setTokenSymbol, wp_onlyOwner, wp_tokenExists, wp_bind, wp_get, wp_modify]
    rintro rfl
    exact ⟨fun hold => .setTokenSymbol token symbol _ hold, fun _ => .skipped _⟩
  | setTokenIpfsHash sender token ipfsHash =>
    rw [entry, setTokenIpfsHash]
    refine wp_setField ?_ ?_ ?_ <;> exact fun _ => rfl
  | setTokenSwarmHash sender token swarmHash =>
    rw [entry, setTokenSwarmHash]
    refine wp_setField ?_ ?_ ?_ <;> exact fun _ => rfl
  | setTokenUrl sender token url =>
    rw [entry, setTokenUrl]
    refine wp_setField ?_ ?_ ?_ <;> exact fun _ => rfl

/-! ## The two indexes -/

/-- The key, taken from `field`, of the tokens that a table registers. -/
def keyBy (field : TokenMetadata → Str) (tokens : Address → TokenMetadata) (a : Address) :
    Option Str :=
  if (tokens a).token ≠ 0 then some (field (tokens a)) else none

/-- The name a token has to be found by. -/
abbrev Storage.nameOf (s : Storage) : Address → Option Str := keyBy TokenMetadata.name s.tokens

/-- The symbol a token has to be found by. -/
abbrev Storage.symbolOf (s : Storage) : Address → Option Str := keyBy TokenMetadata.symbol s.tokens

/-- A record, where there is one, is that of its token. -/
def Keyed (tokens : Address → TokenMetadata) : Prop :=
  ∀ a, (tokens a).token ≠ 0 → (tokens a).token = a

section Tables

variable {field : TokenMetadata → Str} {tokens : Address → TokenMetadata}

theorem keyBy_update (token : Address) (data : TokenMetadata) :
    keyBy field (Function.update tokens token data) = Function.update (keyBy field tokens) token
      (if data.token ≠ 0 then some (field data) else none) := by
  funext a
  by_cases ha : a = token
  · subst ha
    simp only [keyBy, Function.update_self]
  · simp only [keyBy, Function.update_of_ne ha]

theorem keyBy_of_ne {token : Address} (h : (tokens token).token ≠ 0) :
    keyBy field tokens token = some (field (tokens token)) := if_pos h

theorem keyBy_of_eq {token : Address} (h : (tokens token).token = 0) :
    keyBy field tokens token = none := if_neg (not_not.mpr h)

/-- A record written over one with the same token and the same key. -/
theorem keyBy_overwrite {token : Address} {data : TokenMetadata}
    (hold : (tokens token).token ≠ 0) (htoken : data.token = (tokens token).token)
    (hfield : field data = field (tokens token)) :
    keyBy field (Function.update tokens token data) = keyBy field tokens := by
  rw [keyBy_update, htoken, if_pos hold, hfield, ← keyBy_of_ne hold, Function.update_eq_self]

theorem Keyed.zero (h : Keyed tokens) : (tokens 0).token = 0 := by
  by_contra h0
  exact h0 (h 0 h0)

theorem Keyed.update (h : Keyed tokens) {token : Address} {data : TokenMetadata}
    (hdata : data.token ≠ 0 → data.token = token) : Keyed (Function.update tokens token data) := by
  intro a
  by_cases ha : a = token
  · subst ha
    rw [Function.update_self]
    exact hdata
  · rw [Function.update_of_ne ha]
    exact h a

end Tables

/-- The call is made by the owner, and the presence flag fits. -/
def Call.Passes (s : Storage) : Call → Prop
  | .transferOwnership sender _ => sender = s.owner
  | .addToken sender token .. => sender = s.owner ∧ (s.tokens token).token = 0
  | .removeToken sender token => sender = s.owner ∧ (s.tokens token).token ≠ 0
  | .setTokenName sender token _ => sender = s.owner ∧ (s.tokens token).token ≠ 0
  | .setTokenSymbol sender token _ => sender = s.owner ∧ (s.tokens token).token ≠ 0
  | .setTokenIpfsHash sender token _ => sender = s.owner ∧ (s.tokens token).token ≠ 0
  | .setTokenSwarmHash sender token _ => sender = s.owner ∧ (s.tokens token).token ≠ 0
  | .setTokenUrl sender token _ => sender = s.owner ∧ (s.tokens token).token ≠ 0

/-- The token a call gives a name to, and that name. -/
def Call.names : Call → Option (Address × Str)
  | .addToken _ token name .. => some (token, name)
  | .setTokenName _ token name => some (token, name)
  | _ => none

/-- The token a call gives a symbol to, and that symbol. -/
def Call.symbols : Call → Option (Address × Str)
  | .addToken _ token _ symbol .. => some (token, symbol)
  | .setTokenSymbol _ token symbol => some (token, symbol)
  | _ => none

theorem Change.keyed {c : Call} (h : Change c s s') (hs : Keyed s.tokens) : Keyed s'.tokens := by
  cases h with
  | transferOwnership newOwner owner => exact hs
  | skipped c => exact hs
  | addToken data log hnew => exact hs.update fun _ => rfl
  | removeToken token log hold => exact hs.update fun h => absurd rfl h
  | setTokenName token name log hold => exact hs.update (hs token)
  | setTokenSymbol token symbol log hold => exact hs.update (hs token)
  | setField c token data log hold htoken hname hsymbol =>
    refine hs.update fun _ => ?_
    rw [htoken]
    exact hs token hold

/-- A new token enters an index, the null token just a slot. -/
theorem step_addToken {field : TokenMetadata → Str} {index : Str → Address} (hs : Keyed s.tokens)
    {data : TokenMetadata} (hnew : (s.tokens data.token).token = 0) :
    Index.Step (keyBy field s.tokens) index (some (data.token, field data))
      (keyBy field (Function.update s.tokens data.token data))
      (Function.update index (field data) data.token) := by
  rw [keyBy_update]
  by_cases hzero : data.token = 0
  · have hnone : keyBy field s.tokens 0 = none := keyBy_of_eq hs.zero
    rw [if_neg (not_not.mpr hzero), hzero, ← hnone, Function.update_eq_self]
    exact .clear _ hnone
  · rw [if_pos hzero]
    exact .put _ _ hzero (keyBy_of_eq hnew)

/-- A removed token leaves an index. -/
theorem step_removeToken {field : TokenMetadata → Str} {index : Str → Address} {token : Address}
    (hold : (s.tokens token).token ≠ 0) :
    Index.Step (keyBy field s.tokens) index none
      (keyBy field (Function.update s.tokens token .empty))
      (Function.update index (field (s.tokens token)) 0) := by
  have hempty : ¬ TokenMetadata.empty.token ≠ 0 := fun h => h rfl
  rw [keyBy_update, if_neg hempty]
  exact .erase _ _ (keyBy_of_ne hold)

/-- A registered token whose key changes moves in an index. -/
theorem step_rename (field : TokenMetadata → Str) {index : Str → Address} (hs : Keyed s.tokens)
    {token : Address} (data : TokenMetadata) (hold : (s.tokens token).token ≠ 0)
    (htoken : data.token = (s.tokens token).token) :
    Index.Step (keyBy field s.tokens) index (some (token, field data))
      (keyBy field (Function.update s.tokens token data))
      (Function.update (Function.update index (field (s.tokens token)) 0) (field data) token) := by
  rw [keyBy_update, htoken, if_pos hold]
  exact .rename _ _ _ (hs token hold ▸ hold) (keyBy_of_ne hold)

/-- What a call does to the index by name: nothing, or a step that writes what the call names. -/
theorem Change.byName {c : Call} (h : Change c s s') (hs : Keyed s.tokens) :
    ∃ w, (w = none ∨ (w = c.names ∧ c.Passes s)) ∧
      Index.Step s.nameOf s.tokenByName w s'.nameOf s'.tokenByName := by
  cases h with
  | transferOwnership newOwner owner => exact ⟨none, .inl rfl, .same⟩
  | skipped c => exact ⟨none, .inl rfl, .same⟩
  | addToken data log hnew => exact ⟨_, .inr ⟨rfl, rfl, hnew⟩, step_addToken hs hnew⟩
  | removeToken token log hold => exact ⟨none, .inl rfl, step_removeToken hold⟩
  | setTokenName token name log hold =>
    exact ⟨_, .inr ⟨rfl, rfl, hold⟩,
      step_rename TokenMetadata.name hs { s.tokens token with name := name } hold rfl⟩
  | setTokenSymbol token symbol log hold =>
    refine ⟨none, .inl rfl, ?_⟩
    simp only [Storage.nameOf]
    rw [keyBy_overwrite hold]
    · exact .same
    · rfl
    · rfl
  | setField c token data log hold htoken hname hsymbol =>
    refine ⟨none, .inl rfl, ?_⟩
    simp only [Storage.nameOf]
    rw [keyBy_overwrite hold htoken hname]
    exact .same

/-- And to the index by symbol. -/
theorem Change.bySymbol {c : Call} (h : Change c s s') (hs : Keyed s.tokens) :
    ∃ w, (w = none ∨ (w = c.symbols ∧ c.Passes s)) ∧
      Index.Step s.symbolOf s.tokenBySymbol w s'.symbolOf s'.tokenBySymbol := by
  cases h with
  | transferOwnership newOwner owner => exact ⟨none, .inl rfl, .same⟩
  | skipped c => exact ⟨none, .inl rfl, .same⟩
  | addToken data log hnew => exact ⟨_, .inr ⟨rfl, rfl, hnew⟩, step_addToken hs hnew⟩
  | removeToken token log hold => exact ⟨none, .inl rfl, step_removeToken hold⟩
  | setTokenName token name log hold =>
    refine ⟨none, .inl rfl, ?_⟩
    simp only [Storage.symbolOf]
    rw [keyBy_overwrite hold]
    · exact .same
    · rfl
    · rfl
  | setTokenSymbol token symbol log hold =>
    exact ⟨_, .inr ⟨rfl, rfl, hold⟩,
      step_rename TokenMetadata.symbol hs { s.tokens token with symbol := symbol } hold rfl⟩
  | setField c token data log hold htoken hname hsymbol =>
    refine ⟨none, .inl rfl, ?_⟩
    simp only [Storage.symbolOf]
    rw [keyBy_overwrite hold htoken hsymbol]
    exact .same

/-! ## Soundness -/

/-- The storage after a run from deployment by `owner`. -/
def reached (owner : Address) (moves : List (Move Call Unit)) : Storage :=
  (exec entry ⟨Storage.init owner, []⟩ moves).cur

/-- What is kept over every run. -/
structure Sound (s : Storage) : Prop where
  keyed : Keyed s.tokens
  byName : Index.Sound s.nameOf s.tokenByName
  bySymbol : Index.Sound s.symbolOf s.tokenBySymbol

theorem sound_init (owner : Address) : Sound (Storage.init owner) where
  keyed _ h := absurd rfl h
  byName _ h := absurd rfl h
  bySymbol _ h := absurd rfl h

theorem Change.sound {c : Call} (h : Change c s s') (hs : Sound s) : Sound s' := by
  obtain ⟨_, -, hname⟩ := h.byName hs.keyed
  obtain ⟨_, -, hsymbol⟩ := h.bySymbol hs.keyed
  exact ⟨h.keyed hs.keyed, hname.sound hs.byName, hsymbol.sound hs.bySymbol⟩

/-- What a lookup gives has the key that was asked for. -/
theorem registered_of_keyBy {field : TokenMetadata → Str} {a : Address} {k : Str}
    (hs : Keyed s.tokens) (h : keyBy field s.tokens a = some k) :
    Registered s a ∧ field (s.tokens a) = k := by
  unfold keyBy at h
  split at h
  · rename_i hold
    exact ⟨⟨hs a hold, hs a hold ▸ hold⟩, Option.some.inj h⟩
  · exact absurd h (by simp)

/-- A lookup gives the null address or a registered token with the symbol, or the name, that was
asked for. -/
def PointsRight (s : Storage) : Prop :=
  (∀ symbol a, getTokenAddressBySymbol s symbol = a → a ≠ 0 →
      Registered s a ∧ (s.tokens a).symbol = symbol) ∧
    ∀ name a, getTokenAddressByName s name = a → a ≠ 0 →
      Registered s a ∧ (s.tokens a).name = name

/-- **No lookup points to the wrong token**, after any run, by any callers with any arguments. -/
theorem points_right (owner : Address) (moves : List (Move Call Unit)) :
    PointsRight (reached owner moves) := by
  have hs : Sound (reached owner moves) :=
    exec_keeping (fun c _ hs => wp_mono (wp_entry c) fun _ _ h => h.sound hs) (sound_init owner)
      moves
  constructor
  · rintro symbol a rfl ha
    exact registered_of_keyBy hs.keyed (hs.bySymbol symbol ha)
  · rintro name a rfl ha
    exact registered_of_keyBy hs.keyed (hs.byName name ha)

/-! ## Completeness -/

/-- No call that passes its checks gives a token a name or a symbol that another registered token
has. -/
def distinct : Rules Storage Empty Call where
  mayEnter c s := c.Passes s → Index.Free s.nameOf c.names ∧ Index.Free s.symbolOf c.symbols
  mayAnswer _ _ _ := True

/-- What is kept over a run in which names and symbols stay distinct. -/
structure Whole (s : Storage) : Prop where
  keyed : Keyed s.tokens
  byName : Index.Complete s.nameOf s.tokenByName
  bySymbol : Index.Complete s.symbolOf s.tokenBySymbol

theorem whole_init (owner : Address) : Whole (Storage.init owner) where
  keyed _ h := absurd rfl h
  byName _ _ h := absurd h (by simp [keyBy, Storage.init, TokenMetadata.empty])
  bySymbol _ _ h := absurd h (by simp [keyBy, Storage.init, TokenMetadata.empty])

theorem Change.whole {c : Call} (h : Change c s s') (hc : distinct.mayEnter c s) (hs : Whole s) :
    Whole s' := by
  obtain ⟨w, hw, hname⟩ := h.byName hs.keyed
  obtain ⟨v, hv, hsymbol⟩ := h.bySymbol hs.keyed
  refine ⟨h.keyed hs.keyed, hname.complete ?_ hs.byName, hsymbol.complete ?_ hs.bySymbol⟩
  · rcases hw with rfl | ⟨rfl, hpass⟩
    · exact Index.free_none
    · exact (hc hpass).1
  · rcases hv with rfl | ⟨rfl, hpass⟩
    · exact Index.free_none
    · exact (hc hpass).2

/-- Every registered token is found under its symbol and under its name. -/
def Findable (s : Storage) : Prop :=
  ∀ a, Registered s a → getTokenAddressBySymbol s (s.tokens a).symbol = a ∧
    getTokenAddressByName s (s.tokens a).name = a

/-- **No registered token is lost** in a run in which no call gives a token the name or the symbol
of another. -/
theorem findable_of_distinct (owner : Address) (moves : List (Move Call Unit))
    (hruns : Runs entry distinct ⟨Storage.init owner, []⟩ moves) :
    Findable (reached owner moves) := by
  have hs : Whole (reached owner moves) :=
    exec_ruled (fun c _ hc hs => wp_mono (wp_entry c) fun _ _ h => h.whole hc hs) (whole_init owner)
      hruns
  rintro a ⟨htoken, hzero⟩
  have hold : ((reached owner moves).tokens a).token ≠ 0 := by rwa [htoken]
  exact ⟨hs.bySymbol a _ (keyBy_of_ne hold), hs.byName a _ (keyBy_of_ne hold)⟩

/-- The owner `1` registers the tokens `10` and `11`. -/
def sampleRun : List (Move Call Unit) :=
  [.enter (.addToken 1 10 [1] [2] [] 18 0 0), .enter (.addToken 1 11 [3] [4] [] 18 0 0)]

theorem findable_of_distinct_sample :
    Findable (reached 1 sampleRun) ∧ Registered (reached 1 sampleRun) 10 ∧
      getTokenAddressByName (reached 1 sampleRun) [1] = 10 := by
  have hinit : ∀ (field : TokenMetadata → Str) (b : Address),
      keyBy field (Storage.init 1).tokens b = none := fun _ _ => keyBy_of_eq rfl
  -- after the first call only `10` is registered
  have hfirst : ∀ (field : TokenMetadata → Str) (b : Address) (k : Str),
      field ⟨10, [1], [2], [], 18, 0, 0⟩ ≠ k →
      keyBy field (reached 1 (sampleRun.take 1)).tokens b ≠ some k := by
    intro field b k hk h
    change keyBy field (Function.update (Storage.init 1).tokens 10 ⟨10, [1], [2], [], 18, 0, 0⟩) b =
      some k at h
    rw [keyBy_update] at h
    by_cases hb : b = 10
    · subst hb
      rw [Function.update_self] at h
      exact hk (Option.some.inj h)
    · rw [Function.update_of_ne hb, hinit] at h
      exact absurd h (by simp)
  refine ⟨findable_of_distinct 1 sampleRun ⟨fun _ => ⟨?_, ?_⟩, fun _ => ⟨?_, ?_⟩, trivial⟩,
    by decide +kernel, by decide +kernel⟩
  · rintro _ _ ⟨⟩ b _ h
    exact absurd ((hinit _ b).symm.trans h) (by simp)
  · rintro _ _ ⟨⟩ b _ h
    exact absurd ((hinit _ b).symm.trans h) (by simp)
  · rintro _ _ ⟨⟩ b _
    exact hfirst TokenMetadata.name b _ (by simp)
  · rintro _ _ ⟨⟩ b _
    exact hfirst TokenMetadata.symbol b _ (by simp)

/-- The owner `1` registers `10` and `11` under the same symbol and removes `11`. -/
def lostRun : List (Move Call Unit) :=
  [.enter (.addToken 1 10 [1] [2] [] 18 0 0), .enter (.addToken 1 11 [3] [2] [] 18 0 0),
    .enter (.removeToken 1 11)]

/-- **A registered token is lost**: removing `11` empties the slot of the symbol it shared with
`10`. -/
theorem removed_symbol_lost :
    Registered (reached 1 lostRun) 10 ∧ ((reached 1 lostRun).tokens 10).symbol = [2] ∧
      getTokenAddressBySymbol (reached 1 lostRun) [2] = 0 ∧ ¬ Findable (reached 1 lostRun) := by
  refine ⟨by decide +kernel, by decide +kernel, by decide +kernel, fun h => ?_⟩
  exact absurd (h 10 (by decide +kernel)).1 (by decide +kernel)

end ChainX.TokenRegistry
