import ChainX.Wallet.AddKey

/-!
# The time of the first key, `Wallet/wallet-tx.cpp:97-177`

`nTimeFirstKey` says from where on the chain has to be searched for transactions of the wallet.
`LoadKeyMetadata`, `GenerateNewKey` and the calls that add a key change it or the metadata it is
about. The time in the metadata is a parameter (`CreateTimes`).

* A time of 0 is not known, of a key as of the first one. `FirstOf` is the least of some times in
  this sense.
* `Dated` is the invariant: no key on file has a known time before the first one. The calls that add
  a key may pad the metadata with entries that know nothing (`Padded`).
* `GenerateNewKey` takes the time of the clock for known, so the clock must not show 0
  (`KeyCall.Clocked`); a run may start from any wallet that is `Dated`.
* Calls that throw or fail an assertion end the sequence: those that return are looked at.

Results:
* `dated_step`: what one call does.
* **`nTimeFirstKey_run`**: over any calls it is the least of the times that were announced, and no
  key on file has an earlier one.
-/

namespace ChainX.Wallet

open ChainX.Node (Bytes)

variable {CKey CPubKey CKeyID Others CScript CKeyMetadata Versions : Type} [LinearOrder CKeyID]
  {env : WalletEnv CKey CPubKey CKeyID Others CScript CKeyMetadata Versions}

/-- `nCreateTime` of metadata, which is 0 where it is not known. -/
structure CreateTimes (env : WalletEnv CKey CPubKey CKeyID Others CScript CKeyMetadata Versions)
    where
  nCreateTime : CKeyMetadata → Int64
  nCreateTime_keyMetadata : ∀ t, nCreateTime (env.keyMetadata t) = t
  nCreateTime_noMetadata : nCreateTime env.noMetadata = 0

variable (times : CreateTimes env)

/-! ## Calls -/

/-- `LoadKeyMetadata`: the oldest time that is not `0` counts. -/
def CWallet.loadKeyMetadata (w : CWallet CKey CPubKey CKeyID Others CKeyMetadata Versions)
    (pubkey : CPubKey) (metadata : CKeyMetadata) :
    Bool × CWallet CKey CPubKey CKeyID Others CKeyMetadata Versions :=
  let nCreateTime := times.nCreateTime metadata
  (true,
    { w with
      nTimeFirstKey :=
        if nCreateTime ≠ 0 ∧ (w.nTimeFirstKey = 0 ∨ nCreateTime < w.nTimeFirstKey) then nCreateTime
        else w.nTimeFirstKey
      mapKeyMetadata := w.mapKeyMetadata.insert (env.getID pubkey) metadata })

/-- A call, with how its writes come out. -/
inductive KeyCall (CKey CPubKey CKeyMetadata : Type) where
  | generateNewKey (db : Db CPubKey CKeyMetadata) (makeNewKey : Bool → CKey) (nCreationTime : Int64)
  | addKeyPubKey (db : Db CPubKey CKeyMetadata) (secret : CKey) (pubkey : CPubKey)
  | addCryptedKey (db : Db CPubKey CKeyMetadata) (vchPubKey : CPubKey) (vchCryptedSecret : Bytes)
  | loadKeyMetadata (pubkey : CPubKey) (metadata : CKeyMetadata)

/-- The wallet after the call, whatever its result is; `none` is a failed assertion. -/
def CWallet.call (w : CWallet CKey CPubKey CKeyID Others CKeyMetadata Versions) :
    KeyCall CKey CPubKey CKeyMetadata →
    Option (CWallet CKey CPubKey CKeyID Others CKeyMetadata Versions)
  | .generateNewKey db makeNewKey nCreationTime =>
    (w.generateNewKey env db makeNewKey nCreationTime).map Prod.snd
  | .addKeyPubKey db secret pubkey => some (w.addKeyPubKey env db secret pubkey).2
  | .addCryptedKey db vchPubKey vchCryptedSecret =>
    some (w.addCryptedKey env db vchPubKey vchCryptedSecret).2
  | .loadKeyMetadata pubkey metadata => some (w.loadKeyMetadata times pubkey metadata).2

/-- The calls, one after the other, until one of them does not return. -/
def CWallet.calls (w : CWallet CKey CPubKey CKeyID Others CKeyMetadata Versions) :
    List (KeyCall CKey CPubKey CKeyMetadata) →
    Option (CWallet CKey CPubKey CKeyID Others CKeyMetadata Versions)
  | [] => some w
  | call :: calls => (w.call times call).bind fun w => w.calls calls

/-- The times that a call announces. -/
def KeyCall.announced : KeyCall CKey CPubKey CKeyMetadata → List Int64
  | .generateNewKey _ _ nCreationTime => [nCreationTime]
  | .addKeyPubKey .. => []
  | .addCryptedKey .. => []
  | .loadKeyMetadata _ metadata => [times.nCreateTime metadata]

/-- The clock of a new key does not show 0. -/
def KeyCall.Clocked : KeyCall CKey CPubKey CKeyMetadata → Prop
  | .generateNewKey _ _ nCreationTime => nCreationTime ≠ 0
  | _ => True

/-! ## The first of some times -/

/-- The least of those that are not 0, or 0 where there is none. -/
structure FirstOf (ts : List Int64) (first : Int64) : Prop where
  mem : first ∈ ts
  le : ∀ t ∈ ts, t ≠ 0 → first ≠ 0 ∧ first ≤ t

theorem FirstOf.singleton (first : Int64) : FirstOf [first] first where
  mem := List.mem_singleton_self first
  le t ht hne := by
    obtain rfl := List.mem_singleton.mp ht
    exact ⟨hne, Int64.le_refl t⟩

/-- The first of a part stands for it. -/
theorem FirstOf.append {ts us : List Int64} {first last : Int64} (h : FirstOf ts first)
    (h' : FirstOf (first :: us) last) : FirstOf (ts ++ us) last where
  mem := by
    rcases List.mem_cons.mp h'.mem with rfl | hmem
    · exact List.mem_append_left us h.mem
    · exact List.mem_append_right ts hmem
  le t ht hne := by
    rcases List.mem_append.mp ht with ht | ht
    · obtain ⟨hfirst, hle⟩ := h.le t ht hne
      obtain ⟨hlast, hle'⟩ := h'.le first List.mem_cons_self hfirst
      exact ⟨hlast, Int64.le_trans hle' hle⟩
    · exact h'.le t (List.mem_cons_of_mem first ht) hne

theorem firstOf_lowered (first : Int64) {t : Int64} (hne : t ≠ 0) :
    FirstOf [first, t] (if first = 0 ∨ t < first then t else first) := by
  by_cases hlow : first = 0 ∨ t < first
  · rw [if_pos hlow]
    refine ⟨List.mem_cons_of_mem first (List.mem_singleton_self t), ?_⟩
    intro u hu hune
    rcases List.mem_cons.mp hu with rfl | hu
    · exact ⟨hne, Int64.le_of_lt (hlow.resolve_left hune)⟩
    · obtain rfl := List.mem_singleton.mp hu
      exact ⟨hne, Int64.le_refl u⟩
  · rw [if_neg hlow]
    obtain ⟨hfirst, hle⟩ := not_or.mp hlow
    refine ⟨List.mem_cons_self, ?_⟩
    intro u hu _
    rcases List.mem_cons.mp hu with rfl | hu
    · exact ⟨hfirst, Int64.le_refl u⟩
    · obtain rfl := List.mem_singleton.mp hu
      exact ⟨hfirst, Int64.not_lt.mp hle⟩

/-! ## What a call does -/

/-- No key on file has a time before the first one. -/
def Dated (w : CWallet CKey CPubKey CKeyID Others CKeyMetadata Versions) : Prop :=
  ∀ (id : CKeyID) metadata, w.mapKeyMetadata[id]? = some metadata →
    times.nCreateTime metadata ≠ 0 →
      w.nTimeFirstKey ≠ 0 ∧ w.nTimeFirstKey ≤ times.nCreateTime metadata

/-- Nothing new is known of the keys. -/
structure Padded (env : WalletEnv CKey CPubKey CKeyID Others CScript CKeyMetadata Versions)
    (w w' : CWallet CKey CPubKey CKeyID Others CKeyMetadata Versions) : Prop where
  nTimeFirstKey : w'.nTimeFirstKey = w.nTimeFirstKey
  entry : ∀ (id : CKeyID) metadata, w'.mapKeyMetadata[id]? = some metadata →
    w.mapKeyMetadata[id]? = some metadata ∨ metadata = env.noMetadata

section Steps

variable {times} {w w' : CWallet CKey CPubKey CKeyID Others CKeyMetadata Versions}
  {call : KeyCall CKey CPubKey CKeyMetadata}

theorem Padded.of_eq (htime : w'.nTimeFirstKey = w.nTimeFirstKey)
    (hmap : w'.mapKeyMetadata = w.mapKeyMetadata) : Padded env w w' where
  nTimeFirstKey := htime
  entry _ _ h := .inl (hmap ▸ h)

theorem Padded.trans {w₁ : CWallet CKey CPubKey CKeyID Others CKeyMetadata Versions}
    (h : Padded env w w₁) (h' : Padded env w₁ w') : Padded env w w' where
  nTimeFirstKey := h'.nTimeFirstKey.trans h.nTimeFirstKey
  entry id metadata hid := (h'.entry id metadata hid).elim (h.entry id metadata) .inr

variable (env) in
theorem padded_metadataOf (w : CWallet CKey CPubKey CKeyID Others CKeyMetadata Versions)
    (id : CKeyID) : Padded env w (w.metadataOf env id).2 where
  nTimeFirstKey := rfl
  entry id' metadata h := by
    rw [CWallet.metadataOf, Std.TreeMap.getElem?_insertIfNew] at h
    split at h
    · exact .inr (Option.some.inj h).symm
    · exact .inl h

variable (env) in
theorem padded_addCryptedKey (db : Db CPubKey CKeyMetadata)
    (w : CWallet CKey CPubKey CKeyID Others CKeyMetadata Versions) (vchPubKey : CPubKey)
    (vchCryptedSecret : Bytes) :
    Padded env w (w.addCryptedKey env db vchPubKey vchCryptedSecret).2 := by
  rw [CWallet.addCryptedKey]
  split
  · exact .of_eq rfl rfl
  · rename_i store _
    have hfiled : Padded env w { w with store := store } := .of_eq rfl rfl
    simp only
    split
    · exact hfiled
    · exact hfiled.trans (padded_metadataOf env _ _)

variable (env) in
theorem padded_cryptoAddKeyPubKey (db : Db CPubKey CKeyMetadata)
    (w : CWallet CKey CPubKey CKeyID Others CKeyMetadata Versions) (key : CKey)
    (pubkey : CPubKey) : Padded env w (w.cryptoAddKeyPubKey env db key pubkey).2 := by
  rw [CWallet.cryptoAddKeyPubKey]
  split
  · exact .of_eq rfl rfl
  · split
    · exact .of_eq rfl rfl
    · split
      · exact .of_eq rfl rfl
      · exact padded_addCryptedKey env db w pubkey _

variable (env) in
theorem padded_dropWatchOnly (w : CWallet CKey CPubKey CKeyID Others CKeyMetadata Versions)
    (script : CScript) : Padded env w (w.dropWatchOnly env script) := by
  obtain ⟨others, hdrop, -⟩ := dropWatchOnly_cases env w script
  rw [hdrop]
  exact .of_eq rfl rfl

variable (env) in
theorem padded_addKeyPubKey (db : Db CPubKey CKeyMetadata)
    (w : CWallet CKey CPubKey CKeyID Others CKeyMetadata Versions) (secret : CKey)
    (pubkey : CPubKey) : Padded env w (w.addKeyPubKey env db secret pubkey).2 := by
  have hcrypto := padded_cryptoAddKeyPubKey env db w secret pubkey
  rw [CWallet.addKeyPubKey]
  split
  · rename_i heq
    rw [heq] at hcrypto
    exact hcrypto
  · rename_i w₁ heq
    rw [heq] at hcrypto
    have hdropped := (hcrypto.trans
      (padded_dropWatchOnly env w₁ (env.getScriptForDestination (env.getID pubkey)))).trans
        (padded_dropWatchOnly env _ (env.getScriptForRawPubKey pubkey))
    simp only
    split
    · exact hdropped
    · split
      · exact hdropped.trans (padded_metadataOf env _ _)
      · exact hdropped

theorem Padded.dated (h : Padded env w w') (hw : Dated times w) : Dated times w' := by
  intro id metadata hid hne
  rcases h.entry id metadata hid with hid | rfl
  · rw [h.nTimeFirstKey]
    exact hw id metadata hid hne
  · exact absurd times.nCreateTime_noMetadata hne

theorem Padded.firstOf (h : Padded env w w') : FirstOf [w.nTimeFirstKey] w'.nTimeFirstKey :=
  h.nTimeFirstKey ▸ .singleton _

/-- Filing metadata under a time that the first one is lowered to. -/
theorem dated_insert (hw : Dated times w) {id : CKeyID} {metadata : CKeyMetadata}
    (htime : times.nCreateTime metadata ≠ 0 →
      w'.nTimeFirstKey ≠ 0 ∧ w'.nTimeFirstKey ≤ times.nCreateTime metadata)
    (hfirst : w.nTimeFirstKey ≠ 0 → w'.nTimeFirstKey ≠ 0 ∧ w'.nTimeFirstKey ≤ w.nTimeFirstKey)
    (hmap : w'.mapKeyMetadata = w.mapKeyMetadata.insert id metadata) : Dated times w' := by
  intro id' metadata' hid hne
  rw [hmap, Std.TreeMap.getElem?_insert] at hid
  split at hid
  · obtain rfl := Option.some.inj hid
    exact htime hne
  · obtain ⟨hold, hle⟩ := hw id' metadata' hid hne
    obtain ⟨hnew, hle'⟩ := hfirst hold
    exact ⟨hnew, Int64.le_trans hle' hle⟩

theorem dated_of_firstOf (hw : Dated times w) {id : CKeyID} {metadata : CKeyMetadata}
    (hfirst : FirstOf [w.nTimeFirstKey, times.nCreateTime metadata] w'.nTimeFirstKey)
    (hmap : w'.mapKeyMetadata = w.mapKeyMetadata.insert id metadata) : Dated times w' :=
  dated_insert hw (hfirst.le _ (List.mem_cons_of_mem _ (List.mem_singleton_self _)))
    (hfirst.le _ List.mem_cons_self) hmap

theorem firstOf_announced (times : CreateTimes env)
    (w : CWallet CKey CPubKey CKeyID Others CKeyMetadata Versions) (id : CKeyID)
    {nCreationTime : Int64} (hne : nCreationTime ≠ 0) :
    FirstOf [w.nTimeFirstKey, times.nCreateTime (env.keyMetadata nCreationTime)]
      (w.announced env id nCreationTime).nTimeFirstKey := by
  rw [times.nCreateTime_keyMetadata]
  exact firstOf_lowered w.nTimeFirstKey hne

variable (times) in
theorem firstOf_loadKeyMetadata
    (w : CWallet CKey CPubKey CKeyID Others CKeyMetadata Versions) (pubkey : CPubKey)
    (metadata : CKeyMetadata) : FirstOf [w.nTimeFirstKey, times.nCreateTime metadata]
      (w.loadKeyMetadata times pubkey metadata).2.nTimeFirstKey := by
  by_cases hne : times.nCreateTime metadata ≠ 0
  · simp only [CWallet.loadKeyMetadata, hne, ne_eq, not_false_eq_true, true_and]
    exact firstOf_lowered w.nTimeFirstKey hne
  · -- an unknown time is passed over
    rw [not_not] at hne
    have hkept : (w.loadKeyMetadata times pubkey metadata).2.nTimeFirstKey = w.nTimeFirstKey :=
      if_neg fun h => h.1 hne
    rw [hkept]
    refine ⟨List.mem_cons_self, fun t ht htne => ?_⟩
    rcases List.mem_cons.mp ht with heq | ht
    · subst heq
      exact ⟨htne, Int64.le_refl _⟩
    · rw [List.mem_singleton.mp ht] at htne
      exact absurd hne htne

/-- One call keeps the metadata in order, and the first time is that of the one before and those it
announces. -/
theorem dated_step (hclocked : call.Clocked) (hcall : w.call times call = some w')
    (hw : Dated times w) :
    Dated times w' ∧ FirstOf (w.nTimeFirstKey :: call.announced times) w'.nTimeFirstKey := by
  cases call with
  | generateNewKey db makeNewKey nCreationTime =>
    obtain ⟨versions, hgenerate⟩ := generateNewKey_eq env db w makeNewKey nCreationTime
    rw [CWallet.call, hgenerate] at hcall
    split at hcall
    · obtain rfl := Option.some.inj hcall
      have hfirst := firstOf_announced times ({ w with versions := versions } :
        CWallet CKey CPubKey CKeyID Others CKeyMetadata Versions)
        (env.getID (env.getPubKey (w.newSecret env makeNewKey))) hclocked
      have hadded := padded_addKeyPubKey env db (({ w with versions := versions } :
        CWallet CKey CPubKey CKeyID Others CKeyMetadata Versions).announced env
          (env.getID (env.getPubKey (w.newSecret env makeNewKey))) nCreationTime)
        (w.newSecret env makeNewKey) (env.getPubKey (w.newSecret env makeNewKey))
      refine ⟨hadded.dated (dated_of_firstOf hw hfirst rfl), ?_⟩
      rw [times.nCreateTime_keyMetadata, ← hadded.nTimeFirstKey] at hfirst
      exact hfirst
    · simp at hcall
  | addKeyPubKey db secret pubkey =>
    obtain rfl := Option.some.inj hcall
    have hadded := padded_addKeyPubKey env db w secret pubkey
    exact ⟨hadded.dated hw, hadded.firstOf⟩
  | addCryptedKey db vchPubKey vchCryptedSecret =>
    obtain rfl := Option.some.inj hcall
    have hadded := padded_addCryptedKey env db w vchPubKey vchCryptedSecret
    exact ⟨hadded.dated hw, hadded.firstOf⟩
  | loadKeyMetadata pubkey metadata =>
    obtain rfl := Option.some.inj hcall
    have hfirst := firstOf_loadKeyMetadata times w pubkey metadata
    exact ⟨dated_of_firstOf hw hfirst rfl, hfirst⟩

end Steps

/-! ## Result -/

/-- **Over any calls that return, the time of the first key is the least of the known times that
were announced, and no key on file is older: a search from there on misses none.** -/
theorem nTimeFirstKey_run {w w' : CWallet CKey CPubKey CKeyID Others CKeyMetadata Versions}
    (calls : List (KeyCall CKey CPubKey CKeyMetadata)) (hclocked : ∀ call ∈ calls, call.Clocked)
    (hcalls : w.calls times calls = some w') (hw : Dated times w) :
    Dated times w' ∧
      FirstOf (w.nTimeFirstKey :: calls.flatMap (KeyCall.announced times)) w'.nTimeFirstKey := by
  induction calls generalizing w with
  | nil =>
    obtain rfl := Option.some.inj hcalls
    exact ⟨hw, .singleton _⟩
  | cons call calls ih =>
    obtain ⟨w₁, hcall, hrest⟩ := Option.bind_eq_some_iff.mp hcalls
    obtain ⟨hw₁, hfirst⟩ := dated_step (hclocked call List.mem_cons_self) hcall hw
    obtain ⟨hw', hlast⟩ := ih (fun c hc => hclocked c (List.mem_cons_of_mem call hc)) hrest hw₁
    exact ⟨hw', hfirst.append hlast⟩

/-- Metadata that are the time itself. -/
def sampleTimes : CreateTimes sampleWalletEnv where
  nCreateTime metadata := metadata
  nCreateTime_keyMetadata _ := rfl
  nCreateTime_noMetadata := rfl

/-- Two keys are loaded, one of them without a time, and one is made. -/
def sampleCalls : List (KeyCall Bytes Bytes Int64) :=
  [.loadKeyMetadata (sampleKey 3) 0, .loadKeyMetadata (sampleKey 5) 1400000000,
    .generateNewKey fullDisk (fun _ => sampleKey 7) 1500000000]

theorem nTimeFirstKey_run_sample : ∃ w', sampleWallet.calls sampleTimes sampleCalls = some w' ∧
    Dated sampleTimes w' ∧ FirstOf [0, 0, 1400000000, 1500000000] w'.nTimeFirstKey := by
  have hclocked : ∀ call ∈ sampleCalls, call.Clocked := by
    simp [sampleCalls, KeyCall.Clocked]
  have hdated : Dated sampleTimes sampleWallet := fun _ _ h => absurd h (by simp [sampleWallet])
  exact ⟨_, rfl, nTimeFirstKey_run sampleTimes sampleCalls hclocked rfl hdated⟩

end ChainX.Wallet
