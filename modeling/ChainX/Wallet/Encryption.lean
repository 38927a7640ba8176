import ChainX.Wallet.Locking

/-!
# Encrypting the store loses no key

Keys come into the encrypted map from `EncryptKeys` (`crypter.cpp:354-376`) and from `AddKeyPubKey`
(`crypter.cpp:283-302`) while the store is unlocked. Both encrypt under the one master key that
`Unlock` accepts (`unlock_own`, `unlock_wrong`), so that all entries are sealed under it (`Sealed`),
and what holds a key goes on holding it as long as no other key is filed under its id
(`Holds.filed`). `Keeps` is the invariant of the runs after `EncryptKeys`, `Keeps.step` its step.

* `Sound` is what is assumed of keys and of the cipher: it is undone under the same key and vector,
  and under another key it gives nothing that passes for the secret of the public key.
* The runs are any sequences of the six operations, in which the keys that are added are fresh and
  fit their public keys (`May`). Locking and unlocking may come with anything.

**`encryptKeys_keeps`**: after `EncryptKeys` has succeeded, as it does, every key there was and
every key added since is given out whenever the store is unlocked, and the master key always unlocks
it.
-/

namespace ChainX.Wallet

open ChainX.Lib ChainX.Node CCryptoKeyStore

variable {CKey CPubKey CKeyID Others : Type} [LinearOrder CKeyID]

/-- What is assumed of keys with a secret of 32 bytes and of the cipher: a key passes its own public
key and is made again from its secret; a cipher under 32 bytes does not fail and is undone under the
same key and vector; and no other master key makes a secret that passes the public key. -/
structure Sound (env : Env CKey CPubKey CKeyID Others) : Prop where
  verify_own : ∀ key, (env.bytes key).length = 32 →
    env.verifyPubKey key (env.getPubKey key) = true
  set_bytes : ∀ key old, (env.bytes key).length = 32 →
    env.set old (env.bytes key) (env.isCompressed (env.getPubKey key)) = key
  decrypt_encrypt : ∀ mk iv secret, mk.length = WALLET_CRYPTO_KEY_SIZE →
    ∃ c, env.evpEncrypt mk iv secret = some c ∧ env.evpDecrypt mk iv c = some secret
  wrong_key : ∀ key mk mk' c old secret, (env.bytes key).length = 32 → mk' ≠ mk →
    encryptSecret env mk (env.bytes key) (env.getHash (env.getPubKey key)) = some c →
    decryptSecret env mk' c (env.getHash (env.getPubKey key)) = some secret → secret.length = 32 →
    env.verifyPubKey (env.set old secret (env.isCompressed (env.getPubKey key)))
      (env.getPubKey key) = false

variable {env : Env CKey CPubKey CKeyID Others} {s s' : CCryptoKeyStore CKey CPubKey CKeyID Others}
  {mk mk' : CKeyingMaterial} {key key' : CKey} {c : Bytes}

/-! ## One key -/

theorem encryptSecret_eq (hmk : mk.length = WALLET_CRYPTO_KEY_SIZE) (secret : CKeyingMaterial)
    (nIV : Uint256) : encryptSecret env mk secret nIV = env.evpEncrypt mk nIV.toList secret := by
  have hiv : nIV.toList.length = WALLET_CRYPTO_KEY_SIZE := nIV.length_toList
  simp [encryptSecret, CCrypter.setKey, hmk, hiv, CCrypter.encrypt]

theorem decryptSecret_eq (hmk : mk.length = WALLET_CRYPTO_KEY_SIZE) (c : Bytes)
    (nIV : Uint256) : decryptSecret env mk c nIV = env.evpDecrypt mk nIV.toList c := by
  have hiv : nIV.toList.length = WALLET_CRYPTO_KEY_SIZE := nIV.length_toList
  simp [decryptSecret, CCrypter.setKey, hmk, hiv, CCrypter.decrypt]

/-- `c` is the secret of `key`, encrypted under `mk`. -/
def Seals (env : Env CKey CPubKey CKeyID Others) (mk : CKeyingMaterial) (key : CKey) (c : Bytes) :
    Prop :=
  encryptSecret env mk (env.bytes key) (env.getHash (env.getPubKey key)) = some c

theorem exists_seals (hsound : Sound env) (hmk : mk.length = WALLET_CRYPTO_KEY_SIZE) (key : CKey) :
    ∃ c, Seals env mk key c := by
  obtain ⟨c, hc, -⟩ := hsound.decrypt_encrypt mk (env.getHash (env.getPubKey key)).toList
    (env.bytes key) hmk
  exact ⟨c, by rw [Seals, encryptSecret_eq hmk, hc]⟩

/-- The master key gives the key back. -/
theorem decryptKey_own (hsound : Sound env) (hmk : mk.length = WALLET_CRYPTO_KEY_SIZE)
    (hkey : (env.bytes key).length = 32) (hc : Seals env mk key c) (old : CKey) :
    decryptKey env mk c (env.getPubKey key) old = (true, key) := by
  obtain ⟨c', henc, hdec⟩ := hsound.decrypt_encrypt mk (env.getHash (env.getPubKey key)).toList
    (env.bytes key) hmk
  rw [Seals, encryptSecret_eq hmk, henc] at hc
  obtain rfl := Option.some.inj hc
  unfold decryptKey
  rw [decryptSecret_eq hmk, hdec]
  simp only [hkey, ne_eq, not_true_eq_false, if_false, hsound.set_bytes key old hkey,
    hsound.verify_own key hkey]

/-- Another master key does not. -/
theorem decryptKey_wrong (hsound : Sound env) (hne : mk' ≠ mk) (hkey : (env.bytes key).length = 32)
    (hc : Seals env mk key c) (old : CKey) :
    (decryptKey env mk' c (env.getPubKey key) old).1 = false := by
  unfold decryptKey
  cases hdec : decryptSecret env mk' c (env.getHash (env.getPubKey key)) with
  | none => rfl
  | some secret =>
    by_cases hlen : secret.length = 32
    · simp only [hlen, ne_eq, not_true_eq_false, if_false]
      exact hsound.wrong_key key mk mk' c old secret hkey hne hc hdec hlen
    · simp only [ne_eq, hlen, not_false_eq_true, if_true]

/-! ## The encrypted map -/

/-- The store has `key`, sealed under `mk`. -/
def Holds (env : Env CKey CPubKey CKeyID Others) (mk : CKeyingMaterial)
    (s : CCryptoKeyStore CKey CPubKey CKeyID Others) (key : CKey) : Prop :=
  ∃ c, s.mapCryptedKeys[env.getID (env.getPubKey key)]? = some (env.getPubKey key, c) ∧
    Seals env mk key c

/-- Every entry is a key sealed under `mk`. -/
def Sealed (env : Env CKey CPubKey CKeyID Others) (mk : CKeyingMaterial)
    (s : CCryptoKeyStore CKey CPubKey CKeyID Others) : Prop :=
  ∀ (id : CKeyID) pub c, s.mapCryptedKeys[id]? = some (pub, c) →
    ∃ key, (env.bytes key).length = 32 ∧ pub = env.getPubKey key ∧ Seals env mk key c

theorem Sealed.filed (h : Sealed env mk s) (hkey : (env.bytes key).length = 32)
    (hc : Seals env mk key c) : Sealed env mk (s.filed env (env.getPubKey key) c) := by
  intro id pub c' hget
  exact forall_filed (P := fun _ e => ∃ key, (env.bytes key).length = 32 ∧
      e.1 = env.getPubKey key ∧ Seals env mk key e.2)
    (fun id e hget => h id e.1 e.2 hget) ⟨key, hkey, rfl, hc⟩ id (pub, c') hget

theorem holds_filed (hc : Seals env mk key c) :
    Holds env mk (s.filed env (env.getPubKey key) c) key :=
  ⟨c, Std.TreeMap.getElem?_insert_self, hc⟩

theorem Holds.isEmpty (h : Holds env mk s key) : s.mapCryptedKeys.isEmpty = false := by
  obtain ⟨c, hget, -⟩ := h
  refine Std.TreeMap.isEmpty_eq_false_iff_exists_mem.mpr
    ⟨env.getID (env.getPubKey key), Std.TreeMap.mem_iff_isSome_getElem?.mpr ?_⟩
  rw [hget]
  rfl

/-- Filing a key under a free id disturbs no other. -/
theorem Holds.filed (h : Holds env mk s key') {pub : CPubKey}
    (hfresh : s.mapCryptedKeys[env.getID pub]? = none) : Holds env mk (s.filed env pub c) key' := by
  obtain ⟨c', hget, hc'⟩ := h
  refine ⟨c', ?_, hc'⟩
  have hne : env.getID pub ≠ env.getID (env.getPubKey key') := by
    intro heq
    rw [heq, hget] at hfresh
    exact absurd hfresh (by simp)
  simp only [CCryptoKeyStore.filed, Std.TreeMap.getElem?_insert, Std.compare_eq_iff_eq, if_neg hne,
    hget]

/-! ## `Unlock` -/

/-- Under the right master key the loop passes, wherever it stops. -/
theorem unlockLoop_own (fChecked : Bool) : ∀ {entries : List (CKeyID × CPubKey × Bytes)}
    (keyPass : Bool), (∀ e ∈ entries, (decryptKey env mk e.2.2 e.2.1 env.newKey).1 = true) →
      unlockLoop env mk fChecked keyPass entries = (keyPass || !entries.isEmpty, false)
  | [], keyPass, _ => by rw [unlockLoop, List.isEmpty_nil, Bool.not_true, Bool.or_false]
  | (id, pub, c) :: entries, keyPass, h => by
    obtain ⟨hhead, htail⟩ := List.forall_mem_cons.mp h
    have hrest := unlockLoop_own fChecked true htail
    simp only at hhead
    cases fChecked with
    | true => simp [unlockLoop, hhead]
    | false => simp [unlockLoop, hhead, hrest]

/-- Under a wrong one it fails at the first entry. -/
theorem unlockLoop_wrong (fChecked : Bool) {entries : List (CKeyID × CPubKey × Bytes)}
    (hsome : entries.isEmpty = false)
    (h : ∀ e ∈ entries, (decryptKey env mk e.2.2 e.2.1 env.newKey).1 = false) :
    unlockLoop env mk fChecked false entries = (false, true) := by
  cases entries with
  | nil => exact absurd hsome (by simp)
  | cons e entries =>
    have hhead := h e List.mem_cons_self
    simp [unlockLoop, hhead]

/-- An encrypted store with at least one key, all of them sealed under `mk`. -/
structure Encrypted (env : Env CKey CPubKey CKeyID Others) (mk : CKeyingMaterial)
    (s : CCryptoKeyStore CKey CPubKey CKeyID Others) : Prop where
  fUseCrypto : s.fUseCrypto = true
  hasKey : s.mapCryptedKeys.isEmpty = false
  isSealed : Sealed env mk s

theorem Encrypted.filed (h : Encrypted env mk s) (hkey : (env.bytes key).length = 32)
    (hc : Seals env mk key c) : Encrypted env mk (s.filed env (env.getPubKey key) c) where
  fUseCrypto := rfl
  hasKey := Std.TreeMap.isEmpty_insert
  isSealed := h.isSealed.filed hkey hc

/-- The master key always unlocks the store. -/
theorem unlock_own (hsound : Sound env) (hmk : mk.length = WALLET_CRYPTO_KEY_SIZE)
    (h : Encrypted env mk s) (fForMixingOnly : Bool) :
    s.unlock env mk fForMixingOnly = some (true, s.opened mk fForMixingOnly) := by
  have hall : ∀ e ∈ s.mapCryptedKeys.toList,
      (decryptKey env mk e.2.2 e.2.1 env.newKey).1 = true := by
    rintro ⟨id, pub, c⟩ he
    obtain ⟨key, hkey, rfl, hc⟩ :=
      h.isSealed id pub c (Std.TreeMap.mem_toList_iff_getElem?_eq_some.mp he)
    rw [decryptKey_own hsound hmk hkey hc]
  have hloop := unlockLoop_own s.fDecryptionThoroughlyChecked false hall
  rw [Std.TreeMap.isEmpty_toList, h.hasKey] at hloop
  unfold unlock opened
  rw [setCrypted_of_crypted h.fUseCrypto]
  simp [hloop, h.fUseCrypto]

/-- No other key does, and none brings the program down. -/
theorem unlock_wrong (hsound : Sound env) (hne : mk' ≠ mk) (h : Encrypted env mk s)
    (fForMixingOnly : Bool) : s.unlock env mk' fForMixingOnly = some (false, s) := by
  have hall : ∀ e ∈ s.mapCryptedKeys.toList,
      (decryptKey env mk' e.2.2 e.2.1 env.newKey).1 = false := by
    rintro ⟨id, pub, c⟩ he
    obtain ⟨key, hkey, rfl, hc⟩ :=
      h.isSealed id pub c (Std.TreeMap.mem_toList_iff_getElem?_eq_some.mp he)
    exact decryptKey_wrong hsound hne hkey hc env.newKey
  have hloop := unlockLoop_wrong s.fDecryptionThoroughlyChecked
    (by rw [Std.TreeMap.isEmpty_toList, h.hasKey]) hall
  unfold unlock
  rw [setCrypted_of_crypted h.fUseCrypto]
  simp [hloop]

/-! ## `EncryptKeys` -/

/-- The loop of `EncryptKeys` seals every key of the list, and loses none that was sealed. -/
theorem encryptKeysLoop_own (hsound : Sound env) (hmk : mk.length = WALLET_CRYPTO_KEY_SIZE) :
    ∀ {entries : List (CKeyID × CKey)} {s : CCryptoKeyStore CKey CPubKey CKeyID Others},
      s.fUseCrypto = true → Sealed env mk s →
      (∀ e ∈ entries, (env.bytes e.2).length = 32 ∧ e.1 = env.getID (env.getPubKey e.2) ∧
        s.mapCryptedKeys[e.1]? = none) →
      entries.Pairwise (fun e e' => e.1 ≠ e'.1) →
      ∃ s', encryptKeysLoop env mk entries s = (true, s') ∧ s'.fUseCrypto = true ∧
        s'.vMasterKey = s.vMasterKey ∧ Sealed env mk s' ∧
        (∀ key, Holds env mk s key → Holds env mk s' key) ∧ ∀ e ∈ entries, Holds env mk s' e.2
  | [], s, hcrypto, hsealed, _, _ =>
    ⟨s, rfl, hcrypto, rfl, hsealed, fun _ h => h, fun _ h => absurd h List.not_mem_nil⟩
  | (id, key) :: entries, s, hcrypto, hsealed, hentries, hdistinct => by
    obtain ⟨⟨hkey, hid, hfree⟩, htail⟩ := List.forall_mem_cons.mp hentries
    obtain ⟨hhead, hdistinct'⟩ := List.pairwise_cons.mp hdistinct
    obtain ⟨c, hc⟩ := exists_seals hsound hmk key
    simp only at hkey hid hfree hhead
    subst hid
    obtain ⟨s', hloop, hcrypto', hmaster', hsealed', hold, hnew⟩ :=
      encryptKeysLoop_own hsound hmk (s := s.filed env (env.getPubKey key) c) rfl
        (hsealed.filed hkey hc)
        (fun e he => ⟨(htail e he).1, (htail e he).2.1, by
          simp only [CCryptoKeyStore.filed, Std.TreeMap.getElem?_insert, Std.compare_eq_iff_eq,
            if_neg (hhead e he), (htail e he).2.2]⟩) hdistinct'
    refine ⟨s', ?_, hcrypto', hmaster', hsealed', fun key' h => hold key' (h.filed hfree), ?_⟩
    · rw [encryptKeysLoop, hc]
      simp only [addCryptedKey_of_crypted hcrypto, hloop]
    · exact List.forall_mem_cons.mpr ⟨hold key (holds_filed hc), hnew⟩

/-! ## After `EncryptKeys` -/

/-- What may come after `EncryptKeys`: fresh keys with their own public keys are added, and the
store is locked and unlocked with anything. -/
def May (env : Env CKey CPubKey CKeyID Others) :
    Op CKey CPubKey → CCryptoKeyStore CKey CPubKey CKeyID Others → Prop
  | .addKeyPubKey key pubkey, s => (env.bytes key).length = 32 ∧ pubkey = env.getPubKey key ∧
    s.mapCryptedKeys[env.getID pubkey]? = none
  | .lock _, _ => True
  | .unlock _ _, _ => True
  | _, _ => False

/-- `key` was there when the store was encrypted, or was added since. -/
def Present (env : Env CKey CPubKey CKeyID Others) (old : CKey → Prop)
    (hist : List (Op CKey CPubKey × Bool)) (key : CKey) : Prop :=
  old key ∨ (Op.addKeyPubKey key (env.getPubKey key), true) ∈ hist

variable {old : CKey → Prop} {hist : List (Op CKey CPubKey × Bool)}

theorem present_concat {e : Op CKey CPubKey × Bool} (h : Present env old (hist ++ [e]) key) :
    Present env old hist key ∨ e = (.addKeyPubKey key (env.getPubKey key), true) := by
  rcases h with h | h
  · exact .inl (.inl h)
  · rcases List.mem_append.mp h with h | h
    · exact .inl (.inr h)
    · exact .inr (List.mem_singleton.mp h).symm

/-- The invariant of the runs after `EncryptKeys`. -/
structure Keeps (env : Env CKey CPubKey CKeyID Others) (mk : CKeyingMaterial) (old : CKey → Prop)
    (hist : List (Op CKey CPubKey × Bool)) (s : CCryptoKeyStore CKey CPubKey CKeyID Others) :
    Prop where
  encrypted : Encrypted env mk s
  holds : ∀ key, Present env old hist key → (env.bytes key).length = 32 ∧ Holds env mk s key
  master : (Unlocked hist ∧ s.vMasterKey = mk) ∨ (¬ Unlocked hist ∧ s.vMasterKey = [])

/-- Where the event adds no key and neither locks nor unlocks. -/
theorem Keeps.other (h : Keeps env mk old hist s) {e : Op CKey CPubKey × Bool}
    (hadd : ∀ key pub, e ≠ (.addKeyPubKey key pub, true)) (hon : ∀ mk b, e ≠ (.unlock mk b, true))
    (hoff : e ≠ (.lock false, true)) (hcrypto : s'.fUseCrypto = true)
    (hmap : s'.mapCryptedKeys = s.mapCryptedKeys) (hmaster : s'.vMasterKey = s.vMasterKey) :
    Keeps env mk old (hist ++ [e]) s' where
  encrypted := ⟨hcrypto, by rw [hmap]; exact h.encrypted.hasKey, by
    unfold Sealed
    rw [hmap]
    exact h.encrypted.isSealed⟩
  holds key hkey := by
    unfold Holds
    rw [hmap]
    rcases present_concat hkey with hkey | hkey
    · exact h.holds key hkey
    · exact absurd hkey (hadd key _)
  master := by
    rw [unlocked_other hon hoff, hmaster]
    exact h.master

theorem Keeps.step (hsound : Sound env) (hmk : mk.length = WALLET_CRYPTO_KEY_SIZE)
    (h : Keeps env mk old hist s) {op : Op CKey CPubKey} (hmay : May env op s) :
    ∃ r s', step env op s = some (r, s') ∧ Keeps env mk old (hist ++ [(op, r)]) s' := by
  cases op with
  | setCrypted => exact hmay.elim
  | encryptKeys _ => exact hmay.elim
  | addCryptedKey _ _ => exact hmay.elim
  | addKeyPubKey key pubkey =>
    obtain ⟨hkey, rfl, hfresh⟩ := hmay
    rcases addKeyPubKey_cases env s key (env.getPubKey key) with
      ⟨hplain, -⟩ | hcase | ⟨c, hne, hc, hcase⟩
    · exact absurd (hplain.symm.trans h.encrypted.fUseCrypto) (by simp)
    · refine ⟨false, s, congrArg some hcase, ?_⟩
      exact h.other (by simp) (by simp) (by simp) h.encrypted.fUseCrypto rfl rfl
    · -- the store was unlocked, so the key is sealed under the master key
      have hmaster : s.vMasterKey = mk := by
        rcases h.master with ⟨-, hmaster⟩ | ⟨-, hnil⟩
        · exact hmaster
        · exact absurd hnil hne
      rw [hmaster] at hc
      refine ⟨true, _, congrArg some hcase, h.encrypted.filed hkey hc, fun key' hkey' => ?_, ?_⟩
      · rcases present_concat hkey' with hkey' | heq
        · exact ⟨(h.holds key' hkey').1, (h.holds key' hkey').2.filed hfresh⟩
        · obtain ⟨rfl, -⟩ := Op.addKeyPubKey.inj (Prod.mk.inj heq).1
          exact ⟨hkey, holds_filed hc⟩
      · rw [unlocked_other (by simp) (by simp)]
        exact h.master
  | lock fAllowMixing =>
    rcases lock_cases s fAllowMixing with hcase | hcase
    · refine ⟨false, s, congrArg some hcase, ?_⟩
      exact h.other (by simp) (by simp) (by simp) h.encrypted.fUseCrypto rfl rfl
    · refine ⟨true, _, congrArg some hcase, ?_⟩
      cases fAllowMixing with
      | true => exact h.other (by simp) (by simp) (by simp) rfl rfl rfl
      | false =>
        refine ⟨⟨rfl, h.encrypted.hasKey, h.encrypted.isSealed⟩, fun key hkey => ?_,
          .inr ⟨not_unlocked_lock, rfl⟩⟩
        rcases present_concat hkey with hkey | hkey
        · exact h.holds key hkey
        · exact absurd hkey (by simp)
  | unlock mk' fForMixingOnly =>
    by_cases hne : mk' = mk
    · subst hne
      refine ⟨true, _, unlock_own hsound hmk h.encrypted fForMixingOnly,
        ⟨rfl, h.encrypted.hasKey, h.encrypted.isSealed⟩, fun key hkey => ?_,
        .inl ⟨unlocked_unlock mk' fForMixingOnly, rfl⟩⟩
      rcases present_concat hkey with hkey | hkey
      · exact h.holds key hkey
      · exact absurd hkey (by simp)
    · refine ⟨false, s, unlock_wrong hsound hne h.encrypted fForMixingOnly, ?_⟩
      exact h.other (by simp) (by simp) (by simp) h.encrypted.fUseCrypto rfl rfl

/-- `EncryptKeys` on an unencrypted store. -/
theorem Keeps.start (hsound : Sound env) (hmk : mk.length = WALLET_CRYPTO_KEY_SIZE)
    {past : List (Op CKey CPubKey × Bool)} (hsane : Sane env past s) (hplain : s.isCrypted = false)
    (hsome : s.mapKeys.isEmpty = false) (hkeys : ∀ (id : CKeyID) key, s.mapKeys[id]? = some key →
      (env.bytes key).length = 32 ∧ id = env.getID (env.getPubKey key)) :
    ∃ s', s.encryptKeys env mk = (true, s') ∧ s'.mapKeys.isEmpty = true ∧
      Keeps env mk (fun key => ∃ id : CKeyID, s.mapKeys[id]? = some key) [] s' := by
  obtain ⟨hnil, hempty⟩ := hsane.plain hplain
  have hnone : ∀ id : CKeyID, s.mapCryptedKeys[id]? = none := fun id =>
    Std.TreeMap.getElem?_of_isEmpty hempty
  have hmem : ∀ {id key}, (id, key) ∈ s.mapKeys.toList ↔ s.mapKeys[id]? = some key :=
    Std.TreeMap.mem_toList_iff_getElem?_eq_some
  have hdistinct : s.mapKeys.toList.Pairwise fun e e' => e.1 ≠ e'.1 := by
    refine Std.TreeMap.distinct_keys_toList.imp fun h heq => h ?_
    rw [heq]
    exact Std.ReflCmp.compare_self
  obtain ⟨s', hloop, hcrypto, hmaster, hsealed, -, hnew⟩ := encryptKeysLoop_own hsound hmk
    (s := { s with fUseCrypto := true }) rfl
    (fun id pub c hget => absurd (hget.symm.trans (hnone id)) (by simp))
    (fun e he => ⟨(hkeys e.1 e.2 (hmem.mp he)).1, (hkeys e.1 e.2 (hmem.mp he)).2, hnone e.1⟩)
    hdistinct
  have hholds : ∀ (id : CKeyID) key, s.mapKeys[id]? = some key → Holds env mk s' key :=
    fun id key hget => hnew (id, key) (hmem.mpr hget)
  refine ⟨{ s' with mapKeys := ∅ }, ?_, rfl, ⟨hcrypto, ?_, hsealed⟩, fun key hkey => ?_,
    .inr ⟨not_unlocked_nil, hmaster.trans hnil⟩⟩
  · unfold encryptKeys
    rw [hempty, hplain]
    simp [hloop]
  · obtain ⟨id, hid⟩ := Std.TreeMap.isEmpty_eq_false_iff_exists_mem.mp hsome
    obtain ⟨key, hget⟩ := Option.isSome_iff_exists.mp (Std.TreeMap.mem_iff_isSome_getElem?.mp hid)
    exact (hholds id key hget).isEmpty
  · rcases hkey with ⟨id, hget⟩ | hkey
    · exact ⟨(hkeys id key hget).1, hholds id key hget⟩
    · exact absurd hkey List.not_mem_nil

/-- An unlocked store gives out what it holds. -/
theorem Keeps.getKey (hsound : Sound env) (hmk : mk.length = WALLET_CRYPTO_KEY_SIZE)
    (h : Keeps env mk old hist s) (hunlocked : Unlocked hist) (hpresent : Present env old hist key)
    (keyOut : CKey) (pubOut : CPubKey) :
    s.getKey env (env.getID (env.getPubKey key)) keyOut = (true, key) ∧
      s.getPubKey env (env.getID (env.getPubKey key)) pubOut = (true, env.getPubKey key) := by
  obtain ⟨hkey, c, hentry, hc⟩ := h.holds key hpresent
  have hmaster : s.vMasterKey = mk := by
    rcases h.master with ⟨-, hmaster⟩ | ⟨hlocked, -⟩
    · exact hmaster
    · exact absurd hunlocked hlocked
  unfold CCryptoKeyStore.getKey CCryptoKeyStore.getPubKey isCrypted
  rw [h.encrypted.fUseCrypto, hentry, hmaster]
  exact ⟨decryptKey_own hsound hmk hkey hc keyOut, rfl⟩

/-- **Encrypting the key store loses no key.** Take any unencrypted store `s` that a run from the
constructor has come to, with at least one key, all of them of 32 bytes and under the id of their
own public key, and a master key of 32 bytes. `EncryptKeys` returns true and empties `mapKeys`; and
every run after it in which fresh keys are added with their own public keys, and the store is locked
and unlocked with anything, comes to its end in a store that the master key unlocks, and that gives
out every key there was and every key added, and its public key, if it has been unlocked and not
been locked with `Lock(false)` since. -/
theorem encryptKeys_keeps (hsound : Sound env)
    {init s : CCryptoKeyStore CKey CPubKey CKeyID Others} (hinit : init.Initial)
    {ops : List (Op CKey CPubKey)} {past : List (Op CKey CPubKey × Bool)}
    (hrun : run (step env) ops init = some (past, s)) (hplain : s.isCrypted = false)
    (hsome : s.mapKeys.isEmpty = false) (hkeys : ∀ (id : CKeyID) key, s.mapKeys[id]? = some key →
      (env.bytes key).length = 32 ∧ id = env.getID (env.getPubKey key))
    {mk : CKeyingMaterial} (hmk : mk.length = WALLET_CRYPTO_KEY_SIZE) :
    ∃ s1, s.encryptKeys env mk = (true, s1) ∧ s1.mapKeys.isEmpty = true ∧
      ∀ ops, Admissible (step env) (May env) ops s1 →
        ∃ hist s2, run (step env) ops s1 = some (hist, s2) ∧
          (∀ fForMixingOnly, ∃ s3, s2.unlock env mk fForMixingOnly = some (true, s3)) ∧
          (Unlocked hist → ∀ key, (∃ id : CKeyID, s.mapKeys[id]? = some key) ∨
              (Op.addKeyPubKey key (env.getPubKey key), true) ∈ hist →
            ∀ keyOut pubOut, s2.getKey env (env.getID (env.getPubKey key)) keyOut = (true, key) ∧
              s2.getPubKey env (env.getID (env.getPubKey key)) pubOut =
                (true, env.getPubKey key)) := by
  have hsane : Sane env past s := run_invariant (fun h hop => h.step hop) (.of_initial hinit) hrun
  obtain ⟨s1, henc, hempty, hkeeps⟩ := Keeps.start hsound hmk hsane hplain hsome hkeys
  refine ⟨s1, henc, hempty, fun ops hmay => ?_⟩
  obtain ⟨hist, s2, hrun2, hkeeps2⟩ :=
    run_of_admissible (fun h hop => h.step hsound hmk hop) hkeeps hmay
  refine ⟨hist, s2, hrun2, fun b => ⟨_, unlock_own hsound hmk hkeeps2.encrypted b⟩, ?_⟩
  exact fun hunlocked key hpresent keyOut pubOut =>
    hkeeps2.getKey hsound hmk hunlocked hpresent keyOut pubOut

theorem sampleEnv_sound : Sound sampleEnv where
  verify_own key _ := beq_self_eq_true key
  set_bytes _ _ _ := rfl
  decrypt_encrypt mk iv secret _ := ⟨mk ++ secret, rfl, by simp [sampleEnv]⟩
  wrong_key key mk mk' c old secret _ hne hc hdec _ := by
    by_cases hmk : mk.length = WALLET_CRYPTO_KEY_SIZE
    · by_cases hmk' : mk'.length = WALLET_CRYPTO_KEY_SIZE
      · -- the key in front of the text is not the one it is read with
        rw [encryptSecret_eq hmk] at hc
        rw [decryptSecret_eq hmk'] at hdec
        obtain rfl : mk ++ key = c := Option.some.inj hc
        have htake : (mk ++ key).take mk'.length = mk := List.take_left' (hmk.trans hmk'.symm)
        simp [sampleEnv, htake, hne.symm] at hdec
      · simp [decryptSecret, CCrypter.setKey, hmk'] at hdec
    · simp [encryptSecret, CCrypter.setKey, hmk] at hc

/-- The sample store with a key. -/
def samplePlain : CCryptoKeyStore Bytes Bytes Nat Unit :=
  (sampleStore.addKeyPubKey sampleEnv (sampleKey 7) (sampleKey 7)).2

/-- The sample store encrypted, and unlocked. -/
def sampleLocked : CCryptoKeyStore Bytes Bytes Nat Unit :=
  (samplePlain.encryptKeys sampleEnv (sampleKey 1)).2

/-- The store is unlocked again and gets another key. -/
def sampleOps : List (Op Bytes Bytes) :=
  [.unlock (sampleKey 1) false, .addKeyPubKey (sampleKey 9) (sampleKey 9)]

/-- The store is encrypted and unlocked and gets a second key, and both are given out. -/
theorem encryptKeys_keeps_sample : ∃ hist s2,
    samplePlain.encryptKeys sampleEnv (sampleKey 1) = (true, sampleLocked) ∧
      run (step sampleEnv) sampleOps sampleLocked = some (hist, s2) ∧ Unlocked hist ∧
      s2.getKey sampleEnv 7 [] = (true, sampleKey 7) ∧
      s2.getKey sampleEnv 9 [] = (true, sampleKey 9) := by
  have hrun : run (step sampleEnv) [.addKeyPubKey (sampleKey 7) (sampleKey 7)] sampleStore =
      some ([(.addKeyPubKey (sampleKey 7) (sampleKey 7), true)], samplePlain) := rfl
  have hmap : samplePlain.mapKeys = (∅ : Std.TreeMap Nat Bytes).insert 7 (sampleKey 7) := rfl
  have hkeys : ∀ (id : Nat) key, samplePlain.mapKeys[id]? = some key →
      (sampleEnv.bytes key).length = 32 ∧ id = sampleEnv.getID (sampleEnv.getPubKey key) := by
    intro id key hget
    rw [hmap, Std.TreeMap.getElem?_insert] at hget
    split at hget
    case isTrue hid =>
      obtain rfl := Option.some.inj hget
      exact ⟨rfl, (Std.LawfulEqOrd.eq_of_compare hid).symm⟩
    case isFalse => exact absurd hget (by simp)
  have hfree : sampleLocked.mapCryptedKeys[9]? = none := by decide +kernel
  have hmk : (sampleKey 1).length = WALLET_CRYPTO_KEY_SIZE := rfl
  obtain ⟨s1, henc, -, hafter⟩ := encryptKeys_keeps sampleEnv_sound sampleStore_initial hrun
    (by decide +kernel) (by decide +kernel) hkeys hmk
  obtain rfl : sampleLocked = s1 := congrArg Prod.snd henc
  have hmay : Admissible (step sampleEnv) (May sampleEnv) sampleOps sampleLocked := by
    refine ⟨trivial, fun r s' h => ⟨⟨rfl, rfl, ?_⟩, fun _ _ _ => trivial⟩⟩
    have hunlock : sampleLocked.unlock sampleEnv (sampleKey 1) false = some (r, s') := h
    rcases unlock_cases hunlock with ⟨-, rfl | rfl⟩ | ⟨-, rfl⟩
    · exact hfree
    · exact hfree
    · exact hfree
  obtain ⟨hist, s2, hrun2, -, hgive⟩ := hafter sampleOps hmay
  have hhist : (run (step sampleEnv) sampleOps sampleLocked).map Prod.fst =
      some [(.unlock (sampleKey 1) false, true),
        (.addKeyPubKey (sampleKey 9) (sampleKey 9), true)] := by decide +kernel
  rw [hrun2] at hhist
  obtain rfl := Option.some.inj hhist
  have hunlocked : Unlocked [(Op.unlock (sampleKey 1) false, true),
      (Op.addKeyPubKey (sampleKey 9) (sampleKey 9), true)] :=
    ⟨[], _, _, rfl, ⟨_, _, rfl⟩, by simp⟩
  have hseven : ∃ id : Nat, samplePlain.mapKeys[id]? = some (sampleKey 7) :=
    ⟨7, by rw [hmap]; exact Std.TreeMap.getElem?_insert_self⟩
  have hnine := List.mem_cons_of_mem (Op.unlock (sampleKey 1) false, true)
    (List.mem_singleton_self (Op.addKeyPubKey (sampleKey 9) (sampleKey 9), true))
  exact ⟨_, s2, henc, hrun2, hunlocked, (hgive hunlocked (sampleKey 7) (.inl hseven) [] []).1,
    (hgive hunlocked (sampleKey 9) (.inr hnine) [] []).1⟩

end ChainX.Wallet
