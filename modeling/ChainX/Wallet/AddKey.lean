import ChainX.Wallet.Locking

/-!
# Adding keys, `Wallet/wallet-tx.cpp`

`GenerateNewKey` (`wallet-tx.cpp:97-121`), `AddKeyPubKey` (`wallet-tx.cpp:123-146`) and
`AddCryptedKey` (`wallet-tx.cpp:148-167`) of `CWallet`, over the key store of `crypter.cpp`.
`AddCryptedKey` is virtual: the key store calls that of the wallet.

* The scripts, the watch-only set of the basic key store, the metadata and the versions of the
  wallet, none of which is part of the repository, are a parameter (`WalletEnv`), with the laws of
  `CBasicKeyStore` and of `RemoveWatchOnly`.
* `Db` says how the writes of the call come out. That `RemoveWatchOnly` also erases from the file is
  left out: its result is dropped.
* An exception is `none` beside the wallet as it is then, a failed assertion is `none`.
* `Refused` and `WriteFails` are the two ways to fail: before anything is filed, and after.

**`addKey_kept_iff`**: the key is in memory before it is written, and nothing takes it out again. So
a failed call leaves the wallet as it was exactly if it was refused, or had nothing to file.
-/

namespace ChainX.Wallet

open ChainX.Node

/-- What the wallet uses beside the key store. -/
structure WalletEnv (CKey CPubKey CKeyID Others CScript CKeyMetadata Versions : Type)
    [LinearOrder CKeyID] extends Env CKey CPubKey CKeyID Others where
  getPrivKey : CKey → Bytes
  getScriptForDestination : CKeyID → CScript
  getScriptForRawPubKey : CPubKey → CScript
  haveWatchOnly : Others → CScript → Bool
  removeWatchOnly : Others → CScript → Others
  /-- `CKeyMetadata(nCreateTime)`. -/
  keyMetadata : Int64 → CKeyMetadata
  /-- `CKeyMetadata()`. -/
  noMetadata : CKeyMetadata
  /-- `CanSupportFeature(FEATURE_COMPRPUBKEY)`. -/
  canSupportFeature : Versions → Bool
  /-- `SetMinVersion(FEATURE_COMPRPUBKEY)`. -/
  setMinVersion : Versions → Versions
  basicAddKeyPubKey_eq : ∀ key pubkey mapKeys others,
    basicAddKeyPubKey key pubkey (mapKeys, others) =
      (true, mapKeys.insert (getID pubkey) key, others)
  haveWatchOnly_removeWatchOnly : ∀ others script script',
    haveWatchOnly (removeWatchOnly others script) script' = true ↔
      haveWatchOnly others script' = true ∧ script' ≠ script

/-- How `WriteKey` and `WriteCryptedKey` come out, the latter on `pwalletdbEncryption` or not. -/
structure Db (CPubKey CKeyMetadata : Type) where
  writeKey : CPubKey → Bytes → CKeyMetadata → Bool
  writeCryptedKey : Bool → CPubKey → Bytes → CKeyMetadata → Bool

/-- `CWallet`, as far as its keys go. -/
structure CWallet (CKey CPubKey CKeyID Others CKeyMetadata Versions : Type)
    [LinearOrder CKeyID] where
  /-- The base class. -/
  store : CCryptoKeyStore CKey CPubKey CKeyID Others
  mapKeyMetadata : Std.TreeMap CKeyID CKeyMetadata
  nTimeFirstKey : Int64
  fFileBacked : Bool
  /-- Whether it is set. -/
  pwalletdbEncryption : Bool
  versions : Versions

variable {CKey CPubKey CKeyID Others CScript CKeyMetadata Versions : Type} [LinearOrder CKeyID]
  (env : WalletEnv CKey CPubKey CKeyID Others CScript CKeyMetadata Versions)
  (db : Db CPubKey CKeyMetadata)

/-! ## Functions -/

namespace CWallet

variable (w : CWallet CKey CPubKey CKeyID Others CKeyMetadata Versions)

/-- `mapKeyMetadata[id]`, which adds an entry where there is none. -/
def metadataOf (id : CKeyID) :
    CKeyMetadata × CWallet CKey CPubKey CKeyID Others CKeyMetadata Versions :=
  (w.mapKeyMetadata[id]?.getD env.noMetadata,
    { w with mapKeyMetadata := w.mapKeyMetadata.insertIfNew id env.noMetadata })

/-- `CWallet::AddCryptedKey`: the store takes the key, and then the database. -/
def addCryptedKey (vchPubKey : CPubKey) (vchCryptedSecret : Bytes) :
    Bool × CWallet CKey CPubKey CKeyID Others CKeyMetadata Versions :=
  match w.store.addCryptedKey env.toEnv vchPubKey vchCryptedSecret with
  | (false, store) => (false, { w with store := store })
  | (true, store) =>
    let w := { w with store := store }
    if !w.fFileBacked then (true, w)
    else
      let (metadata, w) := w.metadataOf env (env.getID vchPubKey)
      (db.writeCryptedKey w.pwalletdbEncryption vchPubKey vchCryptedSecret metadata, w)

/-- `CCryptoKeyStore::AddKeyPubKey` of a wallet. -/
def cryptoAddKeyPubKey (key : CKey) (pubkey : CPubKey) :
    Bool × CWallet CKey CPubKey CKeyID Others CKeyMetadata Versions :=
  if !w.store.isCrypted then
    match env.basicAddKeyPubKey key pubkey (w.store.mapKeys, w.store.others) with
    | (ok, mapKeys, others) =>
      (ok, { w with store := { w.store with mapKeys := mapKeys, others := others } })
  else if w.store.isLocked true then (false, w)
  else
    match encryptSecret env.toEnv w.store.vMasterKey (env.bytes key) (env.getHash pubkey) with
    | none => (false, w)
    | some vchCryptedSecret => w.addCryptedKey env db pubkey vchCryptedSecret

/-- `if (HaveWatchOnly(script)) RemoveWatchOnly(script)`. -/
def dropWatchOnly (script : CScript) : CWallet CKey CPubKey CKeyID Others CKeyMetadata Versions :=
  if env.haveWatchOnly w.store.others script then
    { w with store := { w.store with others := env.removeWatchOnly w.store.others script } }
  else w

/-- `CWallet::AddKeyPubKey`: the store takes the key, its scripts are watched no more, and the
database takes it where the store does not encrypt. -/
def addKeyPubKey (secret : CKey) (pubkey : CPubKey) :
    Bool × CWallet CKey CPubKey CKeyID Others CKeyMetadata Versions :=
  match w.cryptoAddKeyPubKey env db secret pubkey with
  | (false, w) => (false, w)
  | (true, w) =>
    let w := w.dropWatchOnly env (env.getScriptForDestination (env.getID pubkey))
    let w := w.dropWatchOnly env (env.getScriptForRawPubKey pubkey)
    if !w.fFileBacked then (true, w)
    else if !w.store.isCrypted then
      let (metadata, w) := w.metadataOf env (env.getID pubkey)
      (db.writeKey pubkey (env.getPrivKey secret) metadata, w)
    else (true, w)

/-- The wallet with the metadata of a new key. -/
def announced (id : CKeyID) (nCreationTime : Int64) :
    CWallet CKey CPubKey CKeyID Others CKeyMetadata Versions :=
  { w with
    mapKeyMetadata := w.mapKeyMetadata.insert id (env.keyMetadata nCreationTime)
    nTimeFirstKey :=
      if w.nTimeFirstKey = 0 ∨ nCreationTime < w.nTimeFirstKey then nCreationTime
      else w.nTimeFirstKey }

/-- What `MakeNewKey` makes for the wallet. -/
def newSecret (makeNewKey : Bool → CKey) : CKey := makeNewKey (env.canSupportFeature w.versions)

/-- `makeNewKey` and `nCreationTime` are what `MakeNewKey` and `GetTime` give. -/
def generateNewKey (makeNewKey : Bool → CKey) (nCreationTime : Int64) :
    Option (Option CPubKey × CWallet CKey CPubKey CKeyID Others CKeyMetadata Versions) :=
  let fCompressed := env.canSupportFeature w.versions
  let secret := w.newSecret env makeNewKey
  let w := if fCompressed then { w with versions := env.setMinVersion w.versions } else w
  let pubkey := env.getPubKey secret
  if !env.verifyPubKey secret pubkey then none
  else
    let w := w.announced env (env.getID pubkey) nCreationTime
    match w.addKeyPubKey env db secret pubkey with
    | (false, w) => some (none, w)
    | (true, w) => some (some pubkey, w)

end CWallet

/-! ## Failing cleanly -/

variable (w w' : CWallet CKey CPubKey CKeyID Others CKeyMetadata Versions)

/-- The key maps and the watch-only set are as they were. -/
structure KeysKept : Prop where
  mapKeys : ∀ id : CKeyID, w'.store.mapKeys[id]? = w.store.mapKeys[id]?
  mapCryptedKeys : ∀ id : CKeyID, w'.store.mapCryptedKeys[id]? = w.store.mapCryptedKeys[id]?
  watchOnly : ∀ script, env.haveWatchOnly w'.store.others script =
    env.haveWatchOnly w.store.others script

/-- So are the metadata. -/
structure MetadataKept : Prop where
  mapKeyMetadata : ∀ id : CKeyID, w'.mapKeyMetadata[id]? = w.mapKeyMetadata[id]?
  nTimeFirstKey : w'.nTimeFirstKey = w.nTimeFirstKey

/-- The key is refused before anything is filed: the store is locked, or cannot encrypt it. -/
def Refused (secret : CKey) (pubkey : CPubKey) : Prop :=
  w.store.isCrypted = true ∧ (w.store.isLocked true = true ∨
    encryptSecret env.toEnv w.store.vMasterKey (env.bytes secret) (env.getHash pubkey) = none)

/-- The key is filed and the write of it, with these metadata, fails. -/
def WriteFails (secret : CKey) (pubkey : CPubKey) (metadata : CKeyMetadata) : Prop :=
  w.fFileBacked = true ∧
    if w.store.isCrypted then
      w.store.isLocked true = false ∧ ∃ vchCryptedSecret,
        encryptSecret env.toEnv w.store.vMasterKey (env.bytes secret) (env.getHash pubkey) =
          some vchCryptedSecret ∧
        db.writeCryptedKey w.pwalletdbEncryption pubkey vchCryptedSecret metadata = false
    else db.writeKey pubkey (env.getPrivKey secret) metadata = false

/-- Filing the key changes nothing: it is there already, and not watched. -/
def AlreadyFiled (secret : CKey) (pubkey : CPubKey) : Prop :=
  if w.store.isCrypted then
    ∀ vchCryptedSecret,
      encryptSecret env.toEnv w.store.vMasterKey (env.bytes secret) (env.getHash pubkey) =
        some vchCryptedSecret →
      w.store.mapCryptedKeys[env.getID pubkey]? = some (pubkey, vchCryptedSecret)
  else
    w.store.mapKeys[env.getID pubkey]? = some secret ∧
      env.haveWatchOnly w.store.others (env.getScriptForDestination (env.getID pubkey)) = false ∧
      env.haveWatchOnly w.store.others (env.getScriptForRawPubKey pubkey) = false

/-! ## What a call does -/

section Cases

variable {w w' : CWallet CKey CPubKey CKeyID Others CKeyMetadata Versions}
  {secret : CKey} {pubkey : CPubKey}

open CWallet

theorem dropWatchOnly_cases
    (w : CWallet CKey CPubKey CKeyID Others CKeyMetadata Versions) (script : CScript) : ∃ others,
    w.dropWatchOnly env script = { w with store := { w.store with others := others } } ∧
      ∀ script', env.haveWatchOnly others script' = true ↔
        env.haveWatchOnly w.store.others script' = true ∧ script' ≠ script := by
  unfold dropWatchOnly
  by_cases hwatched : env.haveWatchOnly w.store.others script = true
  · rw [if_pos hwatched]
    exact ⟨_, rfl, env.haveWatchOnly_removeWatchOnly _ _⟩
  · rw [if_neg hwatched]
    refine ⟨w.store.others, rfl, fun script' => (and_iff_left_of_imp fun h hsame => ?_).symm⟩
    exact hwatched (hsame ▸ h)

theorem addKeyPubKey_of_refused (h : Refused env w secret pubkey) :
    w.addKeyPubKey env db secret pubkey = (false, w) := by
  obtain ⟨hcrypted, hlocked | hencrypt⟩ := h
  · simp [addKeyPubKey, cryptoAddKeyPubKey, hcrypted, hlocked]
  · by_cases hlocked : w.store.isLocked true = true
    · simp [addKeyPubKey, cryptoAddKeyPubKey, hcrypted, hlocked]
    · simp [addKeyPubKey, cryptoAddKeyPubKey, hcrypted, hlocked, hencrypt]

/-- Filing an encrypted key. -/
theorem cryptoAddKeyPubKey_of_crypted {vchCryptedSecret : Bytes}
    (hcrypted : w.store.isCrypted = true) (hlocked : w.store.isLocked true = false)
    (hencrypt : encryptSecret env.toEnv w.store.vMasterKey (env.bytes secret)
      (env.getHash pubkey) = some vchCryptedSecret) :
    w.cryptoAddKeyPubKey env db secret pubkey =
      if w.fFileBacked then
        (db.writeCryptedKey w.pwalletdbEncryption pubkey vchCryptedSecret
          (w.mapKeyMetadata[env.getID pubkey]?.getD env.noMetadata),
        { w with
          store := w.store.filed env.toEnv pubkey vchCryptedSecret
          mapKeyMetadata := w.mapKeyMetadata.insertIfNew (env.getID pubkey) env.noMetadata })
      else (true, { w with store := w.store.filed env.toEnv pubkey vchCryptedSecret }) := by
  have hfiled : w.store.addCryptedKey env.toEnv pubkey vchCryptedSecret =
      (true, w.store.filed env.toEnv pubkey vchCryptedSecret) :=
    addCryptedKey_of_crypted hcrypted pubkey vchCryptedSecret
  simp only [cryptoAddKeyPubKey, hcrypted, hlocked, hencrypt, CWallet.addCryptedKey, hfiled]
  cases w.fFileBacked with
  | false => rfl
  | true => rfl

/-- What is left to do after filing fails only for a plain key. -/
theorem addKeyPubKey_of_filed {w₁ : CWallet CKey CPubKey CKeyID Others CKeyMetadata Versions}
    (hcrypto : w.cryptoAddKeyPubKey env db secret pubkey = (true, w₁)) : ∃ w₂ others,
    w₂ = { w₁ with store := { w₁.store with others := others } } ∧
      (∀ script, env.haveWatchOnly others script = true ↔
        (env.haveWatchOnly w₁.store.others script = true ∧
          script ≠ env.getScriptForDestination (env.getID pubkey)) ∧
          script ≠ env.getScriptForRawPubKey pubkey) ∧
      w.addKeyPubKey env db secret pubkey =
        if w₁.fFileBacked && !w₁.store.isCrypted then
          (db.writeKey pubkey (env.getPrivKey secret)
            (w₁.mapKeyMetadata[env.getID pubkey]?.getD env.noMetadata),
          { w₂ with
            mapKeyMetadata := w₁.mapKeyMetadata.insertIfNew (env.getID pubkey) env.noMetadata })
        else (true, w₂) := by
  obtain ⟨o₁, h₁, hwatch₁⟩ :=
    dropWatchOnly_cases env w₁ (env.getScriptForDestination (env.getID pubkey))
  obtain ⟨o₂, h₂, hwatch₂⟩ := dropWatchOnly_cases env
    (w₁.dropWatchOnly env (env.getScriptForDestination (env.getID pubkey)))
    (env.getScriptForRawPubKey pubkey)
  rw [h₁] at h₂ hwatch₂
  refine ⟨_, o₂, rfl, fun script => ?_, ?_⟩
  · rw [hwatch₂, hwatch₁]
  · simp only [addKeyPubKey, hcrypto, h₁, h₂, metadataOf]
    cases w₁.fFileBacked with
    | false => rfl
    | true =>
      have hmode : ∀ o, ({ w₁.store with others := o } :
        CCryptoKeyStore CKey CPubKey CKeyID Others).isCrypted = w₁.store.isCrypted := fun _ => rfl
      simp only [hmode]
      cases w₁.store.isCrypted with
      | false => rfl
      | true => rfl

/-- A plain key. -/
theorem addKeyPubKey_of_plain (hplain : w.store.isCrypted = false) :
    let r := w.addKeyPubKey env db secret pubkey
    (r.1 = false ↔ w.fFileBacked = true ∧ db.writeKey pubkey (env.getPrivKey secret)
        (w.mapKeyMetadata[env.getID pubkey]?.getD env.noMetadata) = false) ∧
      (r.1 = false → ∃ others,
        (∀ script, env.haveWatchOnly others script = true ↔
          (env.haveWatchOnly w.store.others script = true ∧
            script ≠ env.getScriptForDestination (env.getID pubkey)) ∧
            script ≠ env.getScriptForRawPubKey pubkey) ∧
        r.2 = { w with
          store := { w.store with
            mapKeys := w.store.mapKeys.insert (env.getID pubkey) secret
            others := others }
          mapKeyMetadata := w.mapKeyMetadata.insertIfNew (env.getID pubkey) env.noMetadata }) := by
  have hcrypto : w.cryptoAddKeyPubKey env db secret pubkey = (true, { w with
      store := { w.store with
        mapKeys := w.store.mapKeys.insert (env.getID pubkey) secret } }) := by
    simp [cryptoAddKeyPubKey, hplain, env.basicAddKeyPubKey_eq]
  obtain ⟨w₂, others, hw₂, hwatch, hr⟩ := addKeyPubKey_of_filed env db hcrypto
  have hmode : (!({ w.store with mapKeys := w.store.mapKeys.insert (env.getID pubkey) secret } :
      CCryptoKeyStore CKey CPubKey CKeyID Others).isCrypted) = true := congrArg not hplain
  rw [hr, hw₂]
  simp only [hmode, Bool.and_true]
  by_cases hbacked : w.fFileBacked = true
  · rw [if_pos hbacked]
    exact ⟨(and_iff_right hbacked).symm, fun _ => ⟨others, hwatch, rfl⟩⟩
  · rw [if_neg hbacked]
    exact ⟨iff_of_false (by simp) fun h => hbacked h.1, fun h => absurd h (by simp)⟩

/-- An encrypted key. -/
theorem addKeyPubKey_of_crypted {vchCryptedSecret : Bytes} (hcrypted : w.store.isCrypted = true)
    (hlocked : w.store.isLocked true = false)
    (hencrypt : encryptSecret env.toEnv w.store.vMasterKey (env.bytes secret)
      (env.getHash pubkey) = some vchCryptedSecret) :
    let r := w.addKeyPubKey env db secret pubkey
    (r.1 = false ↔ w.fFileBacked = true ∧
        db.writeCryptedKey w.pwalletdbEncryption pubkey vchCryptedSecret
          (w.mapKeyMetadata[env.getID pubkey]?.getD env.noMetadata) = false) ∧
      (r.1 = false → r.2 = { w with
        store := w.store.filed env.toEnv pubkey vchCryptedSecret
        mapKeyMetadata := w.mapKeyMetadata.insertIfNew (env.getID pubkey) env.noMetadata }) := by
  have hcrypto := cryptoAddKeyPubKey_of_crypted env db hcrypted hlocked hencrypt
  have hmode : (w.store.filed env.toEnv pubkey vchCryptedSecret).isCrypted = true := rfl
  by_cases hfails : w.fFileBacked = true ∧ db.writeCryptedKey w.pwalletdbEncryption pubkey
      vchCryptedSecret (w.mapKeyMetadata[env.getID pubkey]?.getD env.noMetadata) = false
  · rw [if_pos hfails.1, hfails.2] at hcrypto
    have hr : w.addKeyPubKey env db secret pubkey = (false, { w with
        store := w.store.filed env.toEnv pubkey vchCryptedSecret
        mapKeyMetadata := w.mapKeyMetadata.insertIfNew (env.getID pubkey) env.noMetadata }) := by
      simp only [addKeyPubKey, hcrypto]
    rw [hr]
    exact ⟨iff_of_true rfl hfails, fun _ => rfl⟩
  · -- the key is written, or not to be written
    have htrue : ∃ w₁, w.cryptoAddKeyPubKey env db secret pubkey = (true, w₁) ∧
        w₁.store.isCrypted = true := by
      rw [hcrypto]
      cases hbacked : w.fFileBacked with
      | false => exact ⟨_, rfl, hmode⟩
      | true =>
        have hwritten := (Bool.not_eq_false _).mp fun h => hfails ⟨hbacked, h⟩
        rw [if_pos rfl, hwritten]
        exact ⟨_, rfl, hmode⟩
    obtain ⟨w₁, hw₁, hmode₁⟩ := htrue
    obtain ⟨w₂, others, -, -, hr⟩ := addKeyPubKey_of_filed env db hw₁
    rw [hr, hmode₁, Bool.not_true, Bool.and_false, if_neg Bool.false_ne_true]
    exact ⟨iff_of_false (by simp) hfails, fun h => absurd h (by simp)⟩

/-- A call refuses the key, or files it. -/
theorem refused_or (w : CWallet CKey CPubKey CKeyID Others CKeyMetadata Versions) (secret : CKey)
    (pubkey : CPubKey) : Refused env w secret pubkey ∨ w.store.isCrypted = false ∨
      w.store.isCrypted = true ∧ w.store.isLocked true = false ∧ ∃ vchCryptedSecret,
        encryptSecret env.toEnv w.store.vMasterKey (env.bytes secret) (env.getHash pubkey) =
          some vchCryptedSecret := by
  cases hcrypted : w.store.isCrypted with
  | false => exact .inr (.inl rfl)
  | true =>
    cases hlocked : w.store.isLocked true with
    | true => exact .inl ⟨hcrypted, .inl hlocked⟩
    | false =>
      cases hencrypt : encryptSecret env.toEnv w.store.vMasterKey (env.bytes secret)
          (env.getHash pubkey) with
      | none => exact .inl ⟨hcrypted, .inr hencrypt⟩
      | some c => exact .inr (.inr ⟨rfl, rfl, c, rfl⟩)

/-- When a call fails. -/
theorem addKeyPubKey_fails_iff :
    (w.addKeyPubKey env db secret pubkey).1 = false ↔ Refused env w secret pubkey ∨
      WriteFails env db w secret pubkey
        (w.mapKeyMetadata[env.getID pubkey]?.getD env.noMetadata) := by
  rcases refused_or env w secret pubkey with hrefused | hplain | ⟨hcrypted, hlocked, c, hc⟩
  · exact iff_of_true (by rw [addKeyPubKey_of_refused env db hrefused]) (.inl hrefused)
  · have hnot : ¬ Refused env w secret pubkey :=
      fun h => Bool.false_ne_true (hplain.symm.trans h.1)
    rw [(addKeyPubKey_of_plain env db hplain).1, or_iff_right hnot, WriteFails, hplain,
      if_neg Bool.false_ne_true]
  · have hnot : ¬ Refused env w secret pubkey := by
      rintro ⟨-, h | h⟩
      · exact Bool.false_ne_true (hlocked.symm.trans h)
      · exact absurd (hc.symm.trans h) (by simp)
    rw [(addKeyPubKey_of_crypted env db hcrypted hlocked hc).1, or_iff_right hnot, WriteFails,
      hcrypted, if_pos rfl]
    simp [hlocked, hc]

/-- A call that fails to write keeps the keys if the key is filed already. -/
theorem keysKept_iff {metadata : CKeyMetadata} (hfails : WriteFails env db w secret pubkey metadata)
    (hfalse : (w.addKeyPubKey env db secret pubkey).1 = false) :
    KeysKept env w (w.addKeyPubKey env db secret pubkey).2 ↔ AlreadyFiled env w secret pubkey := by
  obtain ⟨-, hfails⟩ := hfails
  unfold AlreadyFiled
  cases hmode : w.store.isCrypted with
  | false =>
    obtain ⟨others, hwatch, hr⟩ := (addKeyPubKey_of_plain env db hmode).2 hfalse
    rw [hr, if_neg Bool.false_ne_true]
    constructor
    · intro h
      have hkey := h.mapKeys (env.getID pubkey)
      rw [Std.TreeMap.getElem?_insert_self] at hkey
      refine ⟨hkey.symm, ?_, ?_⟩
      · rw [← h.watchOnly, Bool.eq_false_iff]
        exact fun hw => ((hwatch _).mp hw).1.2 rfl
      · rw [← h.watchOnly, Bool.eq_false_iff]
        exact fun hw => ((hwatch _).mp hw).2 rfl
    · rintro ⟨hkey, hdest, hraw⟩
      refine ⟨fun id => ?_, fun _ => rfl, fun script => ?_⟩
      · simp only [Std.TreeMap.getElem?_insert, Std.compare_eq_iff_eq]
        split
        · rename_i hid
          rw [← hid, hkey]
        · rfl
      · rw [Bool.eq_iff_iff, hwatch]
        refine ⟨fun hw => hw.1.1, fun hw => ⟨⟨hw, ?_⟩, ?_⟩⟩
        · rintro rfl
          exact absurd (hw.symm.trans hdest) (by simp)
        · rintro rfl
          exact absurd (hw.symm.trans hraw) (by simp)
  | true =>
    rw [hmode, if_pos rfl] at hfails
    obtain ⟨hlocked, c, hc, -⟩ := hfails
    rw [(addKeyPubKey_of_crypted env db hmode hlocked hc).2 hfalse, if_pos rfl]
    constructor
    · intro h c' hc'
      cases hc.symm.trans hc'
      have hkey := h.mapCryptedKeys (env.getID pubkey)
      rw [CCryptoKeyStore.filed, Std.TreeMap.getElem?_insert_self] at hkey
      exact hkey.symm
    · intro hfiled
      refine ⟨fun _ => rfl, fun id => ?_, fun _ => rfl⟩
      simp only [CCryptoKeyStore.filed, Std.TreeMap.getElem?_insert, Std.compare_eq_iff_eq]
      split
      · rename_i hid
        rw [← hid, hfiled c hc]
      · rfl

/-- A call that fails leaves the metadata that are there. -/
theorem metadataKept_of_fails (hsome : (env.getID pubkey) ∈ w.mapKeyMetadata)
    (hfalse : (w.addKeyPubKey env db secret pubkey).1 = false) :
    MetadataKept w (w.addKeyPubKey env db secret pubkey).2 := by
  have hinsert : ∀ id : CKeyID,
      (w.mapKeyMetadata.insertIfNew (env.getID pubkey) env.noMetadata)[id]? =
        w.mapKeyMetadata[id]? := by
    intro id
    rw [Std.TreeMap.getElem?_insertIfNew, if_neg fun h => h.2 hsome]
  rcases refused_or env w secret pubkey with hrefused | hplain | ⟨hcrypted, hlocked, c, hc⟩
  · rw [addKeyPubKey_of_refused env db hrefused]
    exact ⟨fun _ => rfl, rfl⟩
  · obtain ⟨others, -, hr⟩ := (addKeyPubKey_of_plain env db hplain).2 hfalse
    rw [hr]
    exact ⟨hinsert, rfl⟩
  · rw [(addKeyPubKey_of_crypted env db hcrypted hlocked hc).2 hfalse]
    exact ⟨hinsert, rfl⟩

/-- `GenerateNewKey` adds the key to the wallet that knows of it already. -/
theorem generateNewKey_eq (w : CWallet CKey CPubKey CKeyID Others CKeyMetadata Versions)
    (makeNewKey : Bool → CKey) (nCreationTime : Int64) : ∃ versions,
    let secret := w.newSecret env makeNewKey
    let pubkey := env.getPubKey secret
    let r := (({ w with versions := versions } : CWallet _ _ _ _ _ _).announced env
      (env.getID pubkey) nCreationTime).addKeyPubKey env db secret pubkey
    w.generateNewKey env db makeNewKey nCreationTime =
      if env.verifyPubKey secret pubkey then some (if r.1 then some pubkey else none, r.2)
      else none := by
  refine ⟨if env.canSupportFeature w.versions then env.setMinVersion w.versions else w.versions, ?_⟩
  intro secret pubkey r
  have hversions : (if env.canSupportFeature w.versions then
      { w with versions := env.setMinVersion w.versions } else w) =
      { w with versions := if env.canSupportFeature w.versions then env.setMinVersion w.versions
        else w.versions } := by
    split <;> rfl
  have hgenerate : w.generateNewKey env db makeNewKey nCreationTime =
      if !env.verifyPubKey secret pubkey then none
      else match r with
        | (false, w) => some (none, w)
        | (true, w) => some (some pubkey, w) := by
    simp only [generateNewKey, hversions]
    rfl
  rw [hgenerate]
  cases env.verifyPubKey secret pubkey with
  | false => rfl
  | true =>
    obtain ⟨ok, w'⟩ := r
    cases ok with
    | false => rfl
    | true => rfl

theorem metadataKept_announced_iff {id : CKeyID} {nCreationTime : Int64} {versions : Versions} :
    MetadataKept w (({ w with versions := versions } : CWallet _ _ _ _ _ _).announced env id
      nCreationTime) ↔
      w.mapKeyMetadata[id]? = some (env.keyMetadata nCreationTime) ∧
        ((w.nTimeFirstKey ≠ 0 ∧ ¬ nCreationTime < w.nTimeFirstKey) ∨
          w.nTimeFirstKey = nCreationTime) := by
  constructor
  · rintro ⟨hmap, htime⟩
    have hid := hmap id
    simp only [announced, Std.TreeMap.getElem?_insert_self] at hid
    refine ⟨hid.symm, ?_⟩
    simp only [announced] at htime
    split at htime
    · exact .inr htime.symm
    · rename_i h
      exact .inl (not_or.mp h)
  · rintro ⟨hid, htime⟩
    refine ⟨fun id' => ?_, ?_⟩
    · simp only [announced, Std.TreeMap.getElem?_insert, Std.compare_eq_iff_eq]
      split
      · rename_i h
        rw [← h, hid]
      · rfl
    · simp only [announced]
      rcases htime with h | h
      · rw [if_neg (not_or.mpr h)]
      · rw [h, ite_self]

/-- Adding a key whose metadata are there already, to a wallet `w₁` that differs from `w` in the
metadata and the versions only. -/
theorem addKeyPubKey_announced
    (w w₁ : CWallet CKey CPubKey CKeyID Others CKeyMetadata Versions) (secret : CKey)
    (pubkey : CPubKey) {metadata : CKeyMetadata} (hstore : w₁.store = w.store)
    (hbacked : w₁.fFileBacked = w.fFileBacked)
    (hencryption : w₁.pwalletdbEncryption = w.pwalletdbEncryption)
    (hmetadata : w₁.mapKeyMetadata[env.getID pubkey]? = some metadata) :
    let r := w₁.addKeyPubKey env db secret pubkey
    let writeFails := WriteFails env db w secret pubkey metadata
    (r.1 = false ↔ Refused env w secret pubkey ∨ writeFails) ∧
      (r.1 = false → (KeysKept env w r.2 ∧ MetadataKept w r.2 ↔
        (writeFails → AlreadyFiled env w secret pubkey) ∧ MetadataKept w w₁)) := by
  intro r writeFails
  have hrefused : Refused env w₁ secret pubkey ↔ Refused env w secret pubkey := by
    simp only [Refused, hstore]
  have hwrite : WriteFails env db w₁ secret pubkey metadata ↔ writeFails := by
    simp only [WriteFails, hstore, hbacked, hencryption, writeFails]
  have hfiled : AlreadyFiled env w₁ secret pubkey ↔ AlreadyFiled env w secret pubkey := by
    simp only [AlreadyFiled, hstore]
  have hfails : r.1 = false ↔ Refused env w₁ secret pubkey ∨ WriteFails env db w₁ secret pubkey
      (w₁.mapKeyMetadata[env.getID pubkey]?.getD env.noMetadata) := addKeyPubKey_fails_iff env db
  rw [hmetadata, Option.getD_some, hrefused, hwrite] at hfails
  refine ⟨hfails, fun hfalse => and_congr ?_ ?_⟩
  · have hkeys : KeysKept env w r.2 ↔ KeysKept env w₁ r.2 :=
      ⟨fun h => ⟨hstore ▸ h.1, hstore ▸ h.2, hstore ▸ h.3⟩,
        fun h => ⟨hstore ▸ h.1, hstore ▸ h.2, hstore ▸ h.3⟩⟩
    rw [hkeys]
    by_cases hw : writeFails
    · rw [keysKept_iff env db (hwrite.mpr hw) hfalse, hfiled]
      exact ⟨fun h _ => h, fun h => h hw⟩
    · have hr := addKeyPubKey_of_refused env db
        (hrefused.mpr ((hfails.mp hfalse).resolve_right hw))
      refine iff_of_true ?_ fun h => absurd h hw
      rw [show r = (false, w₁) from hr]
      exact ⟨fun _ => rfl, fun _ => rfl, fun _ => rfl⟩
  · have hkept : MetadataKept w₁ r.2 := by
      refine metadataKept_of_fails env db ?_ hfalse
      rw [Std.TreeMap.mem_iff_isSome_getElem?, hmetadata]
      rfl
    constructor
    · intro h
      exact ⟨fun id => (hkept.1 id).symm.trans (h.1 id), hkept.2.symm.trans h.2⟩
    · intro h
      exact ⟨fun id => (hkept.1 id).trans (h.1 id), hkept.2.trans h.2⟩

end Cases

/-! ## When a call fails cleanly -/

/-- **A key that is not added leaves no trace** exactly in these cases. `AddKeyPubKey`: the write
does not fail, or the key has been filed before. `GenerateNewKey`: the key is not refused and the
write does not fail; or the key has been filed before with the same metadata, and is not the
first. -/
theorem addKey_kept_iff (w : CWallet CKey CPubKey CKeyID Others CKeyMetadata Versions) :
    (∀ secret pubkey,
      ((w.addKeyPubKey env db secret pubkey).1 = false →
        KeysKept env w (w.addKeyPubKey env db secret pubkey).2) ↔
      (WriteFails env db w secret pubkey
        (w.mapKeyMetadata[env.getID pubkey]?.getD env.noMetadata) →
          AlreadyFiled env w secret pubkey)) ∧
    ∀ makeNewKey nCreationTime,
      let secret := w.newSecret env makeNewKey
      let pubkey := env.getPubKey secret
      let writeFails := WriteFails env db w secret pubkey (env.keyMetadata nCreationTime)
      ((∀ w', w.generateNewKey env db makeNewKey nCreationTime = some (none, w') →
          KeysKept env w w' ∧ MetadataKept w w') ↔
        (env.verifyPubKey secret pubkey = true → Refused env w secret pubkey ∨ writeFails →
          (writeFails → AlreadyFiled env w secret pubkey) ∧
            w.mapKeyMetadata[env.getID pubkey]? = some (env.keyMetadata nCreationTime) ∧
            ((w.nTimeFirstKey ≠ 0 ∧ ¬ nCreationTime < w.nTimeFirstKey) ∨
              w.nTimeFirstKey = nCreationTime))) := by
  constructor
  · intro secret pubkey
    constructor
    · intro h hfails
      have hfalse := (addKeyPubKey_fails_iff env db).mpr (.inr hfails)
      exact (keysKept_iff env db hfails hfalse).mp (h hfalse)
    · intro h hfalse
      rcases (addKeyPubKey_fails_iff env db).mp hfalse with hrefused | hfails
      · rw [addKeyPubKey_of_refused env db hrefused]
        exact ⟨fun _ => rfl, fun _ => rfl, fun _ => rfl⟩
      · exact (keysKept_iff env db hfails hfalse).mpr (h hfails)
  · intro makeNewKey nCreationTime secret pubkey writeFails
    obtain ⟨versions, hgenerate⟩ := generateNewKey_eq env db w makeNewKey nCreationTime
    obtain ⟨hfails, hkept⟩ := addKeyPubKey_announced env db w
      (({ w with versions := versions } : CWallet _ _ _ _ _ _).announced env (env.getID pubkey)
        nCreationTime) secret pubkey rfl rfl rfl Std.TreeMap.getElem?_insert_self
    rw [hgenerate, ← hfails]
    simp only [metadataKept_announced_iff] at hkept
    by_cases hverify : env.verifyPubKey secret pubkey = true
    · rw [if_pos hverify]
      constructor
      · intro h _ hfalse
        refine (hkept hfalse).mp (h _ ?_)
        rw [if_neg (by rw [hfalse]; exact Bool.false_ne_true)]
      · intro h w' hw'
        obtain ⟨hnone, rfl⟩ := Prod.mk.inj (Option.some.inj hw')
        have hfalse := (Bool.not_eq_true _).mp fun htrue => by
          rw [if_pos htrue] at hnone
          exact absurd hnone (by simp)
        exact (hkept hfalse).mpr (h hverify hfalse)
    · rw [if_neg hverify]
      exact iff_of_true (fun w' h => absurd h (by simp)) fun h => absurd h hverify

/-! ### A full disk -/

/-- The surroundings of `sampleEnv`, with keys that are their own scripts. -/
def sampleWalletEnv : WalletEnv Bytes Bytes Nat Unit Bytes Int64 Unit where
  __ := sampleEnv
  getPrivKey key := key
  getScriptForDestination id := [UInt8.ofNat id]
  getScriptForRawPubKey pubkey := pubkey
  haveWatchOnly _ _ := false
  removeWatchOnly others _ := others
  keyMetadata nCreateTime := nCreateTime
  noMetadata := 0
  canSupportFeature _ := true
  setMinVersion versions := versions
  basicAddKeyPubKey_eq _ _ _ _ := rfl
  haveWatchOnly_removeWatchOnly _ _ _ := by simp

/-- Nothing can be written. -/
def fullDisk : Db Bytes Int64 := ⟨fun _ _ _ => false, fun _ _ _ _ => false⟩

/-- A new wallet in a file. -/
def sampleWallet : CWallet Bytes Bytes Nat Unit Int64 Unit := ⟨sampleStore, ∅, 0, true, false, ()⟩

/-- **A key that was not added.** Both calls fail, and the key is in the wallet. -/
theorem addKey_leaves_key :
    (sampleWallet.addKeyPubKey sampleWalletEnv fullDisk (sampleKey 7) (sampleKey 7)).1 = false ∧
      ¬ KeysKept sampleWalletEnv sampleWallet
        (sampleWallet.addKeyPubKey sampleWalletEnv fullDisk (sampleKey 7) (sampleKey 7)).2 ∧
      ∃ w', sampleWallet.generateNewKey sampleWalletEnv fullDisk (fun _ => sampleKey 7) 1500000000 =
          some (none, w') ∧
        w'.store.mapKeys[7]? = some (sampleKey 7) ∧ w'.mapKeyMetadata[7]? = some 1500000000 ∧
        w'.nTimeFirstKey = 1500000000 ∧ ¬ KeysKept sampleWalletEnv sampleWallet w' ∧
        ¬ MetadataKept sampleWallet w' := by
  refine ⟨rfl, fun h => ?_, _, rfl, rfl, rfl, rfl, fun h => ?_, fun h => ?_⟩
  · exact Option.some_ne_none (sampleKey 7) (h.mapKeys 7)
  · exact Option.some_ne_none (sampleKey 7) (h.mapKeys 7)
  · exact absurd h.nTimeFirstKey (by decide)

end ChainX.Wallet
