import ChainX.Lib.History
import ChainX.Script.Basic
import Mathlib.Order.Std
import Std.Data.TreeMap.Lemmas

/-!
# The encrypted key store, `Wallet/crypter.cpp`

`CCrypter::SetKey`, `Encrypt` and `Decrypt` (`crypter.cpp:34-106`), `EncryptSecret`, `DecryptSecret`
and `DecryptKey` (`crypter.cpp:109-216`), and the functions of `CCryptoKeyStore`
(`crypter.cpp:218-376`).

* What the file uses of `key.h`, `pubkey.h`, `keystore.h` and OpenSSL, none of which is part of the
  repository, is a parameter (`Env`). `IsCrypted` and `IsLocked` are those of `crypter.h`, which is
  missing as well: encrypted is `fUseCrypto`, and locked is encrypted with an empty master key, or
  in mixing-only mode unless mixing was asked for.
* A `std::map` is a `TreeMap`; loops go over its entries in the order of the keys.
* A function that returns through a reference returns that value beside its result; where the
  callers drop it on a failure the two are an `Option`.
* `assert(false)` is `none`.
* The locks, the status signals and `EncryptAES256` and `DecryptAES256`, which no other function
  calls, are left out.
-/

namespace ChainX.Wallet

open ChainX.Node

/-- `CKeyingMaterial`. -/
abbrev CKeyingMaterial := Bytes

/-- `WALLET_CRYPTO_KEY_SIZE`. -/
def WALLET_CRYPTO_KEY_SIZE : Nat := 32

/-- The keys, the basic key store and the cipher. `Others` is what a `CBasicKeyStore` holds beside
`mapKeys`. -/
structure Env (CKey CPubKey CKeyID Others : Type) [LinearOrder CKeyID] where
  /-- A key that is not set. -/
  newKey : CKey
  /-- The bytes from `begin()` to `end()`. -/
  bytes : CKey → CKeyingMaterial
  /-- What `key.Set(begin, end, fCompressed)` makes of a key. -/
  set : CKey → CKeyingMaterial → Bool → CKey
  getPubKey : CKey → CPubKey
  verifyPubKey : CKey → CPubKey → Bool
  getHash : CPubKey → Uint256
  getID : CPubKey → CKeyID
  isCompressed : CPubKey → Bool
  /-- The `EVP_Encrypt` calls under `chKey` and `chIV`, which fail or return the ciphertext. -/
  evpEncrypt : Bytes → Bytes → CKeyingMaterial → Option Bytes
  evpDecrypt : Bytes → Bytes → Bytes → Option CKeyingMaterial
  basicAddKeyPubKey : CKey → CPubKey → Std.TreeMap CKeyID CKey × Others →
    Bool × Std.TreeMap CKeyID CKey × Others
  basicGetKey : Std.TreeMap CKeyID CKey × Others → CKeyID → CKey → Bool × CKey
  basicGetPubKey : Std.TreeMap CKeyID CKey × Others → CKeyID → CPubKey → Bool × CPubKey

variable {CKey CPubKey CKeyID Others : Type} [LinearOrder CKeyID]
  (env : Env CKey CPubKey CKeyID Others)

/-! ## `CCrypter` -/

/-- `CCrypter`: a key and a vector, once they are set. -/
structure CCrypter where
  chKey : Bytes
  chIV : Bytes
  fKeySet : Bool

namespace CCrypter

/-- A crypter without a key. What the arrays hold is not read. -/
def new : CCrypter := ⟨[], [], false⟩

/-- `SetKey`: both have to have the size of a key. -/
def setKey (c : CCrypter) (chNewKey chNewIV : Bytes) : Bool × CCrypter :=
  if chNewKey.length ≠ WALLET_CRYPTO_KEY_SIZE ∨ chNewIV.length ≠ WALLET_CRYPTO_KEY_SIZE then
    (false, c)
  else (true, ⟨chNewKey, chNewIV, true⟩)

/-- `Encrypt`, with the key that is set. -/
def encrypt (c : CCrypter) (vchPlaintext : CKeyingMaterial) : Option Bytes :=
  if c.fKeySet then env.evpEncrypt c.chKey c.chIV vchPlaintext else none

/-- `Decrypt`, with the key that is set. -/
def decrypt (c : CCrypter) (vchCiphertext : Bytes) : Option CKeyingMaterial :=
  if c.fKeySet then env.evpDecrypt c.chKey c.chIV vchCiphertext else none

end CCrypter

/-- `EncryptSecret`: by a crypter of its own. -/
def encryptSecret (vMasterKey vchPlaintext : CKeyingMaterial) (nIV : Uint256) : Option Bytes :=
  match CCrypter.new.setKey vMasterKey nIV.toList with
  | (false, _) => none
  | (true, cKeyCrypter) => cKeyCrypter.encrypt env vchPlaintext

/-- `DecryptSecret`: by a crypter of its own. -/
def decryptSecret (vMasterKey : CKeyingMaterial) (vchCiphertext : Bytes) (nIV : Uint256) :
    Option CKeyingMaterial :=
  match CCrypter.new.setKey vMasterKey nIV.toList with
  | (false, _) => none
  | (true, cKeyCrypter) => cKeyCrypter.decrypt env vchCiphertext

/-- `DecryptKey`: the key that is read, and whether it fits the public key. -/
def decryptKey (vMasterKey : CKeyingMaterial) (vchCryptedSecret : Bytes) (vchPubKey : CPubKey)
    (key : CKey) : Bool × CKey :=
  match decryptSecret env vMasterKey vchCryptedSecret (env.getHash vchPubKey) with
  | none => (false, key)
  | some vchSecret =>
    if vchSecret.length ≠ 32 then (false, key)
    else
      let key := env.set key vchSecret (env.isCompressed vchPubKey)
      (env.verifyPubKey key vchPubKey, key)

/-! ## `CCryptoKeyStore` -/

/-- `CCryptoKeyStore`. -/
structure CCryptoKeyStore (CKey CPubKey CKeyID Others : Type) [LinearOrder CKeyID] where
  mapKeys : Std.TreeMap CKeyID CKey
  others : Others
  mapCryptedKeys : Std.TreeMap CKeyID (CPubKey × Bytes)
  vMasterKey : CKeyingMaterial
  fUseCrypto : Bool
  fDecryptionThoroughlyChecked : Bool
  fOnlyMixingAllowed : Bool

namespace CCryptoKeyStore

variable (s : CCryptoKeyStore CKey CPubKey CKeyID Others)

/-- `IsCrypted`. -/
def isCrypted : Bool := s.fUseCrypto

/-- `IsLocked`: without the master key, or with one for mixing only. -/
def isLocked (fForMixing : Bool) : Bool :=
  s.isCrypted && (s.vMasterKey.isEmpty || (!fForMixing && s.fOnlyMixingAllowed))

/-- `SetCrypted`, which fails where there are plain keys. -/
def setCrypted : Bool × CCryptoKeyStore CKey CPubKey CKeyID Others :=
  if s.fUseCrypto then (true, s)
  else if !s.mapKeys.isEmpty then (false, s)
  else (true, { s with fUseCrypto := true })

/-- `Lock`: the master key is forgotten, unless mixing goes on. -/
def lock (fAllowMixing : Bool) : Bool × CCryptoKeyStore CKey CPubKey CKeyID Others :=
  match s.setCrypted with
  | (false, s) => (false, s)
  | (true, s) =>
    let s := if !fAllowMixing then { s with vMasterKey := [] } else s
    (true, { s with fOnlyMixingAllowed := fAllowMixing })

/-- The loop of `Unlock`: `keyPass` and `keyFail` as it leaves them. -/
def unlockLoop (vMasterKeyIn : CKeyingMaterial) (fDecryptionThoroughlyChecked keyPass : Bool) :
    List (CKeyID × CPubKey × Bytes) → Bool × Bool
  | [] => (keyPass, false)
  | (_, vchPubKey, vchCryptedSecret) :: entries =>
    if !(decryptKey env vMasterKeyIn vchCryptedSecret vchPubKey env.newKey).1 then (keyPass, true)
    else if fDecryptionThoroughlyChecked then (true, false)
    else unlockLoop vMasterKeyIn fDecryptionThoroughlyChecked true entries

/-- `Unlock`: the first time all keys are tried, later the first one. `none` is the assertion about
a wallet that is partly corrupted. -/
def unlock (vMasterKeyIn : CKeyingMaterial) (fForMixingOnly : Bool) :
    Option (Bool × CCryptoKeyStore CKey CPubKey CKeyID Others) :=
  match s.setCrypted with
  | (false, s) => some (false, s)
  | (true, s) =>
    let (keyPass, keyFail) :=
      unlockLoop env vMasterKeyIn s.fDecryptionThoroughlyChecked false s.mapCryptedKeys.toList
    if keyPass && keyFail then none
    else if keyFail || !keyPass then some (false, s)
    else
      some (true,
        { s with
          vMasterKey := vMasterKeyIn
          fDecryptionThoroughlyChecked := true
          fOnlyMixingAllowed := fForMixingOnly })

/-- `AddCryptedKey`: the entry is filed as it comes. -/
def addCryptedKey (vchPubKey : CPubKey) (vchCryptedSecret : Bytes) :
    Bool × CCryptoKeyStore CKey CPubKey CKeyID Others :=
  match s.setCrypted with
  | (false, s) => (false, s)
  | (true, s) =>
    (true,
      { s with
        mapCryptedKeys :=
          s.mapCryptedKeys.insert (env.getID vchPubKey) (vchPubKey, vchCryptedSecret) })

/-- `AddKeyPubKey`: the key is encrypted, once the store is. -/
def addKeyPubKey (key : CKey) (pubkey : CPubKey) :
    Bool × CCryptoKeyStore CKey CPubKey CKeyID Others :=
  if !s.isCrypted then
    match env.basicAddKeyPubKey key pubkey (s.mapKeys, s.others) with
    | (ok, mapKeys, others) => (ok, { s with mapKeys := mapKeys, others := others })
  else if s.isLocked true then (false, s)
  else
    match encryptSecret env s.vMasterKey (env.bytes key) (env.getHash pubkey) with
    | none => (false, s)
    | some vchCryptedSecret => s.addCryptedKey env pubkey vchCryptedSecret

/-- Whether there is a key, and `keyOut`. -/
def getKey (address : CKeyID) (keyOut : CKey) : Bool × CKey :=
  if !s.isCrypted then env.basicGetKey (s.mapKeys, s.others) address keyOut
  else
    match s.mapCryptedKeys[address]? with
    | some (vchPubKey, vchCryptedSecret) =>
      decryptKey env s.vMasterKey vchCryptedSecret vchPubKey keyOut
    | none => (false, keyOut)

/-- `GetPubKey`. -/
def getPubKey (address : CKeyID) (vchPubKeyOut : CPubKey) : Bool × CPubKey :=
  if !s.isCrypted then env.basicGetPubKey (s.mapKeys, s.others) address vchPubKeyOut
  else
    match s.mapCryptedKeys[address]? with
    | some (vchPubKey, _) => (true, vchPubKey)
    | none => env.basicGetPubKey (s.mapKeys, s.others) address vchPubKeyOut

/-- The loop of `EncryptKeys`. -/
def encryptKeysLoop (vMasterKeyIn : CKeyingMaterial) :
    List (CKeyID × CKey) → CCryptoKeyStore CKey CPubKey CKeyID Others →
      Bool × CCryptoKeyStore CKey CPubKey CKeyID Others
  | [], s => (true, s)
  | (_, key) :: entries, s =>
    let vchPubKey := env.getPubKey key
    match encryptSecret env vMasterKeyIn (env.bytes key) (env.getHash vchPubKey) with
    | none => (false, s)
    | some vchCryptedSecret =>
      match s.addCryptedKey env vchPubKey vchCryptedSecret with
      | (false, s) => (false, s)
      | (true, s) => encryptKeysLoop vMasterKeyIn entries s

/-- `EncryptKeys`: every plain key is encrypted and filed. -/
def encryptKeys (vMasterKeyIn : CKeyingMaterial) :
    Bool × CCryptoKeyStore CKey CPubKey CKeyID Others :=
  if !s.mapCryptedKeys.isEmpty || s.isCrypted then (false, s)
  else
    match encryptKeysLoop env vMasterKeyIn s.mapKeys.toList { s with fUseCrypto := true } with
    | (false, s) => (false, s)
    | (true, s) => (true, { s with mapKeys := ∅ })

/-! ## Runs -/

/-- The store as it is constructed. -/
structure Initial : Prop where
  fUseCrypto : s.fUseCrypto = false
  mapKeys : s.mapKeys.isEmpty = true
  mapCryptedKeys : s.mapCryptedKeys.isEmpty = true
  vMasterKey : s.vMasterKey = []

end CCryptoKeyStore

/-- A call that can change the store. -/
inductive Op (CKey CPubKey : Type) where
  | setCrypted
  | encryptKeys (vMasterKeyIn : CKeyingMaterial)
  | addKeyPubKey (key : CKey) (pubkey : CPubKey)
  | addCryptedKey (vchPubKey : CPubKey) (vchCryptedSecret : Bytes)
  | lock (fAllowMixing : Bool)
  | unlock (vMasterKeyIn : CKeyingMaterial) (fForMixingOnly : Bool)
  deriving DecidableEq

/-- One call, and what it returns. -/
def step (op : Op CKey CPubKey) (s : CCryptoKeyStore CKey CPubKey CKeyID Others) :
    Option (Bool × CCryptoKeyStore CKey CPubKey CKeyID Others) :=
  match op with
  | .setCrypted => some s.setCrypted
  | .encryptKeys vMasterKeyIn => some (s.encryptKeys env vMasterKeyIn)
  | .addKeyPubKey key pubkey => some (s.addKeyPubKey env key pubkey)
  | .addCryptedKey vchPubKey vchCryptedSecret =>
    some (s.addCryptedKey env vchPubKey vchCryptedSecret)
  | .lock fAllowMixing => some (s.lock fAllowMixing)
  | .unlock vMasterKeyIn fForMixingOnly => s.unlock env vMasterKeyIn fForMixingOnly

/-- Some `Unlock` has returned true, and no `Lock(false)` since. -/
def Unlocked : List (Op CKey CPubKey × Bool) → Prop :=
  Lib.Since (fun e => ∃ mk fForMixingOnly, e = (.unlock mk fForMixingOnly, true))
    fun e => e = (.lock false, true)

/-! ## What each function does -/

section Cases

variable {env} {s : CCryptoKeyStore CKey CPubKey CKeyID Others}

open CCryptoKeyStore

theorem crypted_eta (h : s.fUseCrypto = true) : { s with fUseCrypto := true } = s := by
  rw [← h]

theorem setCrypted_of_crypted (h : s.fUseCrypto = true) : s.setCrypted = (true, s) := by
  unfold setCrypted
  rw [if_pos h]

theorem setCrypted_cases : (s.setCrypted = (false, s) ∧ s.fUseCrypto = false) ∨
    s.setCrypted = (true, { s with fUseCrypto := true }) := by
  cases hcrypto : s.fUseCrypto with
  | true => exact .inr (by rw [setCrypted_of_crypted hcrypto, crypted_eta hcrypto])
  | false =>
    unfold setCrypted
    rw [hcrypto]
    cases s.mapKeys.isEmpty with
    | true => exact .inr rfl
    | false => exact .inl ⟨rfl, rfl⟩

variable (s) in
theorem lock_cases (fAllowMixing : Bool) : s.lock fAllowMixing = (false, s) ∨
    s.lock fAllowMixing =
      (true,
        { s with
          fUseCrypto := true
          vMasterKey := if fAllowMixing then s.vMasterKey else []
          fOnlyMixingAllowed := fAllowMixing }) := by
  unfold lock
  rcases setCrypted_cases (s := s) with ⟨h, -⟩ | h
  · rw [h]
    exact .inl rfl
  · rw [h]
    cases fAllowMixing with
    | true => exact .inr rfl
    | false => exact .inr rfl

/-- The store after a successful `Unlock`. -/
def CCryptoKeyStore.opened (s : CCryptoKeyStore CKey CPubKey CKeyID Others)
    (vMasterKeyIn : CKeyingMaterial) (fForMixingOnly : Bool) :
    CCryptoKeyStore CKey CPubKey CKeyID Others :=
  { s with
    fUseCrypto := true
    vMasterKey := vMasterKeyIn
    fDecryptionThoroughlyChecked := true
    fOnlyMixingAllowed := fForMixingOnly }

theorem unlock_cases {mk : CKeyingMaterial} {fForMixingOnly r : Bool}
    {s' : CCryptoKeyStore CKey CPubKey CKeyID Others}
    (h : s.unlock env mk fForMixingOnly = some (r, s')) :
    (r = false ∧ (s' = s ∨ s' = { s with fUseCrypto := true })) ∨
      (r = true ∧ s' = s.opened mk fForMixingOnly) := by
  unfold unlock at h
  rcases setCrypted_cases (s := s) with ⟨hset, -⟩ | hset
  · rw [hset] at h
    obtain ⟨rfl, rfl⟩ := Prod.mk.inj (Option.some.inj h)
    exact .inl ⟨rfl, .inl rfl⟩
  · rw [hset] at h
    simp only at h
    split at h
    · exact absurd h (by simp)
    · split at h
      · obtain ⟨rfl, rfl⟩ := Prod.mk.inj (Option.some.inj h)
        exact .inl ⟨rfl, .inr rfl⟩
      · obtain ⟨rfl, rfl⟩ := Prod.mk.inj (Option.some.inj h)
        exact .inr ⟨rfl, rfl⟩

/-- The store with one more entry. -/
def CCryptoKeyStore.filed (s : CCryptoKeyStore CKey CPubKey CKeyID Others)
    (env : Env CKey CPubKey CKeyID Others) (vchPubKey : CPubKey) (vchCryptedSecret : Bytes) :
    CCryptoKeyStore CKey CPubKey CKeyID Others :=
  { s with
    fUseCrypto := true
    mapCryptedKeys := s.mapCryptedKeys.insert (env.getID vchPubKey) (vchPubKey, vchCryptedSecret) }

variable (env s) in
theorem addCryptedKey_cases (vchPubKey : CPubKey) (vchCryptedSecret : Bytes) :
    s.addCryptedKey env vchPubKey vchCryptedSecret = (false, s) ∨
      s.addCryptedKey env vchPubKey vchCryptedSecret =
        (true, s.filed env vchPubKey vchCryptedSecret) := by
  unfold addCryptedKey
  rcases setCrypted_cases (s := s) with ⟨h, -⟩ | h
  · rw [h]
    exact .inl rfl
  · rw [h]
    exact .inr rfl

theorem addCryptedKey_of_crypted (h : s.fUseCrypto = true) (vchPubKey : CPubKey)
    (vchCryptedSecret : Bytes) : s.addCryptedKey env vchPubKey vchCryptedSecret =
      (true, s.filed env vchPubKey vchCryptedSecret) := by
  unfold addCryptedKey filed
  rw [setCrypted_of_crypted h]
  simp only [h]

variable (env s) in
theorem addKeyPubKey_cases (key : CKey) (pubkey : CPubKey) :
    (s.fUseCrypto = false ∧ ∃ r mapKeys others, s.addKeyPubKey env key pubkey =
        (r, { s with mapKeys := mapKeys, others := others })) ∨
      s.addKeyPubKey env key pubkey = (false, s) ∨
      ∃ vchCryptedSecret, s.vMasterKey ≠ [] ∧
        encryptSecret env s.vMasterKey (env.bytes key) (env.getHash pubkey) =
          some vchCryptedSecret ∧
        s.addKeyPubKey env key pubkey = (true, s.filed env pubkey vchCryptedSecret) := by
  unfold addKeyPubKey isLocked isCrypted
  cases hcrypto : s.fUseCrypto with
  | false => exact .inl ⟨rfl, _, _, _, rfl⟩
  | true =>
    refine .inr ?_
    cases hmaster : s.vMasterKey with
    | nil => exact .inl rfl
    | cons b bs =>
      cases henc : encryptSecret env (b :: bs) (env.bytes key) (env.getHash pubkey) with
      | none => exact .inl (by simp)
      | some vchCryptedSecret =>
        refine .inr ⟨vchCryptedSecret, by simp, rfl, ?_⟩
        simp [addCryptedKey_of_crypted hcrypto]

end Cases

end ChainX.Wallet
