import ChainX.Wallet.KeyStore
import Mathlib.Data.Nat.Basic

/-!
# A locked store gives out no key

`Sane` is kept by every operation (`Sane.step`): the master key is empty unless the store was
unlocked and not locked since, an unencrypted store has neither a master key nor entries, and every
entry is filed under the id of its public key. An empty master key decrypts nothing, because a
crypter takes only a key of 32 bytes (`decryptKey_nil`).

* The operations are the six of `Op`: `AddKeyPubKey`, `AddCryptedKey`, `EncryptKeys`, `Lock`,
  `Unlock` and `GetKey` (`crypter.cpp:229-376`), with any arguments and in any order.
* A run is a `Lib.History`: what was called and what came back is kept in order, so that "unlocked
  and not locked since" is `Lib.Since` of two kinds of events.
* `Unlock` may fail an assertion, where some keys open and others do not. Such a run ends there.

**`getKey_unlocked`**: over any run from the constructor, an encrypted store that gives out a key
has been unlocked and not locked since, and the key is that of the address.
-/

namespace ChainX.Wallet

open ChainX.Lib ChainX.Node CCryptoKeyStore

variable {CKey CPubKey CKeyID Others : Type} [LinearOrder CKeyID]
  {env : Env CKey CPubKey CKeyID Others} {s s' : CCryptoKeyStore CKey CPubKey CKeyID Others}
  {hist : List (Op CKey CPubKey × Bool)}

/-! ## Histories -/

theorem not_unlocked_nil : ¬ Unlocked ([] : List (Op CKey CPubKey × Bool)) := not_since_nil

theorem unlocked_unlock (mk : CKeyingMaterial) (fForMixingOnly : Bool) :
    Unlocked (hist ++ [(.unlock mk fForMixingOnly, true)]) :=
  since_concat.mpr (.inl ⟨mk, fForMixingOnly, rfl⟩)

theorem not_unlocked_lock : ¬ Unlocked (hist ++ [(.lock false, true)]) := by
  intro h
  rcases since_concat.mp h with ⟨mk, fForMixingOnly, h⟩ | ⟨-, h⟩
  · exact absurd h (by simp)
  · exact h rfl

/-- Other events, and failures, change nothing. -/
theorem unlocked_other {e : Op CKey CPubKey × Bool} (hon : ∀ mk b, e ≠ (.unlock mk b, true))
    (hoff : e ≠ (.lock false, true)) : Unlocked (hist ++ [e]) ↔ Unlocked hist := by
  constructor
  · intro h
    rcases since_concat.mp h with ⟨mk, b, h⟩ | ⟨h, -⟩
    · exact absurd h (hon mk b)
    · exact h
  · exact fun h => since_concat.mpr (.inr ⟨h, hoff⟩)

/-! ## The invariant -/

/-- Every entry is filed under the id of its public key. -/
def Filed (env : Env CKey CPubKey CKeyID Others)
    (s : CCryptoKeyStore CKey CPubKey CKeyID Others) : Prop :=
  ∀ id vchPubKey vchCryptedSecret, s.mapCryptedKeys[id]? = some (vchPubKey, vchCryptedSecret) →
    id = env.getID vchPubKey

/-- What a history says of the store it leaves. -/
structure Sane (env : Env CKey CPubKey CKeyID Others) (hist : List (Op CKey CPubKey × Bool))
    (s : CCryptoKeyStore CKey CPubKey CKeyID Others) : Prop where
  unlocked : s.vMasterKey ≠ [] → Unlocked hist
  plain : s.fUseCrypto = false → s.vMasterKey = [] ∧ s.mapCryptedKeys.isEmpty = true
  filed : Filed env s

/-- What holds of every entry and of the one that is filed holds of every entry after that. -/
theorem forall_filed {P : CKeyID → CPubKey × Bytes → Prop} {vchPubKey : CPubKey}
    {vchCryptedSecret : Bytes} (h : ∀ id e, s.mapCryptedKeys[id]? = some e → P id e)
    (hnew : P (env.getID vchPubKey) (vchPubKey, vchCryptedSecret)) :
    ∀ id e, (s.filed env vchPubKey vchCryptedSecret).mapCryptedKeys[id]? = some e → P id e := by
  intro id e hget
  simp only [CCryptoKeyStore.filed, Std.TreeMap.getElem?_insert, Std.compare_eq_iff_eq] at hget
  split at hget
  case isTrue hid =>
    obtain rfl := Option.some.inj hget
    rwa [← hid]
  case isFalse => exact h id e hget

theorem Filed.insert (h : Filed env s) (vchPubKey : CPubKey) (vchCryptedSecret : Bytes) :
    Filed env (s.filed env vchPubKey vchCryptedSecret) :=
  fun id pub c hget => forall_filed (P := fun id e => id = env.getID e.1)
    (fun id e hget => h id e.1 e.2 hget) rfl id (pub, c) hget

/-- The loop of `EncryptKeys` only files entries, each of a key under the id of its public key. -/
theorem encryptKeysLoop_spec {P : CKeyID → CPubKey × Bytes → Prop} (mk : CKeyingMaterial) :
    ∀ (entries : List (CKeyID × CKey)) {s : CCryptoKeyStore CKey CPubKey CKeyID Others},
      s.fUseCrypto = true → (∀ id e, s.mapCryptedKeys[id]? = some e → P id e) →
      (∀ e ∈ entries, ∀ c, encryptSecret env mk (env.bytes e.2)
          (env.getHash (env.getPubKey e.2)) = some c →
        P (env.getID (env.getPubKey e.2)) (env.getPubKey e.2, c)) →
      ∃ r m, encryptKeysLoop env mk entries s = (r, { s with mapCryptedKeys := m }) ∧
        ∀ (id : CKeyID) e, m[id]? = some e → P id e
  | [], s, _, hold, _ => ⟨true, s.mapCryptedKeys, rfl, hold⟩
  | (id, key) :: entries, s, hcrypto, hold, hnew => by
    unfold encryptKeysLoop
    cases henc : encryptSecret env mk (env.bytes key)
        (env.getHash (env.getPubKey key)) with
    | none => exact ⟨false, s.mapCryptedKeys, by simp [henc], hold⟩
    | some c =>
      simp only [henc, addCryptedKey_of_crypted hcrypto]
      obtain ⟨hhead, htail⟩ := List.forall_mem_cons.mp hnew
      obtain ⟨r, m, hloop, hm⟩ := encryptKeysLoop_spec mk entries
        (s := s.filed env (env.getPubKey key) c) rfl (forall_filed hold (hhead c henc)) htail
      refine ⟨r, m, ?_, hm⟩
      rw [hloop, CCryptoKeyStore.filed, ← hcrypto]

theorem encryptKeys_cases {P : CKeyID → CPubKey × Bytes → Prop} (mk : CKeyingMaterial)
    (hold : ∀ id e, s.mapCryptedKeys[id]? = some e → P id e)
    (hnew : ∀ (id : CKeyID) key c, s.mapKeys[id]? = some key →
      encryptSecret env mk (env.bytes key) (env.getHash (env.getPubKey key)) = some c →
        P (env.getID (env.getPubKey key)) (env.getPubKey key, c)) :
    s.encryptKeys env mk = (false, s) ∨ (s.fUseCrypto = false ∧ ∃ r mapKeys m,
      s.encryptKeys env mk =
        (r, { s with mapKeys := mapKeys, fUseCrypto := true, mapCryptedKeys := m }) ∧
      ∀ (id : CKeyID) e, m[id]? = some e → P id e) := by
  unfold encryptKeys
  split
  case isTrue => exact .inl rfl
  case isFalse hcheck =>
    have hplain : s.fUseCrypto = false := by
      simp only [isCrypted, Bool.or_eq_true, not_or, Bool.not_eq_true] at hcheck
      exact hcheck.2
    obtain ⟨r, m, hloop, hm⟩ := encryptKeysLoop_spec (P := P) mk s.mapKeys.toList
      (s := { s with fUseCrypto := true }) rfl hold
      (fun e he c hc => hnew e.1 e.2 c (Std.TreeMap.mem_toList_iff_getElem?_eq_some.mp he) hc)
    rw [hloop]
    cases r with
    | false => exact .inr ⟨hplain, false, _, m, rfl, hm⟩
    | true => exact .inr ⟨hplain, true, _, m, rfl, hm⟩

theorem Sane.of_initial (h : s.Initial) : Sane env [] s where
  unlocked hmaster := absurd h.vMasterKey hmaster
  plain _ := ⟨h.vMasterKey, h.mapCryptedKeys⟩
  filed id pub c hget := by
    rw [Std.TreeMap.getElem?_of_isEmpty h.mapCryptedKeys] at hget
    exact absurd hget (by simp)

/-- Where the master key is what it was and the event is neither an unlocking nor a locking. -/
theorem Sane.other (h : Sane env hist s) {e : Op CKey CPubKey × Bool}
    (hon : ∀ mk b, e ≠ (.unlock mk b, true)) (hoff : e ≠ (.lock false, true))
    (hmaster : s'.vMasterKey = s.vMasterKey) (hfiled : Filed env s')
    (hplain : s'.fUseCrypto = false → s.fUseCrypto = false ∧ s'.mapCryptedKeys = s.mapCryptedKeys) :
    Sane env (hist ++ [e]) s' where
  unlocked hne := (unlocked_other hon hoff).mpr (h.unlocked (by rwa [← hmaster]))
  plain hcrypto := by
    obtain ⟨hold, hmap⟩ := hplain hcrypto
    rw [hmaster, hmap]
    exact h.plain hold
  filed := hfiled

/-- Where the event leaves the store as it is. -/
theorem Sane.same (h : Sane env hist s) {e : Op CKey CPubKey × Bool}
    (hon : ∀ mk b, e ≠ (.unlock mk b, true)) (hoff : e ≠ (.lock false, true)) :
    Sane env (hist ++ [e]) s :=
  h.other hon hoff rfl h.filed fun hcrypto => ⟨hcrypto, rfl⟩

/-- Every operation keeps the store sane. -/
theorem Sane.step {op : Op CKey CPubKey} {r : Bool} (h : Sane env hist s)
    (hop : step env op s = some (r, s')) : Sane env (hist ++ [(op, r)]) s' := by
  cases op with
  | setCrypted =>
    have hset : s.setCrypted = (r, s') := Option.some.inj hop
    rcases setCrypted_cases (s := s) with ⟨hcase, -⟩ | hcase
    · obtain ⟨rfl, rfl⟩ := Prod.mk.inj (hset.symm.trans hcase)
      exact h.same (by simp) (by simp)
    · obtain ⟨rfl, rfl⟩ := Prod.mk.inj (hset.symm.trans hcase)
      exact h.other (by simp) (by simp) rfl h.filed fun hc => absurd hc (by simp)
  | encryptKeys mk =>
    have henc : s.encryptKeys env mk = (r, s') := Option.some.inj hop
    rcases encryptKeys_cases (P := fun id e => id = env.getID e.1) mk
      (fun id e hget => h.filed id e.1 e.2 hget) (fun _ _ _ _ _ => rfl) with
      hcase | ⟨-, r', mapKeys, m, hcase, hm⟩
    · obtain ⟨rfl, rfl⟩ := Prod.mk.inj (henc.symm.trans hcase)
      exact h.same (by simp) (by simp)
    · obtain ⟨rfl, rfl⟩ := Prod.mk.inj (henc.symm.trans hcase)
      refine h.other (by simp) (by simp) rfl (fun id pub c hget => ?_) fun hc => absurd hc (by simp)
      exact hm id (pub, c) hget
  | addKeyPubKey key pubkey =>
    have hadd : s.addKeyPubKey env key pubkey = (r, s') := Option.some.inj hop
    rcases addKeyPubKey_cases env s key pubkey with
      ⟨-, r', mapKeys, others, hcase⟩ | hcase | ⟨c, -, -, hcase⟩
    · obtain ⟨rfl, rfl⟩ := Prod.mk.inj (hadd.symm.trans hcase)
      exact h.other (by simp) (by simp) rfl h.filed fun hc => ⟨hc, rfl⟩
    · obtain ⟨rfl, rfl⟩ := Prod.mk.inj (hadd.symm.trans hcase)
      exact h.same (by simp) (by simp)
    · obtain ⟨rfl, rfl⟩ := Prod.mk.inj (hadd.symm.trans hcase)
      exact h.other (by simp) (by simp) rfl (h.filed.insert _ _) fun hc =>
        absurd hc (by simp [CCryptoKeyStore.filed])
  | addCryptedKey pub c =>
    have hadd : s.addCryptedKey env pub c = (r, s') := Option.some.inj hop
    rcases addCryptedKey_cases env s pub c with hcase | hcase
    · obtain ⟨rfl, rfl⟩ := Prod.mk.inj (hadd.symm.trans hcase)
      exact h.same (by simp) (by simp)
    · obtain ⟨rfl, rfl⟩ := Prod.mk.inj (hadd.symm.trans hcase)
      exact h.other (by simp) (by simp) rfl (h.filed.insert _ _) fun hc =>
        absurd hc (by simp [CCryptoKeyStore.filed])
  | lock fAllowMixing =>
    have hlock : s.lock fAllowMixing = (r, s') := Option.some.inj hop
    rcases lock_cases s fAllowMixing with hcase | hcase
    · obtain ⟨rfl, rfl⟩ := Prod.mk.inj (hlock.symm.trans hcase)
      exact h.same (by simp) (by simp)
    · obtain ⟨rfl, rfl⟩ := Prod.mk.inj (hlock.symm.trans hcase)
      cases fAllowMixing with
      | true => exact h.other (by simp) (by simp) rfl h.filed fun hc => absurd hc (by simp)
      | false =>
        -- the master key is gone
        exact ⟨fun hne => absurd rfl hne, fun hc => absurd hc (by simp), h.filed⟩
  | unlock mk fForMixingOnly =>
    rcases unlock_cases hop with ⟨rfl, rfl | rfl⟩ | ⟨rfl, rfl⟩
    · exact h.same (by simp) (by simp)
    · exact h.other (by simp) (by simp) rfl h.filed fun hc => absurd hc (by simp)
    · exact ⟨fun _ => unlocked_unlock mk fForMixingOnly,
        fun hc => absurd hc (by simp [CCryptoKeyStore.opened]), h.filed⟩

/-! ## What is given out -/

/-- An empty master key decrypts nothing. -/
theorem decryptKey_nil (vchCryptedSecret : Bytes) (vchPubKey : CPubKey) (key : CKey) :
    decryptKey env [] vchCryptedSecret vchPubKey key = (false, key) := rfl

/-- A key that is given out passes `VerifyPubKey`. -/
theorem decryptKey_verified {mk : CKeyingMaterial} {vchCryptedSecret : Bytes} {vchPubKey : CPubKey}
    {keyIn key : CKey} (h : decryptKey env mk vchCryptedSecret vchPubKey keyIn = (true, key)) :
    env.verifyPubKey key vchPubKey = true := by
  unfold decryptKey at h
  split at h
  · exact absurd (Prod.mk.inj h).1 (by simp)
  · split at h
    · exact absurd (Prod.mk.inj h).1 (by simp)
    · obtain ⟨hverify, rfl⟩ := Prod.mk.inj h
      exact hverify

/-- **A locked store gives out no private key, and never a wrong one.** Over every run of the six
operations from the constructor, whenever the store is encrypted and `GetKey` returns a key for the
address `a`, some `Unlock` has returned true with no successful `Lock(false)` since, and the id of
the key's public key is `a`. -/
theorem getKey_unlocked (env : Env CKey CPubKey CKeyID Others)
    (hverify : ∀ key pubkey, env.verifyPubKey key pubkey = true → env.getPubKey key = pubkey)
    {init s : CCryptoKeyStore CKey CPubKey CKeyID Others} (hinit : init.Initial)
    {ops : List (Op CKey CPubKey)} {hist : List (Op CKey CPubKey × Bool)}
    (hrun : run (step env) ops init = some (hist, s)) (hcrypted : s.isCrypted = true) {a : CKeyID}
    {keyOut key : CKey} (hget : s.getKey env a keyOut = (true, key)) :
    Unlocked hist ∧ env.getID (env.getPubKey key) = a := by
  have hsane : Sane env hist s := run_invariant (fun h hop => h.step hop) (.of_initial hinit) hrun
  unfold getKey at hget
  rw [hcrypted] at hget
  cases hentry : s.mapCryptedKeys[a]? with
  | none => simp [hentry] at hget
  | some entry =>
    obtain ⟨pub, c⟩ := entry
    simp only [hentry] at hget
    have hdecrypt : decryptKey env s.vMasterKey c pub keyOut = (true, key) := by simpa using hget
    refine ⟨hsane.unlocked fun hnil => ?_, ?_⟩
    · rw [hnil, decryptKey_nil] at hdecrypt
      exact absurd (Prod.mk.inj hdecrypt).1 (by simp)
    · rw [hverify key pub (decryptKey_verified hdecrypt)]
      exact (hsane.filed a pub c hentry).symm

/-- Keys that are their own public keys, filed under their first byte, and a cipher that writes the
key in front of the text. -/
def sampleEnv : Env Bytes Bytes Nat Unit where
  newKey := []
  bytes key := key
  set _ vchSecret _ := vchSecret
  getPubKey key := key
  verifyPubKey key pubkey := key == pubkey
  getHash _ := Vector.replicate 32 0
  getID pubkey := (pubkey.headD 0).toNat
  isCompressed _ := true
  evpEncrypt chKey _ vchPlaintext := some (chKey ++ vchPlaintext)
  evpDecrypt chKey _ vchCiphertext :=
    if vchCiphertext.take chKey.length = chKey then some (vchCiphertext.drop chKey.length) else none
  basicAddKeyPubKey key pubkey basic := (true, basic.1.insert (pubkey.headD 0).toNat key, basic.2)
  basicGetKey basic address keyOut := (basic.1[address]?.isSome, basic.1[address]?.getD keyOut)
  basicGetPubKey basic address out := (basic.1[address]?.isSome, basic.1[address]?.getD out)

/-- An empty store. -/
def sampleStore : CCryptoKeyStore Bytes Bytes Nat Unit where
  mapKeys := ∅
  others := ()
  mapCryptedKeys := ∅
  vMasterKey := []
  fUseCrypto := false
  fDecryptionThoroughlyChecked := false
  fOnlyMixingAllowed := false

theorem sampleStore_initial : sampleStore.Initial := ⟨rfl, rfl, rfl, rfl⟩

/-- A key of 32 bytes. -/
def sampleKey (b : UInt8) : Bytes := List.replicate 32 b

/-- A key is added, the store encrypted and unlocked. -/
def sampleRun :=
  run (step sampleEnv) [.addKeyPubKey (sampleKey 7) (sampleKey 7), .encryptKeys (sampleKey 1),
    .unlock (sampleKey 1) false] sampleStore

/-- The key is given out. -/
theorem getKey_unlocked_sample : ∃ hist s, sampleRun = some (hist, s) ∧ s.isCrypted = true ∧
    s.getKey sampleEnv 7 [] = (true, sampleKey 7) ∧ Unlocked hist ∧
      sampleEnv.getID (sampleEnv.getPubKey (sampleKey 7)) = 7 := by
  have hrun : sampleRun = some (sampleRun.get (by decide +kernel)) := (Option.some_get _).symm
  have hcrypted : (sampleRun.get (by decide +kernel)).2.isCrypted = true := by decide +kernel
  have hget : (sampleRun.get (by decide +kernel)).2.getKey sampleEnv 7 [] =
      (true, sampleKey 7) := by decide +kernel
  refine ⟨_, _, hrun, hcrypted, hget, ?_⟩
  exact getKey_unlocked sampleEnv (fun key pubkey h => eq_of_beq h) sampleStore_initial hrun
    hcrypted hget

end ChainX.Wallet
