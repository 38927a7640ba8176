import ChainX.Wallet.Encryption

/-!
# A failed `EncryptKeys`, `Wallet/crypter.cpp:354-376`

`EncryptKeys` switches the store to encrypted before it encrypts the first key and does not switch
back when it returns false, whichever key it fails at (`encryptKeys_of_fails`). From then on
`GetKey` looks among the encrypted keys, while the keys are still in `mapKeys`. `SetCrypted`
switches only a store without plain keys.

* `Unharmed` is what a failure should leave: the mode, the keys, and every key given out that was
  given out before.
* `Encrypts` says of one key that its secret can be encrypted under the master key: this is the
  condition that has to fail for some key, and it speaks of the state before the call.
* The loop goes over the keys in their order and files each as it is encrypted, so a failure at one
  of them leaves the entries of those before.

**`encryptKeys_unharmed_iff`**: a failure leaves the store as it was if and only if it comes from
the check at the start, before anything is encrypted. `encryptKeys_short` is one that does not.
-/

namespace ChainX.Wallet

open ChainX.Node CCryptoKeyStore

variable {CKey CPubKey CKeyID Others : Type} [LinearOrder CKeyID]
  {env : Env CKey CPubKey CKeyID Others} {s s' : CCryptoKeyStore CKey CPubKey CKeyID Others}
  {mk : CKeyingMaterial}

/-- The store `s'` is in the mode of `s`, has its keys and gives out every key that `s` does. -/
structure Unharmed (env : Env CKey CPubKey CKeyID Others)
    (s s' : CCryptoKeyStore CKey CPubKey CKeyID Others) : Prop where
  isCrypted : s'.isCrypted = s.isCrypted
  mapKeys : s'.mapKeys = s.mapKeys
  mapCryptedKeys : s'.mapCryptedKeys = s.mapCryptedKeys
  getKey : ∀ address keyIn key, s.getKey env address keyIn = (true, key) →
    s'.getKey env address keyIn = (true, key)

theorem Unharmed.refl (s : CCryptoKeyStore CKey CPubKey CKeyID Others) : Unharmed env s s :=
  ⟨rfl, rfl, rfl, fun _ _ _ h => h⟩

/-- The secret of `key` can be encrypted: the master key has its size, and the cipher does not
fail. -/
def Encrypts (env : Env CKey CPubKey CKeyID Others) (mk : CKeyingMaterial) (key : CKey) : Prop :=
  mk.length = WALLET_CRYPTO_KEY_SIZE ∧
    env.evpEncrypt mk (env.getHash (env.getPubKey key)).toList (env.bytes key) ≠ none

theorem encrypts_iff {key : CKey} : Encrypts env mk key ↔
    ∃ c, encryptSecret env mk (env.bytes key) (env.getHash (env.getPubKey key)) = some c := by
  rw [← Option.ne_none_iff_exists']
  unfold Encrypts
  by_cases hmk : mk.length = WALLET_CRYPTO_KEY_SIZE
  · rw [encryptSecret_eq hmk]
    exact ⟨fun h => h.2, fun h => ⟨hmk, h⟩⟩
  · refine iff_of_false (fun h => hmk h.1) (not_not.mpr ?_)
    unfold encryptSecret CCrypter.setKey
    rw [if_pos (.inl hmk)]

variable (env mk) in
/-- The loop runs to its end if and only if every key can be encrypted, and leaves the store
encrypted either way: by induction on the keys. -/
theorem encryptKeysLoop_iff : ∀ (entries : List (CKeyID × CKey))
    {s : CCryptoKeyStore CKey CPubKey CKeyID Others}, s.fUseCrypto = true →
      (encryptKeysLoop env mk entries s).2.fUseCrypto = true ∧
        ((encryptKeysLoop env mk entries s).1 = true ↔ ∀ e ∈ entries, Encrypts env mk e.2)
  | [], s, hcrypto => ⟨hcrypto, iff_of_true rfl (by simp)⟩
  | (id, key) :: entries, s, hcrypto => by
    unfold encryptKeysLoop
    cases henc : encryptSecret env mk (env.bytes key) (env.getHash (env.getPubKey key)) with
    | none =>
      simp only [henc]
      refine ⟨hcrypto, iff_of_false (by simp) fun hall => ?_⟩
      obtain ⟨c, hc⟩ := encrypts_iff.mp (hall (id, key) List.mem_cons_self)
      exact absurd (henc.symm.trans hc) (by simp)
    | some c =>
      simp only [henc, addCryptedKey_of_crypted hcrypto]
      obtain ⟨hcrypto', hloop⟩ := encryptKeysLoop_iff entries
        (s := s.filed env (env.getPubKey key) c) rfl
      refine ⟨hcrypto', hloop.trans ?_⟩
      rw [List.forall_mem_cons]
      exact ⟨fun hall => ⟨encrypts_iff.mpr ⟨c, henc⟩, hall⟩, fun hall => hall.2⟩

theorem encrypts_toList : (∀ e ∈ s.mapKeys.toList, Encrypts env mk e.2) ↔
    ∀ (id : CKeyID) key, s.mapKeys[id]? = some key → Encrypts env mk key := by
  constructor
  · intro hall id key hget
    exact hall (id, key) (Std.TreeMap.mem_toList_iff_getElem?_eq_some.mpr hget)
  · intro hall e he
    exact hall e.1 e.2 (Std.TreeMap.mem_toList_iff_getElem?_eq_some.mp he)

/-- Where a key cannot be encrypted, the store is left encrypted. -/
theorem encryptKeys_of_fails (hplain : s.isCrypted = false)
    (hempty : s.mapCryptedKeys.isEmpty = true)
    (hfails : ¬ ∀ (id : CKeyID) key, s.mapKeys[id]? = some key → Encrypts env mk key) :
    (s.encryptKeys env mk).1 = false ∧ (s.encryptKeys env mk).2.isCrypted = true := by
  obtain ⟨hcrypto, hloop⟩ := encryptKeysLoop_iff env mk s.mapKeys.toList
    (s := { s with fUseCrypto := true }) rfl
  rw [encrypts_toList] at hloop
  have hfalse := mt hloop.mp hfails
  unfold encryptKeys
  rw [hempty, hplain]
  cases hres : encryptKeysLoop env mk s.mapKeys.toList { s with fUseCrypto := true } with
  | mk ok s' =>
    rw [hres] at hcrypto hfalse
    obtain rfl : ok = false := by simpa using hfalse
    exact ⟨rfl, hcrypto⟩

/-- **A failed `EncryptKeys` leaves the store as it was** if and only if the store is encrypted
already, by its mode or by its keys, or every key in it can be encrypted, so that it does not
fail. -/
theorem encryptKeys_unharmed_iff (env : Env CKey CPubKey CKeyID Others)
    (s : CCryptoKeyStore CKey CPubKey CKeyID Others) (mk : CKeyingMaterial) :
    ((s.encryptKeys env mk).1 = false → Unharmed env s (s.encryptKeys env mk).2) ↔
      s.isCrypted = true ∨ s.mapCryptedKeys.isEmpty = false ∨
        ∀ (id : CKeyID) key, s.mapKeys[id]? = some key → Encrypts env mk key := by
  by_cases hcheck : (!s.mapCryptedKeys.isEmpty || s.isCrypted) = true
  · refine iff_of_true (fun _ => ?_) ?_
    · unfold encryptKeys
      rw [if_pos hcheck]
      exact .refl s
    · rcases Bool.or_eq_true_iff.mp hcheck with hkeys | hmode
      · exact .inr (.inl (by simpa using hkeys))
      · exact .inl hmode
  · simp only [Bool.or_eq_true, Bool.not_eq_true', not_or, Bool.not_eq_true,
      Bool.not_eq_false] at hcheck
    obtain ⟨hempty, hplain⟩ := hcheck
    by_cases hall : ∀ (id : CKeyID) key, s.mapKeys[id]? = some key → Encrypts env mk key
    · refine iff_of_true (fun hfalse => ?_) (.inr (.inr hall))
      obtain ⟨-, hloop⟩ := encryptKeysLoop_iff env mk s.mapKeys.toList
        (s := { s with fUseCrypto := true }) rfl
      have htrue := hloop.mpr (encrypts_toList.mpr hall)
      unfold encryptKeys at hfalse
      rw [hempty, hplain] at hfalse
      cases hres : encryptKeysLoop env mk s.mapKeys.toList { s with fUseCrypto := true } with
      | mk ok s' =>
        rw [hres] at htrue hfalse
        obtain rfl : ok = true := htrue
        exact absurd hfalse (by simp)
    · obtain ⟨hfalse, hmode⟩ := encryptKeys_of_fails hplain hempty hall
      refine iff_of_false (fun h => ?_) (by simp [hplain, hempty, hall])
      have hsame := (h hfalse).isCrypted
      rw [hmode, hplain] at hsame
      exact absurd hsame (by simp)

/-- A store with a key, and a master key that is one byte short: the store is left encrypted and no
longer gives the key out. -/
theorem encryptKeys_short :
    samplePlain.getKey sampleEnv 7 [] = (true, sampleKey 7) ∧
      (samplePlain.encryptKeys sampleEnv (List.replicate 31 1)).1 = false ∧
      (samplePlain.encryptKeys sampleEnv (List.replicate 31 1)).2.isCrypted = true ∧
      samplePlain.isCrypted = false ∧
      (samplePlain.encryptKeys sampleEnv (List.replicate 31 1)).2.getKey sampleEnv 7 [] =
        (false, []) := by
  decide +kernel

end ChainX.Wallet
