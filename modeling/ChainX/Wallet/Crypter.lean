import ChainX.Lib.History
import ChainX.Wallet.Locking

/-!
# The key a crypter works under, `Wallet/crypter.cpp:13-106`

`SetKeyFromPassphrase` and its runs with the other functions of `CCrypter`. `EVP_BytesToKey` and
`OPENSSL_cleanse` are OpenSSL's, and the size of a salt is a constant of `crypter.h`; they are a
parameter (`KeyDerivation`). `EVP_BytesToKey` writes to both arrays in place.

A run carries a history variable beside the crypter: the key and the vector that the last setter to
return true was given, or derived, if there was one (`Tracked`). No function reads it.

* `SetKeyFromPassphrase` refuses a count below 1 and a salt of another size at once; a method other
  than 0, or a derivation of too few bytes, it refuses after it has written to the arrays.
* The condition on a run is on the arguments, and on the flag before the call (`May`).

**`crypter_keeps`**: the crypter works under that key and vector as long as no
`SetKeyFromPassphrase` fails past its first check while a key is set. Such a failure erases the
arrays and leaves `fKeySet` as it is (`erased_key`).
-/

namespace ChainX.Wallet

open ChainX.Lib ChainX.Node

/-- What `SetKeyFromPassphrase` calls. -/
structure KeyDerivation where
  WALLET_CRYPTO_SALT_SIZE : Nat
  /-- `EVP_BytesToKey` with AES-256-CBC and SHA-512, of the salt, the data and the count, on the
  arrays for the key and the vector: the size returned and the arrays after the call. -/
  evpBytesToKey : Bytes → Bytes → UInt32 → Bytes → Bytes → Int × Bytes × Bytes
  opensslCleanse : Bytes → Bytes

namespace CCrypter

variable {CKey CPubKey CKeyID Others : Type} [LinearOrder CKeyID]
  (kdf : KeyDerivation) (env : Env CKey CPubKey CKeyID Others)

/-- `memory_cleanse`. -/
def memoryCleanse (ptr : Bytes) : Bytes := kdf.opensslCleanse ptr

/-- `SetKeyFromPassphrase`: the arrays are overwritten before the size is looked at. -/
def setKeyFromPassphrase (c : CCrypter) (strKeyData chSalt : Bytes)
    (nRounds nDerivationMethod : UInt32) : Bool × CCrypter :=
  if nRounds < 1 ∨ chSalt.length ≠ kdf.WALLET_CRYPTO_SALT_SIZE then (false, c)
  else
    let (i, chKey, chIV) :=
      if nDerivationMethod = 0 then kdf.evpBytesToKey chSalt strKeyData nRounds c.chKey c.chIV
      else (0, c.chKey, c.chIV)
    if i ≠ WALLET_CRYPTO_KEY_SIZE then
      (false, { c with chKey := memoryCleanse kdf chKey, chIV := memoryCleanse kdf chIV })
    else (true, ⟨chKey, chIV, true⟩)

/-! ## Runs -/

/-- A call of the crypter. -/
inductive Op where
  | setKeyFromPassphrase (strKeyData chSalt : Bytes) (nRounds nDerivationMethod : UInt32)
  | setKey (chNewKey : CKeyingMaterial) (chNewIV : Bytes)
  | encrypt (vchPlaintext : CKeyingMaterial)
  | decrypt (vchCiphertext : Bytes)

/-- What a setter returns, and what `Encrypt` and `Decrypt` do. -/
inductive Reply where
  | set (ok : Bool)
  | text (out : Option Bytes)

/-- A crypter, and the key and the vector of the last setter that returned true. -/
abbrev Tracked := CCrypter × Option (Bytes × Bytes)

/-- A setter was called, with this key and vector. -/
def Tracked.set (t : Tracked) (given : Bytes × Bytes) (res : Bool × CCrypter) : Reply × Tracked :=
  (.set res.1, res.2, if res.1 then some given else t.2)

/-- One call, and what it replies. -/
def step (op : Op) (t : Tracked) : Option (Reply × Tracked) :=
  match op with
  | .setKeyFromPassphrase strKeyData chSalt nRounds nDerivationMethod =>
    some (t.set (kdf.evpBytesToKey chSalt strKeyData nRounds t.1.chKey t.1.chIV).2
      (t.1.setKeyFromPassphrase kdf strKeyData chSalt nRounds nDerivationMethod))
  | .setKey chNewKey chNewIV => some (t.set (chNewKey, chNewIV) (t.1.setKey chNewKey chNewIV))
  | .encrypt vchPlaintext => some (.text (t.1.encrypt env vchPlaintext), t)
  | .decrypt vchCiphertext => some (.text (t.1.decrypt env vchCiphertext), t)

/-- No `SetKeyFromPassphrase` with a salt and a count that it accepts fails to derive a key while
one is set. -/
def May : Op → Tracked → Prop
  | .setKeyFromPassphrase strKeyData chSalt nRounds nDerivationMethod, t =>
    t.1.fKeySet = true → 1 ≤ nRounds → chSalt.length = kdf.WALLET_CRYPTO_SALT_SIZE →
      nDerivationMethod = 0 ∧
        (kdf.evpBytesToKey chSalt strKeyData nRounds t.1.chKey t.1.chIV).1 = WALLET_CRYPTO_KEY_SIZE
  | _, _ => True

/-! ## The invariant -/

/-- The flag says whether a setter has returned true, and the arrays hold what it was given. -/
structure Fresh (t : Tracked) : Prop where
  isSome : t.1.fKeySet = t.2.isSome
  eq : ∀ {last}, t.2 = some last → (t.1.chKey, t.1.chIV) = last

variable {kdf} {env} {t : Tracked}

variable (kdf) in
/-- What `SetKeyFromPassphrase` can do: nothing, set the arrays, or fail with other arrays. -/
theorem setKeyFromPassphrase_cases (c : CCrypter) (strKeyData chSalt : Bytes)
    (nRounds nDerivationMethod : UInt32) :
    c.setKeyFromPassphrase kdf strKeyData chSalt nRounds nDerivationMethod = (false, c) ∨
    (∃ chKey chIV, (kdf.evpBytesToKey chSalt strKeyData nRounds c.chKey c.chIV).2 = (chKey, chIV) ∧
      c.setKeyFromPassphrase kdf strKeyData chSalt nRounds nDerivationMethod =
        (true, ⟨chKey, chIV, true⟩)) ∨
    (1 ≤ nRounds ∧ chSalt.length = kdf.WALLET_CRYPTO_SALT_SIZE ∧
      ¬ (nDerivationMethod = 0 ∧
        (kdf.evpBytesToKey chSalt strKeyData nRounds c.chKey c.chIV).1 = WALLET_CRYPTO_KEY_SIZE) ∧
      ∃ chKey chIV, c.setKeyFromPassphrase kdf strKeyData chSalt nRounds nDerivationMethod =
        (false, { c with chKey := chKey, chIV := chIV })) := by
  unfold setKeyFromPassphrase
  by_cases hcheck : nRounds < 1 ∨ chSalt.length ≠ kdf.WALLET_CRYPTO_SALT_SIZE
  · rw [if_pos hcheck]
    exact .inl rfl
  · obtain ⟨hrounds, hsalt⟩ := not_or.mp hcheck
    rw [if_neg hcheck]
    by_cases hmethod : nDerivationMethod = 0
    · simp only [if_pos hmethod]
      by_cases hsize : (kdf.evpBytesToKey chSalt strKeyData nRounds c.chKey c.chIV).1 =
          WALLET_CRYPTO_KEY_SIZE
      · rw [if_neg (not_not.mpr hsize)]
        exact .inr (.inl ⟨_, _, rfl, rfl⟩)
      · rw [if_pos hsize]
        exact .inr (.inr
          ⟨UInt32.not_lt.mp hrounds, not_not.mp hsalt, fun h => hsize h.2, _, _, rfl⟩)
    · simp only [if_neg hmethod]
      rw [if_pos (by decide)]
      exact .inr (.inr
        ⟨UInt32.not_lt.mp hrounds, not_not.mp hsalt, fun h => hmethod h.1, _, _, rfl⟩)

/-- After a setter that has returned true. -/
theorem Fresh.of_set (t : Tracked) (chKey chIV : Bytes) :
    Fresh (t.set (chKey, chIV) (true, ⟨chKey, chIV, true⟩)).2 where
  isSome := rfl
  eq hlast := Option.some.inj hlast

/-- After a setter that has changed nothing. -/
theorem Fresh.of_same (h : Fresh t) (given : Bytes × Bytes) : Fresh (t.set given (false, t.1)).2 :=
  ⟨h.isSome, h.eq⟩

/-- Where no key was ever set, the arrays do not matter. -/
theorem Fresh.of_unset (h : Fresh t) (hunset : t.1.fKeySet = false) (given : Bytes × Bytes)
    (chKey chIV : Bytes) :
    Fresh (t.set given (false, { t.1 with chKey := chKey, chIV := chIV })).2 where
  isSome := h.isSome
  eq hlast := by
    have hsome : t.1.fKeySet = true := by
      rw [h.isSome]
      exact Option.isSome_iff_exists.mpr ⟨_, hlast⟩
    exact absurd (hunset.symm.trans hsome) (by simp)

theorem Fresh.step (h : Fresh t) {op : Op} (hmay : May kdf op t) :
    ∃ r t', step kdf env op t = some (r, t') ∧ Fresh t' := by
  cases op with
  | setKeyFromPassphrase strKeyData chSalt nRounds nDerivationMethod =>
    refine ⟨_, _, rfl, ?_⟩
    rcases setKeyFromPassphrase_cases kdf t.1 strKeyData chSalt nRounds
      nDerivationMethod with
      hcase | ⟨chKey, chIV, hgiven, hcase⟩ | ⟨hrounds, hsalt, hfail, _, _, hcase⟩
    · rw [hcase]
      exact h.of_same _
    · rw [hcase, hgiven]
      exact .of_set t chKey chIV
    · rw [hcase]
      -- the arrays are erased, so no key may have been set
      refine h.of_unset (Bool.eq_false_iff.mpr fun hset => ?_) _ _ _
      exact hfail (hmay hset hrounds hsalt)
  | setKey chNewKey chNewIV =>
    refine ⟨_, _, rfl, ?_⟩
    unfold setKey
    split
    · exact h.of_same _
    · exact .of_set t chNewKey chNewIV
  | encrypt vchPlaintext => exact ⟨_, t, rfl, h⟩
  | decrypt vchCiphertext => exact ⟨_, t, rfl, h⟩

/-- The crypter is one that has the key and the vector last set, if they were. -/
theorem Fresh.encrypt (h : Fresh t) (vchPlaintext : CKeyingMaterial) :
    t.1.encrypt env vchPlaintext =
      t.2.bind fun last => env.evpEncrypt last.1 last.2 vchPlaintext := by
  unfold CCrypter.encrypt
  rw [h.isSome]
  cases hlast : t.2 with
  | none => rfl
  | some last =>
    obtain rfl := h.eq hlast
    rfl

theorem Fresh.decrypt (h : Fresh t) (vchCiphertext : Bytes) :
    t.1.decrypt env vchCiphertext =
      t.2.bind fun last => env.evpDecrypt last.1 last.2 vchCiphertext := by
  unfold CCrypter.decrypt
  rw [h.isSome]
  cases hlast : t.2 with
  | none => rfl
  | some last =>
    obtain rfl := h.eq hlast
    rfl

/-- **A crypter works under the key that was last set.** In every run from a crypter without a key,
of calls with any arguments of which none is a `SetKeyFromPassphrase` that fails past its first
check while a key is set, whenever `fKeySet` is true the arrays hold what the last setter to return
true was given or has derived, and `Encrypt` and `Decrypt` do what the cipher does under that. -/
theorem crypter_keeps (kdf : KeyDerivation) (env : Env CKey CPubKey CKeyID Others) {init : CCrypter}
    (hinit : init.fKeySet = false) {ops : List Op}
    (hmay : Admissible (CCrypter.step kdf env) (May kdf) ops (init, none)) :
    ∃ hist c last, run (CCrypter.step kdf env) ops (init, none) = some (hist, c, last) ∧
      (c.fKeySet = true → last = some (c.chKey, c.chIV)) ∧
      ∀ text, c.encrypt env text = (last.bind fun k => env.evpEncrypt k.1 k.2 text) ∧
        c.decrypt env text = (last.bind fun k => env.evpDecrypt k.1 k.2 text) := by
  have hfresh : Fresh (init, none) := ⟨hinit, fun h => absurd h (by simp)⟩
  obtain ⟨hist, ⟨c, last⟩, hrun, hend⟩ :=
    @run_of_admissible _ _ _ _ (fun _ t => Fresh t) _ _ _ (fun h hop => h.step hop) hfresh hmay
  refine ⟨hist, c, last, hrun, fun hset => ?_, fun text => ⟨hend.encrypt text, hend.decrypt text⟩⟩
  obtain ⟨k, hk⟩ := Option.isSome_iff_exists.mp (hend.isSome.symm.trans hset)
  exact hk.trans (congrArg some (hend.eq hk).symm)

/-- A derivation for the samples, none of which derives a key, and a cleansing with zeros. -/
def sampleDerivation : KeyDerivation where
  WALLET_CRYPTO_SALT_SIZE := 8
  evpBytesToKey _ _ _ chKey chIV := (0, chKey, chIV)
  opensslCleanse ptr := List.replicate ptr.length 0

/-- A key is set, a count of zero is refused, and the key is still the one in use. -/
theorem crypter_keeps_refused : ∃ hist c,
    run (CCrypter.step sampleDerivation sampleEnv)
      [.setKey (sampleKey 1) (sampleKey 2), .setKeyFromPassphrase [3] [] 0 0] (.new, none) =
        some (hist, c, some (sampleKey 1, sampleKey 2)) ∧
    c.encrypt sampleEnv [5] = some (sampleKey 1 ++ [5]) := by
  have hmay : Admissible (CCrypter.step sampleDerivation sampleEnv) (May sampleDerivation)
      [.setKey (sampleKey 1) (sampleKey 2), .setKeyFromPassphrase [3] [] 0 0] (.new, none) :=
    ⟨trivial, fun r t h => ⟨fun _ hrounds => absurd hrounds (by decide), fun _ _ _ => trivial⟩⟩
  obtain ⟨hist, c, last, hrun, -, htext⟩ := crypter_keeps sampleDerivation sampleEnv rfl hmay
  have hlast : last = some (sampleKey 1, sampleKey 2) :=
    (congrArg (fun res => res.2.2) (Option.some.inj hrun)).symm
  subst hlast
  exact ⟨hist, c, hrun, (htext [5]).1⟩

/-- A key is set, and a passphrase with a method that there is not is refused: the crypter goes on
under zeros. -/
theorem erased_key : ∃ hist c,
    run (CCrypter.step sampleDerivation sampleEnv)
      [.setKey (sampleKey 1) (sampleKey 2), .setKeyFromPassphrase [3] (List.replicate 8 4) 1 1]
        (.new, none) = some (hist, c, some (sampleKey 1, sampleKey 2)) ∧
    c.fKeySet = true ∧ c.chKey = List.replicate 32 0 ∧ c.chIV = List.replicate 32 0 ∧
    c.encrypt sampleEnv [5] = some (List.replicate 32 0 ++ [5]) ∧
    some (sampleKey 1, sampleKey 2) ≠ some (c.chKey, c.chIV) :=
  ⟨_, _, rfl, rfl, rfl, rfl, rfl, by decide⟩

end CCrypter

end ChainX.Wallet
