import ChainX.Wallet.Encryption

/-!
# The fast check of `Unlock`, `Wallet/crypter.cpp:244-281`

Once every entry has been decrypted under a master key, `fDecryptionThoroughlyChecked` is set, and
from then on `Unlock` looks at the first entry alone. `AddCryptedKey` and `AddKeyPubKey` file
entries afterwards without a check and leave the flag as it is (`unchecked_entry`).

`Checked` links the flag to the entries: while it is set, some master key opens all of them, and an
entry is opened by one master key at most, so that the first one tells.

* `Opens` is what `Unlock` asks of one entry, `AllOpen` the full check of all of them, whatever the
  flag says.
* The condition on a run (`FilesOpen`) is on what it files: by the entries there are before each
  call, and by the flag.

**`fastCheck_agrees`**: an `Unlock` that returns true has a master key that opens every entry, and
an unlocked store gives out every key it has, as long as every entry filed while the flag is set
opens under the master key that opens the others, and none is opened by two.
-/

namespace ChainX.Wallet

open ChainX.Lib ChainX.Node CCryptoKeyStore

variable {CKey CPubKey CKeyID Others : Type} [LinearOrder CKeyID]
  {env : Env CKey CPubKey CKeyID Others} {s s' : CCryptoKeyStore CKey CPubKey CKeyID Others}
  {mk mk' : CKeyingMaterial} {hist : List (Op CKey CPubKey × Bool)}

/-! ## Entries -/

/-- `Unlock` takes the entry as decrypted under `mk`. -/
def Opens (env : Env CKey CPubKey CKeyID Others) (mk : CKeyingMaterial) (e : CPubKey × Bytes) :
    Prop :=
  (decryptKey env mk e.2 e.1 env.newKey).1 = true

/-- The key opens every entry. -/
def AllOpen (env : Env CKey CPubKey CKeyID Others) (mk : CKeyingMaterial)
    (s : CCryptoKeyStore CKey CPubKey CKeyID Others) : Prop :=
  ∀ (id : CKeyID) e, s.mapCryptedKeys[id]? = some e → Opens env mk e

/-- At most one master key opens the entry. -/
def OneKey (env : Env CKey CPubKey CKeyID Others) (e : CPubKey × Bytes) : Prop :=
  ∀ mk mk', Opens env mk e → Opens env mk' e → mk = mk'

/-- An empty master key opens nothing. -/
theorem Opens.ne_nil {e : CPubKey × Bytes} (h : Opens env mk e) : mk ≠ [] := by
  rintro rfl
  unfold Opens at h
  rw [decryptKey_nil] at h
  exact absurd h (by simp)

/-- Whether an entry opens does not depend on the key that is overwritten, if that is so of
`key.Set`. -/
theorem Opens.decryptKey (hset : ∀ old old' secret fCompressed pub,
      env.verifyPubKey (env.set old secret fCompressed) pub =
        env.verifyPubKey (env.set old' secret fCompressed) pub)
    {e : CPubKey × Bytes} (h : Opens env mk e) (keyIn : CKey) :
    ∃ key, decryptKey env mk e.2 e.1 keyIn = (true, key) ∧ env.verifyPubKey key e.1 = true := by
  unfold Opens Wallet.decryptKey at h
  unfold Wallet.decryptKey
  cases hdec : decryptSecret env mk e.2 (env.getHash e.1) with
  | none => simp [hdec] at h
  | some secret =>
    simp only [hdec] at h ⊢
    split at h
    case isTrue => exact absurd h (by simp)
    case isFalse hlen =>
      have hverify := (hset keyIn env.newKey secret (env.isCompressed e.1) e.1).trans h
      rw [if_neg hlen, hverify]
      exact ⟨_, rfl, hverify⟩

/-! ## `Unlock` -/

/-- Where the loop of `Unlock` passes, the first entry opens, and without the flag every entry
does. -/
theorem unlockLoop_open (mk : CKeyingMaterial) (fChecked : Bool) :
    ∀ {entries : List (CKeyID × CPubKey × Bytes)} {keyPass : Bool},
      unlockLoop env mk fChecked keyPass entries = (true, false) →
        (entries = [] → keyPass = true) ∧ (∀ e ∈ entries.head?, Opens env mk e.2) ∧
          (fChecked = false → ∀ e ∈ entries, Opens env mk e.2)
  | [], keyPass, h => ⟨fun _ => (Prod.mk.inj h).1, by simp, by simp⟩
  | (id, pub, c) :: entries, keyPass, h => by
    unfold unlockLoop at h
    cases hopen : (decryptKey env mk c pub env.newKey).1 with
    | false => simp [hopen] at h
    | true =>
      have hfirst : Opens env mk (pub, c) := hopen
      refine ⟨by simp, ?_, fun hflag => ?_⟩
      · intro e he
        obtain rfl := Option.some.inj he
        exact hfirst
      · rw [hflag] at h
        simp only [hopen] at h
        refine List.forall_mem_cons.mpr ⟨hfirst, ?_⟩
        exact (unlockLoop_open mk false (by simpa using h)).2.2 rfl

/-- What a successful `Unlock` has looked at. -/
theorem unlock_open {fForMixingOnly : Bool} (h : s.unlock env mk fForMixingOnly = some (true, s')) :
    (∃ (id : CKeyID) (e : CPubKey × Bytes), s.mapCryptedKeys[id]? = some e ∧ Opens env mk e) ∧
      (s.fDecryptionThoroughlyChecked = false → AllOpen env mk s) := by
  unfold unlock at h
  rcases setCrypted_cases (s := s) with ⟨hset, -⟩ | hset
  · rw [hset] at h
    exact absurd h (by simp)
  · rw [hset] at h
    cases hloop : unlockLoop env mk s.fDecryptionThoroughlyChecked false
        s.mapCryptedKeys.toList with
    | mk keyPass keyFail =>
      simp only [hloop] at h
      have hres : keyPass = true ∧ keyFail = false := by
        cases keyPass with
        | true =>
          cases keyFail with
          | true => simp at h
          | false => exact ⟨rfl, rfl⟩
        | false => simp at h
      rw [hres.1, hres.2] at hloop
      obtain ⟨hnil, hfirst, hall⟩ := unlockLoop_open mk _ hloop
      have hentry : ∀ {id : CKeyID} {e : CPubKey × Bytes},
          (id, e) ∈ s.mapCryptedKeys.toList ↔ s.mapCryptedKeys[id]? = some e :=
        Std.TreeMap.mem_toList_iff_getElem?_eq_some
      refine ⟨?_, fun hflag id e hget => hall hflag (id, e) (hentry.mpr hget)⟩
      cases hlist : s.mapCryptedKeys.toList with
      | nil => exact absurd (hnil hlist) (by simp)
      | cons first rest =>
        rw [hlist] at hfirst
        refine ⟨first.1, first.2, hentry.mp ?_, hfirst first rfl⟩
        rw [hlist]
        exact List.mem_cons_self

/-! ## The invariant -/

/-- The entries that an operation may file. -/
def Files (env : Env CKey CPubKey CKeyID Others) (s : CCryptoKeyStore CKey CPubKey CKeyID Others) :
    Op CKey CPubKey → CPubKey × Bytes → Prop
  | .addCryptedKey vchPubKey vchCryptedSecret, e => e = (vchPubKey, vchCryptedSecret)
  | .addKeyPubKey key pubkey, e => s.vMasterKey ≠ [] ∧ e.1 = pubkey ∧
    encryptSecret env s.vMasterKey (env.bytes key) (env.getHash pubkey) = some e.2
  | .encryptKeys mk, e => ∃ (id : CKeyID) (key : CKey), s.mapKeys[id]? = some key ∧
    e.1 = env.getPubKey key ∧
    encryptSecret env mk (env.bytes key) (env.getHash (env.getPubKey key)) = some e.2
  | _, _ => False

/-- Every entry filed is opened by one master key at most, and if it is filed while the flag is set,
then by the one that opens those that are there. -/
def FilesOpen (env : Env CKey CPubKey CKeyID Others) (op : Op CKey CPubKey)
    (s : CCryptoKeyStore CKey CPubKey CKeyID Others) : Prop :=
  ∀ e, Files env s op e → OneKey env e ∧
    (s.fDecryptionThoroughlyChecked = true → ∀ mk, AllOpen env mk s → Opens env mk e)

/-- The flag means what it says. -/
structure Checked (env : Env CKey CPubKey CKeyID Others)
    (s : CCryptoKeyStore CKey CPubKey CKeyID Others) : Prop where
  oneKey : ∀ (id : CKeyID) e, s.mapCryptedKeys[id]? = some e → OneKey env e
  flag : s.fDecryptionThoroughlyChecked = true → s.fUseCrypto = true ∧ ∃ mk, AllOpen env mk s
  master : s.vMasterKey ≠ [] →
    s.fDecryptionThoroughlyChecked = true ∧ AllOpen env s.vMasterKey s

/-- Where neither the entries nor the flag change, and the master key at most goes. -/
theorem Checked.other (h : Checked env s) (hmap : s'.mapCryptedKeys = s.mapCryptedKeys)
    (hflag : s'.fDecryptionThoroughlyChecked = s.fDecryptionThoroughlyChecked)
    (hcrypto : s.fUseCrypto = true → s'.fUseCrypto = true)
    (hmaster : s'.vMasterKey = s.vMasterKey ∨ s'.vMasterKey = []) : Checked env s' where
  oneKey := by
    rw [hmap]
    exact h.oneKey
  flag hset := by
    rw [hflag] at hset
    unfold AllOpen
    rw [hmap]
    exact ⟨hcrypto (h.flag hset).1, (h.flag hset).2⟩
  master hne := by
    unfold AllOpen
    rw [hmap, hflag]
    rcases hmaster with hmaster | hmaster
    · rw [hmaster] at hne ⊢
      exact h.master hne
    · exact absurd hmaster hne

theorem Checked.filed (h : Checked env s) {pub : CPubKey} {c : Bytes}
    (hone : OneKey env (pub, c)) (hopen : s.fDecryptionThoroughlyChecked = true →
      ∀ mk, AllOpen env mk s → Opens env mk (pub, c)) : Checked env (s.filed env pub c) where
  oneKey := forall_filed h.oneKey hone
  flag hset := by
    obtain ⟨-, mk, hall⟩ := h.flag hset
    exact ⟨rfl, mk, forall_filed hall (hopen hset mk hall)⟩
  master hne := by
    obtain ⟨hset, hall⟩ := h.master hne
    exact ⟨hset, forall_filed hall (hopen hset _ hall)⟩

/-- With one master key for each entry, the first one tells of them all. -/
theorem Checked.unlock (h : Checked env s) {fForMixingOnly : Bool}
    (hunlock : s.unlock env mk fForMixingOnly = some (true, s')) : AllOpen env mk s := by
  obtain ⟨⟨id, e, hget, hopen⟩, hfull⟩ := unlock_open hunlock
  cases hflag : s.fDecryptionThoroughlyChecked with
  | false => exact hfull hflag
  | true =>
    obtain ⟨-, mk', hall⟩ := h.flag hflag
    rw [h.oneKey id e hget mk mk' hopen (hall id e hget)]
    exact hall

theorem Checked.step {op : Op CKey CPubKey} {r : Bool} (h : Checked env s)
    (hmay : FilesOpen env op s) (hop : step env op s = some (r, s')) : Checked env s' := by
  cases op with
  | setCrypted =>
    have hset : s.setCrypted = (r, s') := Option.some.inj hop
    rcases setCrypted_cases (s := s) with ⟨hcase, -⟩ | hcase
    · obtain ⟨-, rfl⟩ := Prod.mk.inj (hset.symm.trans hcase)
      exact h
    · obtain ⟨-, rfl⟩ := Prod.mk.inj (hset.symm.trans hcase)
      exact h.other rfl rfl (fun _ => rfl) (.inl rfl)
  | encryptKeys mk =>
    have henc : s.encryptKeys env mk = (r, s') := Option.some.inj hop
    rcases encryptKeys_cases (P := fun _ e => OneKey env e) mk h.oneKey
      (fun id key c hget hc => (hmay (env.getPubKey key, c) ⟨id, key, hget, rfl, hc⟩).1) with
      hcase | ⟨hplain, r', mapKeys, m, hcase, hm⟩
    · obtain ⟨-, rfl⟩ := Prod.mk.inj (henc.symm.trans hcase)
      exact h
    · obtain ⟨-, rfl⟩ := Prod.mk.inj (henc.symm.trans hcase)
      -- the store was not encrypted, so the flag is not set
      have hunset : s.fDecryptionThoroughlyChecked ≠ true := by
        intro hset
        exact absurd (hplain.symm.trans (h.flag hset).1) (by simp)
      exact ⟨hm, fun hset => absurd hset hunset, fun hne => absurd (h.master hne).1 hunset⟩
  | addKeyPubKey key pubkey =>
    have hadd : s.addKeyPubKey env key pubkey = (r, s') := Option.some.inj hop
    rcases addKeyPubKey_cases env s key pubkey with
      ⟨-, r', mapKeys, others, hcase⟩ | hcase | ⟨c, hne, hc, hcase⟩
    · obtain ⟨-, rfl⟩ := Prod.mk.inj (hadd.symm.trans hcase)
      exact h.other rfl rfl id (.inl rfl)
    · obtain ⟨-, rfl⟩ := Prod.mk.inj (hadd.symm.trans hcase)
      exact h
    · obtain ⟨-, rfl⟩ := Prod.mk.inj (hadd.symm.trans hcase)
      obtain ⟨hone, hopen⟩ := hmay (pubkey, c) ⟨hne, rfl, hc⟩
      exact h.filed hone hopen
  | addCryptedKey pub c =>
    have hadd : s.addCryptedKey env pub c = (r, s') := Option.some.inj hop
    rcases addCryptedKey_cases env s pub c with hcase | hcase
    · obtain ⟨-, rfl⟩ := Prod.mk.inj (hadd.symm.trans hcase)
      exact h
    · obtain ⟨-, rfl⟩ := Prod.mk.inj (hadd.symm.trans hcase)
      obtain ⟨hone, hopen⟩ := hmay (pub, c) rfl
      exact h.filed hone hopen
  | lock fAllowMixing =>
    have hlock : s.lock fAllowMixing = (r, s') := Option.some.inj hop
    rcases lock_cases s fAllowMixing with hcase | hcase
    · obtain ⟨-, rfl⟩ := Prod.mk.inj (hlock.symm.trans hcase)
      exact h
    · obtain ⟨-, rfl⟩ := Prod.mk.inj (hlock.symm.trans hcase)
      refine h.other rfl rfl (fun _ => rfl) ?_
      cases fAllowMixing with
      | true => exact .inl rfl
      | false => exact .inr rfl
  | unlock mk fForMixingOnly =>
    rcases unlock_cases hop with ⟨-, rfl | rfl⟩ | ⟨rfl, rfl⟩
    · exact h
    · exact h.other rfl rfl (fun _ => rfl) (.inl rfl)
    · have hall := h.unlock hop
      exact ⟨h.oneKey, fun _ => ⟨rfl, mk, hall⟩, fun _ => ⟨rfl, hall⟩⟩

/-- **The fast check agrees with the full one.** In every run of the six operations from the
constructor in which every entry filed is opened by one master key at most, and every entry filed
while the flag is set by the one that opens those that are there, every master key that `Unlock`
returns true for decrypts every entry to a key that matches its public key, and while the store is
unlocked `GetKey` succeeds for every address that has an entry. -/
theorem fastCheck_agrees (env : Env CKey CPubKey CKeyID Others)
    (hset : ∀ old old' secret fCompressed pub,
      env.verifyPubKey (env.set old secret fCompressed) pub =
        env.verifyPubKey (env.set old' secret fCompressed) pub)
    {init s : CCryptoKeyStore CKey CPubKey CKeyID Others} (hinit : init.Initial)
    (hflag : init.fDecryptionThoroughlyChecked = false) {ops : List (Op CKey CPubKey)}
    {hist : List (Op CKey CPubKey × Bool)} (hmay : Admissible (step env) (FilesOpen env) ops init)
    (hrun : run (step env) ops init = some (hist, s)) :
    (∀ mk fForMixingOnly s', s.unlock env mk fForMixingOnly = some (true, s') →
      ∀ (id : CKeyID) pub c, s'.mapCryptedKeys[id]? = some (pub, c) → ∀ keyIn,
        ∃ key, decryptKey env mk c pub keyIn = (true, key) ∧ env.verifyPubKey key pub = true) ∧
    (s.isCrypted = true → s.isLocked true = false → ∀ (address : CKeyID) pub c,
      s.mapCryptedKeys[address]? = some (pub, c) → ∀ keyIn,
        ∃ key, s.getKey env address keyIn = (true, key)) := by
  have hstart : Checked env init := by
    refine ⟨fun id e hget => ?_, fun h => ?_, fun h => absurd hinit.vMasterKey h⟩
    · rw [Std.TreeMap.getElem?_of_isEmpty hinit.mapCryptedKeys] at hget
      exact absurd hget (by simp)
    · exact absurd (hflag.symm.trans h) (by simp)
  have hchecked : Checked env s := @run_invariant_of_admissible _ _ _ _ (fun _ s => Checked env s)
    _ _ _ _ _ (fun h hmay hop => h.step hmay hop) hstart hmay hrun
  refine ⟨fun mk b s' hunlock id pub c hget keyIn => ?_,
    fun hcrypted hlocked address pub c hget keyIn => ?_⟩
  · rcases unlock_cases hunlock with ⟨hfalse, -⟩ | ⟨-, rfl⟩
    · exact absurd hfalse (by simp)
    · exact (hchecked.unlock hunlock id (pub, c) hget).decryptKey hset keyIn
  · have hne : s.vMasterKey ≠ [] := by
      rintro hnil
      unfold isLocked at hlocked
      rw [hcrypted, hnil] at hlocked
      exact absurd hlocked (by simp)
    obtain ⟨key, hkey, -⟩ := ((hchecked.master hne).2 address (pub, c) hget).decryptKey hset keyIn
    refine ⟨key, ?_⟩
    unfold getKey
    rw [hcrypted, hget]
    exact hkey

/-- The sample cipher reads the master key off the text. -/
theorem sample_oneKey (e : Bytes × Bytes) : OneKey sampleEnv e := by
  have hopens : ∀ {mk}, Opens sampleEnv mk e → mk = e.2.take 32 := by
    intro mk h
    unfold Opens decryptKey at h
    by_cases hmk : mk.length = WALLET_CRYPTO_KEY_SIZE
    · have hdec : sampleEnv.evpDecrypt mk (sampleEnv.getHash e.1).toList e.2 =
          if e.2.take mk.length = mk then some (e.2.drop mk.length) else none := rfl
      rw [decryptSecret_eq hmk, hdec] at h
      by_cases htake : e.2.take mk.length = mk
      · rw [hmk] at htake
        exact htake.symm
      · rw [if_neg htake] at h
        exact absurd h (by simp)
    · unfold decryptSecret CCrypter.setKey at h
      rw [if_pos (.inl hmk)] at h
      exact absurd h (by simp)
  intro mk mk' h h'
  rw [hopens h, hopens h']

/-- A key is added and the store encrypted and unlocked, so that the flag is set; a second key is
filed under it, and the store locked. -/
def sampleFiled : List (Op Bytes Bytes) :=
  [.addKeyPubKey (sampleKey 7) (sampleKey 7), .encryptKeys (sampleKey 1),
    .unlock (sampleKey 1) false, .addKeyPubKey (sampleKey 9) (sampleKey 9), .lock false]

/-- The entry of a key in the sample run. -/
def sampleEntry (b : UInt8) : Bytes × Bytes := (sampleKey b, sampleKey 1 ++ sampleKey b)

theorem sampleEntry_opens :
    ∀ b ∈ [(7 : UInt8), 9], Opens sampleEnv (sampleKey 1) (sampleEntry b) := by
  unfold Opens
  decide +kernel

theorem sampleFiled_admissible :
    Admissible (step sampleEnv) (FilesOpen sampleEnv) sampleFiled sampleStore := by
  refine ⟨fun _ hfile => absurd rfl hfile.1, fun _ _ h1 => ?_⟩
  obtain ⟨-, rfl⟩ := Prod.mk.inj (Option.some.inj h1)
  refine ⟨fun e _ => ⟨sample_oneKey e, fun hset => absurd hset (by decide +kernel)⟩,
    fun _ _ h2 => ?_⟩
  obtain ⟨-, rfl⟩ := Prod.mk.inj (Option.some.inj h2)
  refine ⟨fun _ hfile => hfile.elim, fun _ _ h3 => ?_⟩
  obtain ⟨-, rfl⟩ := Prod.mk.inj (Option.some.inj h3)
  refine ⟨fun e hfile => ⟨sample_oneKey e, fun _ mk hall => ?_⟩, fun _ _ _ =>
    ⟨fun _ hfile => hfile.elim, fun _ _ _ => trivial⟩⟩
  -- the entry that is there is opened by the master key of the store alone
  have hmk := sample_oneKey _ _ _ (hall 7 (sampleEntry 7) (by decide +kernel))
    (sampleEntry_opens 7 (by simp))
  have he : e = sampleEntry 9 :=
    Prod.ext hfile.2.1 (Option.some.inj (hfile.2.2.symm.trans (by decide +kernel)))
  rw [hmk, he]
  exact sampleEntry_opens 9 (by simp)

/-- The second `Unlock` looks at the entry of the first key alone, and both entries open. -/
theorem fastCheck_agrees_sample : ∃ hist s s',
    run (step sampleEnv) sampleFiled sampleStore = some (hist, s) ∧
      s.fDecryptionThoroughlyChecked = true ∧ s.isLocked true = true ∧
      s.unlock sampleEnv (sampleKey 1) false = some (true, s') ∧
      ∀ b ∈ [(7 : UInt8), 9], s'.mapCryptedKeys[b.toNat]? = some (sampleEntry b) ∧
        ∃ key, decryptKey sampleEnv (sampleKey 1) (sampleEntry b).2 (sampleKey b) [] =
          (true, key) ∧ sampleEnv.verifyPubKey key (sampleKey b) = true := by
  have hrun : run (step sampleEnv) sampleFiled sampleStore =
      some ((run (step sampleEnv) sampleFiled sampleStore).get (by decide +kernel)) :=
    (Option.some_get _).symm
  generalize hs : (run (step sampleEnv) sampleFiled sampleStore).get (by decide +kernel) = r at hrun
  have hunlock : r.2.unlock sampleEnv (sampleKey 1) false =
      some (true, r.2.opened (sampleKey 1) false) := by
    subst hs
    rfl
  have hagree := (fastCheck_agrees sampleEnv (fun _ _ _ _ _ => rfl) sampleStore_initial rfl
    sampleFiled_admissible hrun).1 _ _ _ hunlock
  refine ⟨_, _, _, hrun, by subst hs; decide +kernel, by subst hs; decide +kernel, hunlock, ?_⟩
  intro b hb
  have hget : (r.2.opened (sampleKey 1) false).mapCryptedKeys[b.toNat]? = some (sampleEntry b) := by
    subst hs
    revert b
    decide +kernel
  exact ⟨hget, hagree b.toNat _ _ hget []⟩

/-- The store is encrypted and unlocked, and an entry is loaded that nothing opens. The master key
still unlocks the store, and the entry is not given out. -/
theorem unchecked_entry : ∃ hist s s',
    run (step sampleEnv) [.addKeyPubKey (sampleKey 7) (sampleKey 7), .encryptKeys (sampleKey 1),
      .unlock (sampleKey 1) false, .addCryptedKey (sampleKey 9) [0]] sampleStore = some (hist, s) ∧
    s.unlock sampleEnv (sampleKey 1) false = some (true, s') ∧
    s'.mapCryptedKeys[9]? = some (sampleKey 9, [0]) ∧
    (decryptKey sampleEnv (sampleKey 1) [0] (sampleKey 9) []).1 = false ∧
    (s'.getKey sampleEnv 9 []).1 = false :=
  ⟨_, _, _, rfl, rfl, by decide +kernel, by decide +kernel, by decide +kernel⟩

end ChainX.Wallet
