import ChainX.Script.Basic
import Mathlib.Data.Finset.Basic

/-!
# The signature cache (`chainx-ui.id/consensus/sigcache.cpp`)

Signatures that were found valid are remembered by the hash of what was verified: a nonce, the
signature hash, the public key and the signature, one after the other.

* SHA-256, the length of a public key by its first byte (`pubkey.h`) and
  `TransactionSignatureChecker::VerifySignature` are not part of the repository; they are the fields
  of `Env`.
* The loop of `Set` that makes room goes on while the set takes too much memory. Each round draws a
  bucket and erases the first entry in it, if there is one. Both the number of rounds and what they
  hit are left open: a call brings them along (`rounds`).

**`verifySignature_transparent`**: over every sequence of calls, each returns what the uncached
function returns. The entries are unambiguous because the first byte of the key tells where the
signature starts (`preimage_inj`).
-/

namespace ChainX.Consensus

open ChainX.Node

/-- What is outside the repository. -/
structure Env where
  sha256 : Bytes → Uint256
  /-- `CPubKey::GetLen`. -/
  getLen : UInt8 → Nat
  /-- `TransactionSignatureChecker::VerifySignature`, of signature, key and signature hash. -/
  verifySignature : Bytes → Bytes → Uint256 → Bool

/-- A valid public key. -/
structure CPubKey (env : Env) where
  vch : Bytes
  /-- The first byte determines the length. -/
  size : vch.head?.map env.getLen = some vch.length
  valid : vch.length = 33 ∨ vch.length = 65

variable {env : Env}

/-! ## The cache -/

/-- The bytes that `ComputeEntry` hashes. -/
def preimage (nonce hash : Uint256) (vchSig : Bytes) (pubkey : CPubKey env) : Bytes :=
  nonce.toList ++ hash.toList ++ pubkey.vch ++ vchSig

/-- `ComputeEntry`: the key of a triple in the cache. -/
def computeEntry (nonce hash : Uint256) (vchSig : Bytes) (pubkey : CPubKey env) : Uint256 :=
  env.sha256 (preimage nonce hash vchSig pubkey)

/-- `setValid`. -/
abbrev Cache := Finset Uint256

/-- The loop of `Set` that makes room: in each round, the entry that is erased. -/
def makeRoom : List (Option Uint256) → Cache → Cache
  | [], setValid => setValid
  | none :: rounds, setValid => makeRoom rounds setValid
  | some entry :: rounds, setValid => makeRoom rounds (setValid.erase entry)

/-- `Set`: room is made at random places first, unless the cache may hold nothing. -/
def set (nMaxCacheSize : UInt64) (rounds : List (Option Uint256)) (entry : Uint256)
    (setValid : Cache) : Cache :=
  if nMaxCacheSize ≤ 0 then setValid else insert entry (makeRoom rounds setValid)

/-- A call of `CachingTransactionSignatureChecker::VerifySignature`, with the flag of its checker
and what `Set` would find. -/
structure Call (env : Env) where
  vchSig : Bytes
  pubkey : CPubKey env
  sighash : Uint256
  store : Bool
  nMaxCacheSize : UInt64
  rounds : List (Option Uint256)

/-- What the call would return without the cache. -/
def Call.verdict (c : Call env) : Bool := env.verifySignature c.vchSig c.pubkey.vch c.sighash

/-- The bytes that the entry of the call is the hash of. -/
def Call.preimage (nonce : Uint256) (c : Call env) : Bytes :=
  Consensus.preimage nonce c.sighash c.vchSig c.pubkey

/-- `VerifySignature`: an entry in the cache stands for a verdict of `true`. -/
def verifySignature (nonce : Uint256) (c : Call env) (setValid : Cache) : Bool × Cache :=
  let entry := computeEntry nonce c.sighash c.vchSig c.pubkey
  if entry ∈ setValid then
    (true, if c.store then setValid else setValid.erase entry)
  else if c.verdict = false then (false, setValid)
  else (true, if c.store then set c.nMaxCacheSize c.rounds entry setValid else setValid)

/-- The results of calls one after the other, by whatever checkers, over the one cache. -/
def verifyAll (nonce : Uint256) : Cache → List (Call env) → List Bool
  | _, [] => []
  | setValid, c :: cs =>
    let (result, setValid) := verifySignature nonce c setValid
    result :: verifyAll nonce setValid cs

/-! ## Entries -/

/-- **An entry is unambiguous**: nonce and hash have a fixed length, and the first byte of the key
tells where the signature starts. -/
theorem preimage_inj {nonce hash hash' : Uint256} {vchSig vchSig' : Bytes}
    {pubkey pubkey' : CPubKey env}
    (h : preimage nonce hash vchSig pubkey = preimage nonce hash' vchSig' pubkey') :
    hash = hash' ∧ pubkey.vch = pubkey'.vch ∧ vchSig = vchSig' := by
  simp only [preimage, List.append_assoc] at h
  obtain ⟨-, h⟩ := List.append_inj h rfl
  obtain ⟨hhash, h⟩ := List.append_inj h (by simp)
  have hsize := pubkey.size
  have hsize' := pubkey'.size
  have hhead : pubkey.vch.head? = pubkey'.vch.head? := by
    have hcongr := congrArg List.head? h
    cases hv : pubkey.vch with
    | nil => simp [hv] at hsize
    | cons b bs =>
      cases hv' : pubkey'.vch with
      | nil => simp [hv'] at hsize'
      | cons b' bs' => simpa [hv, hv'] using hcongr
  rw [hhead, hsize'] at hsize
  obtain ⟨hkey, hsig⟩ := List.append_inj h (Option.some.inj hsize).symm
  exact ⟨Vector.toList_inj.mp hhash, hkey, hsig⟩

/-- Calls that hash the same bytes have the same verdict. -/
theorem verdict_of_preimage {nonce : Uint256} {c c' : Call env}
    (h : c.preimage nonce = c'.preimage nonce) : c.verdict = c'.verdict := by
  obtain ⟨hhash, hkey, hsig⟩ := preimage_inj h
  unfold Call.verdict
  rw [hhash, hkey, hsig]

/-! ## Runs -/

theorem makeRoom_subset : ∀ (rounds : List (Option Uint256)) (setValid : Cache),
    makeRoom rounds setValid ⊆ setValid
  | [], _ => Finset.Subset.refl _
  | none :: rounds, setValid => makeRoom_subset rounds setValid
  | some entry :: rounds, setValid =>
    (makeRoom_subset rounds _).trans (Finset.erase_subset entry setValid)

theorem mem_set {nMaxCacheSize : UInt64} {rounds : List (Option Uint256)} {entry e : Uint256}
    {setValid : Cache} (h : e ∈ set nMaxCacheSize rounds entry setValid) :
    e = entry ∨ e ∈ setValid := by
  unfold set at h
  split at h
  · exact Or.inr h
  · rcases Finset.mem_insert.mp h with h | h
    · exact Or.inl h
    · exact Or.inr (makeRoom_subset rounds setValid h)

/-- Every entry is that of one of the calls `all`, whose verdict is good. -/
def Remembers (nonce : Uint256) (all : List (Call env)) (setValid : Cache) : Prop :=
  ∀ e ∈ setValid, ∃ c ∈ all, e = env.sha256 (c.preimage nonce) ∧ c.verdict = true

/-- No two different things that the calls hash have the same hash. -/
def CollisionFree (nonce : Uint256) (all : List (Call env)) : Prop :=
  ∀ c ∈ all, ∀ c' ∈ all, env.sha256 (c.preimage nonce) = env.sha256 (c'.preimage nonce) →
    c.preimage nonce = c'.preimage nonce

instance (nonce : Uint256) (all : List (Call env)) : Decidable (CollisionFree nonce all) :=
  inferInstanceAs (Decidable (∀ c ∈ all, ∀ c' ∈ all, _ → _))

/-- **A call returns its verdict** and leaves a cache that remembers good verdicts only. -/
theorem verifySignature_spec {nonce : Uint256} {all : List (Call env)}
    (hsha : CollisionFree nonce all) {c : Call env} (hc : c ∈ all) {setValid : Cache}
    (hs : Remembers nonce all setValid) :
    (verifySignature nonce c setValid).1 = c.verdict ∧
      Remembers nonce all (verifySignature nonce c setValid).2 := by
  simp only [verifySignature]
  by_cases hmem : computeEntry nonce c.sighash c.vchSig c.pubkey ∈ setValid
  · -- a hit: what was remembered hashes the same bytes, so it had the same verdict
    rw [if_pos hmem]
    obtain ⟨c', hc', he, hgood⟩ := hs _ hmem
    refine ⟨?_, ?_⟩
    · rw [verdict_of_preimage (hsha c hc c' hc' he), hgood]
    · simp only
      split
      · exact hs
      · exact fun e he => hs e (Finset.mem_of_mem_erase he)
  · rw [if_neg hmem]
    cases hverdict : c.verdict with
    | false => exact ⟨rfl, hs⟩
    | true =>
      refine ⟨rfl, ?_⟩
      simp only [Bool.true_eq_false, if_false]
      split
      · intro e he
        rcases mem_set he with rfl | he
        · exact ⟨c, hc, rfl, hverdict⟩
        · exact hs e he
      · exact hs

theorem verifyAll_eq {nonce : Uint256} {all : List (Call env)} (hsha : CollisionFree nonce all) :
    ∀ {calls : List (Call env)} {setValid : Cache}, (∀ c ∈ calls, c ∈ all) →
      Remembers nonce all setValid → verifyAll nonce setValid calls = calls.map Call.verdict
  | [], _, _, _ => rfl
  | c :: cs, setValid, hsub, hs => by
    obtain ⟨hresult, hs'⟩ := verifySignature_spec hsha (hsub c List.mem_cons_self) hs
    have hrest := verifyAll_eq hsha (fun c' h => hsub c' (List.mem_cons_of_mem c h)) hs'
    simp only [verifyAll, hresult, hrest, List.map_cons]

/-- **The cache changes no verdict**: over every sequence of calls, from the empty cache, whatever
`Set` evicts, each call returns what the uncached function returns. -/
theorem verifySignature_transparent (env : Env) (nonce : Uint256) (calls : List (Call env))
    (hsha : CollisionFree nonce calls) : verifyAll nonce ∅ calls = calls.map Call.verdict :=
  verifyAll_eq hsha (fun _ h => h) fun _ h => absurd h (Finset.notMem_empty _)

/-- A hash that tells the sample calls apart, compressed keys for `2` and `3`, and one signature
that is valid. -/
def sampleEnv : Env where
  sha256 x := Vector.ofFn fun i => x.reverse.getD i.val 0
  getLen b := if b = 2 ∨ b = 3 then 33 else 65
  verifySignature vchSig _ _ := vchSig == [1]

/-- A call for the signature `vchSig`. -/
def sampleCall (vchSig : Bytes) (store : Bool) : Call sampleEnv where
  vchSig := vchSig
  pubkey := ⟨2 :: List.replicate 32 0, by decide, by decide⟩
  sighash := Vector.replicate 32 0
  store := store
  nMaxCacheSize := 33554432
  rounds := []

/-- The second call is answered from the cache, and takes the entry out. -/
theorem verifySignature_transparent_sample :
    verifyAll (Vector.replicate 32 0) ∅
        [sampleCall [1] true, sampleCall [1] false, sampleCall [2] true] = [true, true, false] ∧
      (verifySignature (Vector.replicate 32 0) (sampleCall [1] true) ∅).2 ≠ ∅ := by
  refine ⟨?_, by decide +kernel⟩
  rw [verifySignature_transparent sampleEnv _ _ (by decide +kernel)]
  decide +kernel

end ChainX.Consensus
