import ChainX.Script.Basic
import Mathlib.Data.Fintype.Card
import Mathlib.Data.Set.Finite.List
import Mathlib.Logic.Relation
import Mathlib.Order.Std
import Mathlib.Order.WellFounded
import Std.Data.TreeMap.Lemmas

/-!
# What is mine, `Wallet/wallet_val.cpp`

`IsMine` (`wallet_val.cpp:31-88`) and `HaveKeys` (`wallet_val.cpp:13-23`). `Solver`, the ids and
`ProduceSignature` are not part of the repository and are a parameter (`Standard`); of the results
of `Solver` for a multisig script the law says which they are. Of a key store it is what the two
functions ask (`CKeyStore`).

`isMine` is the recursion with so many levels of stored scripts at hand, and `none` without an
answer. `IsMine` is what the function returns, at some depth.

* `Spendable` says inductively what a store can sign for: the key of a script, all keys of a
  multisig one, or the stored script that a hash stands for. `isMine_spendable_iff` is the function
  against it, at each depth.
* The count of the keys is an `unsigned int`; a count that has wrapped is too small, and denies.

Results:
* **`isMine_mono`**: a store that holds more can spend more.
* `returns_of_noLoop`: the recursion ends, as the ids of nested scripts are all different.
-/

namespace ChainX.Wallet

open ChainX.Node

/-- `txnouttype`. -/
inductive TxnOutType where
  | nonstandard
  | pubkey
  | pubkeyhash
  | scripthash
  | multisig
  | nullData
  deriving DecidableEq

/-- `isminetype`. -/
inductive IsMineType where
  | no
  | watchUnsolvable
  | watchSolvable
  | spendable
  deriving DecidableEq

/-- The parts of a key store that are asked for: `HaveKey`, `GetCScript` and `HaveWatchOnly`. -/
structure CKeyStore (CKeyID CScriptID CScript : Type) [LinearOrder CScriptID] where
  haveKey : CKeyID → Bool
  mapScripts : Std.TreeMap CScriptID CScript
  haveWatchOnly : CScript → Bool

/-- `script/standard.h` and `script/sign.h`. -/
structure Standard (CKeyID CScriptID CScript : Type) [LinearOrder CScriptID] where
  /-- `none` if it returns `false`. -/
  solver : CScript → Option (TxnOutType × List Bytes)
  /-- `CPubKey(vch).GetID()`. -/
  pubKeyID : Bytes → CKeyID
  /-- `CKeyID(uint160(vch))`. -/
  keyID : Bytes → CKeyID
  /-- `CScriptID(uint160(vch))`. -/
  scriptID : Bytes → CScriptID
  /-- `ProduceSignature(DummySignatureCreator(&keystore), …)`. -/
  produceSignature : CKeyStore CKeyID CScriptID CScript → CScript → Bool
  /-- The required number, the keys and the total. -/
  solver_multisig : ∀ script vSolutions, solver script = some (.multisig, vSolutions) →
    ∃ required keys total, vSolutions = required :: (keys ++ [total])

variable {CKeyID CScriptID CScript : Type} [LinearOrder CScriptID]
  (std : Standard CKeyID CScriptID CScript) (keystore : CKeyStore CKeyID CScriptID CScript)

/-! ## Functions -/

/-- `HaveKeys`: how many of the keys are in the store. -/
def haveKeys (pubkeys : List Bytes) : UInt32 :=
  pubkeys.foldl
    (fun nResult pubkey => if keystore.haveKey (std.pubKeyID pubkey) then nResult + 1 else nResult)
    0

/-- The end of `IsMine`. -/
def watchOnly (scriptPubKey : CScript) : IsMineType :=
  if keystore.haveWatchOnly scriptPubKey then
    if std.produceSignature keystore scriptPubKey then .watchSolvable else .watchUnsolvable
  else .no

/-- `IsMine`, for at most `depth` scripts one in the other. -/
def isMine : Nat → CScript → Option IsMineType
  | 0, _ => none
  | depth + 1, scriptPubKey =>
    match std.solver scriptPubKey with
    | none => some (if keystore.haveWatchOnly scriptPubKey then .watchUnsolvable else .no)
    | some (whichType, vSolutions) =>
      match whichType with
      | .nonstandard => some (watchOnly std keystore scriptPubKey)
      | .nullData => some (watchOnly std keystore scriptPubKey)
      | .pubkey =>
        if keystore.haveKey (std.pubKeyID (vSolutions.headD [])) then some .spendable
        else some (watchOnly std keystore scriptPubKey)
      | .pubkeyhash =>
        if keystore.haveKey (std.keyID (vSolutions.headD [])) then some .spendable
        else some (watchOnly std keystore scriptPubKey)
      | .scripthash =>
        match keystore.mapScripts[std.scriptID (vSolutions.headD [])]? with
        | none => some (watchOnly std keystore scriptPubKey)
        | some subscript => do
          let ret ← isMine depth subscript
          if ret = .spendable then return ret
          else return watchOnly std keystore scriptPubKey
      | .multisig =>
        -- from `begin()+1` to `begin()+size()-1`
        let keys := (vSolutions.take (vSolutions.length - 1)).drop 1
        if (haveKeys std keystore keys).toNat = keys.length then some .spendable
        else some (watchOnly std keystore scriptPubKey)

/-- `IsMine` returns `ret`. -/
def IsMine (scriptPubKey : CScript) (ret : IsMineType) : Prop :=
  ∃ depth, isMine std keystore depth scriptPubKey = some ret

/-! ## Scripts in scripts -/

/-- The stored script with the first id pays to the script with the second. -/
def Nested (id id' : CScriptID) : Prop :=
  ∃ script vSolutions, keystore.mapScripts[id]? = some script ∧
    std.solver script = some (.scripthash, vSolutions) ∧ std.scriptID (vSolutions.headD []) = id'

/-- No chain of stored scripts comes back to its own id. -/
def NoLoop : Prop := ∀ id, ¬ Relation.TransGen (Nested std keystore) id id

/-! ## What can be spent -/

/-- The store can sign for the script. -/
inductive Spendable : CScript → Prop where
  | pubkey {script : CScript} {vSolutions : List Bytes}
      (hsolver : std.solver script = some (.pubkey, vSolutions))
      (hkey : keystore.haveKey (std.pubKeyID (vSolutions.headD [])) = true) : Spendable script
  | pubkeyhash {script : CScript} {vSolutions : List Bytes}
      (hsolver : std.solver script = some (.pubkeyhash, vSolutions))
      (hkey : keystore.haveKey (std.keyID (vSolutions.headD [])) = true) : Spendable script
  | scripthash {script subscript : CScript} {vSolutions : List Bytes}
      (hsolver : std.solver script = some (.scripthash, vSolutions))
      (hstored : keystore.mapScripts[std.scriptID (vSolutions.headD [])]? = some subscript)
      (hsub : Spendable subscript) : Spendable script
  /-- The count of the keys is an `unsigned int`. -/
  | multisig {script : CScript} {required total : Bytes} {keys : List Bytes}
      (hsolver : std.solver script = some (.multisig, required :: (keys ++ [total])))
      (hlength : keys.length < 2 ^ 32)
      (hkeys : ∀ pubkey ∈ keys, keystore.haveKey (std.pubKeyID pubkey) = true) : Spendable script

section Spend

variable {std keystore} {script : CScript}

theorem haveKeys_toNat (pubkeys : List Bytes) : (haveKeys std keystore pubkeys).toNat =
    (pubkeys.countP fun pubkey => keystore.haveKey (std.pubKeyID pubkey)) % 2 ^ 32 := by
  have hcount : ∀ n : UInt32, (pubkeys.foldl (fun nResult pubkey =>
      if keystore.haveKey (std.pubKeyID pubkey) then nResult + 1 else nResult) n).toNat =
      (n.toNat + pubkeys.countP fun pubkey => keystore.haveKey (std.pubKeyID pubkey)) %
        2 ^ 32 := by
    induction pubkeys with
    | nil => exact fun n => (Nat.mod_eq_of_lt n.toNat_lt).symm
    | cons pubkey pubkeys ih =>
      intro n
      rw [List.foldl_cons, ih, List.countP_cons]
      split
      · rw [UInt32.toNat_add, UInt32.toNat_one]
        omega
      · rw [Nat.add_zero]
  rw [haveKeys, hcount, UInt32.toNat_zero, Nat.zero_add]

/-- The count of the keys is right unless it has wrapped, and then it is too small. -/
theorem haveKeys_eq_length {pubkeys : List Bytes} :
    (haveKeys std keystore pubkeys).toNat = pubkeys.length ↔
      pubkeys.length < 2 ^ 32 ∧
        ∀ pubkey ∈ pubkeys, keystore.haveKey (std.pubKeyID pubkey) = true := by
  have hle := List.countP_le_length (p := fun pubkey => keystore.haveKey (std.pubKeyID pubkey))
    (l := pubkeys)
  have hall := List.countP_eq_length (p := fun pubkey => keystore.haveKey (std.pubKeyID pubkey))
    (l := pubkeys)
  rw [haveKeys_toNat, ← hall]
  omega

/-- What lies between the first and the last solution. -/
theorem slice_eq (required total : Bytes) (keys : List Bytes) :
    ((required :: (keys ++ [total])).take ((required :: (keys ++ [total])).length - 1)).drop 1 =
      keys := by
  simp

theorem watchOnly_ne_spendable : watchOnly std keystore script ≠ .spendable := by
  unfold watchOnly
  split
  · split
    · simp
    · simp
  · simp

variable (std keystore) in
/-- What one level of the recursion does: it answers for itself, and `spendable` only for a script
that is, or it asks for the stored script. -/
theorem isMine_cases (script : CScript) :
    (∃ ret, (∀ depth, isMine std keystore (depth + 1) script = some ret) ∧
      (ret = .spendable → Spendable std keystore script)) ∨
    ∃ vSolutions subscript, std.solver script = some (.scripthash, vSolutions) ∧
      keystore.mapScripts[std.scriptID (vSolutions.headD [])]? = some subscript ∧
      ∀ depth, isMine std keystore (depth + 1) script = (isMine std keystore depth subscript).map
        fun ret => if ret = .spendable then ret else watchOnly std keystore script := by
  have hwatch : watchOnly std keystore script = .spendable → Spendable std keystore script :=
    fun h => absurd h watchOnly_ne_spendable
  cases hsolver : std.solver script with
  | none =>
    refine .inl ⟨_, fun depth => by simp only [isMine, hsolver]; rfl, fun h => ?_⟩
    split at h <;> exact absurd h (by simp)
  | some solved =>
    obtain ⟨whichType, vSolutions⟩ := solved
    cases whichType with
    | nonstandard => exact .inl ⟨_, fun depth => by simp only [isMine, hsolver], hwatch⟩
    | nullData => exact .inl ⟨_, fun depth => by simp only [isMine, hsolver], hwatch⟩
    | pubkey =>
      by_cases hkey : keystore.haveKey (std.pubKeyID (vSolutions.headD [])) = true
      · exact .inl ⟨.spendable, fun depth => by simp only [isMine, hsolver, if_pos hkey],
          fun _ => .pubkey hsolver hkey⟩
      · exact .inl ⟨_, fun depth => by simp only [isMine, hsolver, if_neg hkey], hwatch⟩
    | pubkeyhash =>
      by_cases hkey : keystore.haveKey (std.keyID (vSolutions.headD [])) = true
      · exact .inl ⟨.spendable, fun depth => by simp only [isMine, hsolver, if_pos hkey],
          fun _ => .pubkeyhash hsolver hkey⟩
      · exact .inl ⟨_, fun depth => by simp only [isMine, hsolver, if_neg hkey], hwatch⟩
    | scripthash =>
      cases hstored : keystore.mapScripts[std.scriptID (vSolutions.headD [])]? with
      | none => exact .inl ⟨_, fun depth => by simp only [isMine, hsolver, hstored], hwatch⟩
      | some subscript =>
        refine .inr ⟨vSolutions, subscript, rfl, hstored, fun depth => ?_⟩
        simp only [isMine, hsolver, hstored]
        cases isMine std keystore depth subscript with
        | none => rfl
        | some ret =>
          simp only [Option.bind_eq_bind, Option.bind_some, Option.map_some]
          split <;> rfl
    | multisig =>
      obtain ⟨required, keys, total, rfl⟩ := std.solver_multisig script vSolutions hsolver
      by_cases hkeys : (haveKeys std keystore keys).toNat = keys.length
      · have hall := haveKeys_eq_length.mp hkeys
        exact .inl ⟨.spendable,
          fun depth => by simp only [isMine, hsolver, slice_eq, if_pos hkeys],
          fun _ => .multisig hsolver hall.1 hall.2⟩
      · exact .inl ⟨_, fun depth => by simp only [isMine, hsolver, slice_eq, if_neg hkeys],
          hwatch⟩

theorem spendable_of_isMine {depth : Nat}
    (h : isMine std keystore depth script = some .spendable) : Spendable std keystore script := by
  induction depth generalizing script with
  | zero => exact absurd h (by simp [isMine])
  | succ depth ih =>
    rcases isMine_cases std keystore script with ⟨ret, hret, hspend⟩ |
      ⟨vSolutions, subscript, hsolver, hstored, hnext⟩
    · exact hspend (Option.some.inj ((hret depth).symm.trans h))
    · obtain ⟨ret, hsub, hret⟩ := Option.map_eq_some_iff.mp ((hnext depth).symm.trans h)
      split at hret
      · exact .scripthash hsolver hstored (ih (hret ▸ hsub))
      · exact absurd hret watchOnly_ne_spendable

theorem Spendable.isMine (h : Spendable std keystore script) :
    IsMine std keystore script .spendable := by
  induction h with
  | pubkey hsolver hkey =>
    refine ⟨1, ?_⟩
    simp only [Wallet.isMine, hsolver, hkey, if_true]
  | pubkeyhash hsolver hkey =>
    refine ⟨1, ?_⟩
    simp only [Wallet.isMine, hsolver, hkey, if_true]
  | scripthash hsolver hstored hsub ih =>
    obtain ⟨depth, hdepth⟩ := ih
    refine ⟨depth + 1, ?_⟩
    simp only [Wallet.isMine, hsolver, hstored, hdepth, Option.bind_eq_bind, Option.bind_some,
      if_true]
    rfl
  | multisig hsolver hlength hkeys =>
    refine ⟨1, ?_⟩
    simp only [Wallet.isMine, hsolver, slice_eq, haveKeys_eq_length.mpr ⟨hlength, hkeys⟩, if_true]

/-- **`IsMine` says what can be spent.** -/
theorem isMine_spendable_iff :
    IsMine std keystore script .spendable ↔ Spendable std keystore script :=
  ⟨fun ⟨_, h⟩ => spendable_of_isMine h, Spendable.isMine⟩

theorem Spendable.mono {keystore' : CKeyStore CKeyID CScriptID CScript}
    (hkeys : ∀ id, keystore.haveKey id = true → keystore'.haveKey id = true)
    (hscripts : ∀ (id : CScriptID) script, keystore.mapScripts[id]? = some script →
      keystore'.mapScripts[id]? = some script)
    (h : Spendable std keystore script) : Spendable std keystore' script := by
  induction h with
  | pubkey hsolver hkey => exact .pubkey hsolver (hkeys _ hkey)
  | pubkeyhash hsolver hkey => exact .pubkeyhash hsolver (hkeys _ hkey)
  | scripthash hsolver hstored _ ih => exact .scripthash hsolver (hscripts _ _ hstored) ih
  | multisig hsolver hlength hall =>
    exact .multisig hsolver hlength fun pubkey hmem => hkeys _ (hall pubkey hmem)

/-- A multisig script takes every key it lists. -/
theorem Spendable.multisig_keys {required total : Bytes} {keys : List Bytes}
    (hsolver : std.solver script = some (.multisig, required :: (keys ++ [total])))
    (h : Spendable std keystore script) :
    ∀ pubkey ∈ keys, keystore.haveKey (std.pubKeyID pubkey) = true := by
  cases h with
  | multisig hsolver' _ hkeys =>
    have hsolutions := hsolver'.symm.trans hsolver
    simp only [Option.some.injEq, Prod.mk.injEq, true_and, List.cons.injEq] at hsolutions
    have heq := List.append_inj_left' hsolutions.2 rfl
    exact heq ▸ hkeys
  | pubkey hsolver' => exact absurd (hsolver'.symm.trans hsolver) (by simp)
  | pubkeyhash hsolver' => exact absurd (hsolver'.symm.trans hsolver) (by simp)
  | scripthash hsolver' => exact absurd (hsolver'.symm.trans hsolver) (by simp)

end Spend

/-! ## The recursion ends -/

section Returns

variable {std keystore} {script : CScript}

/-- Stored scripts that pay to no script have no loop. -/
theorem noLoop_of_flat (h : ∀ (id : CScriptID) script vSolutions,
    keystore.mapScripts[id]? = some script →
    std.solver script ≠ some (.scripthash, vSolutions)) : NoLoop std keystore := by
  have hnested : ∀ id id', ¬ Nested std keystore id id' := fun id _ hnested => by
    obtain ⟨script, vSolutions, hstored, hsolver, -⟩ := hnested
    exact h id script vSolutions hstored hsolver
  intro id hloop
  cases hloop with
  | single hstep => exact hnested _ _ hstep
  | tail _ hstep => exact hnested _ _ hstep

theorem isMine_succ {depth : Nat} {ret : IsMineType}
    (h : isMine std keystore depth script = some ret) :
    isMine std keystore (depth + 1) script = some ret := by
  induction depth generalizing script ret with
  | zero => exact absurd h (by simp [isMine])
  | succ depth ih =>
    rcases isMine_cases std keystore script with ⟨ret', hret, -⟩ |
      ⟨vSolutions, subscript, -, -, hnext⟩
    · exact (hret (depth + 1)).trans ((hret depth).symm.trans h)
    · obtain ⟨ret', hsub, hret⟩ := Option.map_eq_some_iff.mp ((hnext depth).symm.trans h)
      rw [hnext, ih hsub, Option.map_some, hret]

theorem isMine_le {depth depth' : Nat} {ret : IsMineType} (hle : depth ≤ depth')
    (h : isMine std keystore depth script = some ret) :
    isMine std keystore depth' script = some ret := by
  induction hle with
  | refl => exact h
  | step _ ih => exact isMine_succ ih

theorem IsMine.unique {ret ret' : IsMineType} (h : IsMine std keystore script ret)
    (h' : IsMine std keystore script ret') : ret = ret' := by
  obtain ⟨depth, h⟩ := h
  obtain ⟨depth', h'⟩ := h'
  have hmax := isMine_le (Nat.le_max_left depth depth') h
  rw [isMine_le (Nat.le_max_right depth depth') h'] at hmax
  exact (Option.some.inj hmax).symm

/-- The function returns for a script when it does for the stored script it pays to. -/
theorem returns_of_sub (hsub : ∀ vSolutions subscript,
    std.solver script = some (.scripthash, vSolutions) →
    keystore.mapScripts[std.scriptID (vSolutions.headD [])]? = some subscript →
    ∃ ret, IsMine std keystore subscript ret) : ∃ ret, IsMine std keystore script ret := by
  rcases isMine_cases std keystore script with ⟨ret, hret, -⟩ |
    ⟨vSolutions, subscript, hsolver, hstored, hnext⟩
  · exact ⟨ret, 1, hret 0⟩
  · obtain ⟨ret, depth, hret⟩ := hsub vSolutions subscript hsolver hstored
    exact ⟨_, depth + 1, by rw [hnext, hret, Option.map_some]⟩

/-- The ids below a stored id, without loops, cannot be followed forever: there are finitely many
stored ids. -/
theorem wellFounded_of_noLoop (h : NoLoop std keystore) :
    WellFounded fun id id' : {id : CScriptID // id ∈ keystore.mapScripts} =>
      Relation.TransGen (Nested std keystore) id'.1 id.1 := by
  have hfinite : Finite {id : CScriptID // id ∈ keystore.mapScripts} :=
    (keystore.mapScripts.keys.finite_toSet.subset fun id hid =>
      Std.TreeMap.mem_keys.mpr hid).to_subtype
  have htrans : IsTrans {id : CScriptID // id ∈ keystore.mapScripts} fun id id' =>
      Relation.TransGen (Nested std keystore) id'.1 id.1 := ⟨fun _ _ _ h h' => h'.trans h⟩
  have hirrefl : Std.Irrefl fun id id' : {id : CScriptID // id ∈ keystore.mapScripts} =>
      Relation.TransGen (Nested std keystore) id'.1 id.1 := ⟨fun id => h id.1⟩
  exact Finite.wellFounded_of_trans_of_irrefl _

/-- **`IsMine` returns when the stored scripts have no loop.** -/
theorem returns_of_noLoop (h : NoLoop std keystore) (script : CScript) :
    ∃ ret, IsMine std keystore script ret := by
  have hstored : ∀ id : {id : CScriptID // id ∈ keystore.mapScripts}, ∀ script : CScript,
      keystore.mapScripts[id.1]? = some script → ∃ ret, IsMine std keystore script ret := by
    intro id
    induction id using (wellFounded_of_noLoop h).induction with
    | _ id ih =>
      intro script hscript
      refine returns_of_sub fun vSolutions subscript hsolver hsub => ?_
      have hmem : std.scriptID (vSolutions.headD []) ∈ keystore.mapScripts :=
        Std.TreeMap.mem_iff_isSome_getElem?.mpr (by rw [hsub]; rfl)
      exact ih ⟨_, hmem⟩ (.single ⟨script, vSolutions, hscript, hsolver, rfl⟩) subscript hsub
  refine returns_of_sub fun vSolutions subscript _ hsub => ?_
  exact hstored ⟨_, Std.TreeMap.mem_iff_isSome_getElem?.mpr (by rw [hsub]; rfl)⟩ subscript hsub

theorem existsUnique_of_noLoop (h : NoLoop std keystore) (script : CScript) :
    ∃! ret, IsMine std keystore script ret := by
  obtain ⟨ret, hret⟩ := returns_of_noLoop h script
  exact ⟨ret, hret, fun ret' hret' => hret'.unique hret⟩

end Returns

/-! ## A store that holds more -/

/-- **A store that holds more can spend more**, and a multisig script only with every key it lists.
What either store watches does not matter. -/
theorem isMine_mono (keystore keystore' : CKeyStore CKeyID CScriptID CScript)
    (hloop : NoLoop std keystore) (hloop' : NoLoop std keystore')
    (hkeys : ∀ id, keystore.haveKey id = true → keystore'.haveKey id = true)
    (hscripts : ∀ (id : CScriptID) script, keystore.mapScripts[id]? = some script →
      keystore'.mapScripts[id]? = some script) (scriptPubKey : CScript) :
    (∃! ret, IsMine std keystore scriptPubKey ret) ∧
      (∃! ret, IsMine std keystore' scriptPubKey ret) ∧
      (IsMine std keystore scriptPubKey .spendable →
        IsMine std keystore' scriptPubKey .spendable) ∧
      ∀ required keys total,
        std.solver scriptPubKey = some (.multisig, required :: (keys ++ [total])) →
        IsMine std keystore scriptPubKey .spendable →
        ∀ pubkey ∈ keys, keystore.haveKey (std.pubKeyID pubkey) = true := by
  refine ⟨existsUnique_of_noLoop hloop _, existsUnique_of_noLoop hloop' _, fun h => ?_,
    fun required keys total hsolver h => ?_⟩
  · exact isMine_spendable_iff.mpr ((isMine_spendable_iff.mp h).mono hkeys hscripts)
  · exact (isMine_spendable_iff.mp h).multisig_keys hsolver

/-- A public key. -/
def samplePubKey : Bytes := [
  0x02, 0x79, 0xbe, 0x66, 0x7e, 0xf9, 0xdc, 0xbb, 0xac, 0x55, 0xa0, 0x62, 0x95, 0xce, 0x87, 0x0b,
  0x07, 0x02, 0x9b, 0xfc, 0xdb, 0x2d, 0xce, 0x28, 0xd9, 0x59, 0xf2, 0x81, 0x5b, 0x16, 0xf8, 0x17,
  0x98]

/-- One of one with the sample key. -/
def sampleMultisig : Bytes := [0x51, 0x21] ++ samplePubKey ++ [0x51, 0xae]

/-- The payment to the hash of `sampleMultisig`. -/
def sampleScriptPubKey : Bytes := [0xa9, 0x14] ++ [
  0x83, 0xee, 0xbb, 0x7d, 0x79, 0xaa, 0x1d, 0x38, 0x8e, 0x3b, 0x0a, 0xc6, 0x5b, 0x98, 0xac, 0x58,
  0x0c, 0x4d, 0xa0, 0x1a] ++ [0x87]

/-- The solver for payments to scripts and for multisig scripts with one key. -/
def sampleStandard : Standard Nat Nat Bytes where
  solver script :=
    if script.length = 23 ∧ script.take 2 = [0xa9, 0x14] ∧ script.drop 22 = [0x87] then
      some (.scripthash, [(script.drop 2).take 20])
    else if script.length = 37 ∧ script.take 2 = [0x51, 0x21] ∧ script.drop 35 = [0x51, 0xae] then
      some (.multisig, [[1], (script.drop 2).take 33, [1]])
    else none
  pubKeyID vch := if vch = samplePubKey then 0x751e76e8199196d454941c45d1b3a323f1433bd6 else 0
  keyID vch := vch.foldl (fun n byte => 256 * n + byte.toNat) 0
  scriptID vch := vch.foldl (fun n byte => 256 * n + byte.toNat) 0
  produceSignature _ _ := false
  solver_multisig script vSolutions h := by
    split at h
    · exact absurd h (by simp)
    · split at h
      · simp only [Option.some.injEq, Prod.mk.injEq, true_and] at h
        exact ⟨[1], [(script.drop 2).take 33], [1], h.symm⟩
      · exact absurd h (by simp)

/-- The id of `sampleMultisig`. -/
def sampleScriptID : Nat := 0x83eebb7d79aa1d388e3b0ac65b98ac580c4da01a

/-- The sample key and the sample script, with every script watched. -/
def sampleKeystore : CKeyStore Nat Nat Bytes where
  haveKey id := id == 0x751e76e8199196d454941c45d1b3a323f1433bd6
  mapScripts := (∅ : Std.TreeMap Nat Bytes).insert sampleScriptID sampleMultisig
  haveWatchOnly _ := true

/-- Every key, one more script and nothing watched. -/
def largerKeystore : CKeyStore Nat Nat Bytes where
  haveKey _ := true
  mapScripts := sampleKeystore.mapScripts.insert 1 [0x51]
  haveWatchOnly _ := false

theorem isMine_mono_sampleKeystore :
    IsMine sampleStandard sampleKeystore sampleScriptPubKey .spendable ∧
      IsMine sampleStandard largerKeystore sampleScriptPubKey .spendable ∧
      (∀ pubkey ∈ [samplePubKey],
        sampleKeystore.haveKey (sampleStandard.pubKeyID pubkey) = true) := by
  have hstored : ∀ (id : Nat) script, sampleKeystore.mapScripts[id]? = some script →
      id = sampleScriptID ∧ script = sampleMultisig := by
    intro id script h
    rw [sampleKeystore, Std.TreeMap.getElem?_insert] at h
    split at h
    · rename_i heq
      exact ⟨(Std.LawfulEqCmp.eq_of_compare heq).symm, (Option.some.inj h).symm⟩
    · exact absurd h (by simp)
  have hlarger : ∀ (id : Nat) script, largerKeystore.mapScripts[id]? = some script →
      script = [0x51] ∨ script = sampleMultisig := by
    intro id script h
    rw [largerKeystore, Std.TreeMap.getElem?_insert] at h
    split at h
    · exact .inl (Option.some.inj h).symm
    · exact .inr (hstored id script h).2
  have hscripts : ∀ (id : Nat) script, sampleKeystore.mapScripts[id]? = some script →
      largerKeystore.mapScripts[id]? = some script := by
    intro id script h
    obtain ⟨rfl, rfl⟩ := hstored id script h
    rw [largerKeystore, Std.TreeMap.getElem?_insert, if_neg (by decide)]
    exact h
  have hmultisig : sampleStandard.solver sampleMultisig =
      some (.multisig, [1] :: ([samplePubKey] ++ [[1]])) := by decide
  have hother : sampleStandard.solver [0x51] = none := by decide
  have hloop : NoLoop sampleStandard sampleKeystore :=
    noLoop_of_flat fun id script vSolutions h => by
      rw [(hstored id script h).2, hmultisig]
      simp
  have hloop' : NoLoop sampleStandard largerKeystore :=
    noLoop_of_flat fun id script vSolutions h => by
      obtain rfl | rfl := hlarger id script h
      · simp [hother]
      · simp [hmultisig]
  have hspend : ∀ script, isMine sampleStandard sampleKeystore 2 script = some .spendable →
      IsMine sampleStandard sampleKeystore script .spendable := fun _ h => ⟨2, h⟩
  have hpayment := hspend sampleScriptPubKey (by decide +kernel)
  have hsub := hspend sampleMultisig (by decide +kernel)
  obtain ⟨-, -, hmono, -⟩ := isMine_mono sampleStandard sampleKeystore largerKeystore hloop hloop'
    (fun _ _ => rfl) hscripts sampleScriptPubKey
  obtain ⟨-, -, -, hkeys⟩ := isMine_mono sampleStandard sampleKeystore largerKeystore hloop hloop'
    (fun _ _ => rfl) hscripts sampleMultisig
  exact ⟨hpayment, hmono hpayment, hkeys [1] [samplePubKey] [1] hmultisig hsub⟩

end ChainX.Wallet
