import ChainX.Script.Basic
import ChainX.Tx.MutateTx
import Mathlib.Logic.Function.Basic

/-!
# Signing, `Maternodes/SRC/chain-tx.cpp`

`findSighashFlags` and `MutateTxSign`. JSON values follow `univalue.h`, coins `coins.h`; neither is
part of the repository. Keys, the key store and the two functions that make signatures are a
parameter (`SignTools`).

* The coins live in a cache over an empty view, so `AccessCoins` knows what `ModifyCoins` made. Of a
  `CTxOut` in it only the script is read; `none` is a null output.
* An index `vout` of `2 ^ 31 - 1` overflows where the coins are resized. It does not here.
* `fComplete`, the only use of `VerifyScript`, is never read.

* `signInputs`: the loop over the inputs, round by round.
* **`mutateTxSign_signed`**: what a signature command changes are the scripts of the inputs whose
  outpoints the `prevtxs` register names, and what `SignSignature` and `CombineSignatures` are given
  for each of them (`resigned`).
-/

namespace ChainX.Tx

open ChainX.Lib ChainX.Script
open ChainX.Node (Bytes)

/-! ## Transactions -/

/-- `COutPoint`: a transaction and one of its outputs. -/
structure COutPoint (Uint256 : Type) where
  hash : Uint256
  n : UInt32
  deriving DecidableEq

/-- `CTxIn`. -/
structure CTxIn (Uint256 : Type) where
  prevout : COutPoint Uint256
  scriptSig : CScript
  nSequence : UInt32
  deriving DecidableEq

/-- `CTxOut`. -/
structure CTxOut where
  nValue : Int64
  scriptPubKey : CScript
  deriving DecidableEq

/-- A transaction with the inputs and outputs of the node. -/
abbrev Transaction (Uint256 : Type) : Type := CMutableTransaction (CTxIn Uint256) CTxOut

/-- What an input spends, and its sequence number. -/
def CTxIn.unsigned {Uint256 : Type} (txin : CTxIn Uint256) : COutPoint Uint256 × UInt32 :=
  (txin.prevout, txin.nSequence)

/-- `tx.vin[i].scriptSig = scriptSig`. -/
def setScriptSig {Uint256 : Type} (tx : Transaction Uint256) (i : Nat) (scriptSig : CScript) :
    Transaction Uint256 :=
  { tx with vin := tx.vin.modify i fun txin => { txin with scriptSig } }

/-- The signature of an input; none where there is no such input. -/
def scriptSigAt {Uint256 : Type} (tx : Transaction Uint256) (i : Nat) : CScript :=
  match tx.vin[i]? with
  | none => []
  | some txin => txin.scriptSig

/-- The transactions differ in nothing but signature scripts. -/
structure SameUnsigned (tx tx' : Transaction Uint256) : Prop where
  nVersion : tx'.nVersion = tx.nVersion
  vin : tx'.vin.map CTxIn.unsigned = tx.vin.map CTxIn.unsigned
  vout : tx'.vout = tx.vout
  nLockTime : tx'.nLockTime = tx.nLockTime

section Transactions

variable {Uint256 : Type} {tx tx' m : Transaction Uint256} {i j : Nat}

theorem SameUnsigned.refl (tx : Transaction Uint256) : SameUnsigned tx tx := ⟨rfl, rfl, rfl, rfl⟩

theorem SameUnsigned.trans (h : SameUnsigned tx tx') (h' : SameUnsigned tx' m) :
    SameUnsigned tx m where
  nVersion := h'.nVersion.trans h.nVersion
  vin := h'.vin.trans h.vin
  vout := h'.vout.trans h.vout
  nLockTime := h'.nLockTime.trans h.nLockTime

theorem setScriptSig_vin (scriptSig : CScript) : (setScriptSig m i scriptSig).vin[j]? =
    if i = j then (m.vin[j]?).map fun txin => { txin with scriptSig } else m.vin[j]? := by
  rw [setScriptSig, List.getElem?_modify]
  split <;> simp

theorem sameUnsigned_setScriptSig (scriptSig : CScript) :
    SameUnsigned m (setScriptSig m i scriptSig) := by
  refine ⟨rfl, List.ext_getElem? fun j => ?_, rfl, rfl⟩
  rw [List.getElem?_map, List.getElem?_map, setScriptSig_vin]
  split
  · cases m.vin[j]? <;> rfl
  · rfl

end Transactions

/-! ## JSON values -/

/-- `UniValue`: a JSON value, whose numbers are texts. -/
inductive UniValue where
  | null
  | bool (b : Bool)
  | num (val : Text)
  | str (val : Text)
  | array (values : List UniValue)
  | object (members : List (Text × UniValue))

/-- `UniValue::VType`. -/
inductive VType where
  | VNULL
  | VOBJ
  | VARR
  | VSTR
  | VNUM
  | VBOOL
  deriving DecidableEq

namespace UniValue

/-- `getType`. -/
def getType : UniValue → VType
  | null => .VNULL
  | bool _ => .VBOOL
  | num _ => .VNUM
  | str _ => .VSTR
  | array _ => .VARR
  | object _ => .VOBJ

/-- `getValStr`: the text of a value. -/
def getValStr : UniValue → Text
  | bool b => if b then ascii "1" else []
  | num val => val
  | str val => val
  | _ => []

/-- The values that indices below `size()` stand for. -/
def values : UniValue → List UniValue
  | array values => values
  | object members => members.map (·.2)
  | _ => []

/-- The value of the first member with this key, if there is one. -/
def member? : UniValue → Text → Option UniValue
  | object members, key => (members.find? (·.1 = key)).map (·.2)
  | _, _ => none

/-- `operator[]` of a key. -/
def get (v : UniValue) (key : Text) : UniValue := (v.member? key).getD null

/-- `checkObject`: are these members there, with these types? -/
def checkObject (v : UniValue) (types : List (Text × VType)) : Bool :=
  types.all fun t => (v.member? t.1).map getType = some t.2

end UniValue

/-! ## Functions -/

/-- `registers`: the values that were set by name. -/
abbrev Registers : Type := Text → Option UniValue

/-- Keys and signatures. -/
structure SignTools (Uint256 Key KeyStore : Type) where
  /-- `CBitcoinSecret::SetString`, with the key if it is good. -/
  secret : Text → Option Key
  emptyKeyStore : KeyStore
  addKey : KeyStore → Key → KeyStore
  addCScript : KeyStore → CScript → KeyStore
  parseHashUV : UniValue → Text → Except Text Uint256
  parseHexUV : UniValue → Text → Except Text Bytes
  isPayToScriptHash : CScript → Bool
  scriptToAsmStr : CScript → Text
  /-- The script that `SignSignature` leaves at the input. -/
  signSignature : KeyStore → CScript → Transaction Uint256 → Nat → UInt32 → CScript
  combineSignatures : CScript → Transaction Uint256 → Nat → CScript → CScript → CScript

/-- All outputs are signed. -/
def SIGHASH_ALL : UInt32 := 1
/-- No output is signed. -/
def SIGHASH_NONE : UInt32 := 2
/-- The output with the number of the input is signed. -/
def SIGHASH_SINGLE : UInt32 := 3
/-- No other input is signed. -/
def SIGHASH_ANYONECANPAY : UInt32 := 0x80

/-- `sighashOptions`: the texts for the hash types. -/
def sighashOptions : List (Text × UInt32) := [
  (ascii "ALL", SIGHASH_ALL),
  (ascii "NONE", SIGHASH_NONE),
  (ascii "SINGLE", SIGHASH_SINGLE),
  (ascii "ALL|ANYONECANPAY", SIGHASH_ALL ||| SIGHASH_ANYONECANPAY),
  (ascii "NONE|ANYONECANPAY", SIGHASH_NONE ||| SIGHASH_ANYONECANPAY),
  (ascii "SINGLE|ANYONECANPAY", SIGHASH_SINGLE ||| SIGHASH_ANYONECANPAY)]

/-- `findSighashFlags`. -/
def findSighashFlags (flagStr : Text) : Option UInt32 :=
  (sighashOptions.find? (·.1 = flagStr)).map (·.2)

variable {Uint256 Key KeyStore : Type}
  (tools : TxTools (CTxIn Uint256) Uint256) (signTools : SignTools Uint256 Key KeyStore)

/-- The outputs of a `CCoins`, of which null ones are `none`. -/
abbrev CCoins : Type := List (Option CScript)

/-- `CCoinsViewCache`: the outputs that are known, by transaction. -/
abbrev CCoinsView (Uint256 : Type) : Type := Uint256 → Option CCoins

/-- The script of an output that `IsAvailable`. -/
def prevPubKey (view : CCoinsView Uint256) (prevout : COutPoint Uint256) : Option CScript := do
  let coins ← view prevout.hash
  (coins[prevout.n.toNat]?).join

/-- The outputs with one of them set; there are enough of them then. -/
def CCoins.put (coins : CCoins) (nOut : Nat) (scriptPubKey : CScript) : CCoins :=
  (coins ++ List.replicate (nOut + 1 - coins.length) none).set nOut (some scriptPubKey)

/-- The loop over `privatekeys`. -/
def addKeys : List UniValue → KeyStore → Except Text KeyStore
  | [], tempKeystore => .ok tempKeystore
  | keyObj :: keysObj, tempKeystore =>
    if keyObj.getType ≠ .VSTR then .error (ascii "privatekey not a string")
    else
      match signTools.secret keyObj.getValStr with
      | none => .error (ascii "privatekey not valid")
      | some key => addKeys keysObj (signTools.addKey tempKeystore key)

/-- What an entry of `prevtxs` has to have. -/
def prevtxTypes : List (Text × VType) :=
  [(ascii "txid", .VSTR), (ascii "vout", .VNUM), (ascii "scriptPubKey", .VSTR)]

/-- The outpoint that an entry of `prevtxs` names, and its script. -/
def parsePrevtx (prevOut : UniValue) : Except Text (COutPoint Uint256 × CScript) := do
  if prevOut.getType ≠ .VOBJ then throw (ascii "expected prevtxs internal object")
  if prevOut.checkObject prevtxTypes = false then
    throw (ascii "prevtxs internal object typecheck fail")
  let txid ← signTools.parseHashUV (prevOut.get (ascii "txid")) (ascii "txid")
  let nOut := tools.atoi (prevOut.get (ascii "vout")).getValStr
  if nOut < 0 then throw (ascii "vout must be positive")
  let scriptPubKey ←
    signTools.parseHexUV (prevOut.get (ascii "scriptPubKey")) (ascii "scriptPubKey")
  return (⟨txid, nOut.toUInt32⟩, scriptPubKey)

/-- The block with the `CCoinsModifier`. -/
def modifyCoins [DecidableEq Uint256] (view : CCoinsView Uint256) (prevout : COutPoint Uint256)
    (scriptPubKey : CScript) : Except Text (CCoinsView Uint256) :=
  let coins := CCoins.put ((view prevout.hash).getD []) prevout.n.toNat scriptPubKey
  let modified := Function.update view prevout.hash (some coins)
  match prevPubKey view prevout with
  | none => .ok modified
  | some other =>
    if other ≠ scriptPubKey then
      .error (ascii "Previous output scriptPubKey mismatch:\n" ++ signTools.scriptToAsmStr other ++
        ascii "\nvs:\n" ++ signTools.scriptToAsmStr scriptPubKey)
    else .ok modified

/-- The key store with the `redeemScript` of an entry, if it has to be there. -/
def addRedeemScript (prevOut : UniValue) (scriptPubKey : CScript) (tempKeystore : KeyStore) :
    Except Text KeyStore :=
  match signTools.isPayToScriptHash scriptPubKey, prevOut.member? (ascii "redeemScript") with
  | true, some v => do
    let rsData ← signTools.parseHexUV v (ascii "redeemScript")
    return signTools.addCScript tempKeystore rsData
  | _, _ => .ok tempKeystore

/-- One round of the loop over `prevtxs`. -/
def addPrevtx [DecidableEq Uint256] (prevOut : UniValue) (view : CCoinsView Uint256)
    (tempKeystore : KeyStore) : Except Text (CCoinsView Uint256 × KeyStore) := do
  let (prevout, scriptPubKey) ← parsePrevtx tools signTools prevOut
  let view ← modifyCoins signTools view prevout scriptPubKey
  let tempKeystore ← addRedeemScript signTools prevOut scriptPubKey tempKeystore
  return (view, tempKeystore)

/-- The loop over `prevtxs`. -/
def addPrevtxs [DecidableEq Uint256] : List UniValue → CCoinsView Uint256 → KeyStore →
    Except Text (CCoinsView Uint256 × KeyStore)
  | [], view, tempKeystore => .ok (view, tempKeystore)
  | prevOut :: prevtxsObj, view, tempKeystore => do
    let (view, tempKeystore) ← addPrevtx tools signTools prevOut view tempKeystore
    addPrevtxs prevtxsObj view tempKeystore

/-- One round of the loop that signs, for the input `i` of `tx`. -/
def signInput (keystore : KeyStore) (view : CCoinsView Uint256) (nHashType : UInt32)
    (tx mergedTx : Transaction Uint256) (i : Nat) : Transaction Uint256 :=
  match mergedTx.vin[i]? with
  | none => mergedTx
  | some txin =>
    match prevPubKey view txin.prevout with
    | none => mergedTx
    | some prevPubKey =>
      let fHashSingle := nHashType &&& ~~~SIGHASH_ANYONECANPAY = SIGHASH_SINGLE
      let cleared := setScriptSig mergedTx i []
      let signed :=
        if fHashSingle → i < cleared.vout.length then
          setScriptSig cleared i (signTools.signSignature keystore prevPubKey cleared i nHashType)
        else cleared
      -- `txVariants` holds the transaction as it was
      setScriptSig signed i
        (signTools.combineSignatures prevPubKey signed i (scriptSigAt signed i) (scriptSigAt tx i))

/-- `nHashType`. -/
def hashType (flagStr : Text) : Except Text UInt32 :=
  if flagStr = [] then .ok SIGHASH_ALL
  else
    match findSighashFlags flagStr with
    | none => .error (ascii "unknown sighash flag/sign option")
    | some flags => .ok flags

/-- The transaction that `MutateTxSign` leaves. -/
def signedTx [DecidableEq Uint256] (registers : Registers) (tx : Transaction Uint256)
    (flagStr : Text) : Except Text (Transaction Uint256) := do
  let nHashType ← hashType flagStr
  match registers (ascii "privatekeys") with
  | none => throw (ascii "privatekeys register variable must be set.")
  | some keysObj =>
    let tempKeystore ← addKeys signTools keysObj.values signTools.emptyKeyStore
    match registers (ascii "prevtxs") with
    | none => throw (ascii "prevtxs register variable must be set.")
    | some prevtxsObj =>
      let (view, keystore) ←
        addPrevtxs tools signTools prevtxsObj.values (fun _ => none) tempKeystore
      return (List.range tx.vin.length).foldl (signInput signTools keystore view nHashType tx) tx

/-- The outcome of a command that makes a change unless it throws. -/
def thrown {α TxIn TxOut : Type} (tx : CMutableTransaction TxIn TxOut)
    (change : α → CMutableTransaction TxIn TxOut) : Except Text α → Outcome TxIn TxOut
  | .ok a => (.ok (), change a)
  | .error strErr => (.error strErr, tx)

/-- `MutateTxSign`: signs every input that it can. -/
def mutateTxSign [DecidableEq Uint256] (registers : Registers) (tx : Transaction Uint256)
    (flagStr : Text) : Outcome (CTxIn Uint256) CTxOut :=
  thrown tx id (signedTx tools signTools registers tx flagStr)

/-! ## What is signed -/

theorem bind_ok {α β : Type} {x : Except Text α} {f : α → Except Text β} {b : β} :
    x >>= f = .ok b ↔ ∃ a, x = .ok a ∧ f a = .ok b := by
  cases x with
  | ok a => simp [bind, Except.bind]
  | error strErr => simp [bind, Except.bind]

/-- The transaction of the round for the input `i`: the inputs before it are those of `tx'`. -/
def partly (tx tx' : Transaction Uint256) (i : Nat) : Transaction Uint256 :=
  { tx with vin := tx'.vin.take i ++ tx.vin.drop i }

/-- The script of the input `i`, made for this output and combined with what was there: that of
`SignSignature`, where the hash type has an output for the input. -/
def resigned (keystore : KeyStore) (nHashType : UInt32) (prevPubKey : CScript)
    (tx tx' : Transaction Uint256) (i : Nat) (scriptSig : CScript) : CScript :=
  let cleared := setScriptSig (partly tx tx' i) i []
  let made :=
    if nHashType &&& ~~~SIGHASH_ANYONECANPAY = SIGHASH_SINGLE ∧ tx.vout.length ≤ i then []
    else signTools.signSignature keystore prevPubKey cleared i nHashType
  signTools.combineSignatures prevPubKey (setScriptSig cleared i made) i made scriptSig

section Signing

variable {tools signTools} {tx m : Transaction Uint256} {view : CCoinsView Uint256}
  {prevout : COutPoint Uint256} {i j : Nat}

theorem signInput_ne (keystore : KeyStore) (nHashType : UInt32) (hne : i ≠ j) :
    (signInput signTools keystore view nHashType tx m i).vin[j]? = m.vin[j]? := by
  unfold signInput
  split
  · rfl
  · split
    · rfl
    · simp only [setScriptSig_vin, if_neg hne]
      split <;> simp only [setScriptSig_vin, if_neg hne]

theorem sameUnsigned_signInput (keystore : KeyStore) (nHashType : UInt32) :
    SameUnsigned m (signInput signTools keystore view nHashType tx m i) := by
  unfold signInput
  split
  · exact .refl m
  · split
    · exact .refl m
    · refine .trans ?_ (sameUnsigned_setScriptSig _)
      split
      · exact (sameUnsigned_setScriptSig _).trans (sameUnsigned_setScriptSig _)
      · exact sameUnsigned_setScriptSig _

theorem setScriptSig_setScriptSig (m : Transaction Uint256) (i : Nat)
    (scriptSig scriptSig' : CScript) :
    setScriptSig (setScriptSig m i scriptSig) i scriptSig' = setScriptSig m i scriptSig' := by
  unfold setScriptSig
  congr 1
  refine List.ext_getElem? fun j => ?_
  simp only [List.getElem?_modify]
  split <;> simp [Function.comp_def]

theorem scriptSigAt_setScriptSig {txin : CTxIn Uint256} (h : m.vin[i]? = some txin)
    (scriptSig : CScript) : scriptSigAt (setScriptSig m i scriptSig) i = scriptSig := by
  rw [scriptSigAt, setScriptSig_vin, if_pos rfl, h]
  rfl

/-- Before the round for the input `i`. -/
structure Before (tx m : Transaction Uint256) (i : Nat) : Prop where
  sameUnsigned : SameUnsigned tx m
  rest : ∀ j, i ≤ j → m.vin[j]? = tx.vin[j]?

theorem Before.eq_partly (h : Before tx m i) : m = partly tx m i := by
  have hvin : m.vin = m.vin.take i ++ tx.vin.drop i := by
    refine List.ext_getElem? fun j => ?_
    have hlength : m.vin.length = tx.vin.length := by
      rw [← List.length_map (f := CTxIn.unsigned), h.sameUnsigned.vin, List.length_map]
    rw [List.getElem?_append, List.length_take, List.getElem?_take, List.getElem?_drop]
    rcases Nat.lt_or_ge j i with hlt | hle
    · by_cases hin : j < m.vin.length
      · rw [if_pos (by omega), if_pos hlt]
      · rw [if_neg (by omega), List.getElem?_eq_none (by omega), List.getElem?_eq_none (by omega)]
    · rw [if_neg (by omega), h.rest j hle]
      by_cases hin : i ≤ m.vin.length
      · rw [show i + (j - min i m.vin.length) = j by omega]
      · rw [List.getElem?_eq_none (by omega), List.getElem?_eq_none (by omega)]
  rw [partly, ← hvin, ← h.sameUnsigned.nVersion, ← h.sameUnsigned.vout, ← h.sameUnsigned.nLockTime]

/-- The input `i` as it is when the loop has passed it. -/
def Settled (signTools : SignTools Uint256 Key KeyStore) (keystore : KeyStore) (nHashType : UInt32)
    (view : CCoinsView Uint256) (tx m : Transaction Uint256) (i : Nat) : Prop :=
  ∀ txin, tx.vin[i]? = some txin →
    match prevPubKey view txin.prevout with
    | none => m.vin[i]? = some txin
    | some prevPubKey => m.vin[i]? = some { txin with
        scriptSig := resigned signTools keystore nHashType prevPubKey tx m i txin.scriptSig }

theorem partly_congr {m' : Transaction Uint256} (h : ∀ j < i, m'.vin[j]? = m.vin[j]?) :
    partly tx m' i = partly tx m i := by
  unfold partly
  congr 2
  refine List.ext_getElem? fun j => ?_
  rw [List.getElem?_take, List.getElem?_take]
  split
  case isTrue hlt => exact h j hlt
  case isFalse => rfl

/-- What a later round leaves alone stays settled. -/
theorem Settled.congr {keystore : KeyStore} {nHashType : UInt32} {m' : Transaction Uint256}
    (hsettled : Settled signTools keystore nHashType view tx m i)
    (h : ∀ j ≤ i, m'.vin[j]? = m.vin[j]?) :
    Settled signTools keystore nHashType view tx m' i := by
  intro txin htxin
  have hold := hsettled txin htxin
  rw [h i le_rfl]
  unfold resigned at hold ⊢
  rw [partly_congr fun j hj => h j hj.le]
  exact hold

theorem settled_signInput (keystore : KeyStore) (nHashType : UInt32) (h : Before tx m i) :
    Settled signTools keystore nHashType view tx
      (signInput signTools keystore view nHashType tx m i) i := by
  intro txin htxin
  have hm : m.vin[i]? = some txin := (h.rest i le_rfl).trans htxin
  have hpartly : partly tx (signInput signTools keystore view nHashType tx m i) i = m :=
    (partly_congr fun j hj => signInput_ne keystore nHashType hj.ne').trans h.eq_partly.symm
  have hold : scriptSigAt tx i = txin.scriptSig := by rw [scriptSigAt, htxin]
  unfold resigned
  rw [hpartly, signInput, hm, hold]
  cases hview : prevPubKey view txin.prevout with
  | none => simpa only [hview] using hm
  | some prevPubKey =>
    simp only [hview]
    have hcleared : (setScriptSig m i []).vin[i]? = some { txin with scriptSig := [] } := by
      rw [setScriptSig_vin, if_pos rfl, hm, Option.map_some]
    have hvout : (setScriptSig m i []).vout.length = tx.vout.length :=
      congrArg List.length h.sameUnsigned.vout
    by_cases hsign : nHashType &&& ~~~SIGHASH_ANYONECANPAY = SIGHASH_SINGLE ∧ tx.vout.length ≤ i
    · have hnot : ¬ (nHashType &&& ~~~SIGHASH_ANYONECANPAY = SIGHASH_SINGLE →
          i < (setScriptSig m i []).vout.length) := fun himp => by
        have := himp hsign.1
        omega
      rw [if_pos hsign, if_neg hnot, scriptSigAt_setScriptSig hm, setScriptSig_vin, if_pos rfl,
        hcleared, setScriptSig_setScriptSig]
      rfl
    · have hdo : nHashType &&& ~~~SIGHASH_ANYONECANPAY = SIGHASH_SINGLE →
          i < (setScriptSig m i []).vout.length := fun hsingle => by
        rw [hvout]
        exact Nat.lt_of_not_le fun hle => hsign ⟨hsingle, hle⟩
      rw [if_neg hsign, if_pos hdo, scriptSigAt_setScriptSig hcleared, setScriptSig_vin,
        if_pos rfl, setScriptSig_vin, if_pos rfl, hcleared]
      rfl

/-- The loop that signs. -/
theorem signInputs (keystore : KeyStore) (nHashType : UInt32) (rounds : Nat) : ∀ m,
    m = (List.range rounds).foldl (signInput signTools keystore view nHashType tx) tx →
    Before tx m rounds ∧ ∀ i < rounds, Settled signTools keystore nHashType view tx m i := by
  induction rounds with
  | zero =>
    rintro m rfl
    exact ⟨⟨.refl _, fun i _ => rfl⟩, fun i hi => absurd hi (Nat.not_lt_zero i)⟩
  | succ rounds ih =>
    rintro m rfl
    rw [List.range_succ, List.foldl_append, List.foldl_cons, List.foldl_nil]
    obtain ⟨hbefore, hsettled⟩ := ih _ rfl
    refine ⟨⟨hbefore.sameUnsigned.trans (sameUnsigned_signInput keystore nHashType),
      fun i hi => ?_⟩, fun i hi => ?_⟩
    · rw [signInput_ne keystore nHashType (by omega)]
      exact hbefore.rest i (by omega)
    · rcases Nat.lt_succ_iff_lt_or_eq.mp hi with hlt | rfl
      · refine (hsettled i hlt).congr fun j hj => ?_
        rw [signInput_ne keystore nHashType (by omega)]
      · exact settled_signInput keystore nHashType hbefore

theorem put_getElem? (coins : CCoins) (nOut k : Nat) (scriptPubKey : CScript) :
    ((coins.put nOut scriptPubKey)[k]?).join =
      if k = nOut then some scriptPubKey else (coins[k]?).join := by
  rw [CCoins.put, List.getElem?_set]
  by_cases hk : nOut = k
  · subst hk
    have hlt : nOut < (coins ++ List.replicate (nOut + 1 - coins.length) none).length := by
      rw [List.length_append, List.length_replicate]
      omega
    rw [if_pos rfl, if_pos hlt, if_pos rfl, Option.join_some]
  · rw [if_neg hk, if_neg (Ne.symm hk), List.getElem?_append]
    split
    · rfl
    · rename_i hlt
      rw [List.getElem?_eq_none (Nat.le_of_not_lt hlt), List.getElem?_replicate]
      split <;> rfl

variable [DecidableEq Uint256]

theorem modifyCoins_view {view view' : CCoinsView Uint256} {scriptPubKey : CScript}
    (h : modifyCoins signTools view prevout scriptPubKey = .ok view')
    (prevout' : COutPoint Uint256) : prevPubKey view' prevout' =
      if prevout' = prevout then some scriptPubKey else prevPubKey view prevout' := by
  have hview : view' = Function.update view prevout.hash
      (some (CCoins.put ((view prevout.hash).getD []) prevout.n.toNat scriptPubKey)) := by
    unfold modifyCoins at h
    split at h
    · simpa using h.symm
    · split at h
      · simp at h
      · simpa using h.symm
  rw [hview]
  cases prevout' with | mk hash n =>
  cases prevout with | mk hash' n' =>
  by_cases hhash : hash = hash'
  · subst hhash
    simp only [prevPubKey, Function.update_self, Option.bind_eq_bind, Option.bind_some,
      put_getElem?, UInt32.toNat_inj, COutPoint.mk.injEq, true_and]
    cases view hash <;> simp
  · simp [prevPubKey, hhash]

/-- No entry gives another script to an output than it has. -/
theorem modifyCoins_known {view view' : CCoinsView Uint256} {scriptPubKey script : CScript}
    (h : modifyCoins signTools view prevout scriptPubKey = .ok view')
    (hknown : prevPubKey view prevout = some script) : script = scriptPubKey := by
  unfold modifyCoins at h
  rw [hknown] at h
  by_contra hne
  simp [hne] at h

/-- The scripts that are known are those of the entries. -/
theorem addPrevtxs_view {prevtxsObj : List UniValue} {view view' : CCoinsView Uint256}
    {keystore keystore' : KeyStore}
    (h : addPrevtxs tools signTools prevtxsObj view keystore = .ok (view', keystore'))
    (prevout : COutPoint Uint256) (script : CScript) : prevPubKey view' prevout = some script ↔
      prevPubKey view prevout = some script ∨
        ∃ prevOut ∈ prevtxsObj, parsePrevtx tools signTools prevOut = .ok (prevout, script) := by
  induction prevtxsObj generalizing view keystore with
  | nil =>
    obtain ⟨rfl, -⟩ : _ ∧ _ := by simpa [addPrevtxs] using h
    simp
  | cons prevOut prevtxsObj ih =>
    obtain ⟨⟨view₁, keystore₁⟩, hround, hrest⟩ := bind_ok.mp h
    obtain ⟨⟨named, scriptPubKey⟩, hparse, hround⟩ := bind_ok.mp hround
    obtain ⟨view₂, hmodify, hround⟩ := bind_ok.mp hround
    obtain ⟨keystore₂, -, hround⟩ := bind_ok.mp hround
    obtain ⟨rfl, rfl⟩ := Prod.mk.inj (Except.ok.inj hround)
    rw [ih hrest, modifyCoins_view hmodify]
    simp only [List.mem_cons, exists_eq_or_imp, hparse, Except.ok.injEq, Prod.mk.injEq]
    by_cases hnamed : prevout = named
    · subst hnamed
      rw [if_pos rfl, Option.some.injEq, ← or_assoc]
      refine or_congr_left ⟨fun hscript => .inr ⟨rfl, hscript⟩, ?_⟩
      rintro (hknown | ⟨-, hscript⟩)
      · exact (modifyCoins_known hmodify hknown).symm
      · exact hscript
    · simp [hnamed, Ne.symm hnamed]

end Signing

/-- What a signature command reads: the hash type, the entries of `prevtxs`, and the key store with
the keys and the scripts that are to be redeemed. -/
structure Loaded [DecidableEq Uint256] (registers : Registers) (flagStr : Text)
    (nHashType : UInt32) (prevtxsObj : List UniValue) (keystore : KeyStore) : Prop where
  hashType : hashType flagStr = .ok nHashType
  prevtxs : (registers (ascii "prevtxs")).map UniValue.values = some prevtxsObj
  keystore : ∃ keysObj tempKeystore view, registers (ascii "privatekeys") = some keysObj ∧
    addKeys signTools keysObj.values signTools.emptyKeyStore = .ok tempKeystore ∧
    addPrevtxs tools signTools prevtxsObj (fun _ => none) tempKeystore = .ok (view, keystore)

/-- What it makes of a transaction. An input has the signatures that it had and those that were made
for it, combined, if an entry names what it spends. -/
structure Signed (nHashType : UInt32) (prevtxsObj : List UniValue) (keystore : KeyStore)
    (tx tx' : Transaction Uint256) : Prop where
  sameUnsigned : SameUnsigned tx tx'
  untouched : ∀ (i : Nat) (txin : CTxIn Uint256), tx.vin[i]? = some txin →
    (∀ prevOut ∈ prevtxsObj, ∀ scriptPubKey,
      parsePrevtx tools signTools prevOut ≠ .ok (txin.prevout, scriptPubKey)) →
    tx'.vin[i]? = some txin
  combined : ∀ (i : Nat) (txin : CTxIn Uint256) (prevOut : UniValue) (scriptPubKey : CScript),
    tx.vin[i]? = some txin → prevOut ∈ prevtxsObj →
    parsePrevtx tools signTools prevOut = .ok (txin.prevout, scriptPubKey) →
    tx'.vin[i]? = some { txin with
      scriptSig := resigned signTools keystore nHashType scriptPubKey tx tx' i txin.scriptSig }

/-! ## Result -/

variable [DecidableEq Uint256] {tools signTools} in
theorem signed_of_ok {registers : Registers} {tx tx' : Transaction Uint256} {flagStr : Text}
    (h : signedTx tools signTools registers tx flagStr = .ok tx') :
    ∃ nHashType prevtxsObj keystore,
      Loaded tools signTools registers flagStr nHashType prevtxsObj keystore ∧
        Signed tools signTools nHashType prevtxsObj keystore tx tx' := by
  unfold signedTx at h
  obtain ⟨nHashType, htype, h⟩ := bind_ok.mp h
  cases hkeys : registers (ascii "privatekeys") with
  | none => simp [hkeys, throw, throwThe, MonadExceptOf.throw] at h
  | some keysObj =>
    rw [hkeys] at h
    obtain ⟨tempKeystore, hadd, h⟩ := bind_ok.mp h
    cases hprevtxs : registers (ascii "prevtxs") with
    | none => simp [hprevtxs, throw, throwThe, MonadExceptOf.throw] at h
    | some prevtxsObj =>
      rw [hprevtxs] at h
      obtain ⟨⟨view, keystore⟩, hview, hloop⟩ := bind_ok.mp h
      obtain ⟨hbefore, hsettled⟩ :=
        signInputs keystore nHashType tx.vin.length tx' (Except.ok.inj hloop).symm
      refine ⟨nHashType, prevtxsObj.values, keystore,
        ⟨htype, by rw [hprevtxs, Option.map_some], keysObj, tempKeystore, view, hkeys, hadd, hview⟩,
        hbefore.sameUnsigned, fun i txin htxin hnone => ?_,
        fun i txin prevOut scriptPubKey htxin hmem hparse => ?_⟩
      -- the loop passes every input
      · have hinput := hsettled i (List.getElem?_eq_some_iff.mp htxin).1 txin htxin
        cases hscript : prevPubKey view txin.prevout with
        | none => rwa [hscript] at hinput
        | some script =>
          rcases (addPrevtxs_view hview _ _).mp hscript with hblank | ⟨prevOut, hmem, hparse⟩
          · exact absurd hblank (by simp [prevPubKey])
          · exact absurd hparse (hnone prevOut hmem script)
      · have hinput := hsettled i (List.getElem?_eq_some_iff.mp htxin).1 txin htxin
        rwa [(addPrevtxs_view hview _ _).mpr (.inr ⟨prevOut, hmem, hparse⟩)] at hinput

/-- **A signature command changes the signatures of the inputs that spend a previous output given to
it, and nothing else.** There it combines what was there with what `SignSignature` makes with the
keys given. If it throws, it changes nothing. -/
theorem mutateTxSign_signed [DecidableEq Uint256] (registers : Registers)
    (tx : Transaction Uint256) (flagStr : Text) :
    (∃ tx' nHashType prevtxsObj keystore,
      mutateTxSign tools signTools registers tx flagStr = (.ok (), tx') ∧
        Loaded tools signTools registers flagStr nHashType prevtxsObj keystore ∧
        Signed tools signTools nHashType prevtxsObj keystore tx tx') ∨
      ∃ strErr, mutateTxSign tools signTools registers tx flagStr = (.error strErr, tx) := by
  cases hsigned : signedTx tools signTools registers tx flagStr with
  | error strErr => exact .inr ⟨strErr, by rw [mutateTxSign, hsigned, thrown]⟩
  | ok tx' =>
    obtain ⟨nHashType, prevtxsObj, keystore, hloaded, hresult⟩ := signed_of_ok hsigned
    exact .inl ⟨tx', nHashType, prevtxsObj, keystore, by rw [mutateTxSign, hsigned, thrown, id],
      hloaded, hresult⟩

end ChainX.Tx
