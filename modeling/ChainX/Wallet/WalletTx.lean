import ChainX.Lib.Decimal
import ChainX.Lib.Serial
import ChainX.Script.Basic

/-!
# Wallet transactions on disk, `Wallet/wallet.h`

`CWalletTx::SerializationOp` (`wallet.h:345-385`), which writes and reads: `READWRITE` is
`readWrite`, by the operation. With it go `ReadOrderPos`, `WriteOrderPos` (`wallet.h:153-169`),
`Init` (`wallet.h:306-341`) and the serialisation of `CMerkleTx` (`wallet.h:213-221`).

* `CTransaction`, the base of `CMerkleTx`, is a type of its own, and the serialisers of what is
  written are a parameter (`Serialisers`), for one `nType` and `nVersion`. So are the conversions of
  numbers. None of them is part of the repository (`Numerals`).
* A `std::string` is the list of its bytes, and `mapValue_t` a map with one value for each key.
* `none` is an exception of the stream.
* The account, the order position and the smart time have no place in the format: they are put into
  the map before it is written, taken out after it is read, and erased at the end of both.

**`serializationOp_roundTrip`**: three fields travel through the map, and all of them arrive, with
every field of the format, into whatever was there. Keys that are reserved must not be in the map.
-/

namespace ChainX.Wallet

open ChainX.Lib ChainX.Node

/-- `mapValue_t`. -/
abbrev mapValue_t := Std.ExtTreeMap Text Text

/-- `i64tostr`, `strprintf("%u", …)` and `atoi64`: what was printed is read back. -/
structure Numerals where
  i64tostr : Int64 → Text
  strprintf : UInt32 → Text
  atoi64 : Text → Int64
  atoi64_i64tostr : ∀ n, atoi64 (i64tostr n) = n
  atoi64_strprintf : ∀ n, atoi64 (strprintf n) = .ofNat n.toNat

/-- The serialisers of what a `CWalletTx` writes. -/
structure Serialisers (CTransaction : Type) where
  transaction : Codec CTransaction
  uint256 : Codec Uint256
  /-- `std::vector`, of what has a serialiser. -/
  vector {α : Type} : Codec α → Codec (List α)
  mapValue : Codec mapValue_t
  orderForm : Codec (List (Text × Text))
  int : Codec Int32
  uint : Codec UInt32
  char : Codec Int8

variable {CTransaction : Type} (g : Serialisers CTransaction) (num : Numerals)

/-! ## The transaction -/

/-- `CMerkleTx`: a transaction, and where it is in the chain. -/
structure CMerkleTx (CTransaction : Type) where
  /-- The base class. -/
  transaction : CTransaction
  hashBlock : Uint256
  nIndex : Int32

/-- `CMerkleTx::SerializationOp`: `vMerkleBranch` is written empty, and forgotten when it is read.
The `nVersion` that is set on the way is not looked at by the fields that follow. -/
def Serialisers.merkleTx : Codec (CMerkleTx CTransaction) :=
  (g.transaction.prod (g.uint256.prod ((g.vector g.uint256).prod g.int))).map
    (fun p => ⟨p.1, p.2.1, p.2.2.2⟩) (fun tx => (tx.transaction, tx.hashBlock, [], tx.nIndex))
    fun _ => rfl

/-- The amounts that are cached. -/
inductive Cached where
  | debit
  | credit
  | immatureCredit
  | availableCredit
  | anonymizedCredit
  | denomUnconfCredit
  | denomConfCredit
  | watchDebit
  | watchCredit
  | immatureWatchCredit
  | availableWatchCredit
  | change

/-- `CWalletTx`: a transaction, with what the wallet knows of it. -/
structure CWalletTx (CTransaction : Type) where
  /-- The base class. -/
  merkleTx : CMerkleTx CTransaction
  /-- The address of the wallet. -/
  pwallet : Option Nat
  mapValue : mapValue_t
  vOrderForm : List (Text × Text)
  fTimeReceivedIsTxTime : UInt32
  nTimeReceived : UInt32
  nTimeSmart : UInt32
  fFromMe : Int8
  strFromAccount : Text
  nOrderPos : Int64
  /-- `fDebitCached`, …: memory only, as the next. -/
  fCached : Cached → Bool
  /-- `nDebitCached`, …. -/
  nCached : Cached → Int64

/-- `Init`: everything but the base class is reset. -/
def CWalletTx.init (pwalletIn : Option Nat) (tx : CWalletTx CTransaction) :
    CWalletTx CTransaction where
  merkleTx := tx.merkleTx
  pwallet := pwalletIn
  mapValue := ∅
  vOrderForm := []
  fTimeReceivedIsTxTime := 0
  nTimeReceived := 0
  nTimeSmart := 0
  fFromMe := 0
  strFromAccount := []
  nOrderPos := -1
  fCached := fun _ => false
  nCached := fun _ => 0

/-! ## The order position -/

/-- `ReadOrderPos`: `-1` where the map says nothing. -/
def readOrderPos (mapValue : mapValue_t) : Int64 :=
  match mapValue[ascii "n"]? with
  | none => -1
  | some text => num.atoi64 text

/-- `WriteOrderPos`: nothing is written for `-1`. -/
def writeOrderPos (nOrderPos : Int64) (mapValue : mapValue_t) : mapValue_t :=
  if nOrderPos = -1 then mapValue else mapValue.insert (ascii "n") (num.i64tostr nOrderPos)

/-! ## `SerializationOp` -/

/-- `CSerActionSerialize` and `CSerActionUnserialize`. -/
inductive Operation where
  | serialize
  | unserialize

/-- `ser_action.ForRead()`. -/
def Operation.forRead : Operation → Bool
  | .serialize => false
  | .unserialize => true

/-- `READWRITE(a)`: what becomes of `a` and of the stream. -/
def readWrite {α : Type} (action : Operation) (c : Codec α) (a : α) (s : Bytes) :
    Option (α × Bytes) :=
  match action with
  | .serialize => some (a, s ++ c.write a)
  | .unserialize => c.read s

/-- What is done before writing. -/
def addReserved (tx : CWalletTx CTransaction) : CWalletTx CTransaction :=
  let mapValue := tx.mapValue.insert (ascii "fromaccount") tx.strFromAccount
  let mapValue := writeOrderPos num tx.nOrderPos mapValue
  if tx.nTimeSmart ≠ 0 then
    { tx with mapValue := mapValue.insert (ascii "timesmart") (num.strprintf tx.nTimeSmart) }
  else { tx with mapValue := mapValue }

/-- What is done after reading. -/
def takeReserved (tx : CWalletTx CTransaction) : CWalletTx CTransaction where
  __ := tx
  -- `operator[]` adds the key where it is missing
  mapValue := tx.mapValue.insertIfNew (ascii "fromaccount") []
  strFromAccount := tx.mapValue[ascii "fromaccount"]?.getD []
  nOrderPos := readOrderPos num tx.mapValue
  nTimeSmart :=
    match tx.mapValue[ascii "timesmart"]? with
    | none => 0
    | some text => (num.atoi64 text).toUInt64.toUInt32

/-- What is erased at the end, of either operation. -/
def eraseReserved (mapValue : mapValue_t) : mapValue_t :=
  ((((mapValue.erase (ascii "fromaccount")).erase (ascii "version")).erase (ascii "spent")).erase
    (ascii "n")).erase (ascii "timesmart")

/-- The `READWRITE`s, in their order. -/
def readWriteFields (action : Operation) (tx : CWalletTx CTransaction) (s : Bytes) :
    Option (CWalletTx CTransaction × Bytes) := do
  let (merkleTx, s) ← readWrite action g.merkleTx tx.merkleTx s
  -- `vUnused`
  let (_, s) ← readWrite action (g.vector g.merkleTx) [] s
  let (mapValue, s) ← readWrite action g.mapValue tx.mapValue s
  let (vOrderForm, s) ← readWrite action g.orderForm tx.vOrderForm s
  let (fTimeReceivedIsTxTime, s) ← readWrite action g.uint tx.fTimeReceivedIsTxTime s
  let (nTimeReceived, s) ← readWrite action g.uint tx.nTimeReceived s
  let (fFromMe, s) ← readWrite action g.char tx.fFromMe s
  -- `fSpent`
  let (_, s) ← readWrite action g.char 0 s
  return ({ tx with
    merkleTx := merkleTx
    mapValue := mapValue
    vOrderForm := vOrderForm
    fTimeReceivedIsTxTime := fTimeReceivedIsTxTime
    nTimeReceived := nTimeReceived
    fFromMe := fFromMe }, s)

/-- `SerializationOp`: what is not a field of the format travels through the map. -/
def serializationOp (action : Operation) (tx : CWalletTx CTransaction) (s : Bytes) :
    Option (CWalletTx CTransaction × Bytes) := do
  let tx := if action.forRead then tx.init none else tx
  let tx := if !action.forRead then addReserved num tx else tx
  let (tx, s) ← readWriteFields g action tx s
  let tx := if action.forRead then takeReserved num tx else tx
  return ({ tx with mapValue := eraseReserved tx.mapValue }, s)

/-! ## The reserved keys -/

/-- The keys that no entry of the map has outside `SerializationOp`. -/
def reservedKeys : List Text :=
  [ascii "fromaccount", ascii "version", ascii "spent", ascii "n", ascii "timesmart"]

/-- The map holds none of the reserved keys. -/
def Unreserved (mapValue : mapValue_t) : Prop := ∀ k ∈ reservedKeys, k ∉ mapValue

theorem getElem?_eraseReserved (mapValue : mapValue_t) (k : Text) :
    (eraseReserved mapValue)[k]? = if k ∈ reservedKeys then none else mapValue[k]? := by
  simp only [eraseReserved, reservedKeys]
  grind

section Reserved

variable {tx : CWalletTx CTransaction} (h : Unreserved tx.mapValue)
include h

theorem getElem?_reserved {k : Text} (hk : k ∈ reservedKeys) : tx.mapValue[k]? = none :=
  Std.ExtTreeMap.getElem?_eq_none (h k hk)

/-- What was added is erased. -/
theorem eraseReserved_addReserved :
    eraseReserved (addReserved num tx).mapValue = tx.mapValue := by
  refine Std.ExtTreeMap.ext_getElem? fun k => ?_
  rw [getElem?_eraseReserved]
  split
  · rename_i hk
    exact (getElem?_reserved h hk).symm
  · rename_i hk
    simp only [reservedKeys, List.mem_cons, List.not_mem_nil, or_false, not_or] at hk
    simp only [addReserved, writeOrderPos]
    grind

omit h in
theorem fromaccount_addReserved :
    (addReserved num tx).mapValue[ascii "fromaccount"]? = some tx.strFromAccount := by
  have hn : ascii "n" ≠ ascii "fromaccount" := by decide
  have ht : ascii "timesmart" ≠ ascii "fromaccount" := by decide
  simp only [addReserved, writeOrderPos]
  grind

theorem readOrderPos_addReserved :
    readOrderPos num (addReserved num tx).mapValue = tx.nOrderPos := by
  have hnone := getElem?_reserved h (k := ascii "n") (by decide)
  have hf : ascii "fromaccount" ≠ ascii "n" := by decide
  have ht : ascii "timesmart" ≠ ascii "n" := by decide
  have hround := num.atoi64_i64tostr tx.nOrderPos
  simp only [readOrderPos, addReserved, writeOrderPos]
  grind

theorem timesmart_addReserved :
    (addReserved num tx).mapValue[ascii "timesmart"]? =
      if tx.nTimeSmart = 0 then none else some (num.strprintf tx.nTimeSmart) := by
  have hnone := getElem?_reserved h (k := ascii "timesmart") (by decide)
  have hf : ascii "fromaccount" ≠ ascii "timesmart" := by decide
  have hn : ascii "n" ≠ ascii "timesmart" := by decide
  simp only [addReserved, writeOrderPos]
  grind

/-- What was added is recovered. -/
theorem takeReserved_addReserved (old : CWalletTx CTransaction)
    (hold : old.mapValue = (addReserved num tx).mapValue) :
    (takeReserved num old).strFromAccount = tx.strFromAccount ∧
      (takeReserved num old).nOrderPos = tx.nOrderPos ∧
      (takeReserved num old).nTimeSmart = tx.nTimeSmart := by
  refine ⟨?_, ?_, ?_⟩
  · simp only [takeReserved, hold, fromaccount_addReserved num, Option.getD_some]
  · simp only [takeReserved, hold, readOrderPos_addReserved num h]
  · simp only [takeReserved, hold, timesmart_addReserved num h]
    by_cases hzero : tx.nTimeSmart = 0
    · rw [if_pos hzero, hzero]
    · simp [if_neg hzero, num.atoi64_strprintf]

end Reserved

theorem eraseReserved_insertIfNew {mapValue : mapValue_t} {k v : Text} (hk : k ∈ reservedKeys) :
    eraseReserved (mapValue.insertIfNew k v) = eraseReserved mapValue := by
  refine Std.ExtTreeMap.ext_getElem? fun k' => ?_
  rw [getElem?_eraseReserved, getElem?_eraseReserved]
  grind

/-! ## What is written is read -/

/-- The bytes that the `READWRITE`s write. -/
def written (tx : CWalletTx CTransaction) : Bytes :=
  g.merkleTx.write tx.merkleTx ++ ((g.vector g.merkleTx).write [] ++
    (g.mapValue.write tx.mapValue ++ (g.orderForm.write tx.vOrderForm ++
      (g.uint.write tx.fTimeReceivedIsTxTime ++ (g.uint.write tx.nTimeReceived ++
        (g.char.write tx.fFromMe ++ g.char.write 0))))))

theorem readWriteFields_serialize (tx : CWalletTx CTransaction) (s : Bytes) :
    readWriteFields g .serialize tx s = some (tx, s ++ written g tx) := by
  simp only [readWriteFields, readWrite, written, Option.bind_eq_bind, Option.bind_some,
    List.append_assoc]
  rfl

theorem readWriteFields_unserialize (tx old : CWalletTx CTransaction) (rest : Bytes) :
    readWriteFields g .unserialize old (written g tx ++ rest) = some ({ old with
      merkleTx := tx.merkleTx
      mapValue := tx.mapValue
      vOrderForm := tx.vOrderForm
      fTimeReceivedIsTxTime := tx.fTimeReceivedIsTxTime
      nTimeReceived := tx.nTimeReceived
      fFromMe := tx.fFromMe }, rest) := by
  simp only [readWriteFields, readWrite, written, List.append_assoc, Codec.read_write,
    Option.bind_eq_bind, Option.bind_some]
  rfl

/-- `addReserved` changes nothing but the map. -/
theorem addReserved_eq (tx : CWalletTx CTransaction) :
    addReserved num tx = { tx with mapValue := (addReserved num tx).mapValue } := by
  unfold addReserved
  split <;> rfl

/-- **What a transaction carries arrives.** Writing a transaction without reserved keys leaves it as
it is, and reading the bytes into any other makes it the same transaction on disk. -/
theorem serializationOp_roundTrip (tx : CWalletTx CTransaction) (h : Unreserved tx.mapValue)
    (s : Bytes) :
    ∃ bytes, serializationOp g num .serialize tx s = some (tx, s ++ bytes) ∧
      ∀ (old : CWalletTx CTransaction) (rest : Bytes), ∃ tx',
        serializationOp g num .unserialize old (bytes ++ rest) = some (tx', rest) ∧
          tx'.merkleTx = tx.merkleTx ∧ tx'.strFromAccount = tx.strFromAccount ∧
          tx'.nOrderPos = tx.nOrderPos ∧ tx'.nTimeSmart = tx.nTimeSmart ∧
          tx'.mapValue = tx.mapValue ∧ tx'.vOrderForm = tx.vOrderForm ∧
          tx'.fTimeReceivedIsTxTime = tx.fTimeReceivedIsTxTime ∧
          tx'.nTimeReceived = tx.nTimeReceived ∧ tx'.fFromMe = tx.fFromMe := by
  have hadded := addReserved_eq num tx
  have hkept := eraseReserved_addReserved num h
  have htaken := takeReserved_addReserved num h
  generalize (addReserved num tx).mapValue = m at hadded hkept htaken
  refine ⟨written g (addReserved num tx), ?_, fun old rest => ?_⟩
  · simp only [serializationOp, Operation.forRead, Bool.not_false, if_true, Bool.false_eq_true,
      if_false, readWriteFields_serialize, Option.bind_eq_bind, Option.bind_some, hadded, hkept]
    rfl
  · simp only [serializationOp, Operation.forRead, Bool.not_true, if_true, Bool.false_eq_true,
      if_false, readWriteFields_unserialize, Option.bind_eq_bind, Option.bind_some, hadded]
    refine ⟨_, rfl, rfl, ?_⟩
    obtain ⟨haccount, hpos, hsmart⟩ := htaken { old.init none with mapValue := m } rfl
    refine ⟨haccount, hpos, hsmart, ?_, rfl, rfl, rfl, rfl⟩
    exact (eraseReserved_insertIfNew (by decide)).trans hkept

/-! ### A transaction -/

/-- Decimal numbers. -/
def decimalNumerals : Numerals where
  i64tostr n := decimalInt n.toInt
  strprintf n := decimal n.toNat
  atoi64 := strtoll
  atoi64_i64tostr _ := strtoll_eq (strtol_decimalInt _)
  atoi64_strprintf n := by
    refine strtoll_eq ?_
    have hn := n.toNat_lt
    rw [strtol_numeral (isNumeral_decimal _), digitsValue_decimal,
      Int64.toInt_ofNat_of_lt (by omega)]

/-- A base class of bytes. -/
def byteSerialisers : Serialisers Bytes where
  transaction := Codec.byte.list
  uint256 := Codec.byte.fixed 32
  vector := Codec.list
  int := .int32
  mapValue := Codec.byte.list.treeMap Codec.byte.list
  orderForm := (Codec.byte.list.prod Codec.byte.list).list
  uint := .uint32
  char := .int8

/-- The first transaction of an account, with a comment. -/
def samplePayment : CWalletTx Bytes where
  __ := CWalletTx.init none
    ⟨⟨[1], .replicate 32 3, 4⟩, none, ∅, [], 0, 0, 0, 0, [], 0, fun _ => true, fun _ => 5⟩
  mapValue := Std.ExtTreeMap.ofList [(ascii "comment", ascii "rent")]
  nTimeReceived := 1500000000
  nTimeSmart := 1500000001
  strFromAccount := ascii "savings"
  nOrderPos := 0

theorem serializationOp_roundTrip_samplePayment :
    ∃ bytes tx', serializationOp byteSerialisers decimalNumerals .serialize samplePayment [] =
        some (samplePayment, bytes) ∧
      serializationOp byteSerialisers decimalNumerals .unserialize samplePayment bytes =
        some (tx', []) ∧
      tx'.merkleTx = samplePayment.merkleTx ∧ tx'.strFromAccount = ascii "savings" ∧
      tx'.nOrderPos = 0 ∧ tx'.nTimeSmart = 1500000001 ∧
      tx'.mapValue = samplePayment.mapValue := by
  have hfree : Unreserved samplePayment.mapValue := by
    intro k hk hmem
    simp only [samplePayment, Std.ExtTreeMap.mem_ofList] at hmem
    revert k
    decide
  obtain ⟨bytes, hwrite, hread⟩ :=
    serializationOp_roundTrip byteSerialisers decimalNumerals samplePayment hfree []
  obtain ⟨tx', hread, hmerkle, haccount, hpos, hsmart, hmap, -⟩ := hread samplePayment []
  rw [List.append_nil] at hread
  exact ⟨bytes, tx', hwrite, hread, hmerkle, haccount, hpos, hsmart, hmap⟩

end ChainX.Wallet
