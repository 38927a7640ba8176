import ChainX.Lib.Decimal
import ChainX.Rpc.ChainTips
import Mathlib.Data.List.Chain

/-!
# Block headers, `Maternodes/ChainX-MN/rpcclient.cpp`

`blockheaderToJSON` (`rpcclient.cpp:57-82`), `getblockhash` (`rpcclient.cpp:307-330`),
`getblockheader` (`rpcclient.cpp:332-388`) and `getblockheaders` (`rpcclient.cpp:390-477`). Of
`chain.h` and `mapBlockIndex`, which are not part of the repository, the model has the answers of
`operator[]`, `Next` and the look-up of a hash, with what they are as laws. Names and printing are
left out.

* A `BlockMap` is the index: blocks with their parents, in which heights count the parents. A
  `Chain` is the way down from its tip, and what its height is follows.
* A count is an `int` between 1 and a limit, and the loop counts it down.
* The difficulty is a value of some type: of `GetDifficulty` only the call is in the model.

Results:
* `exists_blockAt`: the active chain has a block at every height up to its tip.
* **`getblockheaders_linked`**: an answer is a chain of headers, each with the hashes of its
  neighbours, from the block that is asked for towards the tip.
* **`getblockheaders_join`**: so the chain can be had in pieces.
-/

namespace ChainX.Rpc

open ChainX.Lib

variable {Pointer Hash Difficulty : Type}

/-- What is read of a header. -/
structure HeaderFields (Hash : Type) where
  nVersion : Int32
  hashMerkleRoot : Hash
  nTime : UInt32
  /-- `GetMedianTimePast()`. -/
  medianTimePast : Int64
  nNonce : UInt32
  nBits : UInt32

/-- `chainActive` with its vector of blocks, and the known blocks by their hashes. -/
structure Chain (m : BlockMap Pointer Hash Difficulty) extends CChain m where
  fields : Pointer → HeaderFields Hash
  /-- `mapBlockIndex[hash]`, where there is one. -/
  find : Hash → Option Pointer
  /-- `operator[]`. -/
  blockAt : Int32 → Option Pointer
  next : Pointer → Option Pointer
  find_iff : ∀ hash b, find hash = some b ↔ b ∈ m.mapBlockIndex ∧ (m.block b).phashBlock = hash
  blockAt_iff : ∀ nHeight b, blockAt nHeight = some b ↔ m.Ancestor b tip ∧ m.nHeight b = nHeight
  next_eq : ∀ b ∈ m.mapBlockIndex,
    next b = if contains b = true then blockAt (m.nHeight b + 1) else none

/-- The errors of the calls. -/
inductive RpcError where
  | help
  | blockNotFound
  | countOutOfRange
  | heightOutOfRange
  deriving DecidableEq

/-- An object of the answer. -/
structure BlockHeader (Hash Difficulty : Type) where
  hash : Hash
  confirmations : Int32
  height : Int32
  version : Int32
  merkleroot : Hash
  time : Int64
  mediantime : Int64
  nonce : UInt64
  bits : UInt32
  difficulty : Difficulty
  chainwork : Nat
  previousblockhash : Option Hash
  nextblockhash : Option Hash

/-! ## Functions -/

section Functions

variable {m : BlockMap Pointer Hash Difficulty} (chainActive : Chain m)

/-- `chainActive.Height()`. -/
def Chain.height : Int32 := m.nHeight chainActive.tip

/-- `blockheaderToJSON`: the fields of a block, and its neighbours in the active chain. -/
def blockheaderToJSON (blockindex : Pointer) : BlockHeader Hash Difficulty where
  hash := (m.block blockindex).phashBlock
  confirmations :=
    if chainActive.contains blockindex = true then
      chainActive.height - m.nHeight blockindex + 1
    else -1
  height := m.nHeight blockindex
  version := (chainActive.fields blockindex).nVersion
  merkleroot := (chainActive.fields blockindex).hashMerkleRoot
  time := (chainActive.fields blockindex).nTime.toUInt64.toInt64
  mediantime := (chainActive.fields blockindex).medianTimePast
  nonce := (chainActive.fields blockindex).nNonce.toUInt64
  bits := (chainActive.fields blockindex).nBits
  difficulty := (m.block blockindex).difficulty
  chainwork := (m.block blockindex).nChainWork
  previousblockhash := (m.block blockindex).pprev.map fun p => (m.block p).phashBlock
  nextblockhash := (chainActive.next blockindex).map fun b => (m.block b).phashBlock

/-- `getblockhash`: the hash of the block at a height. -/
def getblockhash (fHelp : Bool) (nHeight : Int32) : Except RpcError Hash :=
  if fHelp = true then .error .help
  else if nHeight < 0 ∨ nHeight > chainActive.height then .error .heightOutOfRange
  else
    match chainActive.blockAt nHeight with
    | some pblockindex => .ok (m.block pblockindex).phashBlock
    -- a null pointer is read; there is none
    | none => .error .heightOutOfRange

/-- `getblockheader` with `fVerbose`: the header with a hash. -/
def getblockheader (fHelp : Bool) (hash : Hash) : Except RpcError (BlockHeader Hash Difficulty) :=
  if fHelp = true then .error .help
  else
    match chainActive.find hash with
    | none => .error .blockNotFound
    | some pblockindex => .ok (blockheaderToJSON chainActive pblockindex)

/-- The answer with `fVerbose`, or without: headers that are serialised and encoded. -/
inductive Answer (Hash Difficulty : Type) where
  | objects (arrHeaders : List (BlockHeader Hash Difficulty))
  | texts (arrHeaders : List Text)

/-- A loop over `chainActive.Next`, for `nCount` rounds at most. -/
def headersLoop {Item : Type} (item : Pointer → Item) : Nat → Option Pointer → List Item
  | 0, _ => []
  | _ + 1, none => []
  | nCount + 1, some pblockindex =>
    item pblockindex :: headersLoop item nCount (chainActive.next pblockindex)

variable (MAX_HEADERS_RESULTS : Int32) (strHex : Pointer → Text)

/-- `getblockheaders`: up to `count` headers from the one with the hash on. -/
def getblockheaders (fHelp : Bool) (hash : Hash) (count : Option Int32) (verbose : Option Bool) :
    Except RpcError (Answer Hash Difficulty) :=
  if fHelp = true then .error .help
  else
    match chainActive.find hash with
    | none => .error .blockNotFound
    | some pblockindex =>
      let nCount := count.getD MAX_HEADERS_RESULTS
      if nCount ≤ 0 ∨ nCount > MAX_HEADERS_RESULTS then .error .countOutOfRange
      else
        let fVerbose := verbose.getD true
        if fVerbose = true then
          .ok (.objects (headersLoop chainActive (blockheaderToJSON chainActive)
            nCount.toInt.toNat (some pblockindex)))
        else .ok (.texts (headersLoop chainActive strHex nCount.toInt.toNat (some pblockindex)))

end Functions

/-! ## The active chain -/

section ActiveChain

variable {m : BlockMap Pointer Hash Difficulty} {chainActive : Chain m} {b c : Pointer}

theorem height_le (h : m.Ancestor b chainActive.tip) :
    (m.nHeight b).toInt ≤ chainActive.height.toInt := h.nHeight_le chainActive.tip_mem

theorem mem_of_active (h : m.Ancestor b chainActive.tip) : b ∈ m.mapBlockIndex :=
  h.mem chainActive.tip_mem

/-- A block that is not the first one has a parent, one lower. -/
theorem exists_pprev (hb : b ∈ m.mapBlockIndex) (hpos : 0 < (m.nHeight b).toInt) :
    ∃ p, (m.block b).pprev = some p ∧ (m.nHeight b).toInt = (m.nHeight p).toInt + 1 := by
  cases hpprev : (m.block b).pprev with
  | none =>
    have hzero : (m.nHeight b).toInt = 0 := by
      rw [(m.pprev_eq_none b hb).mp hpprev, BlockMap.nHeight, m.nHeight_genesis]
      rfl
    omega
  | some p => exact ⟨p, rfl, m.nHeight_pprev b hb p hpprev⟩

/-- Down from the tip there is a block at every height. -/
theorem exists_active (chainActive : Chain m) (below : Nat)
    (hle : (below : Int) ≤ chainActive.height.toInt) : ∃ b, m.Ancestor b chainActive.tip ∧
      (m.nHeight b).toInt = chainActive.height.toInt - below := by
  induction below with
  | zero => exact ⟨chainActive.tip, .refl, by rw [Nat.cast_zero, sub_zero]; rfl⟩
  | succ below ih =>
    obtain ⟨b, hb, hheight⟩ := ih (by omega)
    obtain ⟨p, hpprev, hparent⟩ := exists_pprev (mem_of_active hb) (by omega)
    exact ⟨p, hb.tail hpprev, by omega⟩

theorem exists_blockAt (chainActive : Chain m) (nHeight : Int32) (hzero : 0 ≤ nHeight.toInt)
    (hle : nHeight.toInt ≤ chainActive.height.toInt) :
    ∃ b, chainActive.blockAt nHeight = some b := by
  obtain ⟨b, hb, hheight⟩ := exists_active chainActive
    (chainActive.height.toInt - nHeight.toInt).toNat (by omega)
  exact ⟨b, (chainActive.blockAt_iff nHeight b).mpr ⟨hb, Int32.toInt_inj.mp (by omega)⟩⟩

/-- The block after another one is its child. -/
theorem next_eq_some (hb : b ∈ m.mapBlockIndex) (h : chainActive.next b = some c) :
    m.Ancestor b chainActive.tip ∧ m.Ancestor c chainActive.tip ∧
      (m.block c).pprev = some b ∧ (m.nHeight c).toInt = (m.nHeight b).toInt + 1 ∧
        m.nHeight c = m.nHeight b + 1 := by
  rw [chainActive.next_eq b hb] at h
  split at h
  · rename_i hcontains
    have hactive := (chainActive.contains_iff b hb).mp hcontains
    obtain ⟨hc, hheight⟩ := (chainActive.blockAt_iff _ c).mp h
    have hbpos := BlockMap.nHeight_nonneg hb
    have hcpos := BlockMap.nHeight_nonneg (mem_of_active hc)
    have hmax := Int32.toInt_lt (m.nHeight b)
    -- the height of the child does not wrap
    have hsucc : (m.nHeight c).toInt = (m.nHeight b).toInt + 1 := by
      rw [hheight, Int32.toInt_add] at hcpos ⊢
      have hone : (1 : Int32).toInt = 1 := by decide
      rw [hone] at hcpos ⊢
      rcases Int.lt_or_eq_of_le (Int.add_one_le_of_lt hmax) with hlt | heq
      · exact Int.bmod_eq_of_le (by omega) (by omega)
      · rw [heq] at hcpos
        exact absurd hcpos (by decide)
    obtain ⟨p, hpprev, hparent⟩ := exists_pprev (mem_of_active hc) (by omega)
    have hp := (chainActive.blockAt_iff (m.nHeight b) p).mpr
      ⟨hc.tail hpprev, Int32.toInt_inj.mp (by omega)⟩
    have hb' := (chainActive.blockAt_iff (m.nHeight b) b).mpr ⟨hactive, rfl⟩
    obtain rfl : p = b := Option.some.inj (hp.symm.trans hb')
    exact ⟨hactive, hc, hpprev, hsucc, hheight⟩
  · simp at h

/-- No block comes after the tip, nor after a block off the chain. -/
theorem next_eq_none (hb : b ∈ m.mapBlockIndex) : chainActive.next b = none ↔
    (m.Ancestor b chainActive.tip → (m.nHeight b).toInt = chainActive.height.toInt) := by
  constructor
  · intro hnone hactive
    have hle := height_le hactive
    have hpos := BlockMap.nHeight_nonneg hb
    have htip := Int32.toInt_lt chainActive.height
    rw [chainActive.next_eq b hb, if_pos ((chainActive.contains_iff b hb).mpr hactive)] at hnone
    by_contra hne
    have hone : (1 : Int32).toInt = 1 := by decide
    have hsucc : (m.nHeight b + 1).toInt = (m.nHeight b).toInt + 1 := by
      rw [Int32.toInt_add, hone]
      exact Int.bmod_eq_of_le (by omega) (by omega)
    obtain ⟨c, hc⟩ := exists_blockAt chainActive (m.nHeight b + 1) (by omega) (by omega)
    rw [hnone] at hc
    simp at hc
  · intro htip
    by_contra hne
    obtain ⟨c, hc⟩ := Option.ne_none_iff_exists'.mp hne
    obtain ⟨hactive, hchild, -, hheight, -⟩ := next_eq_some hb hc
    have hle := height_le hchild
    have := htip hactive
    omega

end ActiveChain

/-! ## The answer -/

/-- A header and the one that follows it in an answer. -/
structure Linked (a b : BlockHeader Hash Difficulty) : Prop where
  next : a.nextblockhash = some b.hash
  previous : b.previousblockhash = some a.hash
  height : b.height.toInt = a.height.toInt + 1
  confirmations : a.confirmations = b.confirmations + 1

section Loop

variable {m : BlockMap Pointer Hash Difficulty} {chainActive : Chain m} {b c : Pointer}

theorem confirmations_eq (hactive : m.Ancestor b chainActive.tip) :
    (blockheaderToJSON chainActive b).confirmations =
      chainActive.height - m.nHeight b + 1 :=
  if_pos ((chainActive.contains_iff b (mem_of_active hactive)).mpr hactive)

theorem linked_next (hb : b ∈ m.mapBlockIndex) (h : chainActive.next b = some c) :
    Linked (blockheaderToJSON chainActive b) (blockheaderToJSON chainActive c) := by
  obtain ⟨hactive, hchild, hpprev, hheight, hsucc⟩ := next_eq_some hb h
  refine ⟨?_, ?_, hheight, ?_⟩
  · simp only [blockheaderToJSON, h, Option.map_some]
  · simp only [blockheaderToJSON, hpprev, Option.map_some]
  · rw [confirmations_eq hactive, confirmations_eq hchild, hsucc]
    grind

variable {Item : Type} (item : Pointer → Item)

theorem headersLoop_cons (nCount : Nat) (b : Pointer) :
    headersLoop chainActive item (nCount + 1) (some b) =
      item b :: headersLoop chainActive item nCount (chainActive.next b) := rfl

theorem head?_headersLoop (nCount : Nat) (next : Option Pointer) :
    ∀ x ∈ (headersLoop chainActive item nCount next).head?, ∃ b, next = some b ∧ x = item b := by
  cases nCount with
  | zero => simp [headersLoop]
  | succ nCount =>
    cases next with
    | none => simp [headersLoop]
    | some b => simp [headersLoop]

theorem headersLoop_linked (nCount : Nat) (hb : b ∈ m.mapBlockIndex) :
    (headersLoop chainActive (blockheaderToJSON chainActive) nCount (some b)).IsChain Linked := by
  induction nCount generalizing b with
  | zero => exact List.isChain_nil
  | succ nCount ih =>
    rw [headersLoop_cons, List.isChain_cons]
    constructor
    · intro x hx
      obtain ⟨c, hc, rfl⟩ := head?_headersLoop _ nCount _ x hx
      exact linked_next hb hc
    · cases hnext : chainActive.next b with
      | none => cases nCount <;> exact List.isChain_nil
      | some c => exact ih (mem_of_active (next_eq_some hb hnext).2.1)

theorem length_headersLoop (nCount : Nat) (hb : m.Ancestor b chainActive.tip) :
    (headersLoop chainActive item nCount (some b)).length =
      min nCount (chainActive.height.toInt - (m.nHeight b).toInt + 1).toNat := by
  induction nCount generalizing b with
  | zero => simp [headersLoop]
  | succ nCount ih =>
    have hle := height_le hb
    rw [headersLoop_cons, List.length_cons]
    cases hnext : chainActive.next b with
    | none =>
      have htip := (next_eq_none (mem_of_active hb)).mp hnext hb
      have hend : headersLoop chainActive item nCount none = [] := by cases nCount <;> rfl
      rw [hend, List.length_nil]
      omega
    | some c =>
      obtain ⟨-, hchild, -, hheight, -⟩ := next_eq_some (mem_of_active hb) hnext
      have hchildle := height_le hchild
      rw [ih hchild]
      omega

variable (chainActive) in
/-- The loop goes on from its last block. -/
theorem headersLoop_join (n : Nat) (hb : b ∈ m.mapBlockIndex) : ∃ c ∈ m.mapBlockIndex,
    (headersLoop chainActive item (n + 1) (some b)).getLast? = some (item c) ∧
      ∀ k, headersLoop chainActive item (n + 1 + k) (some b) =
        headersLoop chainActive item (n + 1) (some b) ++
          (headersLoop chainActive item (k + 1) (some c)).tail := by
  induction n generalizing b with
  | zero => exact ⟨b, hb, rfl, fun k => by rw [Nat.add_comm]; rfl⟩
  | succ n ih =>
    cases hnext : chainActive.next b with
    | none =>
      have hend (k : Nat) : headersLoop chainActive item (k + 1) (some b) = [item b] := by
        rw [headersLoop_cons, hnext]
        cases k <;> rfl
      refine ⟨b, hb, ?_, fun k => ?_⟩
      · rw [hend, List.getLast?_singleton]
      · rw [Nat.add_right_comm, hend, hend, hend, List.tail_cons, List.append_nil]
    | some b' =>
      obtain ⟨c, hc, hlast, hjoin⟩ := ih (mem_of_active (next_eq_some hb hnext).2.1)
      refine ⟨c, hc, ?_, fun k => ?_⟩
      · rw [headersLoop_cons, hnext, headersLoop_cons, List.getLast?_cons_cons,
          ← headersLoop_cons]
        exact hlast
      · rw [headersLoop_cons _ (n + 1), hnext, Nat.add_right_comm, headersLoop_cons, hnext, hjoin,
          List.cons_append]

/-- A block off the chain is all of its answer. -/
theorem headersLoop_off (nCount : Nat) (hb : b ∈ m.mapBlockIndex)
    (hoff : ¬ m.Ancestor b chainActive.tip) :
    headersLoop chainActive item (nCount + 1) (some b) = [item b] := by
  rw [headersLoop_cons, (next_eq_none hb).mpr fun h => absurd h hoff]
  cases nCount <;> rfl

/-- The header at a height is found by its hash, whatever the height. -/
theorem getblockheader_getblockhash (chainActive : Chain m) (nHeight : Int32)
    (hzero : 0 ≤ nHeight.toInt) (hle : nHeight.toInt ≤ chainActive.height.toInt) :
    ∃ hash header, getblockhash chainActive false nHeight = .ok hash ∧
      getblockheader chainActive false hash = .ok header ∧ header.hash = hash ∧
      header.height = nHeight ∧ header.confirmations = chainActive.height - nHeight + 1 := by
  obtain ⟨b, hb⟩ := exists_blockAt chainActive nHeight hzero hle
  obtain ⟨hactive, hheight⟩ := (chainActive.blockAt_iff nHeight b).mp hb
  have hfind := (chainActive.find_iff (m.block b).phashBlock b).mpr ⟨mem_of_active hactive, rfl⟩
  have hrange : ¬ (nHeight < 0 ∨ nHeight > chainActive.height) := by
    have h0 : (0 : Int32).toInt = 0 := by decide
    rw [gt_iff_lt, Int32.lt_iff_toInt_lt, Int32.lt_iff_toInt_lt]
    omega
  refine ⟨(m.block b).phashBlock, blockheaderToJSON chainActive b, ?_, ?_, rfl, hheight, ?_⟩
  · simp only [getblockhash, if_neg hrange, hb, Bool.false_eq_true, if_false]
  · simp only [getblockheader, hfind, Bool.false_eq_true, if_false]
  · rw [confirmations_eq hactive, hheight]

end Loop

/-! ## Results -/

section Results

variable {m : BlockMap Pointer Hash Difficulty} {chainActive : Chain m}
  {MAX_HEADERS_RESULTS : Int32} {strHex : Pointer → Text} {b : Pointer}

theorem getblockheaders_objects {hash : Hash} (hfind : chainActive.find hash = some b)
    (count : Option Int32) (hpos : 0 < count.getD MAX_HEADERS_RESULTS)
    (hmax : count.getD MAX_HEADERS_RESULTS ≤ MAX_HEADERS_RESULTS) :
    getblockheaders chainActive MAX_HEADERS_RESULTS strHex false hash count none =
      .ok (.objects (headersLoop chainActive (blockheaderToJSON chainActive)
        (count.getD MAX_HEADERS_RESULTS).toInt.toNat (some b))) := by
  have hcount : ¬ (count.getD MAX_HEADERS_RESULTS ≤ 0 ∨
      count.getD MAX_HEADERS_RESULTS > MAX_HEADERS_RESULTS) := by
    rw [not_or, Int32.not_le, gt_iff_lt, Int32.not_lt]
    exact ⟨hpos, hmax⟩
  simp only [getblockheaders, Bool.false_eq_true, if_false, hfind, if_neg hcount,
    Option.getD_none, if_true]

/-- A count that passes is not 0. -/
theorem exists_toNat_eq_succ {nCount : Int32} (hpos : 0 < nCount) :
    ∃ n, nCount.toInt.toNat = n + 1 := by
  have hzero : (0 : Int32).toInt = 0 := by decide
  have := Int32.lt_iff_toInt_lt.mp hpos
  exact ⟨nCount.toInt.toNat - 1, by omega⟩

end Results

/-- **An answer with headers starts with the block that was asked for and goes on, block after
block, up the active chain: each header names the hashes of the two beside it, and none is left out
before the count or the tip is reached.** -/
theorem getblockheaders_linked {m : BlockMap Pointer Hash Difficulty} (chainActive : Chain m)
    (MAX_HEADERS_RESULTS : Int32) (strHex : Pointer → Text) (hash : Hash) {b : Pointer}
    (hfind : chainActive.find hash = some b) (count : Option Int32)
    (hpos : 0 < count.getD MAX_HEADERS_RESULTS)
    (hmax : count.getD MAX_HEADERS_RESULTS ≤ MAX_HEADERS_RESULTS) :
    ∃ headers, getblockheaders chainActive MAX_HEADERS_RESULTS strHex false hash count none =
        .ok (.objects headers) ∧
      headers.head?.map BlockHeader.hash = some hash ∧ headers.IsChain Linked ∧
      headers.length =
        if chainActive.contains b = true then
          min (count.getD MAX_HEADERS_RESULTS).toInt.toNat
            (chainActive.height.toInt - (m.nHeight b).toInt + 1).toNat
        else 1 := by
  obtain ⟨hmem, hhash⟩ := (chainActive.find_iff hash b).mp hfind
  obtain ⟨nCount, hn⟩ := exists_toNat_eq_succ hpos
  refine ⟨headersLoop chainActive (blockheaderToJSON chainActive) (nCount + 1) (some b), ?_, ?_,
    headersLoop_linked _ hmem, ?_⟩
  · rw [getblockheaders_objects hfind count hpos hmax, hn]
  · rw [headersLoop_cons, List.head?_cons, Option.map_some]
    exact congrArg some hhash
  · rw [hn]
    split
    · rename_i hcontains
      exact length_headersLoop _ _ ((chainActive.contains_iff b hmem).mp hcontains)
    · rename_i hcontains
      rw [headersLoop_off _ nCount hmem fun h =>
        hcontains ((chainActive.contains_iff b hmem).mpr h)]
      rfl

/-- **Answers join: asking again from the last header of an answer gives what one longer answer has
after it.** -/
theorem getblockheaders_join {m : BlockMap Pointer Hash Difficulty} (chainActive : Chain m)
    (MAX_HEADERS_RESULTS : Int32) (strHex : Pointer → Text) (hash : Hash) {b : Pointer}
    (hfind : chainActive.find hash = some b) (first again both : Int32) (hfirst : 0 < first)
    (hagain : 0 < again) (hboth : both.toInt = first.toInt + again.toInt - 1)
    (hmax : both ≤ MAX_HEADERS_RESULTS) : ∃ headers last more,
      getblockheaders chainActive MAX_HEADERS_RESULTS strHex false hash (some first) none =
        .ok (.objects headers) ∧
      headers.getLast? = some last ∧
      getblockheaders chainActive MAX_HEADERS_RESULTS strHex false last.hash (some again) none =
        .ok (.objects more) ∧
      getblockheaders chainActive MAX_HEADERS_RESULTS strHex false hash (some both) none =
        .ok (.objects (headers ++ more.tail)) := by
  obtain ⟨hmem, -⟩ := (chainActive.find_iff hash b).mp hfind
  obtain ⟨n, hn⟩ := exists_toNat_eq_succ hfirst
  obtain ⟨k, hk⟩ := exists_toNat_eq_succ hagain
  have hsum : both.toInt.toNat = n + 1 + k := by omega
  have hpos : 0 < both := by
    have hzero : (0 : Int32).toInt = 0 := by decide
    rw [Int32.lt_iff_toInt_lt]
    omega
  have hle : both.toInt ≤ MAX_HEADERS_RESULTS.toInt := Int32.le_iff_toInt_le.mp hmax
  have hfirstmax : first ≤ MAX_HEADERS_RESULTS := Int32.le_iff_toInt_le.mpr (by omega)
  have hagainmax : again ≤ MAX_HEADERS_RESULTS := Int32.le_iff_toInt_le.mpr (by omega)
  obtain ⟨c, hc, hlast, hjoin⟩ :=
    headersLoop_join chainActive (blockheaderToJSON chainActive) n hmem
  have hfound : chainActive.find (blockheaderToJSON chainActive c).hash = some c :=
    (chainActive.find_iff _ c).mpr ⟨hc, rfl⟩
  refine ⟨_, _, _, getblockheaders_objects hfind (some first) hfirst hfirstmax, ?_,
    getblockheaders_objects hfound (some again) hagain hagainmax, ?_⟩
  · rw [Option.getD_some, hn]
    exact hlast
  · rw [getblockheaders_objects hfind (some both) hpos hmax, Option.getD_some, Option.getD_some,
      Option.getD_some, hsum, hn, hk, hjoin]

/-- The sample chain with its two blocks, by their numbers. -/
def sampleActive : Chain sampleMap where
  toCChain := sampleChain
  fields b := ⟨2, b, 0, 0, 0, 0⟩
  find hash := if hash ≤ 3 then some hash else none
  blockAt nHeight := if nHeight = 0 then some 0 else if nHeight = 1 then some 1 else none
  next b := if b = 0 then some 1 else none
  find_iff hash b := by
    have hphash : (sampleMap.block b).phashBlock = b := by
      match b with
      | 0 | 1 | _ + 2 => rfl
    rw [hphash]
    simp only [sampleMap, List.mem_cons, List.not_mem_nil, or_false]
    grind
  blockAt_iff nHeight b := by
    have htip : sampleChain.tip = 1 := rfl
    rw [htip, ancestor_sampleMap_one]
    have hzero : sampleMap.nHeight 0 = 0 := rfl
    have hone : sampleMap.nHeight 1 = 1 := rfl
    constructor
    · grind
    · rintro ⟨hle, rfl⟩
      obtain rfl | rfl := Nat.le_one_iff_eq_zero_or_eq_one.mp hle
      · rfl
      · rfl
  next_eq := by decide

theorem getblockheaders_linked_sample : ∃ headers,
    getblockheaders sampleActive 2000 (fun _ => []) false 0 (some 5) none =
        .ok (.objects headers) ∧
      headers.head?.map BlockHeader.hash = some 0 ∧ headers.IsChain Linked ∧ headers.length = 2 :=
  getblockheaders_linked sampleActive 2000 (fun _ => []) 0 rfl (some 5) (by decide) (by decide)

theorem getblockheaders_join_sample : ∃ headers last more,
    getblockheaders sampleActive 2000 (fun _ => []) false 0 (some 1) none =
        .ok (.objects headers) ∧
      headers.getLast? = some last ∧
      getblockheaders sampleActive 2000 (fun _ => []) false last.hash (some 2) none =
        .ok (.objects more) ∧
      getblockheaders sampleActive 2000 (fun _ => []) false 0 (some 2) none =
        .ok (.objects (headers ++ more.tail)) :=
  getblockheaders_join sampleActive 2000 (fun _ => []) 0 rfl 1 2 2 (by decide) (by decide)
    (by decide) (by decide)

end ChainX.Rpc
