import ChainX.Lib.Reads
import ChainX.Tx.Sign

/-!
# The library call, `chainx-ui.id/consensus/chainxconcensus.cpp`

`TxInputStream` (`chainxconcensus.cpp:9-48`), `set_error` (`chainxconcensus.cpp:50-55`) and
`bitcoinconsensus_verify_script` (`chainxconcensus.cpp:65-85`). The call gets addresses: memory is a
partial function of them, and reading a byte that is not there ends the process. The serialisation
of transactions and `VerifyScript` are not part of the repository; they are a parameter
(`ConsensusTools`), the former as a program that reads.

* An exception is caught by the call, and the error is then that of a transaction that cannot be
  read, whatever threw it. `VerifyScript` may throw, too.
* The index is looked at before the size: of a transaction that has no such input the error is
  `ERR_TX_INDEX`, whatever follows it.
* The error is written where the caller gave a place for it.

Results:
* `ok_iff`: no error is reported exactly if all of the buffer is one transaction with that input.
* **`verify_whole`**: an encoded transaction is verified as it is, is no transaction when something
  is cut off it, and has the wrong size when something follows. `Over` carries the reading of it:
  the stream sees the bytes of the buffer and no others.
-/

namespace ChainX.Consensus

open ChainX.Lib ChainX.Script
open ChainX.Node (Bytes)
open ChainX.Tx (Transaction)

/-! ## Memory -/

/-- The bytes at the addresses that may be read. -/
abbrev Memory : Type := Nat → Option UInt8

/-- `memcpy` from this address. -/
def Memory.copy (m : Memory) : Nat → Nat → Option Bytes
  | _, 0 => some []
  | src, n + 1 =>
    match m src, m.copy (src + 1) n with
    | some b, some bytes => some (b :: bytes)
    | _, _ => none

section Copying

variable {m : Memory}

theorem Memory.copy_succ {src n : Nat} {bytes : Bytes} (h : m.copy src (n + 1) = some bytes) :
    ∃ b rest, bytes = b :: rest ∧ m src = some b ∧ m.copy (src + 1) n = some rest := by
  rw [copy] at h
  split at h
  · rename_i b rest hb hrest
    exact ⟨b, rest, (Option.some.inj h).symm, hb, hrest⟩
  · simp at h

/-- A part at the front of what can be copied, and the rest of it. -/
theorem Memory.copy_split {src n : Nat} {bytes : Bytes}
    (h : m.copy src bytes.length = some bytes) (hn : n ≤ bytes.length) :
    m.copy src n = some (bytes.take n) ∧
      m.copy (src + n) (bytes.drop n).length = some (bytes.drop n) := by
  induction n generalizing src bytes with
  | zero => exact ⟨rfl, h⟩
  | succ n ih =>
    cases bytes with
    | nil => simp at hn
    | cons b rest =>
      obtain ⟨b', rest', heq, hb, hrest⟩ := copy_succ h
      obtain ⟨rfl, rfl⟩ : b = b' ∧ rest = rest' := List.cons.inj heq
      obtain ⟨hfront, hback⟩ := ih hrest (Nat.le_of_succ_le_succ hn)
      constructor
      · rw [copy, hb, hfront]
        rfl
      · rw [Nat.add_right_comm] at hback
        exact hback

end Copying

/-! ## `TxInputStream` -/

/-- `TxInputStream`: a pointer into the buffer and the number of bytes from there on. -/
structure TxInputStream where
  /-- `none` is a null pointer. -/
  m_data : Option Nat
  m_remaining : Nat

/-- The texts of `std::ios_base::failure`, and what `Unserialize` throws. -/
inductive Failure where
  | endOfData
  | badDestinationBuffer
  | badSourceBuffer
  | unserialize

namespace TxInputStream

variable (m : Memory)

/-- `pch` is whether it is set. The outer `none` is a byte that may not be read. -/
def read (stream : TxInputStream) (pch : Bool) (nSize : Nat) :
    Option (Except Failure (Bytes × TxInputStream)) :=
  if nSize > stream.m_remaining then some (.error .endOfData)
  else if pch = false then some (.error .badDestinationBuffer)
  else
    match stream.m_data with
    | none => some (.error .badSourceBuffer)
    | some data => (m.copy data nSize).map fun bytes =>
        .ok (bytes, ⟨some (data + nSize), stream.m_remaining - nSize⟩)

/-- `operator>>`, which reads into the object. -/
def unserialize {α : Type} : Reads UInt8 α → TxInputStream →
    Option (Except Failure (α × TxInputStream))
  | .done obj, stream => some (.ok (obj, stream))
  | .fail, _ => some (.error .unserialize)
  | .read nSize next, stream =>
    match stream.read m true nSize with
    | none => none
    | some (.error failure) => some (.error failure)
    | some (.ok (bytes, stream)) => unserialize (next bytes) stream

variable {m} {α : Type}

/-- A stream over a buffer that may be read. -/
def Over (m : Memory) (stream : TxInputStream) (bytes : Bytes) : Prop :=
  stream.m_remaining = bytes.length ∧
    ∃ data, stream.m_data = some data ∧ m.copy data bytes.length = some bytes

theorem Over.read {stream : TxInputStream} {bytes : Bytes} (h : Over m stream bytes) {nSize : Nat}
    (hsize : nSize ≤ bytes.length) : ∃ stream', Over m stream' (bytes.drop nSize) ∧
      stream.read m true nSize = some (.ok (bytes.take nSize, stream')) := by
  obtain ⟨hremaining, data, hdata, hcopy⟩ := h
  obtain ⟨hfront, hback⟩ := Memory.copy_split hcopy hsize
  refine ⟨⟨some (data + nSize), stream.m_remaining - nSize⟩, ⟨?_, _, rfl, hback⟩, ?_⟩
  · rw [List.length_drop, hremaining]
  · rw [TxInputStream.read, if_neg (by omega), if_neg (by decide), hdata]
    simp only [hfront, Option.map_some]

theorem Over.read_beyond {stream : TxInputStream} {bytes : Bytes} (h : Over m stream bytes)
    {nSize : Nat} (hsize : ¬ nSize ≤ bytes.length) :
    stream.read m true nSize = some (.error .endOfData) := by
  rw [TxInputStream.read, if_pos (by rw [h.1]; omega)]

/-- The stream gives the program the bytes of the buffer, and nothing outside. -/
theorem Over.unserialize {stream : TxInputStream} {bytes : Bytes} (h : Over m stream bytes)
    (p : Reads UInt8 α) :
    match p.run bytes with
    | some (obj, left) => ∃ stream', Over m stream' left ∧
        TxInputStream.unserialize m p stream = some (.ok (obj, stream'))
    | none => ∃ failure, TxInputStream.unserialize m p stream = some (.error failure) := by
  induction p generalizing stream bytes with
  | done obj => exact ⟨stream, h, rfl⟩
  | fail => exact ⟨.unserialize, rfl⟩
  | read nSize next ih =>
    by_cases hsize : nSize ≤ bytes.length
    · obtain ⟨stream', h', hread⟩ := h.read hsize
      rw [Reads.run_read hsize, TxInputStream.unserialize, hread]
      exact ih _ h'
    · rw [Reads.run, if_neg hsize, TxInputStream.unserialize, h.read_beyond hsize]
      exact ⟨.endOfData, rfl⟩

end TxInputStream

/-! ## The call -/

/-- `chainxconsensus_error`. -/
inductive Error where
  | ERR_OK
  | ERR_TX_INDEX
  | ERR_TX_SIZE_MISMATCH
  | ERR_TX_DESERIALIZE
  deriving DecidableEq

/-- What is outside the repository. -/
structure ConsensusTools (Uint256 : Type) where
  /-- `Unserialize` of a `CTransaction`, for the network. -/
  unserialize : Reads UInt8 (Transaction Uint256)
  getSerializeSize : Transaction Uint256 → Nat
  /-- `VerifyScript`, of the two scripts, the flags and what the checker has; `none` is an
  exception. -/
  verifyScript : CScript → CScript → UInt32 → Transaction Uint256 → UInt32 → Option Bool
  /-- A transaction is read from as many bytes as it is written to. -/
  size_unserialize : ∀ bytes tx left, unserialize.run bytes = some (tx, left) →
    bytes.length = getSerializeSize tx + left.length

/-- The result, with what `ret` points to; `none` is a null pointer. -/
def setError (ret : Option Error) (serror : Error) : Int32 × Option Error :=
  (0, ret.map fun _ => serror)

section Call

variable {Uint256 : Type} (tools : ConsensusTools Uint256) (m : Memory)

/-- The outer `none` is a byte that may not be read. -/
def bitcoinconsensusVerifyScript (scriptPubKey : Nat) (scriptPubKeyLen : UInt32)
    (txTo : Option Nat) (txToLen : UInt32) (nIn flags : UInt32) (err : Option Error) :
    Option (Int32 × Option Error) :=
  match TxInputStream.unserialize m tools.unserialize ⟨txTo, txToLen.toNat⟩ with
  | none => none
  | some (.error _) => some (setError err .ERR_TX_DESERIALIZE)
  | some (.ok (tx, _)) =>
    match tx.vin[nIn.toNat]? with
    -- `nIn >= tx.vin.size()`
    | none => some (setError err .ERR_TX_INDEX)
    | some txin =>
      if tools.getSerializeSize tx ≠ txToLen.toNat then some (setError err .ERR_TX_SIZE_MISMATCH)
      else
        match m.copy scriptPubKey scriptPubKeyLen.toNat with
        | none => none
        | some script =>
          match tools.verifyScript txin.scriptSig script flags tx nIn with
          | some verified => some (if verified = true then 1 else 0, (setError err .ERR_OK).2)
          | none => some (setError err .ERR_TX_DESERIALIZE)

/-! ## Results -/

section Results

variable {tools m} {scriptPubKey txTo : Nat} {scriptPubKeyLen txToLen nIn flags : UInt32}
  {script : CScript} {bytes : Bytes} (err : Option Error)

/-- What the call does with a buffer, by what can be read from the buffer. -/
theorem verify_read (hlen : txToLen.toNat = bytes.length)
    (hcopy : m.copy txTo bytes.length = some bytes)
    {tx : Transaction Uint256} {left : Bytes}
    (hrun : tools.unserialize.run bytes = some (tx, left)) :
    bitcoinconsensusVerifyScript tools m scriptPubKey scriptPubKeyLen (some txTo) txToLen nIn flags
        err =
      match tx.vin[nIn.toNat]? with
      | none => some (setError err .ERR_TX_INDEX)
      | some txin =>
        if left ≠ [] then some (setError err .ERR_TX_SIZE_MISMATCH)
        else
          match m.copy scriptPubKey scriptPubKeyLen.toNat with
          | none => none
          | some script =>
            match tools.verifyScript txin.scriptSig script flags tx nIn with
            | some verified => some (if verified = true then 1 else 0, (setError err .ERR_OK).2)
            | none => some (setError err .ERR_TX_DESERIALIZE) := by
  have hover : TxInputStream.Over m ⟨some txTo, txToLen.toNat⟩ bytes := ⟨hlen, txTo, rfl, hcopy⟩
  have hstream := hover.unserialize tools.unserialize
  rw [hrun] at hstream
  obtain ⟨stream', -, hunserialize⟩ := hstream
  have hsize : tools.getSerializeSize tx ≠ txToLen.toNat ↔ left ≠ [] := by
    have hread := tools.size_unserialize bytes tx left hrun
    rw [hlen, hread, ne_eq, ne_eq, ← List.length_eq_zero_iff]
    omega
  simp only [bitcoinconsensusVerifyScript, hunserialize, hsize]

theorem verify_unreadable (hlen : txToLen.toNat = bytes.length)
    (hcopy : m.copy txTo bytes.length = some bytes) (hrun : tools.unserialize.run bytes = none) :
    bitcoinconsensusVerifyScript tools m scriptPubKey scriptPubKeyLen (some txTo) txToLen nIn flags
      err = some (setError err .ERR_TX_DESERIALIZE) := by
  have hover : TxInputStream.Over m ⟨some txTo, txToLen.toNat⟩ bytes := ⟨hlen, txTo, rfl, hcopy⟩
  have hstream := hover.unserialize tools.unserialize
  rw [hrun] at hstream
  obtain ⟨failure, hunserialize⟩ := hstream
  simp only [bitcoinconsensusVerifyScript, hunserialize]

/-- Without an exception from `VerifyScript`, no error is reported exactly if all of the buffer is
one transaction with that input. -/
theorem ok_iff (hlen : txToLen.toNat = bytes.length)
    (hcopy : m.copy txTo bytes.length = some bytes)
    (hscript : m.copy scriptPubKey scriptPubKeyLen.toNat = some script)
    (hverify : ∀ scriptSig tx, tools.verifyScript scriptSig script flags tx nIn ≠ none)
    (old : Error) :
    (∃ result, bitcoinconsensusVerifyScript tools m scriptPubKey scriptPubKeyLen (some txTo) txToLen
        nIn flags (some old) = some (result, some .ERR_OK)) ↔
      ∃ tx, tools.unserialize.run bytes = some (tx, []) ∧ nIn.toNat < tx.vin.length := by
  cases hrun : tools.unserialize.run bytes with
  | none => simp [verify_unreadable (some old) hlen hcopy hrun, setError]
  | some r =>
    obtain ⟨tx, left⟩ := r
    rw [verify_read (some old) hlen hcopy hrun]
    cases hin : tx.vin[nIn.toNat]? with
    | none =>
      have hindex := List.getElem?_eq_none_iff.mp hin
      have hshort : ¬ nIn.toNat < tx.vin.length := by omega
      simp only [setError, Option.map_some, Option.some.injEq, Prod.mk.injEq, reduceCtorEq,
        and_false, exists_false, false_iff]
      rintro ⟨tx', ⟨rfl, -⟩, hlt⟩
      exact hshort hlt
    | some txin =>
      obtain ⟨hindex, -⟩ := List.getElem?_eq_some_iff.mp hin
      by_cases hleft : left = []
      · obtain ⟨verified, hverified⟩ :=
          Option.ne_none_iff_exists'.mp (hverify txin.scriptSig tx)
        simp only [hleft, ne_eq, not_true_eq_false, if_false, hscript, hverified]
        exact ⟨fun _ => ⟨tx, rfl, hindex⟩, fun _ => ⟨_, rfl⟩⟩
      · simp [hleft, setError]

/-- **The buffer of an encoded transaction is verified as it is; when its end is missing it is no
transaction, and when something follows its size is wrong. Nothing outside the buffers is read.** -/
theorem verify_whole {encoded : Bytes} {tx : Transaction Uint256} {txin : Tx.CTxIn Uint256}
    {verified : Bool} (hencoded : tools.unserialize.run encoded = some (tx, []))
    (hin : tx.vin[nIn.toNat]? = some txin) (hlen : txToLen.toNat = bytes.length)
    (hcopy : m.copy txTo bytes.length = some bytes)
    (hscript : m.copy scriptPubKey scriptPubKeyLen.toNat = some script)
    (hverify : tools.verifyScript txin.scriptSig script flags tx nIn = some verified) :
    (bytes = encoded → bitcoinconsensusVerifyScript tools m scriptPubKey scriptPubKeyLen
      (some txTo) txToLen nIn flags err =
        some (if verified = true then 1 else 0, err.map fun _ => .ERR_OK)) ∧
    (bytes <+: encoded → bytes ≠ encoded → bitcoinconsensusVerifyScript tools m scriptPubKey
      scriptPubKeyLen (some txTo) txToLen nIn flags err =
        some (0, err.map fun _ => .ERR_TX_DESERIALIZE)) ∧
    (encoded <+: bytes → bytes ≠ encoded → bitcoinconsensusVerifyScript tools m scriptPubKey
      scriptPubKeyLen (some txTo) txToLen nIn flags err =
        some (0, err.map fun _ => .ERR_TX_SIZE_MISMATCH)) := by
  refine ⟨?_, ?_, ?_⟩
  · rintro rfl
    rw [verify_read err hlen hcopy hencoded]
    simp only [hin, ne_eq, not_true_eq_false, if_false, hscript, hverify, setError]
  · rintro ⟨cut, rfl⟩ hne
    have hcut : cut ≠ [] := by
      rintro rfl
      exact hne (List.append_nil bytes).symm
    exact verify_unreadable err hlen hcopy (Reads.run_cut hencoded hcut)
  · rintro ⟨more, rfl⟩ hne
    have hmore : more ≠ [] := by
      rintro rfl
      exact hne (List.append_nil encoded)
    rw [verify_read err hlen hcopy (Reads.run_append hencoded more)]
    simp only [hin, List.nil_append, ne_eq, hmore, not_false_eq_true, if_true, setError]

end Results

end Call

/-! ## A sample -/

/-- The first byte counts the inputs, and each has one byte of script. -/
def sampleUnserialize : Reads UInt8 (Transaction Nat) :=
  .read 1 fun header => .read (header.headD 0).toNat fun scripts =>
    .done ⟨1, scripts.map fun b => ⟨⟨0, 0⟩, [b], 0⟩, [], 0⟩

theorem size_sampleUnserialize (bytes : Bytes) (tx : Transaction Nat) (left : Bytes)
    (hrun : sampleUnserialize.run bytes = some (tx, left)) :
    bytes.length = tx.vin.length + 1 + left.length := by
  cases bytes with
  | nil => simp [sampleUnserialize, Reads.run] at hrun
  | cons b rest =>
    by_cases hb : b.toNat ≤ rest.length
    · obtain ⟨rfl, rfl⟩ : _ = tx ∧ rest.drop b.toNat = left := by
        simpa [sampleUnserialize, Reads.run, hb] using hrun
      simp only [List.length_map, List.length_take, List.length_drop, List.length_cons]
      omega
    · simp [sampleUnserialize, Reads.run, hb] at hrun

/-- Transactions whose number of inputs is the first byte, and a verdict that compares the scripts.
-/
def sampleTools : ConsensusTools Nat where
  unserialize := sampleUnserialize
  getSerializeSize tx := tx.vin.length + 1
  verifyScript scriptSig script _ _ _ := some (decide (scriptSig = script))
  size_unserialize := size_sampleUnserialize

/-- The buffer of a transaction with two inputs, and a script after it. -/
def sampleMemory : Memory := fun address => [2, 7, 8, 9, 8][address]?

/-- A transaction of two inputs, with the scripts `7` and `8`. -/
def sampleTx : Transaction Nat := ⟨1, [⟨⟨0, 0⟩, [7], 0⟩, ⟨⟨0, 0⟩, [8], 0⟩], [], 0⟩

theorem verify_whole_sample :
    bitcoinconsensusVerifyScript sampleTools sampleMemory 4 1 (some 0) 3 1 0 none = some (1, none) ∧
    bitcoinconsensusVerifyScript sampleTools sampleMemory 4 1 (some 0) 2 1 0 (some .ERR_OK) =
      some (0, some .ERR_TX_DESERIALIZE) ∧
    bitcoinconsensusVerifyScript sampleTools sampleMemory 4 1 (some 0) 4 1 0 (some .ERR_OK) =
      some (0, some .ERR_TX_SIZE_MISMATCH) := by
  have hencoded : sampleTools.unserialize.run [2, 7, 8] = some (sampleTx, []) := rfl
  have hin : sampleTx.vin[(1 : UInt32).toNat]? = some ⟨⟨0, 0⟩, [8], 0⟩ := rfl
  have hscript : sampleMemory.copy 4 (1 : UInt32).toNat = some [8] := rfl
  have hverify : sampleTools.verifyScript [8] [8] 0 sampleTx 1 = some true := rfl
  have hthree : sampleMemory.copy 0 [(2 : UInt8), 7, 8].length = some [2, 7, 8] := rfl
  have htwo : sampleMemory.copy 0 [(2 : UInt8), 7].length = some [2, 7] := rfl
  have hfour : sampleMemory.copy 0 [(2 : UInt8), 7, 8, 9].length = some [2, 7, 8, 9] := rfl
  exact ⟨(verify_whole none hencoded hin rfl hthree hscript hverify).1 rfl,
    (verify_whole (some .ERR_OK) hencoded hin rfl htwo hscript hverify).2.1 (by decide) (by decide),
    (verify_whole (some .ERR_OK) hencoded hin rfl hfour hscript hverify).2.2 (by decide)
      (by decide)⟩

end ChainX.Consensus
