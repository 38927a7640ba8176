import ChainX.Codec.Grammar

/-!
# Strings and lists of strings survive the codec

`WriteVarstr31` and `WriteVarstrList` (`blockchain.go:167-191`) against `ReadVarstr31` and
`ReadVarstrList`.

`Appends write enc` says that a writing function appends `enc` to a buffer and reports its length
and no error. For every string and list in range there is such an `enc`, and it is one of the
grammar of `Grammar` (`appends_varstr31`, `appends_varstrList`), so that the reading functions take
it back from the front of whatever follows (**`codec_roundtrip`**).

* In range are strings and lists of up to `MaxInt32` bytes and strings, the empty ones included.
* The bytes are those that the writer makes, not one form out of many: the grammar is only needed to
  read them.
* `varstr31_roundtrip` and `varstrList_roundtrip` have the two halves for one function each; the
  strings of `Extensible` use the first.
-/

namespace ChainX.Codec

open ChainX.Lib

/-- The writing function `write` appends `enc` to a buffer and reports its length. -/
def Appends (write : WriteM Bytes (Nat × Option Err)) (enc : Bytes) : Prop :=
  ∀ w, write w = some ((enc.length, none), w ++ enc)

/-! ## What is written -/

theorem appends_varint31 {n : Nat} (hn : n ≤ MaxInt32.toNat) :
    ∃ enc, IsLength n enc ∧ Appends (writeVarint31 buffer (UInt64.ofNat n)) enc := by
  have hmax : MaxInt32.toNat = 2 ^ 31 - 1 := rfl
  have hval : (UInt64.ofNat n).toNat = n := by
    rw [UInt64.toNat_ofNat']
    exact Nat.mod_eq_of_lt (by omega)
  have hle : UInt64.ofNat n ≤ MaxInt32 := by
    rw [UInt64.le_iff_toNat_le, hval]
    exact hn
  obtain ⟨enc, -, henc, hsends⟩ := sends_writeVarint (by decide) hle
  refine ⟨enc, ⟨?_, henc.length_le, hn⟩, hsends Bytes buffer⟩
  rw [← hval]
  exact henc.groups

theorem appends_varstr31 {str : Bytes} (hstr : str.length ≤ MaxInt32.toNat) :
    ∃ enc, IsVarstr str enc ∧ Appends (writeVarstr31 buffer str) enc := by
  obtain ⟨len, hlen, hwrite⟩ := appends_varint31 hstr
  refine ⟨len ++ str, .intro hlen, fun w => ?_⟩
  unfold writeVarstr31
  rw [bind_run (hwrite w), List.length_append, ← List.append_assoc]
  rfl

/-- The loop writes the strings one after the other, by induction on the list. -/
theorem appends_varstrs : ∀ {l : List Bytes}, (∀ s ∈ l, s.length ≤ MaxInt32.toNat) →
    ∃ enc, IsVarstrs l enc ∧
      ∀ n w, writeVarstrs buffer n l w = some ((n + enc.length, none), w ++ enc)
  | [], _ => by
    refine ⟨[], .nil, fun n w => ?_⟩
    rw [List.append_nil]
    rfl
  | s :: l, h => by
    obtain ⟨enc, henc, hwrite⟩ := appends_varstr31 (h s List.mem_cons_self)
    obtain ⟨rest, hrest, hwrite'⟩ := appends_varstrs fun s hs => h s (List.mem_cons_of_mem _ hs)
    refine ⟨enc ++ rest, .cons henc hrest, fun n w => ?_⟩
    unfold writeVarstrs
    rw [bind_run (hwrite w), List.length_append, ← List.append_assoc, ← Nat.add_assoc]
    exact hwrite' (n + enc.length) (w ++ enc)

theorem appends_varstrList {l : List Bytes} (hlen : l.length ≤ MaxInt32.toNat)
    (hstr : ∀ s ∈ l, s.length ≤ MaxInt32.toNat) :
    ∃ enc, IsVarstrList l enc ∧ Appends (writeVarstrList buffer l) enc := by
  obtain ⟨count, hcount, hwrite⟩ := appends_varint31 hlen
  obtain ⟨enc, henc, hwrite'⟩ := appends_varstrs hstr
  refine ⟨count ++ enc, .intro hcount henc, fun w => ?_⟩
  unfold writeVarstrList
  rw [bind_run (hwrite w), List.length_append, ← List.append_assoc]
  exact hwrite' count.length (w ++ count)

/-! ## What is read back -/

theorem varstr31_roundtrip {str : Bytes} (hstr : str.length ≤ MaxInt32.toNat) :
    ∃ enc, Appends (writeVarstr31 buffer str) enc ∧
      ∀ t, readVarstr31 (enc ++ t) = (.ok str, t) := by
  obtain ⟨enc, henc, hwrite⟩ := appends_varstr31 hstr
  exact ⟨enc, hwrite, fun t => readVarstr31_iff.mpr ⟨enc, henc, rfl⟩⟩

theorem varstrList_roundtrip {l : List Bytes} (hlen : l.length ≤ MaxInt32.toNat)
    (hstr : ∀ s ∈ l, s.length ≤ MaxInt32.toNat) :
    ∃ enc, Appends (writeVarstrList buffer l) enc ∧
      ∀ t, readVarstrList (enc ++ t) = ((l, none), t) := by
  obtain ⟨enc, henc, hwrite⟩ := appends_varstrList hlen hstr
  exact ⟨enc, hwrite, fun t => readVarstrList_iff.mpr ⟨enc, henc, rfl⟩⟩

/-- **The codec round-trips lists of strings in context.** For every list in range of strings in
range there are bytes that `writeVarstrList` appends to a buffer, reporting their number and no
error, and that `readVarstrList` turns into the list again, whatever follows them, leaving exactly
that; and the same for every string in range by itself. -/
theorem codec_roundtrip (l : List Bytes) (hlen : l.length ≤ MaxInt32.toNat)
    (hstr : ∀ s ∈ l, s.length ≤ MaxInt32.toNat) :
    (∃ enc, (∀ w, writeVarstrList buffer l w = some ((enc.length, none), w ++ enc)) ∧
      ∀ t, readVarstrList (enc ++ t) = ((l, none), t)) ∧
    ∀ s : Bytes, s.length ≤ MaxInt32.toNat →
      ∃ enc, (∀ w, writeVarstr31 buffer s w = some ((enc.length, none), w ++ enc)) ∧
        ∀ t, readVarstr31 (enc ++ t) = (.ok s, t) :=
  ⟨varstrList_roundtrip hlen hstr, fun _ hs => varstr31_roundtrip hs⟩

/-- A list with an empty string, in front of a byte that does not belong to it. -/
theorem codec_roundtrip_sample :
    writeVarstrList buffer [[1, 2], []] [] = some ((5, none), [2, 2, 1, 2, 0]) ∧
      readVarstrList [2, 2, 1, 2, 0, 7] = (([[1, 2], []], none), [7]) ∧
      ∃ enc, (∀ w, writeVarstrList buffer [[1, 2], []] w = some ((enc.length, none), w ++ enc)) ∧
        ∀ t, readVarstrList (enc ++ t) = (([[1, 2], []], none), t) :=
  ⟨by decide +kernel, by decide +kernel,
    (codec_roundtrip [[1, 2], []] (by decide) (by decide)).1⟩

end ChainX.Codec
