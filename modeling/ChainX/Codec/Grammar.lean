import ChainX.Codec.Slice
import ChainX.Codec.Varints

/-!
# The grammar of lists of strings, `Blockchain/blockchain.go:90-126`

A string is its length and its bytes (`IsVarstr`), a list is its length and its strings
(`IsVarstrList`), and a length is a varint in any form that `ReadUvarint` accepts, of a value up to
`MaxInt32` (`IsLength`).

* The grammar is said without the reader: of bytes, by the way they are put together. A list of the
  grammar has many encodings, as its lengths have.
* What is read is decided from the front, so that a list and what follows it are told apart: if
  `buf = enc ++ rest` for one list and one rest, it is so for no other (`readVarstrList_iff`).

Results:
* **`readVarstrList_grammar`**: `ReadVarstrList` accepts exactly the lists of this grammar and never
  panics, whatever lies behind the reader's bytes in memory.
* **`cutOff_iff`**: the check behind the loop compares the strings that were read with the counter
  that the loop has brought down, so that only a list cut off before its middle is reported as
  `io.ErrUnexpectedEOF`; on a later cut the `io.EOF` of `ReadUvarint` comes through. The test of the
  package has a list that is cut off and expects the former (`cutOff_second`).
-/

namespace ChainX.Codec

open ChainX.Lib

/-! ## The grammar -/

/-- A varint of `n`, which is at most `MaxInt32`. -/
structure IsLength (n : Nat) (enc : Bytes) : Prop where
  groups : Groups enc n
  length_le : enc.length ≤ 10
  le_max : n ≤ MaxInt32.toNat

/-- The string `s`: a varint of its length, and its bytes. -/
inductive IsVarstr (s : Bytes) : Bytes → Prop
  | intro {len : Bytes} (hlen : IsLength s.length len) : IsVarstr s (len ++ s)

/-- The strings of a list, one after the other. -/
inductive IsVarstrs : List Bytes → Bytes → Prop
  | nil : IsVarstrs [] []
  | cons {s enc rest : Bytes} {l : List Bytes} (hhead : IsVarstr s enc) (htail : IsVarstrs l rest) :
      IsVarstrs (s :: l) (enc ++ rest)

/-- The list `l`: a varint of its length, and its strings. -/
inductive IsVarstrList (l : List Bytes) : Bytes → Prop
  | intro {count enc : Bytes} (hcount : IsLength l.length count) (hstrs : IsVarstrs l enc) :
      IsVarstrList l (count ++ enc)

/-! ## Reading -/

theorem readVarint31_length {buf rest : Bytes} {l : UInt32} :
    readVarint31 buf = (.ok l, rest) ↔ ∃ enc, IsLength l.toNat enc ∧ buf = enc ++ rest := by
  rw [readVarint31_iff]
  constructor
  · rintro ⟨enc, v, henc, hle, rfl, hbuf⟩
    refine ⟨enc, ⟨?_, henc.length_le, ?_⟩, hbuf⟩
    · rw [toNat_toUInt32 hle]
      exact henc.groups
    · rw [toNat_toUInt32 hle]
      exact UInt64.le_iff_toNat_le.mp hle
  · rintro ⟨enc, hlen, hbuf⟩
    have hval : l.toUInt64.toNat = l.toNat := UInt32.toNat_toUInt64 l
    refine ⟨enc, l.toUInt64, ⟨?_, hlen.length_le⟩, ?_, ?_, hbuf⟩
    · rw [hval]
      exact hlen.groups
    · rw [UInt64.le_iff_toNat_le, hval]
      exact hlen.le_max
    · exact UInt32.toNat_inj.mp (by simp)

/-- What is read for a varint of `n`. -/
theorem readVarint31_of_length {n : Nat} {enc : Bytes} (h : IsLength n enc) (rest : Bytes) :
    ∃ l : UInt32, l.toNat = n ∧ readVarint31 (enc ++ rest) = (.ok l, rest) := by
  have hmax : MaxInt32.toNat = 2 ^ 31 - 1 := rfl
  have hle := h.le_max
  have hval : (UInt32.ofNat n).toNat = n := by
    rw [UInt32.toNat_ofNat']
    exact Nat.mod_eq_of_lt (by omega)
  exact ⟨UInt32.ofNat n, hval, readVarint31_length.mpr ⟨enc, by rwa [hval], rfl⟩⟩

theorem readVarstr31_iff {buf s rest : Bytes} :
    readVarstr31 buf = (.ok s, rest) ↔ ∃ enc, IsVarstr s enc ∧ buf = enc ++ rest := by
  constructor
  · intro h
    unfold readVarstr31 at h
    cases hread : readVarint31 buf with
    | mk res buf' =>
      rw [hread] at h
      cases res with
      | error e => exact absurd h (by simp)
      | ok l =>
        obtain ⟨len, hlen, rfl⟩ := readVarint31_length.mp hread
        simp only at h
        by_cases hzero : l = 0
        · rw [if_pos hzero] at h
          obtain ⟨hs, rfl⟩ := Prod.mk.inj h
          obtain rfl := Except.ok.inj hs
          subst hzero
          exact ⟨len, by simpa using IsVarstr.intro (s := []) hlen, rfl⟩
        · rw [if_neg hzero] at h
          by_cases hshort : buf'.length < l.toNat
          · rw [if_pos hshort] at h
            exact absurd h (by simp)
          · rw [if_neg hshort] at h
            obtain ⟨hs, rfl⟩ := Prod.mk.inj h
            obtain rfl := Except.ok.inj hs
            have htake : (buf'.take l.toNat).length = l.toNat := by
              rw [List.length_take]
              exact Nat.min_eq_left (Nat.le_of_not_lt hshort)
            refine ⟨len ++ buf'.take l.toNat, .intro (by rwa [htake]), ?_⟩
            rw [List.append_assoc, List.take_append_drop]
  · rintro ⟨enc, ⟨hlen⟩, rfl⟩
    obtain ⟨l, hl, hread⟩ := readVarint31_of_length hlen (s ++ rest)
    rw [List.append_assoc]
    unfold readVarstr31
    simp only [hread]
    by_cases hzero : l = 0
    · -- a length of zero returns nil and reads nothing more
      subst hzero
      obtain rfl : s = [] := List.length_eq_zero_iff.mp hl.symm
      rw [if_pos rfl]
      rfl
    · have hlong : ¬ (s ++ rest).length < l.toNat := by
        rw [List.length_append]
        omega
      rw [if_neg hzero, if_neg hlong, hl, List.take_left, List.drop_left]

/-- The strings of a list are read one after the other, and then the reader goes on. -/
theorem readVarstrs_append {l : List Bytes} {enc : Bytes} (h : IsVarstrs l enc) :
    ∀ (k : Nat) (result : List Bytes) (rest : Bytes),
      readVarstrs (l.length + k) result (enc ++ rest) = readVarstrs k (result ++ l) rest := by
  induction h with
  | nil =>
    intro k result rest
    simp
  | @cons s enc rest l hhead htail ih =>
    intro k result rest'
    rw [List.length_cons, Nat.add_right_comm, List.append_assoc, readVarstrs,
      readVarstr31_iff.mpr ⟨enc, hhead, rfl⟩]
    simp only [ih, List.append_assoc, List.singleton_append]

/-- The loop ends without an error on the strings of a list, by induction on the strings to go. -/
theorem readVarstrs_none : ∀ {n k : Nat} {result out : List Bytes} {buf rest : Bytes},
    readVarstrs n result buf = ((k, out, none), rest) →
      ∃ l enc, l.length = n ∧ IsVarstrs l enc ∧ out = result ++ l ∧ k = 0 ∧ buf = enc ++ rest
  | 0, k, result, out, buf, rest, h => by
    unfold readVarstrs at h
    simp only [Prod.mk.injEq] at h
    obtain ⟨⟨rfl, rfl, -⟩, rfl⟩ := h
    exact ⟨[], [], rfl, .nil, by simp, rfl, rfl⟩
  | n + 1, k, result, out, buf, rest, h => by
    unfold readVarstrs at h
    cases hread : readVarstr31 buf with
    | mk res buf' =>
      rw [hread] at h
      cases res with
      | error e => exact absurd h (by simp)
      | ok s =>
        obtain ⟨enc, hhead, rfl⟩ := readVarstr31_iff.mp hread
        obtain ⟨l, enc', rfl, htail, rfl, rfl, rfl⟩ := readVarstrs_none h
        exact ⟨s :: l, enc ++ enc', rfl, .cons hhead htail, by simp, rfl, by simp⟩

theorem readVarstrList_iff {buf rest : Bytes} {l : List Bytes} :
    readVarstrList buf = ((l, none), rest) ↔ ∃ enc, IsVarstrList l enc ∧ buf = enc ++ rest := by
  constructor
  · intro h
    unfold readVarstrList at h
    cases hread : readVarint31 buf with
    | mk res buf' =>
      rw [hread] at h
      cases res with
      | error e => exact absurd h (by simp)
      | ok nelts =>
        obtain ⟨count, hcount, rfl⟩ := readVarint31_length.mp hread
        simp only at h
        by_cases hzero : nelts = 0
        · rw [if_pos hzero] at h
          simp only [Prod.mk.injEq, and_true] at h
          obtain ⟨rfl, rfl⟩ := h
          subst hzero
          exact ⟨count, by simpa using IsVarstrList.intro (l := []) hcount .nil, rfl⟩
        · rw [if_neg hzero] at h
          cases hloop : readVarstrs nelts.toNat [] buf' with
          | mk out rest' =>
            obtain ⟨k, result, err⟩ := out
            rw [hloop] at h
            simp only [Prod.mk.injEq] at h
            obtain ⟨⟨rfl, herr⟩, rfl⟩ := h
            -- an error of the loop is not lost: it stays or becomes another one
            by_cases hshort : result.length < k
            · rw [if_pos hshort] at herr
              exact absurd herr (by simp)
            · rw [if_neg hshort] at herr
              subst herr
              obtain ⟨l, enc, hlen, hstrs, hresult, -, rfl⟩ := readVarstrs_none hloop
              rw [List.nil_append] at hresult
              subst hresult
              exact ⟨count ++ enc, .intro (by rwa [hlen]) hstrs, (List.append_assoc _ _ _).symm⟩
  · rintro ⟨enc, ⟨hcount, hstrs⟩, rfl⟩
    rename_i count strs
    obtain ⟨nelts, hnelts, hread⟩ := readVarint31_of_length hcount (strs ++ rest)
    have hloop := readVarstrs_append hstrs 0 [] rest
    rw [List.append_assoc]
    unfold readVarstrList
    simp only [hread]
    by_cases hzero : nelts = 0
    · subst hzero
      obtain rfl : l = [] := List.length_eq_zero_iff.mp hnelts.symm
      cases hstrs
      rw [if_pos rfl]
      rfl
    · rw [Nat.add_zero, ← hnelts] at hloop
      rw [if_neg hzero, hloop]
      simp [readVarstrs]

/-- **`ReadVarstrList` accepts exactly its grammar.** On a reader over any slice it does not panic
and tells of the bytes of the slice alone, and it returns the list `l` without an error and leaves
`rest` if and only if the bytes are a list `l` of the grammar followed by `rest`. -/
theorem readVarstrList_grammar (s : Slice) : ∃ result err s',
    Reader.readVarstrList s = some ((result, err), s') ∧
      readVarstrList s.bytes = ((result.map Slice.bytes, err), s'.bytes) ∧
      ∀ l rest, (err = none ∧ result.map Slice.bytes = l ∧ s'.bytes = rest) ↔
        ∃ enc, IsVarstrList l enc ∧ s.bytes = enc ++ rest := by
  obtain ⟨result, err, s', hslice, hbytes⟩ := Reader.readVarstrList_refines s
  refine ⟨result, err, s', hslice, hbytes, fun l rest => ?_⟩
  rw [← readVarstrList_iff, hbytes]
  constructor
  · rintro ⟨rfl, rfl, rfl⟩
    rfl
  · intro h
    simp only [Prod.mk.injEq] at h
    exact ⟨h.1.2, h.1.1, h.2⟩

/-! ## Lists that are cut off -/

variable {l : List Bytes} {n : Nat} {count enc : Bytes}

/-- The loop has brought the counter down by the strings it read and the one it could not read. -/
theorem readVarstrList_cutOff (hcount : IsLength n count) (hstrs : IsVarstrs l enc)
    (hlt : l.length < n) : readVarstrList (count ++ enc) =
      ((l ++ [[]],
        some (if l.length + 1 < n - l.length - 1 then .unexpectedEOF else .eof)), []) := by
  obtain ⟨nelts, hnelts, hread⟩ := readVarint31_of_length hcount enc
  have hzero : nelts ≠ 0 := by
    rintro rfl
    have hzero' : (0 : UInt32).toNat = 0 := rfl
    omega
  have hloop := readVarstrs_append hstrs (n - l.length - 1 + 1) [] []
  have hn : l.length + (n - l.length - 1 + 1) = nelts.toNat := by omega
  rw [List.append_nil, hn] at hloop
  unfold readVarstrList
  rw [hread]
  simp only [if_neg hzero, hloop]
  have hend : readVarstr31 [] = (.error .eof, []) := by decide +kernel
  simp only [readVarstrs, hend, List.nil_append, List.length_append, List.length_singleton]
  split <;> rfl

/-- **A list that is cut off is reported as such when it is cut off early**: `ReadVarstrList`
returns `io.ErrUnexpectedEOF` if and only if the announced count exceeds twice the strings that are
there by more than two. -/
theorem cutOff_iff (hcount : IsLength n count) (hstrs : IsVarstrs l enc) (hlt : l.length < n) :
    (readVarstrList (count ++ enc)).1.2 = some .unexpectedEOF ↔ 2 * l.length + 2 < n := by
  rw [readVarstrList_cutOff hcount hstrs hlt]
  by_cases h : l.length + 1 < n - l.length - 1
  · simp only [if_pos h]
    exact iff_of_true trivial (by omega)
  · simp only [if_neg h]
    exact iff_of_false (by simp) (by omega)

theorem isVarstrs_seven : IsVarstrs [[7]] [1, 7] := by
  have hhead : IsVarstr [7] [1, 7] :=
    @IsVarstr.intro [7] [1] ⟨.last 1 (by decide), by decide, by decide⟩
  exact .cons hhead .nil

/-- Of five strings the first is there. -/
theorem cutOff_iff_first : IsLength 5 [5] ∧ IsVarstrs [[7]] [1, 7] ∧
    (readVarstrList [5, 1, 7]).1.2 = some .unexpectedEOF := by
  have hcount : IsLength 5 [5] := ⟨.last 5 (by decide), by decide, by decide⟩
  exact ⟨hcount, isVarstrs_seven, (cutOff_iff hcount isVarstrs_seven (by decide)).mpr (by decide)⟩

/-- Of two strings the first is there. The loop ends with two results and a counter of zero, and the
error is that of a reader at its end. -/
theorem cutOff_second : IsLength 2 [2] ∧ IsVarstrs [[7]] [1, 7] ∧ [[7]].length < 2 ∧
    readVarstrList ([2] ++ [1, 7]) = (([[7], []], some .eof), []) :=
  ⟨⟨.last 2 (by decide), by decide, by decide⟩, isVarstrs_seven, by decide, by decide +kernel⟩

end ChainX.Codec
