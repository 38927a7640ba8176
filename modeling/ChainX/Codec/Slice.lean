import ChainX.Codec.Basic
import ChainX.Lib.Client
import Mathlib.Data.Nat.Notation

/-!
# Readers over slices

`Basic` has a reader as its unread bytes. Here it is what it is in Go, a slice: the memory from its
first byte up to its capacity, and a length. Code that slices past the capacity, or indexes past the
length, panics; code that slices past the length but within the capacity gets at bytes that are not
the reader's. The functions are those of `Blockchain/blockchain.go:41-126` again, with the slice
expressions as they stand there.

* `Slice.index`, `Slice.upTo` and `Slice.dropped` are `s[i]`, `s[:n]` and `s[n:]`, each with the
  check that Go makes.
* A string that is read is a slice of the reader's memory, so whoever holds it could reach what
  comes after it. `readVarstr31_refines` says of it only what its bytes are.

**`Refines`**: a function over slices never panics, and does to the bytes of the slice what its
counterpart over bytes does, whatever lies between length and capacity: `readByte_refines`,
`read_refines`, `readUvarint_refines`, `readVarint31_refines`, `readVarstr31_refines`,
`readVarstrList_refines`.
-/

namespace ChainX.Codec

open ChainX.Lib

/-! ## Slices -/

/-- A slice of bytes. -/
structure Slice where
  /-- The memory from the first byte up to the capacity. -/
  mem : Bytes
  len : Nat
  len_le : len ≤ mem.length

namespace Slice

/-- The bytes up to the length. -/
def bytes (s : Slice) : Bytes := s.mem.take s.len

/-- The nil slice. -/
def nil : Slice := ⟨[], 0, Nat.le_refl 0⟩

/-- `s[i]`. -/
def index (s : Slice) (i : Nat) : Option UInt8 := if i < s.len then s.mem[i]? else none

/-- `s[:l]`, up to the capacity. -/
def upTo (s : Slice) (l : Nat) : Option Slice :=
  if h : l ≤ s.mem.length then some ⟨s.mem, l, h⟩ else none

/-- `s[l:]`, up to the length. -/
def dropped (s : Slice) (l : Nat) : Option Slice :=
  if l ≤ s.len then
    some ⟨s.mem.drop l, s.len - l, by rw [List.length_drop]; exact Nat.sub_le_sub_right s.len_le l⟩
  else none

@[simp] theorem length_bytes (s : Slice) : s.bytes.length = s.len := by
  rw [bytes, List.length_take, Nat.min_eq_left s.len_le]

theorem index_eq (s : Slice) {i : Nat} (h : i < s.len) : s.index i = s.bytes[i]? := by
  rw [index, if_pos h, bytes, List.getElem?_take_of_lt h]

/-- Within the length, `s[:l]` are the first bytes. -/
theorem upTo_eq (s : Slice) {l : Nat} (h : l ≤ s.len) :
    ∃ s', s.upTo l = some s' ∧ s'.bytes = s.bytes.take l := by
  refine ⟨_, dif_pos (h.trans s.len_le), ?_⟩
  rw [bytes, bytes, List.take_take, Nat.min_eq_left h]

theorem dropped_eq (s : Slice) {l : Nat} (h : l ≤ s.len) :
    ∃ s', s.dropped l = some s' ∧ s'.bytes = s.bytes.drop l := by
  refine ⟨_, if_pos h, ?_⟩
  rw [bytes, bytes, List.drop_take]

end Slice

/-! ## The functions -/

/-- Code that reads from a slice. `none` is a panic. -/
abbrev ReadM := StateT Slice Option

namespace Reader

/-- `len(r.buf)`. -/
def len : ReadM Nat := do return (← get).len

/-- `ReadByte`, which moves the slice on by one. -/
def readByte : ReadM (Except Err UInt8) := do
  let buf ← get
  if buf.len = 0 then
    return .error .eof
  let b ← (buf.index 0 : Option UInt8)
  set (← (buf.dropped 1 : Option Slice))
  return .ok b

/-- `Read`, into a slice of length `p`: the bytes copied and the error. -/
def read (p : Nat) : ReadM (Bytes × Option Err) := do
  let buf ← get
  let copied := buf.bytes.take p
  let buf ← (buf.dropped copied.length : Option Slice)
  set buf
  return (copied, if buf.len = 0 then some .eof else none)

/-- The loop of `binary.ReadUvarint`, for at most `rounds` bytes. -/
def readUvarintLoop (x : UInt64) (s i : Nat) : Nat → ReadM (Except Err UInt64)
  | 0 => return .error .eof
  | rounds + 1 => do
    match ← readByte with
    | .error e => return .error e
    | .ok b =>
      if b < 0x80 then
        if 9 < i ∨ (i = 9 ∧ 1 < b) then return .error .overflow
        else return .ok (x ||| shl b.toUInt64 s)
      else readUvarintLoop (x ||| shl (b &&& 0x7f).toUInt64 s) (s + 7) (i + 1) rounds

/-- `binary.ReadUvarint`. The loop reads no more bytes than there are, and the end of them. -/
def readUvarint : ReadM (Except Err UInt64) := do
  readUvarintLoop 0 0 0 ((← get).len + 1)

/-- `readVarint31` on the slice. -/
def readVarint31 : ReadM (Except Err UInt32) := do
  match ← readUvarint with
  | .error e => return .error e
  | .ok val => if MaxInt32 < val then return .error .range else return .ok val.toUInt32

/-- `readVarstr31` on the slice: what it returns shares the array of the buffer. -/
def readVarstr31 : ReadM (Except Err Slice) := do
  match ← readVarint31 with
  | .error e => return .error e
  | .ok l =>
    if l = 0 then
      return .ok .nil
    let buf ← get
    if buf.len < l.toNat then
      return .error .unexpectedEOF
    let str ← (buf.upTo l.toNat : Option Slice)
    set (← (buf.dropped l.toNat : Option Slice))
    return .ok str

/-- The loop of `readVarstrList`, as in `Codec.readVarstrs`. -/
def readVarstrs : Nat → List Slice → ReadM (Nat × List Slice × Option Err)
  | 0, result => return (0, result, none)
  | nelts + 1, result => do
    match ← readVarstr31 with
    | .error e => return (nelts, result ++ [.nil], some e)
    | .ok s => readVarstrs nelts (result ++ [s])

/-- `readVarstrList` on the slice. -/
def readVarstrList : ReadM (List Slice × Option Err) := do
  match ← readVarint31 with
  | .error e => return ([], some e)
  | .ok nelts =>
    if nelts = 0 then
      return ([], none)
    let (nelts, result, err) ← readVarstrs nelts.toNat []
    return (result, if result.length < nelts then some .unexpectedEOF else err)

end Reader

/-! ## Refinement -/

/-- `m` never panics, and does to the bytes of a slice what `f` does. -/
def Refines {α : Type} (m : ReadM α) (f : Bytes → α × Bytes) : Prop :=
  ∀ r, ∃ r', m r = some ((f r.bytes).1, r') ∧ r'.bytes = (f r.bytes).2

namespace Reader

theorem len_refines : Refines len fun buf => (buf.length, buf) := by
  intro r
  refine ⟨r, ?_, rfl⟩
  rw [len, bind_run get_run, pure_run, ← r.length_bytes]

theorem readByte_refines : Refines readByte Codec.readByte := by
  intro r
  rw [readByte, bind_run get_run]
  cases hbytes : r.bytes with
  | nil =>
    have hlen : r.len = 0 := by rw [← r.length_bytes, hbytes]; rfl
    rw [if_pos hlen]
    exact ⟨r, rfl, hbytes⟩
  | cons b bs =>
    have hlen : 0 < r.len := by rw [← r.length_bytes, hbytes]; exact Nat.succ_pos _
    have hindex : r.index 0 = some b := by rw [r.index_eq hlen, hbytes]; rfl
    obtain ⟨r', hdrop, hr'⟩ := r.dropped_eq (l := 1) hlen
    rw [if_neg (Nat.pos_iff_ne_zero.mp hlen)]
    refine ⟨r', ?_, by rw [hr', hbytes]; rfl⟩
    rw [bind_run (lift_run hindex), bind_run (lift_run hdrop), bind_run set_run]
    rfl

theorem read_refines (p : Nat) : Refines (read p) (Codec.read p) := by
  intro r
  have hle : (r.bytes.take p).length ≤ r.len := by
    rw [← r.length_bytes]
    exact List.length_take_le' p r.bytes
  obtain ⟨r', hdrop, hr'⟩ := r.dropped_eq hle
  have hbytes : r'.bytes = r.bytes.drop p := by
    rw [hr', List.length_take]
    rcases Nat.le_total p r.bytes.length with h | h
    · rw [Nat.min_eq_left h]
    · rw [Nat.min_eq_right h, List.drop_length, List.drop_of_length_le h]
  refine ⟨r', ?_, hbytes⟩
  rw [read, bind_run get_run]
  rw [bind_run (lift_run hdrop), bind_run set_run, pure_run, Codec.read, ← hbytes, r'.length_bytes]

/-- The loop over a slice is the loop over its bytes, by induction on the rounds. -/
theorem readUvarintLoop_spec : ∀ {rounds : Nat} (x : UInt64) (s i : Nat) {r : Slice},
    r.len < rounds → ∃ r', readUvarintLoop x s i rounds r =
        some ((Lib.readUvarintLoop x s i r.bytes).1.mapError Err.ofVarint, r') ∧
      r'.bytes = (Lib.readUvarintLoop x s i r.bytes).2
  | 0, _, _, _, _, h => absurd h (Nat.not_lt_zero _)
  | rounds + 1, x, s, i, r, h => by
    obtain ⟨r1, h1, hr1⟩ := readByte_refines r
    rw [readUvarintLoop, bind_run h1]
    cases hbytes : r.bytes with
    | nil =>
      rw [hbytes] at hr1
      exact ⟨r1, rfl, hr1⟩
    | cons b bs =>
      rw [hbytes] at hr1
      replace hr1 : r1.bytes = bs := hr1
      have hlen : r1.len < rounds := by
        rw [← r1.length_bytes, hr1]
        rw [← r.length_bytes, hbytes, List.length_cons] at h
        omega
      simp only [Codec.readByte, Lib.readUvarintLoop]
      by_cases hb : b < 0x80
      · rw [if_pos hb, if_pos hb]
        by_cases hover : 9 < i ∨ (i = 9 ∧ 1 < b)
        · rw [if_pos hover, if_pos hover]
          exact ⟨r1, rfl, hr1⟩
        · rw [if_neg hover, if_neg hover]
          exact ⟨r1, rfl, hr1⟩
      · rw [if_neg hb, if_neg hb, ← hr1]
        exact readUvarintLoop_spec _ _ _ hlen

theorem readUvarint_refines : Refines readUvarint fun buf =>
    ((Lib.readUvarint buf).1.mapError Err.ofVarint, (Lib.readUvarint buf).2) := by
  intro r
  rw [readUvarint, bind_run get_run]
  exact readUvarintLoop_spec 0 0 0 (Nat.lt_succ_self r.len)

theorem readVarint31_refines : Refines readVarint31 Codec.readVarint31 := by
  intro r
  obtain ⟨r', hread, hr'⟩ := readUvarint_refines r
  rw [readVarint31, bind_run hread]
  cases hval : Lib.readUvarint r.bytes with
  | mk res buf =>
    simp only [hval] at hr'
    simp only [Codec.readVarint31, readVarint, hval]
    cases res with
    | error e => exact ⟨r', rfl, hr'⟩
    | ok val =>
      by_cases hmax : MaxInt32 < val
      · simp only [Except.mapError, if_pos hmax]
        exact ⟨r', rfl, hr'⟩
      · simp only [Except.mapError, if_neg hmax]
        exact ⟨r', rfl, hr'⟩

/-- The string comes as a slice of the reader's own memory: what is told of it are its bytes. -/
theorem readVarstr31_refines (r : Slice) : ∃ res r', readVarstr31 r = some (res, r') ∧
    res.map Slice.bytes = (Codec.readVarstr31 r.bytes).1 ∧
    r'.bytes = (Codec.readVarstr31 r.bytes).2 := by
  obtain ⟨r1, hread, hr1⟩ := readVarint31_refines r
  rw [readVarstr31, bind_run hread]
  cases hval : Codec.readVarint31 r.bytes with
  | mk res buf =>
    simp only [hval] at hr1
    simp only [Codec.readVarstr31, hval]
    cases res with
    | error e => exact ⟨_, r1, rfl, rfl, hr1⟩
    | ok l =>
      by_cases hzero : l = 0
      · simp only [if_pos hzero]
        exact ⟨_, r1, rfl, rfl, hr1⟩
      · simp only [if_neg hzero, ← hr1, r1.length_bytes]
        rw [bind_run get_run]
        by_cases hshort : r1.len < l.toNat
        · simp only [if_pos hshort]
          exact ⟨_, r1, rfl, rfl, rfl⟩
        · obtain ⟨str, hupTo, hstr⟩ := r1.upTo_eq (Nat.le_of_not_lt hshort)
          obtain ⟨r2, hdrop, hr2⟩ := r1.dropped_eq (Nat.le_of_not_lt hshort)
          simp only [if_neg hshort]
          rw [bind_run (lift_run hupTo), bind_run (lift_run hdrop), bind_run set_run]
          exact ⟨_, r2, rfl, congrArg Except.ok hstr, hr2⟩

/-- The loop over a slice is the loop over its bytes, by induction on the strings to go. -/
theorem readVarstrs_refines : ∀ (nelts : Nat) (result : List Slice) (r : Slice),
    ∃ k out err r', readVarstrs nelts result r = some ((k, out, err), r') ∧
      Codec.readVarstrs nelts (result.map Slice.bytes) r.bytes =
        ((k, out.map Slice.bytes, err), r'.bytes)
  | 0, result, r => ⟨0, result, none, r, rfl, rfl⟩
  | nelts + 1, result, r => by
    obtain ⟨res, r1, hread, hres, hr1⟩ := readVarstr31_refines r
    rw [readVarstrs, bind_run hread, Codec.readVarstrs]
    cases hval : Codec.readVarstr31 r.bytes with
    | mk res' buf =>
      rw [hval] at hres hr1
      simp only at hres hr1
      subst hres hr1
      cases res with
      | error e =>
        refine ⟨nelts, _, some e, r1, rfl, ?_⟩
        rw [List.map_append]
        rfl
      | ok s =>
        obtain ⟨k, out, err, r2, hloop, hr2⟩ := readVarstrs_refines nelts (result ++ [s]) r1
        rw [List.map_append] at hr2
        exact ⟨k, out, err, r2, hloop, hr2⟩

theorem readVarstrList_refines (r : Slice) : ∃ result err r',
    readVarstrList r = some ((result, err), r') ∧
      Codec.readVarstrList r.bytes = ((result.map Slice.bytes, err), r'.bytes) := by
  obtain ⟨r1, hread, hr1⟩ := readVarint31_refines r
  rw [readVarstrList, bind_run hread, Codec.readVarstrList]
  cases hval : Codec.readVarint31 r.bytes with
  | mk res buf =>
    rw [hval] at hr1
    simp only at hr1
    subst hr1
    cases res with
    | error e => exact ⟨[], some e, r1, rfl, rfl⟩
    | ok nelts =>
      by_cases hzero : nelts = 0
      · simp only [if_pos hzero]
        exact ⟨[], none, r1, rfl, rfl⟩
      · obtain ⟨k, out, err, r2, hloop, hr2⟩ := readVarstrs_refines nelts.toNat [] r1
        rw [List.map_nil] at hr2
        simp only [if_neg hzero, hr2, List.length_map]
        rw [bind_run hloop]
        exact ⟨_, _, r2, rfl, rfl⟩

end Reader

end ChainX.Codec
