import ChainX.Codec.Basic

/-!
# Varints with a limit, `Blockchain/blockchain.go:62-86, 145-164`

`WriteVarint31` and `WriteVarint63` are one function with two limits (`writeVarint`), and so are
`ReadVarint31` and `ReadVarint63`. A value beyond the limit is refused before a buffer is taken from
the pool (`Refuses`); any other one is put into the buffer and handed to the writer in one call
(`Sends`). The nine bytes of the buffer are enough, because nine groups of seven bits make the 63
bits of `MaxInt64`.

* The limits are compared as `uint64` values, before anything is cut to 32 bits: the cast in
  `ReadVarint31` loses nothing (`toNat_toUInt32`).
* Both readers return `ErrRange` for a varint of 64 bits beyond their limit and leave what follows
  it; for a varint of more than 64 bits they return the error of `ReadUvarint`.

Results:
* `readVarint31_iff`: what `ReadVarint31` accepts.
* **`varints_exact`**: what the writers write the readers read, and what they refuse is refused.
-/

namespace ChainX.Codec

open ChainX.Lib

/-! ## Writing -/

/-- Whatever the writer is, nothing is written and the error is `ErrRange`. -/
def Refuses (write : ∀ {W : Type}, Writer W → WriteM W (Nat × Option Err)) : Prop :=
  ∀ (W : Type) (out : Writer W) (w : W), write out w = some ((0, some .range), w)

/-- Whatever the writer is, it is handed the bytes `enc`, and what it returns is returned. -/
def Sends (write : ∀ {W : Type}, Writer W → WriteM W (Nat × Option Err)) (enc : Bytes) : Prop :=
  ∀ (W : Type) (out : Writer W) (w : W), write out w = some (out.write enc w)

variable {max v : UInt64}

theorem refuses_writeVarint (h : max < v) : Refuses fun out => writeVarint out max v := by
  intro W out w
  show writeVarint out max v w = _
  unfold writeVarint
  rw [if_pos h]
  rfl

/-- A value within the limit fits the buffer. -/
theorem sends_writeVarint (hmax : max ≤ MaxInt64) (h : v ≤ max) :
    ∃ enc, enc.length ≤ 9 ∧ IsVarint v enc ∧ Sends (fun out => writeVarint out max v) enc := by
  have hlt : v.toNat < 2 ^ (7 * (8 + 1)) := by
    have hlimit : MaxInt64.toNat = 2 ^ 63 - 1 := rfl
    have hle := UInt64.le_iff_toNat_le.mp (UInt64.le_trans h hmax)
    omega
  obtain ⟨enc, henc⟩ := putUvarint_of_lt hlt
  refine ⟨enc, (length_putUvarint henc).1, isVarint_putUvarint henc, fun W out w => ?_⟩
  show writeVarint out max v w = _
  unfold writeVarint
  rw [if_neg (UInt64.not_lt.mpr h), henc]
  rfl

/-! ## Reading -/

theorem readVarint_iff {buf rest : Bytes} :
    readVarint max buf = (.ok v, rest) ↔ ∃ enc, IsVarint v enc ∧ v ≤ max ∧ buf = enc ++ rest := by
  unfold readVarint
  cases hread : readUvarint buf with
  | mk res buf' =>
    cases res with
    | error e =>
      refine iff_of_false (by simp) ?_
      rintro ⟨enc, henc, -, rfl⟩
      rw [readUvarint_iff.mpr ⟨enc, henc, rfl⟩] at hread
      exact absurd (Prod.mk.inj hread).1 (by simp)
    | ok val =>
      obtain ⟨enc, henc, rfl⟩ := readUvarint_iff.mp hread
      simp only
      constructor
      · intro h
        split at h
        case isTrue => exact absurd h (by simp)
        case isFalse hle =>
          obtain ⟨hval, rfl⟩ := Prod.mk.inj h
          obtain rfl := Except.ok.inj hval
          exact ⟨enc, henc, UInt64.not_lt.mp hle, rfl⟩
      · rintro ⟨enc', henc', hle, hbuf⟩
        rw [readUvarint_iff.mpr ⟨enc', henc', hbuf⟩] at hread
        obtain ⟨hval, rfl⟩ := Prod.mk.inj hread
        obtain rfl := Except.ok.inj hval
        rw [if_neg (UInt64.not_lt.mpr hle)]

theorem readVarint_range {enc : Bytes} (henc : IsVarint v enc) (h : max < v) (t : Bytes) :
    readVarint max (enc ++ t) = (.error .range, t) := by
  unfold readVarint
  rw [readUvarint_iff.mpr ⟨enc, henc, rfl⟩]
  simp only [if_pos h]

theorem toNat_toUInt32 (h : v ≤ MaxInt32) : v.toUInt32.toNat = v.toNat := by
  have hlimit : MaxInt32.toNat = 2 ^ 31 - 1 := rfl
  have hle := UInt64.le_iff_toNat_le.mp h
  rw [UInt64.toNat_toUInt32]
  exact Nat.mod_eq_of_lt (by omega)

theorem readVarint31_eq {enc : Bytes} (henc : IsVarint v enc) (h : v ≤ MaxInt32) (t : Bytes) :
    readVarint31 (enc ++ t) = (.ok v.toUInt32, t) := by
  unfold readVarint31
  rw [readVarint_iff.mpr ⟨enc, henc, h, rfl⟩]

theorem readVarint31_iff {buf rest : Bytes} {l : UInt32} :
    readVarint31 buf = (.ok l, rest) ↔
      ∃ enc v, IsVarint v enc ∧ v ≤ MaxInt32 ∧ l = v.toUInt32 ∧ buf = enc ++ rest := by
  constructor
  · intro h
    unfold readVarint31 at h
    cases hread : readVarint MaxInt32 buf with
    | mk res buf' =>
      rw [hread] at h
      cases res with
      | error e => exact absurd h (by simp)
      | ok val =>
        obtain ⟨hl, rfl⟩ := Prod.mk.inj h
        obtain ⟨enc, henc, hle, rfl⟩ := readVarint_iff.mp hread
        exact ⟨enc, val, henc, hle, (Except.ok.inj hl).symm, rfl⟩
  · rintro ⟨enc, v, henc, hle, rfl, rfl⟩
    exact readVarint31_eq henc hle rest

theorem readVarint31_range {enc : Bytes} (henc : IsVarint v enc) (h : MaxInt32 < v) (t : Bytes) :
    readVarint31 (enc ++ t) = (.error .range, t) := by
  unfold readVarint31
  rw [readVarint_range henc h]

/-! ## Both -/

/-- **The limited varints are exact.** `WriteVarint63` refuses every value beyond `MaxInt64`, and
hands every other one to its writer in at most nine bytes, which `ReadVarint63` turns into the value
again, whatever follows them, leaving exactly that; `WriteVarint31` and `ReadVarint31` do the same
with `MaxInt32`; and where the value is beyond that, `ReadVarint31` returns `ErrRange` on what
`WriteVarint63` has written. -/
theorem varints_exact (v : UInt64) :
    (MaxInt64 < v → Refuses fun out => writeVarint63 out v) ∧
    (v ≤ MaxInt64 → ∃ enc, enc.length ≤ 9 ∧ Sends (fun out => writeVarint63 out v) enc ∧
      ∀ t, readVarint63 (enc ++ t) = (.ok v, t) ∧
        (MaxInt32 < v → readVarint31 (enc ++ t) = (.error .range, t))) ∧
    (MaxInt32 < v → Refuses fun out => writeVarint31 out v) ∧
    (v ≤ MaxInt32 → ∃ enc, enc.length ≤ 9 ∧ Sends (fun out => writeVarint31 out v) enc ∧
      ∀ t, ∃ l : UInt32, l.toNat = v.toNat ∧ readVarint31 (enc ++ t) = (.ok l, t)) := by
  refine ⟨refuses_writeVarint, fun hle => ?_, refuses_writeVarint, fun hle => ?_⟩
  · obtain ⟨enc, hlen, henc, hsends⟩ := sends_writeVarint (UInt64.le_refl _) hle
    refine ⟨enc, hlen, hsends, fun t => ⟨readVarint_iff.mpr ⟨enc, henc, hle, rfl⟩, fun hbig => ?_⟩⟩
    exact readVarint31_range henc hbig t
  · obtain ⟨enc, hlen, henc, hsends⟩ := sends_writeVarint (by decide) hle
    exact ⟨enc, hlen, hsends, fun t =>
      ⟨v.toUInt32, toNat_toUInt32 hle, readVarint31_eq henc hle t⟩⟩

/-- `MaxInt64` takes all nine bytes. -/
theorem varints_exact_max : ∃ enc, Sends (fun out => writeVarint63 out MaxInt64) enc ∧
    buffer.write enc [] = ((9, none), List.replicate 8 0xff ++ [0x7f]) ∧
    readVarint63 (enc ++ [1]) = (.ok MaxInt64, [1]) ∧
    readVarint31 (enc ++ [1]) = (.error .range, [1]) := by
  obtain ⟨enc, -, hsends, hread⟩ := (varints_exact MaxInt64).2.1 (UInt64.le_refl _)
  have hwritten : writeVarint63 buffer MaxInt64 [] =
      some ((9, none), List.replicate 8 0xff ++ [0x7f]) := by decide +kernel
  refine ⟨enc, hsends, Option.some.inj ((hsends Bytes buffer []).symm.trans hwritten), ?_⟩
  exact ⟨(hread [1]).1, (hread [1]).2 (by decide)⟩

end ChainX.Codec
