import Mathlib.Tactic.Ring

/-!
# Base-128 varints

`putUvarint` and `readUvarint` as Go's `encoding/binary` has them: seven bits a byte, lowest first,
the high bit set on every byte but the last. The writer fills a buffer of given room; the reader
takes bytes until one without the high bit, however many come, and then checks the range.

* A writer that runs out of room panics, which is `none`.
* The reader of a byte stream answers with what is left of it, where it fails too.
* `Groups` are groups of seven bits that make a number, the last one marked, and `IsVarint` those of
  at most ten bytes that make a 64-bit value. A value has more than one, as zeros may follow.

Results:
* `putUvarint_of_lt`: a value below `2 ^ (7 * room)` fits.
* `isVarint_putUvarint`: what is written is a varint of the value.
* **`readUvarint_iff`**: the reader takes exactly the varints of at most ten bytes (`IsVarint`), the
  over-long ones included, and leaves what follows.
-/

namespace ChainX.Lib

/-! ## Writing and reading -/

/-- The bytes written for `x` into a buffer with `room` bytes left; `none` past its end. -/
def putUvarint : Nat → UInt64 → Option (List UInt8)
  | 0, _ => none
  | room + 1, x =>
    if 0x80 ≤ x then (putUvarint room (x >>> 7)).map ((x.toUInt8 ||| 0x80) :: ·)
    else some [x.toUInt8]

/-- Why a varint cannot be read. -/
inductive VarintError where
  /-- The bytes end inside it. -/
  | ended
  /-- It does not fit 64 bits. -/
  | overflow
  deriving DecidableEq

/-- `x << s`, which is `0` from 64 on. -/
def shl (x : UInt64) (s : Nat) : UInt64 := UInt64.ofNat (x.toNat * 2 ^ s)

/-- The loop of `readUvarint`: `i` bytes were read, which made `x`, and `s` is `7 * i`. It is the
loop of Go up to 1.15, which reads on until a byte ends the varint; later versions stop with an
overflow after the tenth byte. Both accept the same bytes. -/
def readUvarintLoop (x : UInt64) (s i : Nat) :
    List UInt8 → Except VarintError UInt64 × List UInt8
  | [] => (.error .ended, [])
  | b :: buf =>
    if b < 0x80 then
      if 9 < i ∨ (i = 9 ∧ 1 < b) then (.error .overflow, buf)
      else (.ok (x ||| shl b.toUInt64 s), buf)
    else
      readUvarintLoop (x ||| shl (b &&& 0x7f).toUInt64 s) (s + 7) (i + 1) buf

/-- The value at the start of the bytes, and the bytes that are left. -/
def readUvarint (buf : List UInt8) : Except VarintError UInt64 × List UInt8 :=
  readUvarintLoop 0 0 0 buf

/-! ## Varints -/

/-- The bytes are groups of seven bits of the number, lowest first, the last one with a free high
bit and the others with the high bit set. -/
inductive Groups : List UInt8 → Nat → Prop
  | last (b : UInt8) (hb : b.toNat < 128) : Groups [b] b.toNat
  | more (b : UInt8) {bs : List UInt8} {n : Nat} (hb : 128 ≤ b.toNat) (hrest : Groups bs n) :
      Groups (b :: bs) (b.toNat - 128 + 128 * n)

/-- A varint of `x`, not necessarily the shortest. -/
structure IsVarint (x : UInt64) (enc : List UInt8) : Prop where
  groups : Groups enc x.toNat
  length_le : enc.length ≤ 10

/-! ## Bits -/

theorem toNat_shiftRight_seven (x : UInt64) : (x >>> 7).toNat = x.toNat / 128 := by
  rw [UInt64.toNat_shiftRight]
  exact Nat.shiftRight_eq_div_pow x.toNat 7

/-- The byte written for the low seven bits of a value that goes on. -/
theorem toNat_low (x : UInt64) : (x.toUInt8 ||| 0x80).toNat = x.toNat % 128 + 128 := by
  have h128 : ∀ n : Fin 256, n.val ||| 128 = n.val % 128 + 128 := by decide +kernel
  have h := h128 ⟨x.toNat % 256, Nat.mod_lt _ (by omega)⟩
  rw [UInt8.toNat_or, UInt64.toNat_toUInt8]
  refine h.trans ?_
  simp only
  omega

/-- The seven bits of a byte that goes on. -/
theorem toNat_payload {b : UInt8} (hb : 128 ≤ b.toNat) :
    (b &&& 0x7f).toUInt64.toNat = b.toNat - 128 := by
  have hand : (b &&& 0x7f).toNat = b.toNat % 2 ^ 7 := by
    rw [UInt8.toNat_and]
    exact Nat.and_two_pow_sub_one_eq_mod _ 7
  have hlt := b.toNat_lt
  rw [UInt8.toNat_toUInt64, hand]
  omega

/-- Adding bits above those that are there. -/
theorem toNat_or_shl {x c : UInt64} {s : Nat} (hx : x.toNat < 2 ^ s)
    (hc : c.toNat * 2 ^ s < 2 ^ 64) : (x ||| shl c s).toNat = x.toNat + c.toNat * 2 ^ s := by
  have hshl : (shl c s).toNat = c.toNat <<< s := by
    unfold shl
    rw [UInt64.toNat_ofNat', Nat.mod_eq_of_lt hc, Nat.shiftLeft_eq]
  rw [UInt64.toNat_or, hshl, Nat.or_comm, ← Nat.shiftLeft_add_eq_or_of_lt hx, Nat.shiftLeft_eq,
    Nat.add_comm]

theorem pow_seven_succ (i : Nat) : 2 ^ (7 * (i + 1)) = 2 ^ (7 * i) * 128 := by
  rw [Nat.mul_succ, Nat.pow_add]

/-! ## What is written -/


theorem putUvarint_of_lt : ∀ {room : Nat} {x : UInt64}, x.toNat < 2 ^ (7 * (room + 1)) →
    ∃ bs, putUvarint (room + 1) x = some bs
  | room, x, h => by
    unfold putUvarint
    by_cases hx : 0x80 ≤ x
    · rw [if_pos hx]
      have hle : 128 ≤ x.toNat := UInt64.le_iff_toNat_le.mp hx
      cases room with
      | zero => exact absurd h (by simpa using hle)
      | succ room =>
        have hlt : (x >>> 7).toNat < 2 ^ (7 * (room + 1)) := by
          rw [toNat_shiftRight_seven]
          have hpow := pow_seven_succ (room + 1)
          omega
        obtain ⟨bs, hbs⟩ := putUvarint_of_lt hlt
        exact ⟨_, by rw [hbs]; rfl⟩
    · rw [if_neg hx]
      exact ⟨_, rfl⟩

theorem groups_putUvarint : ∀ {room : Nat} {x : UInt64} {bs : List UInt8},
    putUvarint room x = some bs → Groups bs x.toNat
  | 0, _, _, h => by simp [putUvarint] at h
  | room + 1, x, bs, h => by
    unfold putUvarint at h
    by_cases hx : 0x80 ≤ x
    · rw [if_pos hx, Option.map_eq_some_iff] at h
      obtain ⟨rest, hrest, rfl⟩ := h
      have hlow := toNat_low x
      have hmore := Groups.more (x.toUInt8 ||| 0x80) (by omega) (groups_putUvarint hrest)
      rw [hlow, toNat_shiftRight_seven] at hmore
      rwa [Nat.add_sub_cancel, Nat.mod_add_div] at hmore
    · rw [if_neg hx, Option.some.injEq] at h
      subst h
      have hlt : x.toNat < 128 := by
        rw [UInt64.le_iff_toNat_le] at hx
        exact Nat.lt_of_not_le hx
      have hbyte : x.toUInt8.toNat = x.toNat := by
        rw [UInt64.toNat_toUInt8]
        omega
      rw [← hbyte]
      exact .last _ (by omega)

/-- No byte more than the value needs is written. -/
theorem length_putUvarint : ∀ {room : Nat} {x : UInt64} {bs : List UInt8},
    putUvarint room x = some bs → bs.length ≤ room ∧
      (bs.length = 1 ∨ 2 ^ (7 * (bs.length - 1)) ≤ x.toNat)
  | 0, _, _, h => by simp [putUvarint] at h
  | room + 1, x, bs, h => by
    unfold putUvarint at h
    by_cases hx : 0x80 ≤ x
    · rw [if_pos hx, Option.map_eq_some_iff] at h
      obtain ⟨rest, hrest, rfl⟩ := h
      have hle : 128 ≤ x.toNat := UInt64.le_iff_toNat_le.mp hx
      obtain ⟨hroom, hlen⟩ := length_putUvarint hrest
      rw [toNat_shiftRight_seven] at hlen
      refine ⟨Nat.succ_le_succ hroom, .inr ?_⟩
      rw [List.length_cons, Nat.add_sub_cancel]
      rcases hlen with hone | hlen
      · rw [hone]
        exact hle
      · cases hrest' : rest.length with
        | zero => simpa using hle.trans' (by omega)
        | succ k =>
          rw [hrest', Nat.add_sub_cancel] at hlen
          rw [pow_seven_succ]
          omega
    · rw [if_neg hx, Option.some.injEq] at h
      subst h
      exact ⟨Nat.succ_le_succ (Nat.zero_le _), .inl rfl⟩

theorem isVarint_putUvarint {room : Nat} {x : UInt64} {bs : List UInt8}
    (h : putUvarint room x = some bs) : IsVarint x bs := by
  refine ⟨groups_putUvarint h, ?_⟩
  by_contra hlong
  rcases (length_putUvarint h).2 with hone | hle
  · omega
  · have hpow : 2 ^ 70 ≤ 2 ^ (7 * (bs.length - 1)) := Nat.pow_le_pow_right (by omega) (by omega)
    have hlt := x.toNat_lt
    omega

/-! ## What is read -/

theorem Groups.ne_nil {bs : List UInt8} {n : Nat} (h : Groups bs n) : bs ≠ [] := by
  cases h with
  | last b hb => exact List.cons_ne_nil b []
  | more b hb hrest => exact List.cons_ne_nil b _

/-- After ten bytes nothing is accepted any more. -/
theorem readUvarintLoop_over : ∀ {buf : List UInt8} {acc y : UInt64} {s i : Nat}
    {rest : List UInt8}, 9 < i → readUvarintLoop acc s i buf ≠ (.ok y, rest)
  | [], _, _, _, _, _, _ => by simp [readUvarintLoop]
  | b :: buf, acc, y, s, i, rest, hi => by
    unfold readUvarintLoop
    by_cases hb : b < 0x80
    · rw [if_pos hb, if_pos (.inl hi)]
      simp
    · rw [if_neg hb]
      exact readUvarintLoop_over (Nat.lt_succ_of_lt hi)

/-- The test on the byte that ends a varint. -/
theorem fits_iff {b : UInt8} {i : Nat} (hb : b.toNat < 128) (hi : i ≤ 9) :
    ¬ (9 < i ∨ (i = 9 ∧ 1 < b)) ↔ b.toNat * 2 ^ (7 * i) < 2 ^ 64 := by
  have hone : (1 : UInt8).toNat = 1 := rfl
  rw [UInt8.lt_iff_toNat_lt, hone]
  rcases Nat.lt_or_eq_of_le hi with hlt | rfl
  · refine iff_of_true (by omega) ?_
    calc b.toNat * 2 ^ (7 * i) ≤ 127 * 2 ^ 56 :=
          Nat.mul_le_mul (by omega) (Nat.pow_le_pow_right (by omega) (by omega))
      _ < 2 ^ 64 := by decide
  · omega

/-- Groups that start with a byte that ends them. -/
theorem groups_of_last {b : UInt8} {buf rest : List UInt8} {P : List UInt8 → Nat → Prop}
    (hb : b.toNat < 128) : (∃ enc n, Groups enc n ∧ b :: buf = enc ++ rest ∧ P enc n) ↔
      buf = rest ∧ P [b] b.toNat := by
  constructor
  · rintro ⟨enc, n, hgroups, hbuf, hP⟩
    cases hgroups with
    | last b' _ =>
      obtain ⟨rfl, rfl⟩ := List.cons.inj hbuf
      exact ⟨rfl, hP⟩
    | more b' hb' _ =>
      obtain ⟨rfl, -⟩ := List.cons.inj hbuf
      omega
  · rintro ⟨rfl, hP⟩
    exact ⟨[b], b.toNat, .last b hb, rfl, hP⟩

/-- Groups that start with a byte that goes on. -/
theorem groups_of_more {b : UInt8} {buf rest : List UInt8} {P : List UInt8 → Nat → Prop}
    (hb : 128 ≤ b.toNat) : (∃ enc n, Groups enc n ∧ b :: buf = enc ++ rest ∧ P enc n) ↔
      ∃ enc n, Groups enc n ∧ buf = enc ++ rest ∧ P (b :: enc) (b.toNat - 128 + 128 * n) := by
  constructor
  · rintro ⟨enc, n, hgroups, hbuf, hP⟩
    cases hgroups with
    | last b' hb' =>
      obtain ⟨rfl, -⟩ := List.cons.inj hbuf
      omega
    | more b' _ hrest =>
      obtain ⟨rfl, rfl⟩ := List.cons.inj hbuf
      exact ⟨_, _, hrest, rfl, hP⟩
  · rintro ⟨enc, n, hgroups, rfl, hP⟩
    exact ⟨b :: enc, _, .more b hb hgroups, rfl, hP⟩

/-- The byte that ends a varint is taken if its value has room. -/
theorem readUvarintLoop_last {b : UInt8} {buf rest : List UInt8} {acc y : UInt64} {i : Nat}
    (hb : b < 0x80) (hacc : acc.toNat < 2 ^ (7 * i)) (hi : i ≤ 9) :
    readUvarintLoop acc (7 * i) i (b :: buf) = (.ok y, rest) ↔
      buf = rest ∧ y.toNat = acc.toNat + b.toNat * 2 ^ (7 * i) := by
  have hvalue : b.toUInt64.toNat = b.toNat := UInt8.toNat_toUInt64 b
  have hlt : b.toNat < 128 := UInt8.lt_iff_toNat_lt.mp hb
  unfold readUvarintLoop
  rw [if_pos hb]
  by_cases hroom : b.toNat * 2 ^ (7 * i) < 2 ^ 64
  · have hor := toNat_or_shl hacc (c := b.toUInt64) (by rwa [hvalue])
    rw [hvalue] at hor
    rw [if_neg ((fits_iff hlt hi).mpr hroom), Prod.mk.injEq, Except.ok.injEq, and_comm,
      ← UInt64.toNat_inj, hor, eq_comm (a := y.toNat)]
  · rw [if_pos (not_not.mp (mt (fits_iff hlt hi).mp hroom))]
    refine iff_of_false (by simp) ?_
    rintro ⟨-, hy⟩
    have := y.toNat_lt
    omega

/-- **The loop takes the groups of a number**, above the `7 * i` bits it has and up to the tenth
byte, by induction on the bytes. -/
theorem readUvarintLoop_iff : ∀ {buf : List UInt8} {acc y : UInt64} {i : Nat}
    {rest : List UInt8}, acc.toNat < 2 ^ (7 * i) → i ≤ 9 →
    (readUvarintLoop acc (7 * i) i buf = (.ok y, rest) ↔ ∃ enc n, Groups enc n ∧
      buf = enc ++ rest ∧ i + enc.length ≤ 10 ∧ y.toNat = acc.toNat + n * 2 ^ (7 * i))
  | [], acc, y, i, rest, _, _ => by
    refine iff_of_false (by simp [readUvarintLoop]) ?_
    rintro ⟨enc, n, hgroups, hbuf, -⟩
    exact hgroups.ne_nil (List.append_eq_nil_iff.mp hbuf.symm).1
  | b :: buf, acc, y, i, rest, hacc, hi => by
    by_cases hb : b < 0x80
    · have hone : i + [b].length ≤ 10 := Nat.succ_le_succ hi
      rw [readUvarintLoop_last hb hacc hi, groups_of_last (UInt8.lt_iff_toNat_lt.mp hb),
        and_iff_right hone]
    · have hle : 128 ≤ b.toNat := by
        rw [UInt8.lt_iff_toNat_lt] at hb
        exact Nat.le_of_not_lt hb
      unfold readUvarintLoop
      rw [if_neg hb, groups_of_more hle]
      rcases Nat.lt_or_eq_of_le hi with hlt | rfl
      · have hpow := pow_seven_succ i
        have hpayload := toNat_payload hle
        have hnext : i + 1 ≤ 9 := hlt
        have hmax : 2 ^ (7 * i) ≤ 2 ^ 56 := Nat.pow_le_pow_right (by omega) (by omega)
        have hlow : (b.toNat - 128) * 2 ^ (7 * i) ≤ 127 * 2 ^ (7 * i) := by
          have := b.toNat_lt
          exact Nat.mul_le_mul_right _ (by omega)
        have hor := toNat_or_shl hacc (c := (b &&& 0x7f).toUInt64) (by rw [hpayload]; omega)
        rw [hpayload] at hor
        rw [← Nat.mul_add_one, readUvarintLoop_iff (by rw [hor]; omega) hnext]
        -- the bits of the byte lie between those that are there and those that follow
        refine exists_congr fun enc => exists_congr fun n => and_congr_right fun _ =>
          and_congr_right fun _ => and_congr (by rw [List.length_cons]; omega) ?_
        rw [hor, hpow]
        refine iff_of_eq (congrArg (y.toNat = ·) ?_)
        ring
      · -- an eleventh byte would have to come
        refine iff_of_false (readUvarintLoop_over (by omega)) ?_
        rintro ⟨enc, n, hgroups, -, hlen, -⟩
        have := List.length_pos_iff.mpr hgroups.ne_nil
        rw [List.length_cons] at hlen
        omega

/-- **The reader takes exactly the varints** of at most ten bytes, and leaves what follows. -/
theorem readUvarint_iff {buf rest : List UInt8} {x : UInt64} :
    readUvarint buf = (.ok x, rest) ↔ ∃ enc, IsVarint x enc ∧ buf = enc ++ rest := by
  unfold readUvarint
  refine (readUvarintLoop_iff (i := 0) (by decide) (by decide)).trans ?_
  constructor
  · rintro ⟨enc, n, hgroups, hbuf, hlen, hx⟩
    obtain rfl : x.toNat = n := by simpa using hx
    exact ⟨enc, ⟨hgroups, by omega⟩, hbuf⟩
  · rintro ⟨enc, h, hbuf⟩
    have := h.length_le
    exact ⟨enc, _, h.groups, hbuf, by omega, by simp⟩

end ChainX.Lib
