import ChainX.Script.Basic
import Mathlib.Data.Nat.Digits.Lemmas

/-!
# The encoding of script numbers, `chainx-ui.id/script.h:308-357`

A vector is a sign and a magnitude: the top bit of the last byte is the sign, and the bits below it
are the magnitude, lowest byte first (`signed`). `set_vch` computes that on vectors of at most eight
bytes (`toInt_setVch`), and `serialize` ends every number but zero in a last byte that has its top
bit free (`serialize_concat`).

* The source works with shifts and masks of an `int64_t`; here they are turned into sums and powers
  of 256, a byte at a time. `serializeLoop_digits` is the loop of `serialize`: the bytes that it
  pushes are the digits of the absolute value at base 256.
* The absolute value is a `uint64_t`, into which every number but the minimum fits
  (`toNat_absvalue`).
* Where the last digit has its top bit set, `serialize` adds a byte for the sign, and otherwise it
  writes the sign into that bit.

**`ofVch_serialize`**: every number but the minimum is encoded in at most eight bytes, which the
constructor takes as minimal and turns into the number again.
-/

namespace ChainX.Script.CScriptNum

open ChainX.Lib ChainX.Node

/-! ## Bytes -/

theorem and_high_eq_zero (b : UInt8) : b &&& 0x80 = 0 ↔ b.toNat < 128 := by
  have h : ∀ n : Fin 256, n.val &&& 128 = 0 ↔ n.val < 128 := by decide +kernel
  rw [← UInt8.toNat_inj, UInt8.toNat_and]
  exact h ⟨b.toNat, b.toNat_lt⟩

theorem and_low_eq_zero (b : UInt8) : b &&& 0x7f = 0 ↔ b.toNat % 128 = 0 := by
  have h : ∀ n : Fin 256, n.val &&& 127 = 0 ↔ n.val % 128 = 0 := by decide +kernel
  rw [← UInt8.toNat_inj, UInt8.toNat_and]
  exact h ⟨b.toNat, b.toNat_lt⟩

theorem toNat_or_high {b : UInt8} (hb : b.toNat < 128) : (b ||| 0x80).toNat = b.toNat + 128 := by
  have h : ∀ n : Fin 256, n.val < 128 → n.val ||| 128 = n.val + 128 := by decide +kernel
  rw [UInt8.toNat_or]
  exact h ⟨b.toNat, b.toNat_lt⟩ hb

/-- The number whose bytes, lowest first, are `vch`. -/
def leNat (vch : Bytes) : Nat := Nat.ofDigits 256 (vch.map UInt8.toNat)

theorem leNat_cons (b : UInt8) (vch : Bytes) : leNat (b :: vch) = b.toNat + 256 * leNat vch := by
  unfold leNat
  rw [List.map_cons, Nat.ofDigits_cons]

theorem leNat_concat (init : Bytes) (b : UInt8) :
    leNat (init ++ [b]) = leNat init + 256 ^ init.length * b.toNat := by
  unfold leNat
  rw [List.map_append, Nat.ofDigits_append, List.length_map, List.map_singleton,
    Nat.ofDigits_singleton]

theorem leNat_lt (vch : Bytes) : leNat vch < 256 ^ vch.length := by
  unfold leNat
  rw [← List.length_map (f := UInt8.toNat)]
  refine Nat.ofDigits_lt_base_pow_length (by norm_num) fun d hd => ?_
  obtain ⟨b, -, rfl⟩ := List.mem_map.mp hd
  exact b.toNat_lt

/-- The loop writes the digits to the base 256, if there are rounds enough. -/
theorem serializeLoop_digits : ∀ {rounds : Nat} {x : UInt64}, x.toNat < 256 ^ rounds →
    (serializeLoop rounds x).map UInt8.toNat = Nat.digits 256 x.toNat
  | 0, x, h => by
    have hzero : x.toNat = 0 := by omega
    rw [hzero]
    rfl
  | rounds + 1, x, h => by
    unfold serializeLoop
    by_cases hx : x = 0
    · subst hx
      rfl
    · have hpos : 0 < x.toNat := Nat.pos_of_ne_zero fun h0 => hx (UInt64.toNat_inj.mp h0)
      have hshift : (x >>> 8).toNat = x.toNat / 256 := by
        rw [UInt64.toNat_shiftRight]
        exact Nat.shiftRight_eq_div_pow x.toNat 8
      have hlt : (x >>> 8).toNat < 256 ^ rounds := by
        rw [hshift]
        rw [Nat.pow_succ] at h
        omega
      have ih := serializeLoop_digits hlt
      rw [if_neg hx, List.map_cons, ih, hshift, UInt64.toNat_toUInt8,
        Nat.digits_def' (by norm_num) hpos]

/-! ## Decoding -/

theorem setVchLoop_toNat : ∀ {vch : Bytes} {result : UInt64} {i : Nat},
    result.toNat < 256 ^ i → i + vch.length ≤ 8 →
    (setVchLoop result i vch).toNat = result.toNat + 256 ^ i * leNat vch
  | [], _, _, _, _ => by simp [setVchLoop, leNat]
  | b :: vch, result, i, hresult, hlen => by
    have hpow : 2 ^ (8 * i) = 256 ^ i := by rw [Nat.pow_mul]
    have hi : i + 1 ≤ 8 := by
      rw [List.length_cons] at hlen
      omega
    have hle : 256 ^ i * 256 ≤ 2 ^ 64 :=
      calc 256 ^ i * 256 = 256 ^ (i + 1) := (Nat.pow_succ ..).symm
        _ ≤ 256 ^ 8 := Nat.pow_le_pow_right (by norm_num) hi
        _ = 2 ^ 64 := by norm_num
    have hb : b.toNat < 256 := b.toNat_lt
    have hbyte : b.toUInt64.toNat * 2 ^ (8 * i) = 256 ^ i * b.toNat := by
      rw [UInt8.toNat_toUInt64, hpow, Nat.mul_comm]
    have hlt : 256 ^ i * b.toNat < 256 ^ i * 256 := Nat.mul_lt_mul_of_pos_left hb (by positivity)
    have hor := toNat_or_shl (x := result) (c := b.toUInt64) (s := 8 * i) (by rwa [hpow])
      (by rw [hbyte]; exact hlt.trans_le hle)
    rw [hbyte] at hor
    rw [setVchLoop, setVchLoop_toNat _ (by rw [List.length_cons] at hlen; omega), hor, leNat_cons]
    · ring
    · rw [hor, Nat.pow_succ]
      have : 256 ^ i * b.toNat + 256 ^ i ≤ 256 ^ i * 256 := by
        rw [← Nat.mul_succ]
        exact Nat.mul_le_mul_left _ hb
      omega

/-- The top bit of a value is cleared. -/
theorem toNat_and_not_shl {x : UInt64} {k : Nat} (hk : k < 64) (hx : x.toNat < 2 ^ (k + 1)) :
    (x &&& ~~~ UInt64.ofNat (2 ^ k)).toNat = x.toNat % 2 ^ k := by
  have hlt : 2 ^ k < 2 ^ 64 := Nat.pow_lt_pow_right (by norm_num) hk
  have hpow : (UInt64.ofNat (2 ^ k)).toNat = 2 ^ k := by
    rw [UInt64.toNat_ofNat', Nat.mod_eq_of_lt hlt]
  refine Nat.eq_of_testBit_eq fun j => ?_
  have hnot : (~~~ UInt64.ofNat (2 ^ k)).toNat = 2 ^ 64 - (2 ^ k + 1) := by
    rw [UInt64.toNat_not, hpow, UInt64.size]
    omega
  rw [UInt64.toNat_and, Nat.testBit_and, hnot, Nat.testBit_two_pow_sub_succ hlt,
    Nat.testBit_two_pow, Nat.testBit_mod_two_pow]
  rcases Nat.lt_trichotomy j k with hj | rfl | hj
  · simp [hj, hj.trans hk, hj.ne']
  · simp
  · have hbit : x.toNat.testBit j = false :=
      Nat.testBit_lt_two_pow (hx.trans_le (Nat.pow_le_pow_right (by norm_num) hj))
    simp [hbit]

theorem toInt64_eq_ofNat (y : UInt64) : y.toInt64 = Int64.ofNat y.toNat := by
  rw [← Int64.toBitVec_inj]
  simp

/-- The sign and magnitude of the bytes `init` and, on top of them, `b`. -/
def signed (init : Bytes) (b : UInt8) : Int :=
  if b.toNat < 128 then (leNat init + 256 ^ init.length * b.toNat : Nat)
  else -(leNat init + 256 ^ init.length * (b.toNat - 128) : Nat)

/-- Below the sign, a last byte of `m` makes a magnitude of `8 * init.length + 7` bits. -/
theorem magnitude_lt (init : Bytes) {m : Nat} (hm : m < 128) :
    leNat init + 256 ^ init.length * m < 256 ^ init.length * 128 := by
  have hlt : leNat init < 256 ^ init.length := leNat_lt init
  calc leNat init + 256 ^ init.length * m < 256 ^ init.length + 256 ^ init.length * m :=
        Nat.add_lt_add_right hlt _
    _ = 256 ^ init.length * (m + 1) := by ring
    _ ≤ 256 ^ init.length * 128 := Nat.mul_le_mul_left _ hm

/-- The bit that `set_vch` clears. -/
theorem shl_sign (len : Nat) : shl 0x80 (8 * len) = UInt64.ofNat (2 ^ (8 * len + 7)) := by
  rw [shl, Nat.pow_add, Nat.mul_comm]
  rfl

theorem toInt_setVch (init : Bytes) (b : UInt8) (hlen : init.length < 8) :
    (setVch (init ++ [b])).toInt = signed init b := by
  have hpow : 256 ^ init.length * 128 ≤ 2 ^ 63 :=
    calc 256 ^ init.length * 128 ≤ 256 ^ 7 * 128 :=
          Nat.mul_le_mul_right _ (Nat.pow_le_pow_right (by norm_num) (by omega))
      _ = 2 ^ 63 := by norm_num
  have hcons : init ++ [b] ≠ [] := List.concat_ne_nil b init
  have hloop : (setVchLoop 0 0 (init ++ [b])).toNat =
      leNat init + 256 ^ init.length * b.toNat := by
    rw [setVchLoop_toNat (by decide) (by simpa using hlen), leNat_concat]
    simp
  unfold setVch signed
  rw [if_neg hcons, List.getLastD_concat, List.length_append, List.length_singleton,
    Nat.add_sub_cancel, shl_sign]
  by_cases hb : b.toNat < 128
  · rw [if_pos hb, if_neg (not_not.mpr ((and_high_eq_zero b).mpr hb)), toInt64_eq_ofNat, hloop]
    exact Int64.toInt_ofNat_of_lt ((magnitude_lt init hb).trans_le hpow)
  · have hbits : 2 ^ (8 * init.length + 7) = 256 ^ init.length * 128 := by
      rw [Nat.pow_add, Nat.pow_mul]
    have hsub := magnitude_lt init (m := b.toNat - 128) (by have := b.toNat_lt; omega)
    have hsplit : leNat init + 256 ^ init.length * b.toNat =
        leNat init + 256 ^ init.length * (b.toNat - 128) + 256 ^ init.length * 128 := by
      rw [Nat.add_assoc, ← Nat.mul_add, Nat.sub_add_cancel (Nat.le_of_not_lt hb)]
    have hclear := toNat_and_not_shl (x := setVchLoop 0 0 (init ++ [b])) (k := 8 * init.length + 7)
      (by omega) (by rw [Nat.pow_succ, hloop, hbits]; omega)
    rw [hloop, hbits, hsplit, Nat.add_mod_right, Nat.mod_eq_of_lt hsub] at hclear
    rw [if_neg hb, if_pos (mt (and_high_eq_zero b).mp hb), hbits, toInt64_eq_ofNat, hclear]
    exact Int64.toInt_neg_ofNat_of_le (hsub.le.trans hpow)

/-! ## Encoding -/

/-- Every number but the minimum has its absolute value among the `int64_t`. -/
theorem natAbs_lt {n : Int64} (hn : n ≠ Int64.minValue) : n.toInt.natAbs < 2 ^ 63 := by
  have h1 := n.toInt_lt
  have h2 := n.le_toInt
  have h3 : n.toInt ≠ -2 ^ 63 := by
    intro h
    exact hn (Int64.toInt_inj.mp (h.trans Int64.toInt_minValue.symm))
  omega

theorem toNat_absvalue {n : Int64} (hn : n ≠ Int64.minValue) :
    (if n < 0 then (-n).toUInt64 else n.toUInt64).toNat = n.toInt.natAbs := by
  have hlt := natAbs_lt hn
  have hcast : ∀ m : Int64, 0 ≤ m.toInt → m.toUInt64.toNat = m.toInt.natAbs := by
    intro m hm
    have hle : 0 ≤ m := by rwa [Int64.le_iff_toInt_le, Int64.toInt_zero]
    rw [Int64.toNat_toUInt64_of_le hle, Int64.toNatClampNeg]
    omega
  by_cases hneg : n < 0
  · have hneg' : n.toInt < 0 := by rwa [Int64.lt_iff_toInt_lt, Int64.toInt_zero] at hneg
    have hopp : (-n).toInt = -n.toInt := by
      rw [Int64.toInt_neg]
      exact Int.bmod_eq_of_le (by omega) (by omega)
    rw [if_pos hneg, hcast _ (by omega), hopp, Int.natAbs_neg]
  · have hneg' : ¬ n.toInt < 0 := by rwa [Int64.lt_iff_toInt_lt, Int64.toInt_zero] at hneg
    rw [if_neg hneg, hcast _ (by omega)]

theorem nonMinimal_concat (init : Bytes) (b : UInt8) : nonMinimal (init ++ [b]) ↔
    b.toNat % 128 = 0 ∧ (init = [] ∨ (init.getLastD 0).toNat < 128) := by
  unfold nonMinimal
  rw [List.getLastD_concat, and_low_eq_zero, and_high_eq_zero, List.length_append,
    List.length_singleton]
  rcases List.eq_nil_or_concat' init with rfl | ⟨init', c, rfl⟩
  · simp
  · simp

/-- The loop writes a positive number as bytes of which the last is not zero. -/
theorem serializeLoop_concat {x : UInt64} (hx : x.toNat ≠ 0) : ∃ init d,
    serializeLoop 8 x = init ++ [d] ∧ init.length < 8 ∧ d.toNat ≠ 0 ∧
      leNat init + 256 ^ init.length * d.toNat = x.toNat := by
  have hlt : x.toNat < 256 ^ 8 := x.toNat_lt
  have hdigits := serializeLoop_digits hlt
  have hlast := Nat.getLast_digit_ne_zero 256 hx
  have hlen := (Nat.digits_length_le_iff (by norm_num) x.toNat).mpr hlt
  have hval : leNat (serializeLoop 8 x) = x.toNat := by
    unfold leNat
    rw [hdigits, Nat.ofDigits_digits]
  rcases List.eq_nil_or_concat' (serializeLoop 8 x) with hnil | ⟨init, d, hconcat⟩
  · rw [hnil] at hval
    exact absurd hval.symm hx
  · rw [hconcat, leNat_concat] at hval
    simp only [← hdigits, hconcat, List.map_append, List.map_singleton,
      List.getLast_append_singleton] at hlast
    rw [← hdigits, List.length_map, hconcat, List.length_append, List.length_singleton] at hlen
    exact ⟨init, d, hconcat, hlen, hlast, hval⟩

/-- A last byte that is the sign alone. -/
theorem signed_sign (vch : Bytes) (neg : Prop) [Decidable neg] :
    signed vch (if neg then 0x80 else 0) = if neg then -(leNat vch : Int) else leNat vch := by
  unfold signed
  split
  · simp
  · simp

/-- It is needed where the byte below it has its top bit set. -/
theorem not_nonMinimal_sign {init : Bytes} {d b : UInt8} (hd : ¬ d.toNat < 128) :
    ¬ nonMinimal ((init ++ [d]) ++ [b]) := by
  rw [nonMinimal_concat, List.getLastD_concat]
  rintro ⟨-, hnil | hlow⟩
  · exact List.concat_ne_nil d init hnil
  · exact hd hlow

/-- Every number but zero is written with a free bit for the sign on top, and no byte too many. -/
theorem serialize_concat {n : Int64} (hzero : n ≠ 0) (hmin : n ≠ Int64.minValue) :
    ∃ init b, serialize n = init ++ [b] ∧ init.length < 8 ∧ signed init b = n.toInt ∧
      ¬ nonMinimal (init ++ [b]) := by
  have habs := toNat_absvalue hmin
  have hlt := natAbs_lt hmin
  have hpos : n.toInt.natAbs ≠ 0 := by
    intro h
    exact hzero (Int64.toInt_inj.mp (by rw [Int.natAbs_eq_zero.mp h]; rfl))
  have hneg : n < 0 ↔ n.toInt < 0 := by rw [Int64.lt_iff_toInt_lt, Int64.toInt_zero]
  obtain ⟨init, d, hloop, hlen, hd, hval⟩ := serializeLoop_concat (by rw [habs]; exact hpos)
  rw [habs] at hval
  unfold serialize
  simp only [if_neg hzero, hloop, List.getLastD_concat, List.dropLast_concat]
  by_cases htop : d.toNat < 128
  · rw [if_neg (not_not.mpr ((and_high_eq_zero d).mpr htop))]
    by_cases hsign : n < 0
    · -- the sign goes into the free bit
      have hor := toNat_or_high htop
      refine ⟨init, d ||| 0x80, by rw [if_pos hsign], hlen, ?_, ?_⟩
      · rw [signed, hor, if_neg (by omega), Nat.add_sub_cancel, hval]
        have := hneg.mp hsign
        omega
      · rw [nonMinimal_concat, hor]
        omega
    · refine ⟨init, d, by rw [if_neg hsign], hlen, ?_, ?_⟩
      · rw [signed, if_pos htop, hval]
        have := mt hneg.mpr hsign
        omega
      · rw [nonMinimal_concat]
        omega
  · -- a byte more, for the sign alone
    have hshort : init.length + 1 < 8 := by
      by_contra hlong
      have heq : init.length = 7 := by omega
      rw [heq] at hval
      omega
    rw [if_pos (mt (and_high_eq_zero d).mp htop)]
    refine ⟨init ++ [d], if n < 0 then 0x80 else 0, rfl, by simpa using hshort, ?_,
      not_nonMinimal_sign htop⟩
    rw [signed_sign, leNat_concat, hval]
    split
    case isTrue hsign =>
      have := hneg.mp hsign
      omega
    case isFalse hsign =>
      have := mt hneg.mpr hsign
      omega

/-- **Numbers survive their encoding.** -/
theorem ofVch_serialize {n : Int64} (hmin : n ≠ Int64.minValue) :
    ofVch (serialize n) true 8 = .ok n := by
  by_cases hzero : n = 0
  · subst hzero
    rfl
  · obtain ⟨init, b, hser, hlen, hsigned, hminimal⟩ := serialize_concat hzero hmin
    have hset : setVch (init ++ [b]) = n :=
      Int64.toInt_inj.mp ((toInt_setVch init b hlen).trans hsigned)
    have hsize : ¬ 8 < (init ++ [b]).length := by
      rw [List.length_append, List.length_singleton]
      omega
    rw [hser, ofVch, if_neg hsize, if_neg (fun h => hminimal h.2), hset]

end ChainX.Script.CScriptNum
