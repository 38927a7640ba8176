import ChainX.Script.Number

/-!
# Minimal script numbers, `chainx-ui.id/script.h:206-231`

The constructor of `CScriptNum` with `fRequireMinimal` refuses a vector whose last byte is the sign
alone, unless the byte below it has its top bit set.

A vector that the constructor takes as minimal spends no byte too many: the magnitude of a minimal
vector of `k + 1` bytes is at least half of `256 ^ k` and below `128 * 256 ^ k` (`le_natAbs_signed`,
`natAbs_signed_lt`). So its value determines its length, then its bytes and its sign
(`minimal_unique`), and `serialize` is the only minimal encoding there is.

* Zero has one minimal vector, the empty one; a vector of zeros, or with the sign and nothing else,
  is read as zero where minimality is not asked for.
* The minimum of an `int64_t` has no opposite in 64 bits and is left out of the statements.

**`scriptNum_bijection`**: `serialize` and the constructor with `fRequireMinimal` are inverse to
each other, and four bytes are exactly the numbers between `-2 ^ 31` and `2 ^ 31`.
-/

namespace ChainX.Script.CScriptNum

open ChainX.Lib ChainX.Node

/-! ## Magnitudes -/

theorem natAbs_signed (init : Bytes) (b : UInt8) :
    (signed init b).natAbs = leNat init + 256 ^ init.length * (b.toNat % 128) := by
  have hb := b.toNat_lt
  unfold signed
  by_cases hlow : b.toNat < 128
  · rw [if_pos hlow, Int.natAbs_natCast, Nat.mod_eq_of_lt hlow]
  · have hmod : b.toNat % 128 = b.toNat - 128 := by omega
    rw [if_neg hlow, Int.natAbs_neg, Int.natAbs_natCast, hmod]

theorem natAbs_signed_lt (init : Bytes) (b : UInt8) :
    (signed init b).natAbs < 256 ^ init.length * 128 := by
  rw [natAbs_signed]
  exact magnitude_lt init (Nat.mod_lt _ (by omega))

theorem le_natAbs_signed {init : Bytes} {b : UInt8} (h : ¬ nonMinimal (init ++ [b])) :
    256 ^ init.length * 128 ≤ 256 * (signed init b).natAbs := by
  rw [nonMinimal_concat] at h
  rw [natAbs_signed]
  by_cases hb : b.toNat % 128 = 0
  · rcases List.eq_nil_or_concat' init with rfl | ⟨init', c, rfl⟩
    · exact absurd ⟨hb, .inl rfl⟩ h
    · -- the byte below the sign has its top bit set
      have hc : 128 ≤ c.toNat := by
        by_contra hlow
        refine h ⟨hb, .inr ?_⟩
        rw [List.getLastD_concat]
        omega
      have hpow : 256 ^ init'.length * 128 ≤ 256 ^ init'.length * c.toNat :=
        Nat.mul_le_mul_left _ hc
      rw [hb, leNat_concat, List.length_append, List.length_singleton, Nat.pow_succ]
      omega
  · have hpow : 256 ^ init.length * 1 ≤ 256 ^ init.length * (b.toNat % 128) :=
      Nat.mul_le_mul_left _ (by omega)
    omega

/-- The length of a minimal vector is that of its magnitude. -/
theorem length_le_iff {init : Bytes} {b : UInt8} (h : ¬ nonMinimal (init ++ [b])) (k : Nat) :
    init.length ≤ k ↔ (signed init b).natAbs < 256 ^ k * 128 := by
  constructor
  · intro hle
    calc (signed init b).natAbs < 256 ^ init.length * 128 := natAbs_signed_lt init b
      _ ≤ 256 ^ k * 128 := Nat.mul_le_mul_right _ (Nat.pow_le_pow_right (by norm_num) hle)
  · intro hlt
    have hlow := le_natAbs_signed h
    have hpow : 256 ^ init.length < 256 ^ (k + 1) := by
      rw [Nat.pow_succ]
      omega
    exact Nat.le_of_lt_succ ((Nat.pow_lt_pow_iff_right (by norm_num)).mp hpow)

theorem signed_ne_zero {init : Bytes} {b : UInt8} (h : ¬ nonMinimal (init ++ [b])) :
    signed init b ≠ 0 := by
  intro hzero
  have hlow := le_natAbs_signed h
  have hpos : 0 < 256 ^ init.length := by positivity
  rw [hzero] at hlow
  omega

/-! ## Uniqueness -/

theorem leNat_inj {v w : Bytes} (hlen : v.length = w.length) (h : leNat v = leNat w) : v = w := by
  have hlt : ∀ v : Bytes, ∀ d ∈ v.map UInt8.toNat, d < 256 := by
    intro v d hd
    obtain ⟨b, -, rfl⟩ := List.mem_map.mp hd
    exact b.toNat_lt
  have hmap := Nat.ofDigits_inj_of_len_eq (by norm_num) (by simpa using hlen) (hlt v) (hlt w) h
  exact List.map_injective_iff.mpr (fun _ _ => UInt8.toNat_inj.mp) hmap

/-- A value has one minimal vector. -/
theorem minimal_unique {init init' : Bytes} {b b' : UInt8} (h : ¬ nonMinimal (init ++ [b]))
    (h' : ¬ nonMinimal (init' ++ [b'])) (heq : signed init b = signed init' b') :
    init ++ [b] = init' ++ [b'] := by
  have hlen : init.length = init'.length := by
    refine Nat.le_antisymm ((length_le_iff h _).mpr ?_) ((length_le_iff h' _).mpr ?_)
    · rw [heq]
      exact natAbs_signed_lt init' b'
    · rw [← heq]
      exact natAbs_signed_lt init b
  have hmag := congrArg Int.natAbs heq
  rw [natAbs_signed, natAbs_signed, ← hlen] at hmag
  have hlow := leNat_lt init
  have hlow' := leNat_lt init'
  rw [← hlen] at hlow'
  -- the magnitudes agree below the last byte and in it
  have hinit : leNat init = leNat init' := by
    have hmod := congrArg (· % 256 ^ init.length) hmag
    simpa [Nat.add_mul_mod_self_left, Nat.mod_eq_of_lt hlow, Nat.mod_eq_of_lt hlow'] using hmod
  have hlast : b.toNat % 128 = b'.toNat % 128 := by
    rw [hinit] at hmag
    exact Nat.eq_of_mul_eq_mul_left (by positivity) (Nat.add_left_cancel hmag)
  -- and so do the signs, because a minimal vector is not a zero
  have hsign : b.toNat < 128 ↔ b'.toNat < 128 := by
    have hne := signed_ne_zero h
    have hne' := signed_ne_zero h'
    unfold signed at heq hne hne'
    split at heq
    · split at heq
      · omega
      · omega
    · split at heq
      · omega
      · omega
  have hbyte : b = b' := by
    have hb := b.toNat_lt
    have hb' := b'.toNat_lt
    exact UInt8.toNat_inj.mp (by omega)
  rw [leNat_inj hlen hinit, hbyte]

/-! ## The constructor -/

/-- `nDefaultMaxNumSize`. -/
def nDefaultMaxNumSize : Nat := 4

theorem ofVch_concat {init : Bytes} {b : UInt8} {n : Int64} {size : Nat} {req : Bool}
    (hsize : size ≤ 8) : ofVch (init ++ [b]) req size = .ok n ↔
      init.length < size ∧ (req = true → ¬ nonMinimal (init ++ [b])) ∧ signed init b = n.toInt := by
  unfold ofVch
  rw [List.length_append, List.length_singleton]
  by_cases hlen : size < init.length + 1
  · rw [if_pos hlen]
    exact iff_of_false (by simp) (by omega)
  · have hset := toInt_setVch init b (by omega)
    rw [if_neg hlen]
    by_cases hreq : req = true ∧ nonMinimal (init ++ [b])
    · rw [if_pos hreq]
      exact iff_of_false (by simp) fun h => h.2.1 hreq.1 hreq.2
    · rw [if_neg hreq, ← hset, Except.ok.injEq, Int64.toInt_inj]
      exact ⟨fun h => ⟨by omega, fun h1 h2 => hreq ⟨h1, h2⟩, h⟩, fun h => h.2.2⟩

theorem ofVch_nil (req : Bool) (size : Nat) : ofVch [] req size = .ok 0 := by
  have hlen : ¬ size < ([] : Bytes).length := Nat.not_lt_zero size
  have hminimal : ¬ (req = true ∧ nonMinimal []) := fun h => Nat.lt_irrefl 0 h.2.1
  unfold ofVch
  rw [if_neg hlen, if_neg hminimal]
  rfl

/-- The limit decides on the length alone. -/
theorem ofVch_of_length_le {vch : Bytes} {n : Int64} {size size' : Nat} {req : Bool}
    (hlen : vch.length ≤ size') (h : ofVch vch req size = .ok n) : ofVch vch req size' = .ok n := by
  unfold ofVch at h ⊢
  rw [if_neg (Nat.not_lt.mpr hlen)]
  by_cases hsize : size < vch.length
  · rw [if_pos hsize] at h
    exact absurd h (by simp)
  · rwa [if_neg hsize] at h

/-- What is accepted as minimal is accepted anyway. -/
theorem ofVch_of_minimal {vch : Bytes} {n : Int64} {size : Nat} (h : ofVch vch true size = .ok n)
    (req : Bool) : ofVch vch req size = .ok n := by
  unfold ofVch at h ⊢
  by_cases hsize : size < vch.length
  · rw [if_pos hsize] at h
    exact absurd h (by simp)
  · rw [if_neg hsize] at h ⊢
    by_cases hreq : nonMinimal vch
    · rw [if_pos ⟨rfl, hreq⟩] at h
      exact absurd h (by simp)
    · rw [if_neg fun h => hreq h.2] at h ⊢
      exact h

/-- What is accepted as minimal is what `serialize` makes of its value. -/
theorem serialize_ofVch {vch : Bytes} {n : Int64} (h : ofVch vch true 8 = .ok n) :
    n ≠ Int64.minValue ∧ serialize n = vch := by
  rcases List.eq_nil_or_concat' vch with rfl | ⟨init, b, rfl⟩
  · rw [ofVch_nil, Except.ok.injEq] at h
    subst h
    exact ⟨by decide, rfl⟩
  · obtain ⟨hlen, hminimal, hval⟩ := (ofVch_concat (Nat.le_refl 8)).mp h
    have hne := signed_ne_zero (hminimal rfl)
    rw [hval] at hne
    have hzero : n ≠ 0 := fun hn => hne (by rw [hn]; rfl)
    have hmin : n ≠ Int64.minValue := by
      rintro rfl
      have hlt := (length_le_iff (hminimal rfl) 7).mp (by omega)
      rw [hval] at hlt
      exact absurd hlt (by decide)
    obtain ⟨init', b', hser, -, hsigned, hminimal'⟩ := serialize_concat hzero hmin
    refine ⟨hmin, ?_⟩
    rw [hser]
    exact minimal_unique hminimal' (hminimal rfl) (hsigned.trans hval.symm)

theorem length_serialize {n : Int64} (hmin : n ≠ Int64.minValue) (k : Nat) :
    (serialize n).length ≤ k + 1 ↔ n.toInt.natAbs < 256 ^ k * 128 := by
  by_cases hzero : n = 0
  · subst hzero
    exact iff_of_true (Nat.zero_le _) (by simp)
  · obtain ⟨init, b, hser, -, hsigned, hminimal⟩ := serialize_concat hzero hmin
    rw [hser, ← hsigned, ← length_le_iff hminimal, List.length_append, List.length_singleton]
    exact Nat.succ_le_succ_iff

/-- A value that was decoded has the bits of its vector, the sign aside. -/
theorem natAbs_ofVch {vch : Bytes} {n : Int64} {k : Nat} {req : Bool} (hk : k < 8)
    (h : ofVch vch req (k + 1) = .ok n) : n.toInt.natAbs < 256 ^ k * 128 := by
  rcases List.eq_nil_or_concat' vch with rfl | ⟨init, b, rfl⟩
  · rw [ofVch_nil, Except.ok.injEq] at h
    subst h
    simp
  · obtain ⟨hlen, -, hval⟩ := (ofVch_concat hk).mp h
    rw [← hval]
    calc (signed init b).natAbs < 256 ^ init.length * 128 := natAbs_signed_lt init b
      _ ≤ 256 ^ k * 128 := Nat.mul_le_mul_right _ (Nat.pow_le_pow_right (by norm_num) (by omega))

/-- The numbers that the default limit admits. -/
def InRange (n : Int64) : Prop := -2 ^ 31 < n.toInt ∧ n.toInt < 2 ^ 31

instance (n : Int64) : Decidable (InRange n) := inferInstanceAs (Decidable (_ ∧ _))

theorem inRange_iff (n : Int64) : InRange n ↔ n.toInt.natAbs < 256 ^ 3 * 128 := by
  unfold InRange
  omega

theorem inRange_ne_minValue {n : Int64} (h : InRange n) : n ≠ Int64.minValue := by
  rintro rfl
  exact absurd h (by decide)

theorem ofVch_serialize_default {n : Int64} (hmin : n ≠ Int64.minValue) (req : Bool) :
    ofVch (serialize n) req nDefaultMaxNumSize =
      if InRange n then .ok n else .error "script number overflow" := by
  have hlen := length_serialize hmin 3
  rw [← inRange_iff] at hlen
  by_cases hrange : InRange n
  · have h8 := ofVch_of_length_le (hlen.mpr hrange) (ofVch_serialize hmin)
    rw [if_pos hrange]
    exact ofVch_of_minimal h8 req
  · have hlong := mt hlen.mp hrange
    unfold ofVch nDefaultMaxNumSize
    rw [if_neg hrange, if_pos (by omega)]

/-- **The encoding of script numbers is a bijection.** Every number but the minimum is encoded in at
most eight bytes, which the constructor takes as minimal and turns into the number again; every
vector of at most eight bytes that it takes as minimal is the encoding of its value; and the default
limit admits exactly the numbers between `-2 ^ 31` and `2 ^ 31`, whatever the vector that encodes
them. -/
theorem scriptNum_bijection :
    (∀ n : Int64, n ≠ Int64.minValue →
      (serialize n).length ≤ 8 ∧ ofVch (serialize n) true 8 = .ok n) ∧
    (∀ (vch : Bytes) (n : Int64) (size : Nat), vch.length ≤ 8 → ofVch vch true size = .ok n →
      vch = serialize n) ∧
    (∀ (n : Int64) (req : Bool), n ≠ Int64.minValue →
      ofVch (serialize n) req nDefaultMaxNumSize =
        if InRange n then .ok n else .error "script number overflow") ∧
    ∀ (n : Int64) (req : Bool),
      (∃ vch, ofVch vch req nDefaultMaxNumSize = .ok n) ↔ InRange n := by
  refine ⟨fun n hmin => ⟨?_, ofVch_serialize hmin⟩, fun vch n size hlen h => ?_,
    fun n req hmin => ofVch_serialize_default hmin req, fun n req => ⟨?_, fun hrange => ?_⟩⟩
  · exact (length_serialize hmin 7).mpr (natAbs_lt hmin)
  · exact (serialize_ofVch (ofVch_of_length_le hlen h)).2.symm
  · rintro ⟨vch, h⟩
    exact (inRange_iff n).mpr (natAbs_ofVch (by norm_num) h)
  · refine ⟨serialize n, ?_⟩
    rw [ofVch_serialize_default (inRange_ne_minValue hrange), if_pos hrange]

/-- The number `-255` needs a byte for its sign, and the next number takes the same two bytes. -/
theorem scriptNum_bijection_sign : serialize (-255) = [0xff, 0x80] ∧
    ofVch (serialize (-255)) true 8 = .ok (-255) ∧
    [0x00, 0x81] = serialize (-256) :=
  ⟨by decide +kernel, (scriptNum_bijection.1 (-255) (by decide)).2,
    scriptNum_bijection.2.1 [0x00, 0x81] (-256) 4 (by decide) (by decide +kernel)⟩

end ChainX.Script.CScriptNum
