import ChainX.Lib.Decimal

/-!
# Durations, `Cmake/encoding/duration.go`

A `Duration` is a number of nanoseconds. `UnmarshalJSON` (`duration.go:22-53`) takes a number of
milliseconds or a string for `time.ParseDuration`; what Go makes of strings is a parameter
(`Strings`). `MarshalJSON` (`duration.go:56`) writes whole milliseconds.

* The text `null` leaves the duration as it was.
* `strconv.ParseInt` is modelled (`Lib.parseInt`): a sign and digits, within 64 bits. What it
  refuses goes to `json.Unmarshal`, a number with a fraction for instance.
* Durations are `Int64`: the product with `time.Millisecond` wraps, as Go has it.
* The sign is looked at before the product is made.

Results:
* `unmarshalJSON_marshalJSON`: the round trip is to whole milliseconds.
* **`unmarshalJSON_exact_iff`**: the product with a million wraps from `9223372036855` milliseconds
  on, after the check for a sign; `milliseconds_wrap` has texts that become negative durations.
-/

namespace ChainX.Json

open ChainX.Lib

/-- `time.Duration`. -/
abbrev Duration := Int64

/-- `time.Millisecond`. -/
def Millisecond : Duration := 1000000

/-- Go's reading of strings, without an answer where it returns an error. -/
structure Strings where
  /-- `json.Unmarshal(b, &str)`. -/
  unmarshal : Text → Option Text
  /-- `time.ParseDuration`. -/
  parseDuration : Text → Option Duration

variable (strings : Strings)

/-! ## Functions -/

/-- The duration after the call. One that fails leaves the duration alone. -/
def unmarshalJSON (d : Duration) (b : Text) : Except Text Duration :=
  if b = ascii "null" then .ok d
  else
    match parseInt b with
    | none =>
      match strings.unmarshal b with
      | none => .error (ascii "invalid json.Duration")
      | some str =>
        match strings.parseDuration str with
        | none => .error (ascii "invalid json.Duration")
        | some d0 =>
          if d0 < 0 then .error (ascii "invalid json.Duration: Duration cannot be less than 0")
          else .ok d0
    | some dMS =>
      if dMS < 0 then .error (ascii "invalid json.Duration: Duration cannot be less than 0")
      else .ok (dMS * Millisecond)

/-- `MarshalJSON`: the whole milliseconds, in decimal. -/
def marshalJSON (d : Duration) : Text := decimalInt (d / Millisecond).toInt

/-! ## Exactness -/

/-- An accepted text, unless it is `null`, gives a duration that is not negative, is what a number
says, and is read back in whole milliseconds. -/
def Exact (b : Text) : Prop :=
  b ≠ ascii "null" → ∀ old d, unmarshalJSON strings old b = .ok d →
    0 ≤ d.toInt ∧ (∀ m, parseInt b = some m → d.toInt = m.toInt * 1000000) ∧
      ∀ old', ∃ d', unmarshalJSON strings old' (marshalJSON d) = .ok d' ∧
        d'.toInt = d.toInt / 1000000 * 1000000

variable {strings}

theorem parseInt_null : parseInt (ascii "null") = none := by decide

theorem ne_null_of_parseInt {b : Text} {m : Int64} (h : parseInt b = some m) :
    b ≠ ascii "null" := by
  rintro rfl
  exact absurd (parseInt_null.symm.trans h) (by simp)

theorem not_neg_iff {d : Duration} : ¬ d < 0 ↔ 0 ≤ d.toInt := by
  rw [Int64.lt_iff_toInt_lt, Int64.toInt_zero, Int.not_lt]

theorem toInt_mul_millisecond {m : Int64} (hnonneg : 0 ≤ m.toInt)
    (hfits : m.toInt * 1000000 < 2 ^ 63) : (m * Millisecond).toInt = m.toInt * 1000000 := by
  have hmilli : Millisecond.toInt = 1000000 := by decide
  rw [Int64.toInt_mul, hmilli]
  exact Int.bmod_eq_of_le (by omega) (by omega)

/-- An accepted text is a string with a duration that is not negative, or such a number. -/
theorem unmarshalJSON_cases {b : Text} {old d : Duration} (hnull : b ≠ ascii "null")
    (h : unmarshalJSON strings old b = .ok d) :
    (parseInt b = none ∧ 0 ≤ d.toInt) ∨
      ∃ m, parseInt b = some m ∧ 0 ≤ m.toInt ∧ d = m * Millisecond := by
  rw [unmarshalJSON, if_neg hnull] at h
  split at h
  · rename_i hparse
    split at h
    · exact absurd h (by simp)
    split at h
    · exact absurd h (by simp)
    split at h
    · exact absurd h (by simp)
    · rename_i hsign
      exact .inl ⟨hparse, Except.ok.inj h ▸ not_neg_iff.mp hsign⟩
  · rename_i m hparse
    split at h
    · exact absurd h (by simp)
    · rename_i hsign
      exact .inr ⟨m, hparse, not_neg_iff.mp hsign, (Except.ok.inj h).symm⟩

variable (strings) in
theorem unmarshalJSON_of_parseInt {b : Text} {m : Int64} (hparse : parseInt b = some m)
    (hnonneg : 0 ≤ m.toInt) (old : Duration) :
    unmarshalJSON strings old b = .ok (m * Millisecond) := by
  rw [unmarshalJSON, if_neg (ne_null_of_parseInt hparse), hparse]
  exact if_neg (not_neg_iff.mpr hnonneg)

/-- What is written of a duration is read as its whole milliseconds. -/
theorem unmarshalJSON_marshalJSON {d : Duration} (hnonneg : 0 ≤ d.toInt) (old : Duration) :
    ∃ d', unmarshalJSON strings old (marshalJSON d) = .ok d' ∧
      d'.toInt = d.toInt / 1000000 * 1000000 := by
  have hlt := d.toInt_lt
  have hmilli : Millisecond.toInt = 1000000 := by decide
  have hms : (d / Millisecond).toInt = d.toInt / 1000000 := by
    rw [Int64.toInt_div, hmilli, Int.tdiv_eq_ediv_of_nonneg hnonneg]
    exact Int.bmod_eq_of_le (by omega) (by omega)
  have hparse : parseInt (marshalJSON d) = some (d / Millisecond) := parseInt_decimalInt _
  refine ⟨d / Millisecond * Millisecond,
    unmarshalJSON_of_parseInt strings hparse (by omega) old, ?_⟩
  rw [toInt_mul_millisecond (by omega) (by omega), hms]

/-- **Durations are exact and not negative** for the texts that are no numbers above the largest
number of milliseconds that fits. -/
theorem unmarshalJSON_exact_iff (strings : Strings) (b : Text) :
    Exact strings b ↔ ∀ m, parseInt b = some m → m.toInt * 1000000 < 2 ^ 63 := by
  constructor
  · intro h m hm
    by_contra hlarge
    have hok := unmarshalJSON_of_parseInt strings hm (by omega) 0
    have heq := (h (ne_null_of_parseInt hm) 0 _ hok).2.1 m hm
    have hlt := (m * Millisecond).toInt_lt
    omega
  · intro h hnull old d hok
    rcases unmarshalJSON_cases hnull hok with ⟨hparse, hnonneg⟩ | ⟨m, hparse, hnonneg, rfl⟩
    · exact ⟨hnonneg, fun m hm => absurd (hparse.symm.trans hm) (by simp),
        unmarshalJSON_marshalJSON hnonneg⟩
    · have hexact := toInt_mul_millisecond hnonneg (h m hparse)
      refine ⟨by omega, fun m' hm => ?_, unmarshalJSON_marshalJSON (by omega)⟩
      rw [hexact, Option.some.inj (hparse.symm.trans hm)]

/-- Strings with no durations in them. -/
def noStrings : Strings := ⟨fun _ => none, fun _ => none⟩

/-- Accepted milliseconds that are negative, or next to nothing, in nanoseconds. -/
theorem milliseconds_wrap :
    unmarshalJSON noStrings 0 (ascii "9223372036855") = .ok (-9223372036854551616) ∧
      unmarshalJSON noStrings 0 (ascii "18446744073710") = .ok 448384 ∧
      ¬ Exact noStrings (ascii "9223372036855") := by
  have hwrap : unmarshalJSON noStrings 0 (ascii "9223372036855") = .ok (-9223372036854551616) := by
    rfl
  refine ⟨hwrap, by rfl, fun h => ?_⟩
  exact absurd (h (by decide) 0 _ hwrap).1 (by decide)

end ChainX.Json
