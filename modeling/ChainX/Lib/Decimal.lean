import Mathlib.Data.List.TakeWhile
import Mathlib.Data.Nat.Digits.Defs

/-!
# Decimal numerals

Texts are lists of ASCII bytes. `decimal` prints a number. `strtol` is C's reading of a text at base
10, as an unbounded number: white space, a sign, and as many digits as there are, none of which has
to be there. `strtoll` cuts it to 64 bits.

`parseInt` takes nothing but a sign and digits, within 64 bits.

* The white space of `isSpace` is that of the C locale: the space and the five control characters
  from tab to carriage return.
* A numeral (`IsNumeral`) is one digit or more; `digitsValue` is what it stands for, from the left.
* An overflow is no error of `strtoll` here: the nearest value that 64 bits have is the answer, as
  the C library has it, and `errno` is not looked at.

Results:
* `strtol_numeral`: of a numeral it is the value, whatever follows that is no digit.
* **`strtol_decimalInt`**, `strtoll_eq`, `parseInt_decimalInt`: what is printed is read back.
-/

namespace ChainX.Lib

/-- `std::string`. -/
abbrev Text := List UInt8

/-- The bytes of an ASCII literal. -/
def ascii (s : String) : Text := s.toList.map fun c => UInt8.ofNat c.toNat

/-! ## Reading -/

/-- `isspace`, of the C locale. -/
def isSpace (b : UInt8) : Bool := b == 32 || (9 ≤ b && b ≤ 13)

/-- `0` to `9`. -/
def isDigit (b : UInt8) : Bool := 48 ≤ b && b ≤ 57

/-- The number that digits make. -/
def digitsValue (ds : Text) : Nat := ds.foldl (fun n b => 10 * n + (b.toNat - 48)) 0

/-- The text is a decimal numeral: at least one digit, and nothing else. -/
def IsNumeral (s : Text) : Prop := s ≠ [] ∧ ∀ b ∈ s, isDigit b = true

instance (s : Text) : Decidable (IsNumeral s) :=
  decidable_of_iff (s.isEmpty = false ∧ s.all isDigit = true)
    (and_congr List.isEmpty_eq_false_iff List.all_eq_true)

/-- The digits at the start of the text. -/
def leadingValue (s : Text) : Nat := digitsValue (s.takeWhile isDigit)

/-- `strtol(s, NULL, 10)`. -/
def strtol (s : Text) : Int :=
  match s.dropWhile isSpace with
  | [] => 0
  | b :: s =>
    if b = 45 then -(leadingValue s : Int)
    else if b = 43 then leadingValue s
    else leadingValue (b :: s)

/-- `strtoll(s, NULL, 10)`: beyond 64 bits it is the nearest limit. -/
def strtoll (s : Text) : Int64 :=
  .ofInt (max Int64.minValue.toInt (min Int64.maxValue.toInt (strtol s)))

/-- The number that a sign and digits make. -/
def signedValue : Text → Option Int
  | [] => none
  | b :: s =>
    if b = 45 then if IsNumeral s then some (-(digitsValue s : Int)) else none
    else if b = 43 then if IsNumeral s then some (digitsValue s : Int) else none
    else if IsNumeral (b :: s) then some (digitsValue (b :: s) : Int) else none

/-- `strconv.ParseInt(s, 10, 64)`, without an answer where it returns an error. -/
def parseInt (s : Text) : Option Int64 := do
  let n ← signedValue s
  if Int64.minValue.toInt ≤ n ∧ n ≤ Int64.maxValue.toInt then some (.ofInt n) else none

/-! ## Printing -/

/-- The character of a digit. -/
def digit (d : Nat) : UInt8 := UInt8.ofNat (48 + d)

/-- The number in decimal. -/
def decimal (n : Nat) : Text :=
  if n = 0 then [48] else (Nat.digits 10 n).reverse.map digit

/-- A number in decimal, with its sign. -/
def decimalInt (n : Int) : Text :=
  if n < 0 then 45 :: decimal n.natAbs else decimal n.natAbs

/-! ## What is read of what was printed -/

theorem digit_toNat {d : Nat} (h : d < 10) : (digit d).toNat = 48 + d := by
  rw [digit, UInt8.toNat_ofNat']
  omega

theorem isDigit_digit {d : Nat} (h : d < 10) : isDigit (digit d) = true := by
  have hd := digit_toNat h
  simp only [isDigit, Bool.and_eq_true, decide_eq_true_eq, UInt8.le_iff_toNat_le]
  exact ⟨hd ▸ Nat.le_add_right _ _, hd ▸ Nat.add_le_add_left (Nat.le_of_lt_succ h) _⟩

theorem isNumeral_decimal (n : Nat) : IsNumeral (decimal n) := by
  unfold decimal
  split
  · decide
  · rename_i hn
    refine ⟨fun hnil => hn ?_, fun b hb => ?_⟩
    · rw [List.map_eq_nil_iff, List.reverse_eq_nil_iff, Nat.digits_eq_nil_iff_eq_zero] at hnil
      exact hnil
    · obtain ⟨d, hd, rfl⟩ := List.mem_map.mp hb
      exact isDigit_digit (Nat.digits_lt_base (by decide) (List.mem_reverse.mp hd))

theorem digitsValue_decimal (n : Nat) : digitsValue (decimal n) = n := by
  have hvalue : ∀ ds : List Nat, (∀ d ∈ ds, d < 10) →
      digitsValue (ds.reverse.map digit) = Nat.ofDigits 10 ds := by
    intro ds hds
    induction ds with
    | nil => rfl
    | cons d ds ih =>
      have hd := digit_toNat (hds d List.mem_cons_self)
      rw [List.reverse_cons, List.map_append, Nat.ofDigits_cons, digitsValue, List.foldl_append]
      rw [digitsValue] at ih
      rw [ih fun d' hd' => hds d' (List.mem_cons_of_mem d hd')]
      simp only [List.map_cons, List.map_nil, List.foldl_cons, List.foldl_nil, hd]
      omega
  unfold decimal
  split
  · rename_i hn
    rw [hn]
    rfl
  · rw [hvalue _ fun d hd => Nat.digits_lt_base (by decide) hd, Nat.ofDigits_digits]

theorem leadingValue_numeral {s : Text} (h : ∀ b ∈ s, isDigit b = true) :
    leadingValue s = digitsValue s := by
  rw [leadingValue, List.takeWhile_eq_self_iff.mpr h]

theorem not_isSpace_of_isDigit {b : UInt8} (h : isDigit b = true) :
    isSpace b = false ∧ b ≠ 45 ∧ b ≠ 43 := by
  simp only [isDigit, Bool.and_eq_true, decide_eq_true_eq, UInt8.le_iff_toNat_le] at h
  obtain ⟨hlow, -⟩ := h
  have hne : ∀ c : UInt8, c.toNat < 48 → b ≠ c := fun c hc hbc =>
    absurd (hbc ▸ hlow) (Nat.not_le.mpr hc)
  refine ⟨?_, hne 45 (by decide), hne 43 (by decide)⟩
  simp only [isSpace, Bool.or_eq_false_iff, beq_eq_false_iff_ne, Bool.and_eq_false_iff,
    decide_eq_false_iff_not, UInt8.le_iff_toNat_le]
  exact ⟨hne 32 (by decide), .inr fun hle => absurd (Nat.le_trans hlow hle) (by decide)⟩

/-- A numeral is read as its value. -/
theorem strtol_numeral {s : Text} (h : IsNumeral s) : strtol s = digitsValue s := by
  obtain ⟨hne, hdigits⟩ := h
  cases s with
  | nil => exact absurd rfl hne
  | cons b s =>
    obtain ⟨hspace, hminus, hplus⟩ := not_isSpace_of_isDigit (hdigits b List.mem_cons_self)
    rw [strtol, List.dropWhile_cons_of_neg (by simp [hspace])]
    simp only [if_neg hminus, if_neg hplus]
    rw [leadingValue_numeral hdigits]

/-- **What is printed is read back.** -/
theorem strtol_decimalInt (n : Int) : strtol (decimalInt n) = n := by
  unfold decimalInt
  split
  · have hrest : leadingValue (decimal n.natAbs) = n.natAbs := by
      rw [leadingValue_numeral (isNumeral_decimal _).2, digitsValue_decimal]
    have hminus : isSpace 45 = false := rfl
    rw [strtol, List.dropWhile_cons_of_neg (by simp [hminus])]
    simp only [if_pos, hrest]
    omega
  · rw [strtol_numeral (isNumeral_decimal _), digitsValue_decimal]
    omega

theorem toInt_strtoll (s : Text) :
    (strtoll s).toInt = max Int64.minValue.toInt (min Int64.maxValue.toInt (strtol s)) := by
  have hmin : Int64.minValue.toInt = -2 ^ 63 := by decide
  have hmax : Int64.maxValue.toInt = 2 ^ 63 - 1 := by decide
  rw [strtoll, Int64.toInt_ofInt_of_le] <;> omega

/-- Within 64 bits nothing is cut. -/
theorem strtoll_eq {s : Text} {n : Int64} (h : strtol s = n.toInt) : strtoll s = n := by
  refine Int64.toInt_inj.mp ?_
  have hlow := n.minValue_le_toInt
  have hhigh := n.toInt_le
  rw [toInt_strtoll, h]
  omega

theorem signedValue_numeral {s : Text} (h : IsNumeral s) :
    signedValue s = some (digitsValue s : Int) := by
  cases s with
  | nil => exact absurd rfl h.1
  | cons b s =>
    obtain ⟨-, hminus, hplus⟩ := not_isSpace_of_isDigit (h.2 b List.mem_cons_self)
    rw [signedValue, if_neg hminus, if_neg hplus, if_pos h]

theorem signedValue_decimalInt (n : Int) : signedValue (decimalInt n) = some n := by
  unfold decimalInt
  split
  · rw [signedValue, if_pos rfl, if_pos (isNumeral_decimal _), digitsValue_decimal]
    congr 1
    omega
  · rw [signedValue_numeral (isNumeral_decimal _), digitsValue_decimal]
    congr 1
    omega

theorem parseInt_decimalInt (n : Int64) : parseInt (decimalInt n.toInt) = some n := by
  rw [parseInt, signedValue_decimalInt, Option.bind_eq_bind, Option.bind_some,
    if_pos ⟨n.minValue_le_toInt, n.toInt_le⟩, Int64.ofInt_toInt]

end ChainX.Lib
