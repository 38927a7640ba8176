import Mathlib.Data.List.Basic

/-!
# Escape sequences, `Utility/json_spirit/json_spirit_reader_template.h`

From `hex_to_num` to `get_str_` (`json_spirit_reader_template.h:87-322`), for characters of any
width from a byte on (`CharType`): the templates are used with `std::string` and with
`std::wstring`. Iterators are positions. `none` is what the language leaves undefined: reading at or
past the end, or a range that ends before it starts.

* A character is a bit vector, so shifting a digit up drops what the width has no room for: of a
  `\u` number only the low bits remain where characters are bytes.
* A character that is no hexadecimal digit counts as 0, and an escape letter that is unknown gives
  nothing, as does a number whose digits are cut off.
* `unescape` reads from left to right what the loops do with positions: a backslash with what
  follows it, or one character. A backslash at the very end is a character like others.

Results:
* **`substituteEscChars_eq`**: nothing undefined happens, and the text is read from left to right
  (`unescape`).
* **`substituteEscChars_units`**: a text put together of characters and escape sequences is read as
  what they stand for (`Spelling`).
-/

namespace ChainX.Json

/-- The width of `String_type::value_type`. -/
structure CharType where
  bits : Nat
  eight_le : 8 ≤ bits

variable {k : CharType}

/-- A character. -/
abbrev CharType.Char (k : CharType) : Type := BitVec k.bits

/-- A character constant. -/
def chr (code : Nat) : k.Char := .ofNat k.bits code

/-! ## Functions -/

/-- `hex_to_num`, which takes every other character for `0`. -/
def hexToNum (c : k.Char) : k.Char :=
  if c ≥ chr 48 ∧ c ≤ chr 57 then c - chr 48
  else if c ≥ chr 97 ∧ c ≤ chr 102 then c - chr 97 + 10
  else if c ≥ chr 65 ∧ c ≤ chr 70 then c - chr 65 + 10
  else 0

/-- The character, and where `begin` is then. -/
def hexStrToChar (s : List k.Char) (begin : Nat) : Option (k.Char × Nat) := do
  let c1 ← s[begin + 1]?
  let c2 ← s[begin + 2]?
  return (hexToNum c1 <<< 4 + hexToNum c2, begin + 2)

/-- `unicode_str_to_char`: the four digits after `begin`, shifted together in the type of the
characters, and the position of the last of them. -/
def unicodeStrToChar (s : List k.Char) (begin : Nat) : Option (k.Char × Nat) := do
  let c1 ← s[begin + 1]?
  let c2 ← s[begin + 2]?
  let c3 ← s[begin + 3]?
  let c4 ← s[begin + 4]?
  return (hexToNum c1 <<< 12 + hexToNum c2 <<< 8 + hexToNum c3 <<< 4 + hexToNum c4, begin + 4)

/-- The cases of the `switch` that append a constant: `t`, `b`, `f`, `n`, `r`, `\`, `/` and `"`. -/
def escapedChar (c2 : k.Char) : Option k.Char :=
  if c2 = chr 116 then some (chr 9)
  else if c2 = chr 98 then some (chr 8)
  else if c2 = chr 102 then some (chr 12)
  else if c2 = chr 110 then some (chr 10)
  else if c2 = chr 114 then some (chr 13)
  else if c2 = chr 92 then some (chr 92)
  else if c2 = chr 47 then some (chr 47)
  else if c2 = chr 34 then some (chr 34)
  else none

/-- What becomes of the result and of `begin`. -/
def appendEscCharAndIncrIter (s result : List k.Char) (begin : Nat) :
    Option (List k.Char × Nat) := do
  let c2 ← s[begin]?
  match escapedChar c2 with
  | some c => return (result ++ [c], begin)
  | none =>
    -- `xHH` and `uHHHH`
    if c2 = chr 120 then
      if s.length - begin ≥ 3 then
        let (c, begin) ← hexStrToChar s begin
        return (result ++ [c], begin)
      else return (result, begin)
    else if c2 = chr 117 then
      if s.length - begin ≥ 5 then
        let (c, begin) ← unicodeStrToChar s begin
        return (result ++ [c], begin)
      else return (result, begin)
    else return (result, begin)

/-- The characters from `first` up to `last`. -/
def range (s : List k.Char) (first last : Nat) : Option (List k.Char) :=
  if first ≤ last ∧ last ≤ s.length then some ((s.take last).drop first) else none

/-- The loop, for so many rounds at most. -/
def substituteLoop (s : List k.Char) : Nat → List k.Char → Nat → Nat → Option (List k.Char)
  | 0, _, _, _ => none
  | rounds + 1, result, substrStart, i =>
    if i < s.length - 1 then do
      let c ← s[i]?
      if c = chr 92 then
        let result := result ++ (← range s substrStart i)
        -- skip the `\`
        let (result, i) ← appendEscCharAndIncrIter s result (i + 1)
        substituteLoop s rounds result (i + 1) (i + 1)
      else substituteLoop s rounds result substrStart (i + 1)
    else do return result ++ (← range s substrStart s.length)

/-- `substitute_esc_chars`: what is shorter than an escape is returned as it is. -/
def substituteEscChars (s : List k.Char) : Option (List k.Char) :=
  if s.length < 2 then some s else substituteLoop s s.length [] 0 0

/-- The assertion, and then the text without its quotes. -/
def getStr (s : List k.Char) : Option (List k.Char) :=
  if s.length ≥ 2 then substituteEscChars (s.drop 1).dropLast else none

/-! ## Reading from left to right -/

/-- One digit more, as the shifts of the source put it. -/
def addDigit (n c : k.Char) : k.Char := n <<< 4 + hexToNum c

/-- The number of a row of hexadecimal digits. -/
def hexNumber (digits : List k.Char) : k.Char := digits.foldl addDigit 0

/-- How many digits belong to an escape sequence. -/
def digitCount (e : k.Char) : Nat := if e = chr 120 then 2 else if e = chr 117 then 4 else 0

/-- What `\` and a character stand for before a text, and the text behind it. -/
def escapeSequence (e : k.Char) (rest : List k.Char) : List k.Char × List k.Char :=
  match escapedChar e with
  | some c => ([c], rest)
  | none =>
    if digitCount e ≠ 0 ∧ digitCount e ≤ rest.length then
      ([hexNumber (rest.take (digitCount e))], rest.drop (digitCount e))
    else ([], rest)

theorem length_escapeSequence_le (e : k.Char) (rest : List k.Char) :
    (escapeSequence e rest).2.length ≤ rest.length := by
  unfold escapeSequence
  split
  · exact Nat.le_refl _
  · split
    · rw [List.length_drop]
      exact Nat.sub_le _ _
    · exact Nat.le_refl _

/-- A `\` at the very end stands for itself. -/
def unescape : List k.Char → List k.Char
  | [] => []
  | [c] => [c]
  | c :: e :: rest =>
    if c = chr 92 then
      have := length_escapeSequence_le e rest
      (escapeSequence e rest).1 ++ unescape (escapeSequence e rest).2
    else c :: unescape (e :: rest)
termination_by s => s.length
decreasing_by
  · simp only [List.length_cons]
    omega
  · simp

theorem unescape_of_length_le {s : List k.Char} (h : s.length ≤ 1) : unescape s = s := by
  match s, h with
  | [], _ => rw [unescape]
  | [_], _ => rw [unescape]

theorem unescape_escape (e : k.Char) (rest : List k.Char) :
    unescape (chr 92 :: e :: rest) =
      (escapeSequence e rest).1 ++ unescape (escapeSequence e rest).2 := by
  rw [unescape, if_pos rfl]

theorem unescape_cons {c : k.Char} (hc : c ≠ chr 92) (s : List k.Char) :
    unescape (c :: s) = c :: unescape s := by
  cases s with
  | nil => rw [unescape, unescape]
  | cons e rest => rw [unescape, if_neg hc]

/-! ## The loop -/

variable {s result : List k.Char}

theorem range_eq {first last : Nat} (h : first ≤ last) (h' : last ≤ s.length) :
    range s first last = some ((s.take last).drop first) := if_pos ⟨h, h'⟩

/-- What lies before `i` and behind it. -/
theorem drop_take_append_drop {a i : Nat} (ha : a ≤ i) (hi : i ≤ s.length) :
    (s.take i).drop a ++ s.drop i = s.drop a := by
  rw [← List.drop_append_of_le_length (by rw [List.length_take]; omega), List.take_append_drop]

theorem hexStrToChar_eq {begin : Nat} (h : begin + 2 < s.length) :
    hexStrToChar s begin = some (hexNumber ((s.drop (begin + 1)).take 2), begin + 2) := by
  have hdrop : (s.drop (begin + 1)).take 2 = [s[begin + 1], s[begin + 2]] := by
    rw [List.drop_eq_getElem_cons (by omega), List.drop_eq_getElem_cons h]
    rfl
  simp [hexStrToChar, hexNumber, addDigit, h, show begin + 1 < s.length by omega, hdrop]

theorem unicodeStrToChar_eq {begin : Nat} (h : begin + 4 < s.length) :
    unicodeStrToChar s begin = some (hexNumber ((s.drop (begin + 1)).take 4), begin + 4) := by
  have hdrop : (s.drop (begin + 1)).take 4 =
      [s[begin + 1], s[begin + 2], s[begin + 3], s[begin + 4]] := by
    rw [List.drop_eq_getElem_cons (by omega), List.drop_eq_getElem_cons (by omega),
      List.drop_eq_getElem_cons (by omega), List.drop_eq_getElem_cons h]
    rfl
  simp [unicodeStrToChar, hexNumber, addDigit, h, show begin + 1 < s.length by omega,
    show begin + 2 < s.length by omega, show begin + 3 < s.length by omega, hdrop,
    BitVec.shiftLeft_add_distrib, ← BitVec.shiftLeft_add]

/-- **The rule for an escape sequence**: what it stands for is appended, and `begin` is at its
end. -/
theorem appendEscCharAndIncrIter_eq (result : List k.Char) {begin : Nat} (h : begin < s.length) :
    ∃ last, appendEscCharAndIncrIter s result begin =
        some (result ++ (escapeSequence s[begin] (s.drop (begin + 1))).1, last) ∧
      s.drop (last + 1) = (escapeSequence s[begin] (s.drop (begin + 1))).2 ∧
      begin ≤ last ∧ last < s.length := by
  simp only [appendEscCharAndIncrIter, List.getElem?_eq_getElem h, Option.bind_eq_bind,
    Option.bind_some, escapeSequence, List.length_drop]
  split
  · exact ⟨begin, rfl, rfl, Nat.le_refl _, h⟩
  · by_cases hx : s[begin] = chr 120
    · have hcount : digitCount s[begin] = 2 := if_pos hx
      by_cases hlen : begin + 2 < s.length
      · refine ⟨begin + 2, ?_⟩
        rw [if_pos hx, if_pos (by omega), hexStrToChar_eq hlen, if_pos (by omega), hcount,
          List.drop_drop]
        exact ⟨rfl, rfl, by omega, hlen⟩
      · refine ⟨begin, ?_⟩
        rw [if_pos hx, if_neg (by omega), if_neg (by omega), List.append_nil]
        exact ⟨rfl, rfl, Nat.le_refl _, h⟩
    · by_cases hu : s[begin] = chr 117
      · have hcount : digitCount s[begin] = 4 := (if_neg hx).trans (if_pos hu)
        by_cases hlen : begin + 4 < s.length
        · refine ⟨begin + 4, ?_⟩
          rw [if_neg hx, if_pos hu, if_pos (by omega), unicodeStrToChar_eq hlen,
            if_pos (by omega), hcount, List.drop_drop]
          exact ⟨rfl, rfl, by omega, hlen⟩
        · refine ⟨begin, ?_⟩
          rw [if_neg hx, if_pos hu, if_neg (by omega), if_neg (by omega), List.append_nil]
          exact ⟨rfl, rfl, Nat.le_refl _, h⟩
      · have hcount : digitCount s[begin] = 0 := (if_neg hx).trans (if_neg hu)
        refine ⟨begin, ?_⟩
        rw [if_neg hx, if_neg hu, if_neg (by omega), List.append_nil]
        exact ⟨rfl, rfl, Nat.le_refl _, h⟩

/-- **The loop invariant**: up to `substrStart` the text is in the result, up to `i` it stands for
itself, and the rest is still to be read. -/
theorem substituteLoop_eq {rounds substrStart i : Nat} (hstart : substrStart ≤ i)
    (hi : i ≤ s.length) (hpos : 0 < rounds) (hrounds : s.length ≤ rounds + i) :
    substituteLoop s rounds result substrStart i =
      some (result ++ ((s.take i).drop substrStart ++ unescape (s.drop i))) := by
  induction rounds generalizing result substrStart i with
  | zero => exact absurd hpos (Nat.lt_irrefl 0)
  | succ rounds ih =>
    unfold substituteLoop
    by_cases hlt : i < s.length - 1
    · have hlen : i < s.length := by omega
      simp only [if_pos hlt, List.getElem?_eq_getElem hlen, Option.bind_eq_bind, Option.bind_some]
      split
      · rename_i hescape
        have hlen' : i + 1 < s.length := by omega
        obtain ⟨last, happend, hrest, hle, hlast⟩ := appendEscCharAndIncrIter_eq
          (result ++ (s.take i).drop substrStart) hlen'
        simp only [range_eq hstart hi, Option.bind_some, happend]
        rw [ih (Nat.le_refl _) (by omega) (by omega) (by omega), hrest, List.drop_take_self,
          List.drop_eq_getElem_cons hlen, List.drop_eq_getElem_cons hlen', hescape,
          unescape_escape]
        simp only [List.nil_append, List.append_assoc]
      · rename_i hplain
        rw [ih (by omega) (by omega) (by omega) (by omega), List.drop_eq_getElem_cons hlen,
          unescape_cons hplain, List.take_succ_eq_append_getElem hlen,
          List.drop_append_of_le_length (by rw [List.length_take]; omega)]
        simp only [List.append_assoc, List.singleton_append]
    · rw [if_neg hlt, range_eq (Nat.le_trans hstart hi) (Nat.le_refl _), List.take_length,
        unescape_of_length_le (by rw [List.length_drop]; omega), drop_take_append_drop hstart hi]
      rfl

/-- **Nothing undefined happens, and the text is read from left to right.** -/
theorem substituteEscChars_eq (s : List k.Char) : substituteEscChars s = some (unescape s) := by
  unfold substituteEscChars
  split
  · rename_i hshort
    rw [unescape_of_length_le (by omega)]
  · rw [substituteLoop_eq (Nat.le_refl 0) (Nat.zero_le _) (by omega) (by omega)]
    rfl

/-! ## Spellings -/

theorem toNat_chr {code : Nat} (h : code < 256) : (chr code : k.Char).toNat = code := by
  have hpow : 2 ^ 8 ≤ 2 ^ k.bits := Nat.pow_le_pow_right (by decide) k.eight_le
  exact Nat.mod_eq_of_lt (by omega)

theorem chr_inj {a b : Nat} (ha : a < 256) (hb : b < 256) : (chr a : k.Char) = chr b ↔ a = b := by
  refine ⟨fun h => ?_, congrArg chr⟩
  rw [← toNat_chr (k := k) ha, h, toNat_chr hb]

/-- A hexadecimal digit, and whether it is a capital letter. -/
structure HexDigit where
  val : Fin 16
  upper : Bool

/-- The character of the digit. -/
def HexDigit.code (d : HexDigit) : Nat :=
  if d.val.val < 10 then 48 + d.val.val
  else if d.upper then 55 + d.val.val
  else 87 + d.val.val

/-- The number of a row of digits. -/
def hexValue (ds : List HexDigit) : Nat := ds.foldl (fun n d => 16 * n + d.val.val) 0

theorem hexToNum_code (d : HexDigit) : hexToNum (chr d.code : k.Char) = chr d.val.val := by
  have hsub : ∀ {a b : Nat}, a ≤ b → b < 256 → (chr b : k.Char) - chr a = chr (b - a) := by
    intro a b hab hb
    have hle : (chr a : k.Char) ≤ chr b := by
      rw [BitVec.le_def, toNat_chr hb, toNat_chr (by omega)]
      exact hab
    refine BitVec.eq_of_toNat_eq ?_
    rw [BitVec.toNat_sub_of_le hle, toNat_chr hb, toNat_chr (by omega), toNat_chr (by omega)]
  have hle : ∀ {a b : Nat}, a < 256 → b < 256 → ((chr a : k.Char) ≤ chr b ↔ a ≤ b) := by
    intro a b ha hb
    rw [BitVec.le_def, toNat_chr ha, toNat_chr hb]
  have hbetween : ∀ {a b c : Nat}, a ≤ b → b ≤ c → c < 256 →
      (chr a : k.Char) ≤ chr b ∧ (chr b : k.Char) ≤ chr c := fun hab hbc hc =>
    ⟨(hle (by omega) (by omega)).mpr hab, (hle (by omega) hc).mpr hbc⟩
  have hten : ∀ a : Nat, (chr a : k.Char) + 10 = chr (a + 10) := fun a =>
    (BitVec.ofNat_add a 10).symm
  have hval := d.val.isLt
  unfold HexDigit.code hexToNum
  split
  · rw [if_pos (hbetween (by omega) (by omega) (by omega)), hsub (by omega) (by omega)]
    congr 1
    omega
  · split
    · rw [if_neg fun h => absurd ((hle (by omega) (by omega)).mp h.2) (by omega),
        if_neg fun h => absurd ((hle (by omega) (by omega)).mp h.1) (by omega),
        if_pos (hbetween (by omega) (by omega) (by omega)), hsub (by omega) (by omega), hten]
      congr 1
      omega
    · rw [if_neg fun h => absurd ((hle (by omega) (by omega)).mp h.2) (by omega),
        if_pos (hbetween (by omega) (by omega) (by omega)), hsub (by omega) (by omega), hten]
      congr 1
      omega

theorem chr_shiftLeft (a : Nat) : (chr a : k.Char) <<< 4 = chr (16 * a) := by
  refine BitVec.eq_of_toNat_eq ?_
  rw [BitVec.toNat_shiftLeft, Nat.shiftLeft_eq, chr, chr, BitVec.toNat_ofNat, BitVec.toNat_ofNat,
    Nat.mod_mul_mod, Nat.mul_comm]

theorem hexNumber_code (ds : List HexDigit) :
    hexNumber (ds.map fun d => (chr d.code : k.Char)) = chr (hexValue ds) := by
  have hfold : ∀ (ds : List HexDigit) (a : Nat),
      (ds.map fun d => (chr d.code : k.Char)).foldl addDigit (chr a) =
        chr (ds.foldl (fun n d => 16 * n + d.val.val) a) := by
    intro ds
    induction ds with
    | nil => exact fun _ => rfl
    | cons d ds ih =>
      intro a
      rw [List.map_cons, List.foldl_cons, List.foldl_cons, ← ih, addDigit, hexToNum_code,
        chr_shiftLeft]
      congr 1
      exact (BitVec.ofNat_add _ _).symm
  exact hfold ds 0

/-- Characters behind a `\`, with what they stand for. -/
def escapeTable : List (Nat × Nat) :=
  [(116, 9), (98, 8), (102, 12), (110, 10), (114, 13), (92, 92), (47, 47), (34, 34)]

/-- How a literal spells a character. -/
inductive Spelling (k : CharType) where
  | plain (c : k.Char) (h : c ≠ chr 92)
  | escaped (p : Nat × Nat) (h : p ∈ escapeTable)
  /-- `\xHH`. -/
  | hex (d1 d2 : HexDigit)
  /-- `\uHHHH`. -/
  | unicode (d1 d2 d3 d4 : HexDigit)

/-- What is written for a character. -/
def Spelling.text : Spelling k → List k.Char
  | plain c _ => [c]
  | escaped p _ => [chr 92, chr p.1]
  | hex d1 d2 => [chr 92, chr 120, chr d1.code, chr d2.code]
  | unicode d1 d2 d3 d4 =>
    [chr 92, chr 117, chr d1.code, chr d2.code, chr d3.code, chr d4.code]

/-- Of a number that is too large for a character, the low bits remain. -/
def Spelling.char : Spelling k → k.Char
  | plain c _ => c
  | escaped p _ => chr p.2
  | hex d1 d2 => chr (hexValue [d1, d2])
  | unicode d1 d2 d3 d4 => chr (hexValue [d1, d2, d3, d4])

theorem escapedChar_of_mem {p : Nat × Nat} (h : p ∈ escapeTable) :
    escapedChar (chr p.1 : k.Char) = some (chr p.2) := by
  simp only [escapeTable, List.mem_cons, List.not_mem_nil, or_false] at h
  rcases h with rfl | rfl | rfl | rfl | rfl | rfl | rfl | rfl <;>
    simp [escapedChar, chr_inj]

theorem unescape_digits {e : Nat} (he : e = 120 ∨ e = 117) (digits : List k.Char)
    (hlen : digits.length = digitCount (chr e : k.Char)) (rest : List k.Char) :
    unescape (chr 92 :: chr e :: (digits ++ rest)) = hexNumber digits :: unescape rest := by
  have hnone : escapedChar (chr e : k.Char) = none := by
    rcases he with rfl | rfl <;> simp [escapedChar, chr_inj]
  have hcount : digitCount (chr e : k.Char) ≠ 0 := by
    rcases he with rfl | rfl <;> simp [digitCount, chr_inj]
  rw [unescape_escape, escapeSequence, hnone, ← hlen]
  simp only [List.length_append, List.take_left, List.drop_left]
  rw [if_pos ⟨hlen ▸ hcount, Nat.le_add_right _ _⟩]
  rfl

/-- A spelling is read as what it stands for. -/
theorem unescape_text (u : Spelling k) (rest : List k.Char) :
    unescape (u.text ++ rest) = u.char :: unescape rest := by
  cases u with
  | plain c h => exact unescape_cons h rest
  | escaped p h =>
    rw [Spelling.text, List.cons_append, List.singleton_append, unescape_escape, escapeSequence,
      escapedChar_of_mem h]
    rfl
  | hex d1 d2 =>
    refine (unescape_digits (.inl rfl) [chr d1.code, chr d2.code] ?_ rest).trans ?_
    · simp [digitCount]
    · rw [Spelling.char, ← hexNumber_code]
      rfl
  | unicode d1 d2 d3 d4 =>
    refine (unescape_digits (.inr rfl)
      [chr d1.code, chr d2.code, chr d3.code, chr d4.code] ?_ rest).trans ?_
    · simp [digitCount, chr_inj]
    · rw [Spelling.char, ← hexNumber_code]
      rfl

/-- **A literal is read as the characters it spells**, in whichever way each of them is spelled, and
any other text from left to right, with nothing undefined. -/
theorem substituteEscChars_units (k : CharType) :
    (∀ us : List (Spelling k),
        substituteEscChars (us.flatMap Spelling.text) = some (us.map Spelling.char)) ∧
      ∀ s : List k.Char, substituteEscChars s = some (unescape s) := by
  refine ⟨fun us => ?_, substituteEscChars_eq⟩
  rw [substituteEscChars_eq]
  congr 1
  induction us with
  | nil => rw [List.flatMap_nil, List.map_nil, unescape]
  | cons u us ih => rw [List.flatMap_cons, unescape_text, ih, List.map_cons]

/-- `"a\x41\u0042\n"` in bytes. -/
example : getStr (k := ⟨8, Nat.le_refl 8⟩)
    [34, 97, 92, 120, 52, 49, 92, 117, 48, 48, 52, 50, 92, 110, 34] = some [97, 65, 66, 10] := by
  rfl

end ChainX.Json
