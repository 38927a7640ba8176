import ChainX.Lib.Decimal

/-!
# Reading a string stream line by line

`getline` on a `std::stringstream`. `eof()` is true when a read has met the end of the text, not
before; a read of a stream at which it is true leaves the string alone. `failbit` is never set
without `eofbit` here, and is left out.

* So a loop `while (!eof())` over a text that ends with a newline makes one round more than there
  are lines: the last `getline` meets the end at once, and leaves an empty string.
* `ofLines` is the text of some lines, each with its newline; `StringStream.left` is how much a loop
  has still to go.

Results:
* `getline_line`, `getline_nil`, `getline_of_eof`: what one call reads.
* `line_inj`, `mem_line`: the first line of a text and the rest of it.
* `left_getline_lt`: a loop until `eof()` ends, and `left_getline_le` lets it read twice a round.
-/

namespace ChainX.Lib

/-- What is left of the text, and `eof()`. -/
structure StringStream where
  text : Text
  eof : Bool

/-- `getline(s, str)`: the stream and the string after it. -/
def getline (s : StringStream) (str : Text) : StringStream × Text :=
  if s.eof = true then (s, str)
  else
    match s.text.dropWhile (· != 10) with
    | [] => (⟨[], true⟩, s.text)
    | _ :: rest => (⟨rest, false⟩, s.text.takeWhile (· != 10))

/-- A text of whole lines. -/
def ofLines (lines : List Text) : Text := lines.flatMap (· ++ [10])

/-- How often the stream can still be read. -/
def StringStream.left (s : StringStream) : Nat := if s.eof = true then 0 else s.text.length + 1

@[simp] theorem ofLines_nil : ofLines [] = [] := rfl

@[simp] theorem ofLines_cons (line : Text) (lines : List Text) :
    ofLines (line :: lines) = line ++ 10 :: ofLines lines := by
  simp [ofLines]

@[simp] theorem ofLines_append (lines lines' : List Text) :
    ofLines (lines ++ lines') = ofLines lines ++ ofLines lines' :=
  List.flatMap_append

theorem getline_of_eof {s : StringStream} (h : s.eof = true) (str : Text) :
    getline s str = (s, str) := if_pos h

theorem getline_nil (str : Text) : getline ⟨[], false⟩ str = (⟨[], true⟩, []) := rfl

theorem getline_line {line : Text} (h : 10 ∉ line) (rest str : Text) :
    getline ⟨line ++ 10 :: rest, false⟩ str = (⟨rest, false⟩, line) := by
  have hline : ∀ b ∈ line, (b != 10) = true := fun b hb => bne_iff_ne.mpr fun heq => h (heq ▸ hb)
  have hdrop : (line ++ 10 :: rest).dropWhile (· != 10) = 10 :: rest := by
    rw [List.dropWhile_append_of_pos hline]
    rfl
  have htake : (line ++ 10 :: rest).takeWhile (· != 10) = line := by
    rw [List.takeWhile_append_of_pos hline]
    exact List.append_nil line
  rw [getline, if_neg Bool.false_ne_true, hdrop, htake]

/-- A text has one first line. -/
theorem line_inj {line line' rest rest' : Text} (h : 10 ∉ line) (h' : 10 ∉ line')
    (heq : line ++ 10 :: rest = line' ++ 10 :: rest') : line = line' ∧ rest = rest' := by
  have hget := getline_line h rest []
  rw [heq, getline_line h' rest' []] at hget
  obtain ⟨hrest, hline⟩ := Prod.mk.inj hget
  exact ⟨hline.symm, (congrArg StringStream.text hrest).symm⟩

/-- What is met before the end of the first line is in it. -/
theorem mem_line {w line rest rest' : Text} {b : UInt8} (hw : 10 ∉ w) (hb : b ≠ 10)
    (heq : w ++ b :: rest = line ++ 10 :: rest') : b ∈ line := by
  rcases List.append_eq_append_iff.mp heq with ⟨c, rfl, hc⟩ | ⟨c, rfl, hc⟩
  · cases c with
    | nil => exact absurd (List.cons.inj hc).1 hb
    | cons b' c =>
      obtain ⟨rfl, -⟩ := List.cons.inj hc
      exact List.mem_append_right _ List.mem_cons_self
  · cases c with
    | nil => exact absurd (List.cons.inj hc).1.symm hb
    | cons b' c =>
      obtain ⟨rfl, -⟩ := List.cons.inj hc
      exact absurd (List.mem_append_right _ List.mem_cons_self) hw

theorem left_getline_lt {s : StringStream} (h : s.eof = false) (str : Text) :
    (getline s str).1.left < s.left := by
  rw [getline, if_neg (by simp [h])]
  split
  · simp [StringStream.left, h]
  · rename_i b rest hdrop
    have hlength := (List.dropWhile_suffix (l := s.text) (· != 10)).length_le
    rw [hdrop, List.length_cons] at hlength
    simp only [StringStream.left, h, Bool.false_eq_true, if_false]
    omega

theorem left_getline_le (s : StringStream) (str : Text) : (getline s str).1.left ≤ s.left := by
  cases h : s.eof with
  | true => rw [getline_of_eof h]
  | false => exact (left_getline_lt h str).le

end ChainX.Lib
