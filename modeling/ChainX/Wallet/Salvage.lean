import ChainX.Lib.StringStream
import ChainX.Script.Basic
import ChainX.Wallet.Db

/-!
# Salvaging a wallet, `CDBEnv::Salvage`, `Wallet/db.cpp:163-210`

Salvaging reads the text that `db.verify` dumps of a damaged wallet: header lines, `HEADER=END`, the
lines of keys and values in turn, `DATA=END`. A dump can end after any of its lines (`Dump.cut`).
`ParseHex` and `DB_VERIFY_BAD` are parameters, and so is what `db.verify` returns.

* Both loops test `eof()` at their head, before they read: at the end of a text whose last line has
  its newline they make one round more, on an empty line.
* A key whose value was cut off gets the line that is read for it then, an empty one.
* `complete` are the pairs that are wholly in the dump: what a caller may expect to be salvaged.
* A dump is whole with the mark at its end; without it, it was cut between its marks or before.

Results:
* `skipHeader_lines`, `readPairs_pairs`: what the two loops make of whole lines.
* **`salvage_iff`**: a dump that is cut between its two marks gains a record. `salvage_header` is
  the shortest of them.
-/

namespace ChainX.Wallet.Database

open ChainX.Lib ChainX.Node

/-! ## The function -/

/-- `while (!strDump.eof() && strLine != "HEADER=END")`. -/
def skipHeader (strDump : StringStream) (strLine : Text) : StringStream :=
  if strDump.eof = false ∧ strLine ≠ ascii "HEADER=END" then
    skipHeader (getline strDump strLine).1 (getline strDump strLine).2
  else strDump
termination_by strDump.left
decreasing_by
  rename_i h
  exact left_getline_lt h.1 strLine

variable (parseHex : Text → Bytes)

/-- `while (!strDump.eof() && keyHex != "DATA=END")`. -/
def readPairs (strDump : StringStream) (keyHex valueHex : Text) (vResult : List (Bytes × Bytes)) :
    List (Bytes × Bytes) :=
  if strDump.eof = false ∧ keyHex ≠ ascii "DATA=END" then
    let key := getline strDump keyHex
    if key.2 ≠ ascii "DATA=END" then
      let value := getline key.1 valueHex
      readPairs value.1 key.2 value.2 (vResult ++ [(parseHex key.2, parseHex value.2)])
    else readPairs key.1 key.2 valueHex vResult
  else vResult
termination_by strDump.left
decreasing_by
  · rename_i h _
    exact (left_getline_le _ valueHex).trans_lt (left_getline_lt h.1 keyHex)
  · rename_i h _
    exact left_getline_lt h.1 keyHex

/-- `Salvage`, by the dump and what `db.verify` returns with it. Nothing is returned where the
assertion fails. -/
def CDBEnv.salvage {Handle : Type} (bitdb : CDBEnv Handle) (DB_VERIFY_BAD : Int) (strFile : Text)
    (fAggressive : Bool) (result : Int) (strDump : Text) (vResult : List (Bytes × Bytes)) :
    Option (Bool × List (Bytes × Bytes)) :=
  if (bitdb.mapFileUseCount strFile).isSome = true then none
  else if result = DB_VERIFY_BAD ∧ fAggressive = false then some (false, vResult)
  else if result ≠ 0 ∧ result ≠ DB_VERIFY_BAD then some (false, vResult)
  else
    let strDump := skipHeader ⟨strDump, false⟩ []
    some (result == 0, readPairs parseHex strDump [] [] vResult)

/-! ## Dumps -/

/-- The lines of a dump. -/
structure Dump where
  header : List Text
  pairs : List (Text × Text)
  header_line : ∀ line ∈ header, 10 ∉ line ∧ line ≠ ascii "HEADER=END"
  pairs_line : ∀ p ∈ pairs, 10 ∉ p.1 ∧ 10 ∉ p.2 ∧ p.1 ≠ ascii "DATA=END"

/-- Keys and values in turn. -/
def pairLines (pairs : List (Text × Text)) : List Text := pairs.flatMap fun p => [p.1, p.2]

namespace Dump

variable (d : Dump)

/-- The lines of the dump. -/
def lines : List Text :=
  d.header ++ ascii "HEADER=END" :: (pairLines d.pairs ++ [ascii "DATA=END"])

/-- The text, cut after `n` lines. -/
def cut (n : Nat) : Text := ofLines (d.lines.take n)

/-- The pairs both of whose lines are among the first `n`. -/
def complete (n : Nat) : List (Text × Text) := d.pairs.take ((n - (d.header.length + 1)) / 2)

end Dump

/-! ## The header -/

theorem nil_ne_header : ([] : Text) ≠ ascii "HEADER=END" := by decide

theorem nil_ne_data : ([] : Text) ≠ ascii "DATA=END" := by decide

theorem skipHeader_nil {strLine : Text} (h : strLine ≠ ascii "HEADER=END") :
    skipHeader ⟨[], false⟩ strLine = ⟨[], true⟩ := by
  rw [skipHeader, if_pos ⟨rfl, h⟩, getline_nil, skipHeader, if_neg (by simp)]

/-- Lines before the mark are skipped: by induction on them. -/
theorem skipHeader_lines : ∀ {header : List Text},
    (∀ line ∈ header, 10 ∉ line ∧ line ≠ ascii "HEADER=END") →
    ∀ {strLine : Text}, strLine ≠ ascii "HEADER=END" → ∀ rest : Text,
      ∃ strLine', strLine' ≠ ascii "HEADER=END" ∧
        skipHeader ⟨ofLines header ++ rest, false⟩ strLine = skipHeader ⟨rest, false⟩ strLine'
  | [], _, strLine, hline, rest => ⟨strLine, hline, rfl⟩
  | line :: header, hheader, strLine, hline, rest => by
    obtain ⟨hnew, hmark⟩ := hheader line List.mem_cons_self
    obtain ⟨strLine', hline', heq⟩ :=
      skipHeader_lines (fun l hl => hheader l (List.mem_cons_of_mem _ hl)) hmark rest
    refine ⟨strLine', hline', ?_⟩
    rw [skipHeader, if_pos ⟨rfl, hline⟩, ofLines_cons, List.append_assoc, List.cons_append,
      getline_line hnew]
    exact heq

theorem skipHeader_mark {strLine : Text} (h : strLine ≠ ascii "HEADER=END") (rest : Text) :
    skipHeader ⟨ascii "HEADER=END" ++ 10 :: rest, false⟩ strLine = ⟨rest, false⟩ := by
  rw [skipHeader, if_pos ⟨rfl, h⟩, getline_line (by decide), skipHeader, if_neg (by simp)]

/-! ## The pairs -/

/-- The records of pairs of lines. -/
def records (pairs : List (Text × Text)) : List (Bytes × Bytes) :=
  pairs.map fun p => (parseHex p.1, parseHex p.2)

theorem readPairs_of_eof (strDump : Text) (keyHex valueHex : Text)
    (vResult : List (Bytes × Bytes)) :
    readPairs parseHex ⟨strDump, true⟩ keyHex valueHex vResult = vResult := by
  rw [readPairs, if_neg (by simp)]

/-- Whole pairs are read: by induction on them. -/
theorem readPairs_pairs : ∀ {pairs : List (Text × Text)},
    (∀ p ∈ pairs, 10 ∉ p.1 ∧ 10 ∉ p.2 ∧ p.1 ≠ ascii "DATA=END") →
    ∀ {keyHex : Text}, keyHex ≠ ascii "DATA=END" →
    ∀ (rest valueHex : Text) (vResult : List (Bytes × Bytes)),
      ∃ keyHex' valueHex', keyHex' ≠ ascii "DATA=END" ∧
        readPairs parseHex ⟨ofLines (pairLines pairs) ++ rest, false⟩ keyHex valueHex vResult =
          readPairs parseHex ⟨rest, false⟩ keyHex' valueHex' (vResult ++ records parseHex pairs)
  | [], _, keyHex, hkey, rest, valueHex, vResult =>
    ⟨keyHex, valueHex, hkey, by simp [pairLines, records]⟩
  | (key, value) :: pairs, hpairs, keyHex, hkey, rest, valueHex, vResult => by
    obtain ⟨hkeyLine, hvalueLine, hmark⟩ := hpairs (key, value) List.mem_cons_self
    obtain ⟨keyHex', valueHex', hkey', heq⟩ :=
      readPairs_pairs (fun p hp => hpairs p (List.mem_cons_of_mem _ hp)) hmark rest value
        (vResult ++ [(parseHex key, parseHex value)])
    refine ⟨keyHex', valueHex', hkey', ?_⟩
    have hlines : ofLines (pairLines ((key, value) :: pairs)) ++ rest =
        key ++ 10 :: (value ++ 10 :: (ofLines (pairLines pairs) ++ rest)) := by
      simp [pairLines]
    rw [readPairs, if_pos ⟨rfl, hkey⟩, hlines]
    simp only [getline_line hkeyLine, getline_line hvalueLine, if_pos hmark]
    rw [heq]
    simp [records]

theorem readPairs_mark {keyHex : Text} (h : keyHex ≠ ascii "DATA=END") (valueHex : Text)
    (vResult : List (Bytes × Bytes)) :
    readPairs parseHex ⟨ofLines [ascii "DATA=END"], false⟩ keyHex valueHex vResult = vResult := by
  rw [readPairs, if_pos ⟨rfl, h⟩, ofLines_cons]
  simp only [getline_line (show 10 ∉ ascii "DATA=END" by decide), ne_eq, not_true_eq_false,
    if_false]
  rw [readPairs, if_neg (by simp)]

/-- At the end of a text without the mark, a record is made of a read that has failed. -/
theorem readPairs_nil {keyHex : Text} (h : keyHex ≠ ascii "DATA=END") (valueHex : Text)
    (vResult : List (Bytes × Bytes)) :
    readPairs parseHex ⟨[], false⟩ keyHex valueHex vResult =
      vResult ++ [(parseHex [], parseHex valueHex)] := by
  rw [readPairs, if_pos ⟨rfl, h⟩]
  simp only [getline_nil, if_pos nil_ne_data,
    getline_of_eof (show (⟨[], true⟩ : StringStream).eof = true from rfl)]
  exact readPairs_of_eof _ _ _ _ _

/-- A key without a value gets an empty one. -/
theorem readPairs_key {key keyHex : Text} (hnew : 10 ∉ key) (hmark : key ≠ ascii "DATA=END")
    (h : keyHex ≠ ascii "DATA=END") (valueHex : Text) (vResult : List (Bytes × Bytes)) :
    readPairs parseHex ⟨ofLines [key], false⟩ keyHex valueHex vResult =
      vResult ++ [(parseHex key, parseHex [])] := by
  rw [readPairs, if_pos ⟨rfl, h⟩, ofLines_cons]
  simp only [getline_line hnew, if_pos hmark, ofLines_nil, getline_nil]
  exact readPairs_of_eof _ _ _ _ _

/-! ## Cut dumps -/

/-- Up to the last mark, the lines are pairs and perhaps a key: by induction on the pairs, two lines
at a time. -/
theorem take_pairLines (last : Text) : ∀ {pairs : List (Text × Text)} {m : Nat},
    m ≤ 2 * pairs.length → ∃ tail, (tail = [] ∨ ∃ p ∈ pairs, tail = [p.1]) ∧
      (pairLines pairs ++ [last]).take m = pairLines (pairs.take (m / 2)) ++ tail
  | pairs, 0, _ => ⟨[], .inl rfl, by simp [pairLines]⟩
  | p :: pairs, 1, _ => ⟨[p.1], .inr ⟨p, List.mem_cons_self, rfl⟩, by simp [pairLines]⟩
  | p :: pairs, m + 2, hm => by
    have hm' : m ≤ 2 * pairs.length := by
      rw [List.length_cons] at hm
      omega
    obtain ⟨tail, htail, heq⟩ := take_pairLines last hm'
    refine ⟨tail, ?_, ?_⟩
    · rcases htail with rfl | ⟨q, hq, rfl⟩
      · exact .inl rfl
      · exact .inr ⟨q, List.mem_cons_of_mem _ hq, rfl⟩
    · have hhalf : (m + 2) / 2 = m / 2 + 1 := by omega
      rw [hhalf, List.take_succ_cons]
      simpa [pairLines] using heq

namespace Dump

variable (d : Dump)

theorem length_pairLines (pairs : List (Text × Text)) :
    (pairLines pairs).length = 2 * pairs.length := by
  induction pairs with
  | nil => rfl
  | cons p pairs ih =>
    rw [pairLines, List.flatMap_cons, ← pairLines, List.length_append, ih, List.length_cons]
    simp only [List.length_cons, List.length_nil]
    omega

theorem length_lines : d.lines.length = d.header.length + 2 * d.pairs.length + 2 := by
  simp [lines, length_pairLines]
  omega

/-- A dump that is cut in its header has no mark. -/
theorem skipHeader_cut_header {n : Nat} (h : n ≤ d.header.length) :
    skipHeader ⟨d.cut n, false⟩ [] = ⟨[], true⟩ := by
  have hcut : d.cut n = ofLines (d.header.take n) ++ [] := by
    rw [cut, lines, List.take_append_of_le_length h, List.append_nil]
  obtain ⟨strLine, hline, heq⟩ := skipHeader_lines
    (fun line hl => d.header_line line (List.mem_of_mem_take hl)) nil_ne_header []
  rw [hcut, heq, skipHeader_nil hline]

theorem skipHeader_cut {n : Nat} (h : d.header.length < n) :
    skipHeader ⟨d.cut n, false⟩ [] =
      ⟨ofLines ((pairLines d.pairs ++ [ascii "DATA=END"]).take (n - (d.header.length + 1))),
        false⟩ := by
  obtain ⟨m, rfl⟩ := Nat.exists_eq_add_of_lt h
  obtain ⟨strLine, hline, heq⟩ := skipHeader_lines d.header_line nil_ne_header
    (ascii "HEADER=END" ++ 10 :: ofLines ((pairLines d.pairs ++ [ascii "DATA=END"]).take m))
  have hcut : d.cut (d.header.length + m + 1) = ofLines d.header ++ (ascii "HEADER=END" ++
      10 :: ofLines ((pairLines d.pairs ++ [ascii "DATA=END"]).take m)) := by
    rw [cut, lines, Nat.add_assoc, List.take_length_add_append, List.take_succ_cons,
      ofLines_append, ofLines_cons]
  have hrest : d.header.length + m + 1 - (d.header.length + 1) = m := by omega
  rw [hcut, heq, skipHeader_mark hline, hrest]

/-- A dump that is cut between its marks gains a record. -/
theorem readPairs_cut {m : Nat} (h : m ≤ 2 * d.pairs.length) (vResult : List (Bytes × Bytes)) :
    ∃ r, readPairs parseHex
        ⟨ofLines ((pairLines d.pairs ++ [ascii "DATA=END"]).take m), false⟩ [] [] vResult =
      vResult ++ records parseHex (d.pairs.take (m / 2)) ++ [r] := by
  obtain ⟨tail, htail, htake⟩ := take_pairLines (ascii "DATA=END") h
  obtain ⟨keyHex, valueHex, hkey, heq⟩ := readPairs_pairs parseHex
    (fun p hp => d.pairs_line p (List.mem_of_mem_take hp)) nil_ne_data (ofLines tail) [] vResult
  rw [htake, ofLines_append, heq]
  rcases htail with rfl | ⟨p, hp, rfl⟩
  · exact ⟨_, readPairs_nil _ hkey _ _⟩
  · obtain ⟨hnew, -, hmark⟩ := d.pairs_line p hp
    exact ⟨_, readPairs_key _ hnew hmark hkey _ _⟩

theorem readPairs_whole (vResult : List (Bytes × Bytes)) :
    readPairs parseHex ⟨ofLines (pairLines d.pairs ++ [ascii "DATA=END"]), false⟩ [] [] vResult =
      vResult ++ records parseHex d.pairs := by
  obtain ⟨keyHex, valueHex, hkey, heq⟩ := readPairs_pairs parseHex
    d.pairs_line nil_ne_data (ofLines [ascii "DATA=END"]) [] vResult
  rw [ofLines_append, heq, readPairs_mark _ hkey]

end Dump

theorem salvage_of_read {Handle : Type} (parseHex : Text → Bytes) {bitdb : CDBEnv Handle}
    {strFile : Text} (hunused : bitdb.mapFileUseCount strFile = none) {DB_VERIFY_BAD result : Int}
    {fAggressive : Bool} (hread : result = 0 ∨ result = DB_VERIFY_BAD)
    (haggressive : result = DB_VERIFY_BAD → fAggressive = true) (strDump : Text)
    (vResult : List (Bytes × Bytes)) :
    bitdb.salvage parseHex DB_VERIFY_BAD strFile fAggressive result strDump vResult =
      some (result == 0, readPairs parseHex (skipHeader ⟨strDump, false⟩ []) [] [] vResult) := by
  have hbad : ¬ (result = DB_VERIFY_BAD ∧ fAggressive = false) := fun h =>
    absurd (haggressive h.1) (by simp [h.2])
  have hother : ¬ (result ≠ 0 ∧ result ≠ DB_VERIFY_BAD) := fun h => hread.elim h.1 h.2
  rw [CDBEnv.salvage, hunused, if_neg (by simp), if_neg hbad, if_neg hother]

/-- **Salvaging invents no records** if and only if the dump is whole or cut in its header. -/
theorem salvage_iff {Handle : Type} (parseHex : Text → Bytes) {bitdb : CDBEnv Handle}
    {strFile : Text} (hunused : bitdb.mapFileUseCount strFile = none) {DB_VERIFY_BAD result : Int}
    {fAggressive : Bool} (hread : result = 0 ∨ result = DB_VERIFY_BAD)
    (haggressive : result = DB_VERIFY_BAD → fAggressive = true) (d : Dump) (n : Nat)
    (vResult : List (Bytes × Bytes)) :
    bitdb.salvage parseHex DB_VERIFY_BAD strFile fAggressive result (d.cut n) vResult =
        some (result == 0, vResult ++ records parseHex (d.complete n)) ↔
      n ≤ d.header.length ∨ d.lines.length ≤ n := by
  have hlines := d.length_lines
  rw [salvage_of_read parseHex hunused hread haggressive, Option.some.injEq, Prod.mk.injEq,
    Dump.complete]
  rcases Nat.lt_or_ge d.header.length n with hheader | hheader
  · rw [d.skipHeader_cut hheader]
    rcases Nat.lt_or_ge n d.lines.length with hcut | hwhole
    · -- a record too many
      obtain ⟨r, hr⟩ := d.readPairs_cut parseHex
        (show n - (d.header.length + 1) ≤ 2 * d.pairs.length by omega) vResult
      refine iff_of_false (fun h => ?_) (by omega)
      have hlength := congrArg List.length (hr.symm.trans h.2)
      simp at hlength
    · refine iff_of_true ⟨rfl, ?_⟩ (.inr hwhole)
      have hall : (pairLines d.pairs ++ [ascii "DATA=END"]).length ≤ n - (d.header.length + 1) := by
        rw [List.length_append, Dump.length_pairLines, List.length_singleton]
        omega
      rw [List.take_of_length_le hall, List.take_of_length_le (by omega)]
      exact d.readPairs_whole parseHex vResult
  · have hzero : (n - (d.header.length + 1)) / 2 = 0 := by omega
    rw [d.skipHeader_cut_header hheader, readPairs_of_eof, hzero]
    exact iff_of_true ⟨rfl, by simp [records]⟩ (.inl hheader)

/-- A wallet with one record. -/
def oneRecord : Dump where
  header := [ascii "VERSION=3"]
  pairs := [(ascii "61", ascii "62")]
  header_line := by decide
  pairs_line := by decide

/-- `ParseHex` of the two lines. -/
def parseOneRecord (s : Text) : Bytes :=
  if s = ascii "61" then [97] else if s = ascii "62" then [98] else []

/-- An environment with no files. -/
def idleEnv : CDBEnv Unit := ⟨true, false, [], fun _ => none, fun _ => none⟩

theorem salvage_oneRecord :
    idleEnv.salvage parseOneRecord (-30970) (ascii "wallet.dat") false 0 (oneRecord.cut 5) [] =
      some (true, [([97], [98])]) :=
  (salvage_iff parseOneRecord rfl (.inl rfl) (by decide) oneRecord 5 []).mpr (.inr (by decide))

/-- A dump with nothing but its header has an empty record. -/
theorem salvage_header :
    oneRecord.cut 2 = ascii "VERSION=3\nHEADER=END\n" ∧ oneRecord.complete 2 = [] ∧
      idleEnv.salvage parseOneRecord (-30970) (ascii "wallet.dat") false 0 (oneRecord.cut 2) [] =
        some (true, [([], [])]) := by
  refine ⟨by rfl, by rfl, ?_⟩
  have hskip : skipHeader ⟨oneRecord.cut 2, false⟩ [] = ⟨[], false⟩ :=
    oneRecord.skipHeader_cut (by decide)
  rw [CDBEnv.salvage, if_neg (by decide), if_neg (by decide), if_neg (by decide)]
  simp only [hskip]
  rw [readPairs_nil _ nil_ne_data]
  rfl

end ChainX.Wallet.Database
