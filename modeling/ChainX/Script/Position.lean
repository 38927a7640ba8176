import ChainX.Script.FindAndDelete

/-!
# Positions in a script, `chainx-ui.id/script.h:492-542, 587-600`

`GetOp2` and `Find` with a position as the source has it: a number of bytes from the beginning. What
is left after it is a difference of iterators, which has 32 bits, and is cast to `unsigned int`. A
read outside of the script has no result.

* Below `2 ^ 31` bytes the difference is what is left, and every comparison with it says what it
  means (`left_lt_iff`, `toUInt32_left_lt_iff`); from there on it may be negative.
* `At` and `Moved` tie a position to the bytes from there on, of which `Basic` speaks.
* `Find` has a loop over the position; here it has a number of rounds, and `find_eq` shows that the
  length of the script is enough of them.

Results:
* `getOp2At_eq`: at every position of a script below `2 ^ 31` bytes this is `getOp2` of the bytes
  from there on. No read is outside, and the position stays in the script.
* `find_eq`: the loop of `Find` ends, and counts the instructions that can be read.
* **`getOp2At_find`**: both, as one statement about a script.
-/

namespace ChainX.Script.CScript

open ChainX.Lib ChainX.Node

variable (common : Common)

/-! ## Functions -/

/-- `end() - pc`. -/
def left (script : CScript) (pc : Nat) : Int32 := .ofInt (script.length - pc)

/-- The branches of `GetOp2` that read a size. -/
def operandSizeAt (script : CScript) (opcode : opcodetype) (pc : Nat) :
    Option (Option UInt32 × Nat) :=
  if opcode < OP_PUSHDATA1 then some (some opcode, pc)
  else if opcode = OP_PUSHDATA1 then
    if left script pc < 1 then some (none, pc)
    else do
      let n ← script[pc]?
      return (some n.toUInt32, pc + 1)
  else if opcode = OP_PUSHDATA2 then
    if left script pc < 2 then some (none, pc)
    else do
      let n0 ← script[pc]?
      let n1 ← script[pc + 1]?
      return (some (common.readLE16 (n0, n1)).toUInt32, pc + 2)
  else if opcode = OP_PUSHDATA4 then
    if left script pc < 4 then some (none, pc)
    else do
      let n0 ← script[pc]?
      let n1 ← script[pc + 1]?
      let n2 ← script[pc + 2]?
      let n3 ← script[pc + 3]?
      return (some (common.readLE32 (n0, n1, n2, n3)), pc + 4)
  else some (some 0, pc)

/-- The operand of an instruction, when its size has been read. -/
def operandAt (script : CScript) (opcode : opcodetype) :
    Option UInt32 × Nat → Option (opcodetype × Bytes) × Nat
  | (none, pc) => (none, pc)
  | (some nSize, pc) =>
    if left script pc < 0 ∨ (left script pc).toUInt32 < nSize then (none, pc)
    else (some (opcode, (script.drop pc).take nSize.toNat), pc + nSize.toNat)

/-- `GetOp2`: the opcode and the data, where it returns true, and the position after it. -/
def getOp2At (script : CScript) (pc : Nat) : Option (Option (opcodetype × Bytes) × Nat) :=
  if script.length ≤ pc then some (none, pc)
  else if left script pc < 1 then some (none, pc)
  else do
    let b ← script[pc]?
    let opcode := b.toUInt32
    if opcode ≤ OP_PUSHDATA4 then
      return operandAt script opcode (← operandSizeAt common script opcode (pc + 1))
    else return (some (opcode, []), pc + 1)

/-- The loop of `Find`, for so many rounds. -/
def findLoop (script : CScript) (op : opcodetype) : Nat → Nat → Nat → Option Nat
  | 0, _, _ => none
  | rounds + 1, pc, nFound =>
    if pc ≠ script.length then do
      match ← getOp2At common script pc with
      | (none, _) => return nFound
      | (some (opcode, _), pc) =>
        findLoop script op rounds pc (if opcode = op then nFound + 1 else nFound)
    else some nFound

/-- `Find`: how often the opcode occurs, in that many rounds at most. -/
def find (script : CScript) (op : opcodetype) (rounds : Nat) : Option Nat :=
  findLoop common script op rounds 0 0

/-- The instructions up to the end or the first malformed push. -/
def instructions (pc : Bytes) : List (opcodetype × Bytes) :=
  match _ : getOp2 common pc with
  | (some instr, pc') => instr :: instructions pc'
  | (none, _) => []
termination_by pc.length
decreasing_by exact (getOp2_suffix ‹_›).2

variable {common} {script : CScript} {pc : Nat}

/-! ## What is left -/

theorem toInt_left (hsize : script.length < 2 ^ 31) (hpc : pc ≤ script.length) :
    (left script pc).toInt = (script.length - pc : Nat) := by
  rw [left, Int32.toInt_ofInt_of_le (by omega) (by omega), Int.ofNat_sub hpc]

theorem left_lt_iff (hsize : script.length < 2 ^ 31) (hpc : pc ≤ script.length) {k : Int32} :
    left script pc < k ↔ ((script.length - pc : Nat) : Int) < k.toInt := by
  rw [Int32.lt_iff_toInt_lt, toInt_left hsize hpc]

theorem toUInt32_left_lt_iff (hsize : script.length < 2 ^ 31) (hpc : pc ≤ script.length)
    {nSize : UInt32} : (left script pc).toUInt32 < nSize ↔ script.length - pc < nSize.toNat := by
  have hleft := toInt_left hsize hpc
  have hnonneg : 0 ≤ left script pc := by
    rw [Int32.le_iff_toInt_le, hleft, Int32.toInt_zero]
    omega
  rw [UInt32.lt_iff_toNat_lt, Int32.toNat_toUInt32_of_le hnonneg, Int32.toNatClampNeg, hleft,
    Int.toNat_natCast]

/-! ## Positions and what is left of a script -/

/-- The position `pos` is in the script, not before `pc`, and `rest` is left after it. -/
structure At (script : CScript) (pc pos : Nat) (rest : Bytes) : Prop where
  le : pc ≤ pos
  le_length : pos ≤ script.length
  drop_eq : script.drop pos = rest

theorem At.length_eq {pos : Nat} {rest : Bytes} (h : At script pc pos rest) :
    script.length - pos = rest.length := by
  rw [← h.drop_eq, List.length_drop]

/-- The position after `n` bytes more. -/
theorem At.add {pos : Nat} {rest : Bytes} (h : At script pc pos rest) {n : Nat}
    (hn : n ≤ rest.length) : At script pc (pos + n) (rest.drop n) where
  le := h.le.trans (Nat.le_add_right pos n)
  le_length := by
    have hlength := h.length_eq
    have hle := h.le_length
    omega
  drop_eq := by rw [← h.drop_eq, List.drop_drop]

theorem At.getElem? {pos : Nat} {rest : Bytes} (h : At script pc pos rest) (i : Nat) :
    script[pos + i]? = rest[i]? := by
  rw [← h.drop_eq, List.getElem?_drop]

theorem At.left_lt_iff (hsize : script.length < 2 ^ 31) {pos : Nat} {rest : Bytes}
    (h : At script pc pos rest) {k : Int32} :
    left script pos < k ↔ (rest.length : Int) < k.toInt := by
  rw [CScript.left_lt_iff hsize h.le_length, h.length_eq]

/-- A size is read as it is of the bytes that are left. -/
theorem operandSizeAt_eq (common : Common) (hsize : script.length < 2 ^ 31) (opcode : opcodetype)
    {pos : Nat} {rest : Bytes} (hat : At script pc pos rest) :
    ∃ pos', operandSizeAt common script opcode pos =
        some ((operandSize common opcode rest).1, pos') ∧
      At script pc pos' (operandSize common opcode rest).2 := by
  have hread := hat.getElem?
  have hone : (1 : Int32).toInt = 1 := by decide
  have htwo : (2 : Int32).toInt = 2 := by decide
  have hfour : (4 : Int32).toInt = 4 := by decide
  unfold operandSizeAt operandSize
  by_cases hdirect : opcode < OP_PUSHDATA1
  · simp only [if_pos hdirect]
    exact ⟨pos, rfl, hat⟩
  by_cases hdata1 : opcode = OP_PUSHDATA1
  · simp only [if_neg hdirect, if_pos hdata1, hat.left_lt_iff hsize, hone]
    match rest with
    | [] => exact ⟨pos, if_pos (by simp), hat⟩
    | n :: rest =>
      have hn : script[pos]? = some n := hread 0
      refine ⟨pos + 1, ?_, hat.add (Nat.le_add_left 1 _)⟩
      rw [if_neg (by simp), hn]
      rfl
  by_cases hdata2 : opcode = OP_PUSHDATA2
  · simp only [if_neg hdirect, if_neg hdata1, if_pos hdata2, hat.left_lt_iff hsize, htwo]
    match rest with
    | [] => exact ⟨pos, if_pos (by simp), hat⟩
    | [n0] => exact ⟨pos, if_pos (by simp), hat⟩
    | n0 :: n1 :: rest =>
      have hn0 : script[pos]? = some n0 := hread 0
      have hn1 : script[pos + 1]? = some n1 := hread 1
      refine ⟨pos + 2, ?_, hat.add (Nat.le_add_left 2 _)⟩
      rw [if_neg (by simp only [List.length_cons]; omega), hn0, hn1]
      rfl
  by_cases hdata4 : opcode = OP_PUSHDATA4
  · simp only [if_neg hdirect, if_neg hdata1, if_neg hdata2, if_pos hdata4, hat.left_lt_iff hsize,
      hfour]
    match rest with
    | [] => exact ⟨pos, if_pos (by simp), hat⟩
    | [n0] => exact ⟨pos, if_pos (by simp), hat⟩
    | [n0, n1] => exact ⟨pos, if_pos (by simp), hat⟩
    | [n0, n1, n2] => exact ⟨pos, if_pos (by simp), hat⟩
    | n0 :: n1 :: n2 :: n3 :: rest =>
      have hn0 : script[pos]? = some n0 := hread 0
      have hn1 : script[pos + 1]? = some n1 := hread 1
      have hn2 : script[pos + 2]? = some n2 := hread 2
      have hn3 : script[pos + 3]? = some n3 := hread 3
      refine ⟨pos + 4, ?_, hat.add (Nat.le_add_left 4 _)⟩
      rw [if_neg (by simp only [List.length_cons]; omega), hn0, hn1, hn2, hn3]
      rfl
  · simp only [if_neg hdirect, if_neg hdata1, if_neg hdata2, if_neg hdata4]
    exact ⟨pos, rfl, hat⟩

/-- An instruction has moved the position from `pc` to `pos`, with its data just before. -/
structure Moved (script : CScript) (pc pos : Nat) (vchRet : Bytes) : Prop where
  lt : pc + vchRet.length < pos
  suffix : vchRet <:+ script.take pos

theorem operandAt_of_short (hsize : script.length < 2 ^ 31) {pos : Nat} {rest : Bytes}
    (hat : At script pc pos rest) {nSize : UInt32} (h : rest.length < nSize.toNat)
    (opcode : opcodetype) : operandAt script opcode (some nSize, pos) = (none, pos) := by
  rw [operandAt, if_pos (.inr ((toUInt32_left_lt_iff hsize hat.le_length).mpr (hat.length_eq ▸ h)))]

theorem operandAt_of_le (hsize : script.length < 2 ^ 31) {pos : Nat} {rest : Bytes}
    (hat : At script pc pos rest) {nSize : UInt32} (h : nSize.toNat ≤ rest.length)
    (opcode : opcodetype) :
    operandAt script opcode (some nSize, pos) =
      (some (opcode, rest.take nSize.toNat), pos + nSize.toNat) := by
  rw [operandAt, if_neg, hat.drop_eq]
  rintro (hneg | hshort)
  · rw [hat.left_lt_iff hsize, Int32.toInt_zero] at hneg
    omega
  · rw [toUInt32_left_lt_iff hsize hat.le_length, hat.length_eq] at hshort
    omega

theorem At.moved {pos : Nat} {rest : Bytes} (hat : At script (pc + 1) pos rest) {n : Nat}
    (hn : n ≤ rest.length) : Moved script pc (pos + n) (rest.take n) where
  lt := by
    have hle := hat.le
    rw [List.length_take]
    omega
  suffix := by
    rw [List.take_add, hat.drop_eq]
    exact List.suffix_append _ _

theorem At.of_succ {pos : Nat} {rest : Bytes} (hat : At script (pc + 1) pos rest) :
    At script pc pos rest :=
  ⟨(Nat.le_succ pc).trans hat.le, hat.le_length, hat.drop_eq⟩

/-- At a position, `GetOp2` is what it is of the bytes that are left. -/
theorem getOp2At_eq (common : Common) (hsize : script.length < 2 ^ 31)
    (hpc : pc ≤ script.length) :
    ∃ pos, getOp2At common script pc = some ((getOp2 common (script.drop pc)).1, pos) ∧
      At script pc pos (getOp2 common (script.drop pc)).2 ∧
      ∀ instr, (getOp2 common (script.drop pc)).1 = some instr → Moved script pc pos instr.2 := by
  have hat : At script pc pc (script.drop pc) := ⟨le_rfl, hpc, rfl⟩
  unfold getOp2At
  cases hrest : script.drop pc with
  | nil =>
    rw [hrest] at hat
    have hend : script.length ≤ pc := Nat.sub_eq_zero_iff_le.mp hat.length_eq
    rw [if_pos hend]
    exact ⟨pc, rfl, hat, by simp [getOp2]⟩
  | cons b rest =>
    rw [hrest] at hat
    have hone : (1 : Int32).toInt = 1 := by decide
    have hlength := hat.length_eq
    rw [List.length_cons] at hlength
    have hread : script[pc]? = some b := hat.getElem? 0
    have hafter := hat.add (Nat.le_add_left 1 rest.length)
    have hnext : At script (pc + 1) (pc + 1) rest := ⟨le_rfl, hafter.le_length, hafter.drop_eq⟩
    rw [if_neg (by omega), if_neg (by rw [hat.left_lt_iff hsize, hone, List.length_cons]; omega),
      hread]
    simp only [Option.bind_eq_bind, Option.bind_some, getOp2]
    by_cases hpush : b.toUInt32 ≤ OP_PUSHDATA4
    · obtain ⟨pos, heq, hpos⟩ := operandSizeAt_eq common hsize b.toUInt32 hnext
      simp only [if_pos hpush, heq, Option.bind_some]
      rcases hoperand : operandSize common b.toUInt32 rest with ⟨size, rest'⟩
      simp only [hoperand] at hpos
      cases size with
      | none => exact ⟨pos, rfl, hpos.of_succ, by simp⟩
      | some nSize =>
        rcases Nat.lt_or_ge rest'.length nSize.toNat with hshort | hle
        · simp only [if_pos hshort]
          exact ⟨pos, by rw [operandAt_of_short hsize hpos hshort]; rfl, hpos.of_succ, by simp⟩
        · simp only [if_neg (Nat.not_lt.mpr hle)]
          refine ⟨pos + nSize.toNat, by rw [operandAt_of_le hsize hpos hle]; rfl,
            (hpos.add hle).of_succ, fun instr hinstr => ?_⟩
          obtain rfl := Option.some.inj hinstr
          exact hpos.moved hle
    · simp only [if_neg hpush]
      refine ⟨pc + 1, rfl, hnext.of_succ, fun instr hinstr => ?_⟩
      obtain rfl := Option.some.inj hinstr
      exact ⟨Nat.lt_succ_self pc, List.nil_suffix⟩

/-! ## `Find` -/

theorem instructions_of_some {pc pc' : Bytes} {instr : opcodetype × Bytes}
    (h : getOp2 common pc = (some instr, pc')) :
    instructions common pc = instr :: instructions common pc' := by
  rw [instructions]
  split
  · rename_i instr' pc'' heq
    obtain ⟨hinstr, rfl⟩ := Prod.mk.inj (heq.symm.trans h)
    rw [Option.some.inj hinstr]
  · rename_i heq
    exact absurd (heq.symm.trans h) (by simp)

theorem instructions_of_none {pc : Bytes} (h : (getOp2 common pc).1 = none) :
    instructions common pc = [] := by
  rw [instructions]
  split
  · rename_i heq
    rw [heq] at h
    exact absurd h (by simp)
  · rfl

/-- The loop counts the instructions from a position on: by induction on the rounds, each of which
moves the position on. -/
theorem findLoop_eq (common : Common) (hsize : script.length < 2 ^ 31) (op : opcodetype) :
    ∀ {rounds pc : Nat} (nFound : Nat), pc ≤ script.length → script.length - pc < rounds →
      findLoop common script op rounds pc nFound =
        some (nFound + (instructions common (script.drop pc)).countP (·.1 = op))
  | rounds + 1, pc, nFound, hpc, hrounds => by
    unfold findLoop
    by_cases hend : pc = script.length
    · rw [if_neg (not_not.mpr hend), instructions_of_none (by rw [hend, List.drop_length]; rfl)]
      rfl
    obtain ⟨pos, heq, hpos, hmoved⟩ := getOp2At_eq common hsize hpc
    rw [if_pos hend, heq]
    rcases hread : getOp2 common (script.drop pc) with ⟨_ | instr, rest⟩
    · rw [instructions_of_none (by rw [hread])]
      rfl
    · rw [hread] at hpos hmoved
      have hlt := (hmoved instr rfl).lt
      have hle := hpos.le_length
      have ih := findLoop_eq common hsize op (if instr.1 = op then nFound + 1 else nFound) hle
        (show script.length - pos < rounds by omega)
      rw [hpos.drop_eq] at ih
      refine ih.trans ?_
      rw [instructions_of_some hread, List.countP_cons]
      by_cases hop : instr.1 = op
      · simp only [hop, if_true, decide_true]
        rw [Nat.add_assoc, Nat.add_comm 1]
      · simp [hop]

theorem find_eq (common : Common) (hsize : script.length < 2 ^ 31) (op : opcodetype) {rounds : Nat}
    (hrounds : script.length < rounds) :
    find common script op rounds =
      some ((instructions common script).countP (·.1 = op)) := by
  have hloop := findLoop_eq common hsize op 0 (Nat.zero_le _) hrounds
  rwa [Nat.zero_add, List.drop_zero] at hloop

/-- **Reading a script never runs away**: `GetOp2` reads no byte outside of it, stays in it and
moves on where it returns true, with the data just before the new position; what it returns, and
where it moves to, is what `getOp2` makes of the bytes that are left; and the loop of `Find` ends
with the number of the instructions that have the opcode. -/
theorem getOp2At_find (common : Common) (hsize : script.length < 2 ^ 31) :
    (∀ pc ≤ script.length, ∃ ret pos, getOp2At common script pc = some (ret, pos) ∧
        getOp2 common (script.drop pc) = (ret, script.drop pos) ∧ pos ≤ script.length ∧
        ∀ opcode vchRet, ret = some (opcode, vchRet) →
          pc + vchRet.length < pos ∧ vchRet <:+ script.take pos) ∧
      ∀ op rounds, script.length < rounds →
        find common script op rounds =
          some ((instructions common script).countP (·.1 = op)) := by
  refine ⟨fun pc hpc => ?_, fun op rounds => find_eq common hsize op⟩
  obtain ⟨pos, heq, hpos, hmoved⟩ := getOp2At_eq common hsize hpc
  exact ⟨_, pos, heq, Prod.ext rfl hpos.drop_eq.symm, hpos.le_length,
    fun opcode vchRet h => ⟨(hmoved _ h).lt, (hmoved _ h).suffix⟩⟩

/-- One of three bytes is an opcode; two are data, and the push at the end is malformed. -/
theorem getOp2At_find_sample :
    find .littleEndian [2, 0xae, 0xae, 0xae, 0x4c, 9] 0xae 7 = some 1 ∧
      (instructions .littleEndian [2, 0xae, 0xae, 0xae, 0x4c, 9]).countP (·.1 = 0xae) = 1 := by
  have hrun : find .littleEndian [2, 0xae, 0xae, 0xae, 0x4c, 9] 0xae 7 = some 1 := by rfl
  have hsize : [2, 0xae, 0xae, 0xae, 0x4c, (9 : UInt8)].length < 2 ^ 31 := by decide
  have hfind := (getOp2At_find .littleEndian hsize).2 0xae 7 (by decide)
  exact ⟨hrun, (Option.some.inj (hrun.symm.trans hfind)).symm⟩

end ChainX.Script.CScript
