import ChainX.Script.RoundTrip

/-!
# `CScript::FindAndDelete`, `chainx-ui.id/script.h:560-586`

The loop of the source keeps two positions: `pc`, and `pc2` up to which the script was copied or
deleted. Each round copies the bytes between them, deletes the occurrences of the pattern at `pc`
and reads an instruction. What it comes to is said without the positions by `reference`: at an
instruction boundary every occurrence of the pattern goes, one after the other, and the instruction
after them is copied whole, so that an occurrence within the data of a push stays.

* The loop ends at the first instruction that cannot be read, and the rest is copied as it is.
* The inner loop moves `pc` over the occurrences and `pc2` follows, so that the next round copies
  the instruction that is read from there.

Results:
* `getOp2_suffix`: an instruction that was read is a nonempty front of what was left of the script,
  so the loop ends.
* **`findAndDelete_exact`**: the loop is the reference on every script, malformed ones included;
  what is missing is the occurrences counted; and nothing is counted if and only if the pattern is
  at no instruction boundary.
-/

namespace ChainX.Script.CScript

open ChainX.Lib ChainX.Node

variable (common : Common)

/-! ## Positions -/

theorem operandSize_suffix (opcode : opcodetype) (pc : Bytes) :
    (operandSize common opcode pc).2 <:+ pc := by
  unfold operandSize
  split
  · exact List.suffix_refl pc
  · split
    · cases pc with
      | nil => exact List.suffix_refl []
      | cons n pc => exact List.suffix_cons n pc
    · split
      · match pc with
        | [] => exact List.suffix_refl _
        | [n0] => exact List.suffix_refl _
        | n0 :: n1 :: pc => exact ⟨[n0, n1], rfl⟩
      · split
        · match pc with
          | [] => exact List.suffix_refl _
          | [n0] => exact List.suffix_refl _
          | [n0, n1] => exact List.suffix_refl _
          | [n0, n1, n2] => exact List.suffix_refl _
          | n0 :: n1 :: n2 :: n3 :: pc => exact ⟨[n0, n1, n2, n3], rfl⟩
        · exact List.suffix_refl pc

variable {common}

/-- The position moves on by a byte at least. -/
theorem getOp2_suffix {pc pc' : Bytes} {instr : opcodetype × Bytes}
    (h : getOp2 common pc = (some instr, pc')) : pc' <:+ pc ∧ pc'.length < pc.length := by
  cases pc with
  | nil => exact absurd h (by simp [getOp2])
  | cons b pc =>
    have htail : pc' <:+ pc := by
      have hsuffix := operandSize_suffix common b.toUInt32 pc
      simp only [getOp2] at h
      split at h
      · split at h
        · exact absurd h (by simp)
        · rename_i nSize rest hsize
          rw [hsize] at hsuffix
          split at h
          · exact absurd h (by simp)
          · obtain ⟨-, rfl⟩ := Prod.mk.inj h
            exact (List.drop_suffix _ _).trans hsuffix
      · obtain ⟨-, rfl⟩ := Prod.mk.inj h
        exact List.suffix_refl pc
    exact ⟨htail.trans (List.suffix_cons b pc), Nat.lt_succ_of_le htail.length_le⟩

/-- The bytes from one position to another one, which is not before it. -/
def between (pc2 pc : Bytes) : Bytes := pc2.take (pc2.length - pc.length)

theorem between_append {pc2 pc : Bytes} (h : pc <:+ pc2) : between pc2 pc ++ pc = pc2 := by
  obtain ⟨t, rfl⟩ := h
  unfold between
  rw [List.length_append, Nat.add_sub_cancel, List.take_left]

/-! ## The loops -/

/-- The inner loop: the position after the occurrences of `b` at `pc`, and `nFound`. -/
def skipLoop (b : Bytes) (hb : b ≠ []) (pc : Bytes) (nFound : Nat) : Bytes × Nat :=
  if h : b.length ≤ pc.length ∧ pc.take b.length = b then
    skipLoop b hb (pc.drop b.length) (nFound + 1)
  else (pc, nFound)
termination_by pc.length
decreasing_by
  have hpos := List.length_pos_iff.mpr hb
  rw [List.length_drop]
  omega

theorem skipLoop_length (b : Bytes) (hb : b ≠ []) (pc : Bytes) (nFound : Nat) :
    (skipLoop b hb pc nFound).1.length ≤ pc.length := by
  fun_induction skipLoop b hb pc nFound with
  | case1 pc nFound h ih =>
    rw [List.length_drop] at ih
    omega
  | case2 pc nFound h => exact Nat.le_refl _

variable (common)

/-- The outer loop: `result`, `pc2` and `nFound` behind it. Where an instruction cannot be read,
`pc` has moved all the same, but nothing looks at it any more. -/
def deleteLoop (b : Bytes) (hb : b ≠ []) (result pc2 pc : Bytes) (nFound : Nat) :
    Bytes × Bytes × Nat :=
  let skipped := skipLoop b hb pc nFound
  match _ : getOp2 common skipped.1 with
  | (some _, pc') => deleteLoop b hb (result ++ between pc2 pc) skipped.1 pc' skipped.2
  | (none, _) => (result ++ between pc2 pc, skipped.1, skipped.2)
termination_by pc.length
decreasing_by exact (getOp2_suffix ‹_›).2.trans_le (skipLoop_length b hb pc nFound)

/-- The script and the number returned. -/
def findAndDelete (script b : CScript) : CScript × Nat :=
  if hb : b = [] then (script, 0)
  else
    let (result, pc2, nFound) := deleteLoop common b hb [] script script 0
    if 0 < nFound then (result ++ pc2, nFound) else (script, nFound)

/-! ## The reference -/

/-- What is left of the script from a position on, and how often `b` was dropped: it is dropped
where the script goes on with it, otherwise the instruction is copied whole, and what cannot be read
as instructions is copied as it is. -/
def reference (b pc : Bytes) : Bytes × Nat :=
  if hb : b ≠ [] ∧ b <+: pc then
    let after := reference b (pc.drop b.length)
    (after.1, after.2 + 1)
  else
    match _ : getOp2 common pc with
    | (some _, pc') =>
      let after := reference b pc'
      (between pc pc' ++ after.1, after.2)
    | (none, _) => (pc, 0)
termination_by pc.length
decreasing_by
  · have hpos := List.length_pos_iff.mpr hb.1
    have hle := hb.2.length_le
    rw [List.length_drop]
    omega
  · exact (getOp2_suffix ‹_›).2

variable {common}

theorem reference_of_front {b pc : Bytes} (hb : b ≠ []) (h : b <+: pc) :
    reference common b pc =
      ((reference common b (pc.drop b.length)).1,
        (reference common b (pc.drop b.length)).2 + 1) := by
  rw [reference, dif_pos ⟨hb, h⟩]

theorem reference_of_some {b pc pc' : Bytes} {instr : opcodetype × Bytes}
    (h : ¬ (b ≠ [] ∧ b <+: pc)) (hop : getOp2 common pc = (some instr, pc')) :
    reference common b pc =
      (between pc pc' ++ (reference common b pc').1, (reference common b pc').2) := by
  rw [reference, dif_neg h]
  split
  · rename_i hop'
    rw [hop] at hop'
    obtain ⟨-, rfl⟩ := Prod.mk.inj hop'
    rfl
  · rename_i hop'
    rw [hop] at hop'
    exact absurd (Prod.mk.inj hop').1 (by simp)

theorem reference_of_none {b pc pc' : Bytes} (h : ¬ (b ≠ [] ∧ b <+: pc))
    (hop : getOp2 common pc = (none, pc')) : reference common b pc = (pc, 0) := by
  rw [reference, dif_neg h]
  split
  · rename_i hop'
    rw [hop] at hop'
    exact absurd (Prod.mk.inj hop').1 (by simp)
  · rfl

/-! ## The loops are the reference -/

/-- The test of the inner loop. -/
theorem skip_iff (b pc : Bytes) : b.length ≤ pc.length ∧ pc.take b.length = b ↔ b <+: pc := by
  rw [List.prefix_iff_eq_take]
  constructor
  · rintro ⟨-, h⟩
    exact h.symm
  · intro h
    refine ⟨?_, h.symm⟩
    have hlen := congrArg List.length h
    rw [List.length_take] at hlen
    omega

variable (common) in
/-- The inner loop drops what the reference drops at this position. -/
theorem skipLoop_spec (b : Bytes) (hb : b ≠ []) (pc : Bytes) (nFound : Nat) :
    ¬ b <+: (skipLoop b hb pc nFound).1 ∧
      (reference common b pc).1 = (reference common b (skipLoop b hb pc nFound).1).1 ∧
      nFound + (reference common b pc).2 =
        (skipLoop b hb pc nFound).2 + (reference common b (skipLoop b hb pc nFound).1).2 := by
  fun_induction skipLoop b hb pc nFound with
  | case1 pc nFound h ih =>
    obtain ⟨hstop, hrest, hcount⟩ := ih
    rw [reference_of_front hb ((skip_iff b pc).mp h)]
    refine ⟨hstop, hrest, ?_⟩
    omega
  | case2 pc nFound h => exact ⟨mt (skip_iff b pc).mpr h, rfl, rfl⟩

variable (common) in
/-- The outer loop, with the script from `pc2` on appended, is the reference from `pc` on: by
induction on the bytes that are left. -/
theorem deleteLoop_spec (b : Bytes) (hb : b ≠ []) (result pc2 pc : Bytes) (nFound : Nat) :
    (deleteLoop common b hb result pc2 pc nFound).1 ++
        (deleteLoop common b hb result pc2 pc nFound).2.1 =
      result ++ between pc2 pc ++ (reference common b pc).1 ∧
    (deleteLoop common b hb result pc2 pc nFound).2.2 = nFound + (reference common b pc).2 := by
  fun_induction deleteLoop common b hb result pc2 pc nFound with
  | case1 result pc2 pc nFound skipped instr pc' hop ih =>
    obtain ⟨hstop, hrest, hcount⟩ := skipLoop_spec common b hb pc nFound
    rw [reference_of_some (fun h => hstop h.2) hop] at hrest hcount
    refine ⟨?_, ?_⟩
    · rw [ih.1, hrest]
      simp only [List.append_assoc]
      rfl
    · rw [ih.2, hcount]
  | case2 result pc2 pc nFound skipped pc' hop =>
    obtain ⟨hstop, hrest, hcount⟩ := skipLoop_spec common b hb pc nFound
    rw [reference_of_none (fun h => hstop h.2) hop] at hrest hcount
    exact ⟨by rw [hrest], hcount.symm⟩

/-! ## What the reference comes to -/

theorem length_reference (b pc : Bytes) :
    (reference common b pc).1.length + (reference common b pc).2 * b.length = pc.length := by
  fun_induction reference common b pc with
  | case1 pc h after ih =>
    have hle := h.2.length_le
    rw [List.length_drop] at ih
    show after.1.length + (after.2 + 1) * b.length = pc.length
    change after.1.length + after.2 * b.length = pc.length - b.length at ih
    rw [Nat.succ_mul]
    omega
  | case2 pc h instr pc' hop after ih =>
    have hsplit := congrArg List.length (between_append (getOp2_suffix hop).1)
    rw [List.length_append] at hsplit ⊢
    rw [Nat.add_assoc, ih]
    exact hsplit
  | case3 pc h pc' hop => simp

/-- Where nothing is dropped, everything is copied. -/
theorem reference_eq_self {b pc : Bytes} (h : (reference common b pc).2 = 0) :
    (reference common b pc).1 = pc := by
  fun_induction reference common b pc with
  | case1 pc hb after ih => exact absurd h (Nat.succ_ne_zero _)
  | case2 pc hb instr pc' hop after ih =>
    rw [ih h]
    exact between_append (getOp2_suffix hop).1
  | case3 pc hb pc' hop => rfl

/-- The positions in a script that are reached by reading whole instructions. -/
inductive Boundary (common : Common) (script : Bytes) : Bytes → Prop
  | start : Boundary common script script
  | next {pc pc' : Bytes} {instr : opcodetype × Bytes} (h : Boundary common script pc)
      (hop : getOp2 common pc = (some instr, pc')) : Boundary common script pc'

/-- Past its start, a script has the boundaries of what follows its first instruction. -/
theorem boundary_iff {pc pc'' : Bytes} : Boundary common pc pc'' ↔
    pc'' = pc ∨ ∃ instr pc', getOp2 common pc = (some instr, pc') ∧ Boundary common pc' pc'' := by
  constructor
  · intro h
    induction h with
    | start => exact .inl rfl
    | @next mid last instr hmid hop ih =>
      rcases ih with rfl | ⟨first, pc', hfirst, hmid'⟩
      · exact .inr ⟨instr, last, hop, .start⟩
      · exact .inr ⟨first, pc', hfirst, .next hmid' hop⟩
  · rintro (rfl | ⟨instr, pc', hop, h⟩)
    · exact .start
    · induction h with
      | start => exact .next .start hop
      | next _ hop' ih => exact .next ih hop'

/-- Nothing is dropped if and only if the pattern is at no instruction boundary. -/
theorem reference_eq_zero_iff {b : Bytes} (hb : b ≠ []) (pc : Bytes) :
    (reference common b pc).2 = 0 ↔ ∀ pc', Boundary common pc pc' → ¬ b <+: pc' := by
  fun_induction reference common b pc with
  | case1 pc h after ih =>
    exact iff_of_false (Nat.succ_ne_zero _) fun hall => hall pc .start h.2
  | case2 pc h instr pc' hop after ih =>
    refine ih.trans ⟨fun hall pc'' hpc'' => ?_, fun hall pc'' hpc'' => ?_⟩
    · rcases boundary_iff.mp hpc'' with rfl | ⟨instr', mid, hop', hmid⟩
      · exact fun hfront => h ⟨hb, hfront⟩
      · rw [hop] at hop'
        obtain ⟨-, rfl⟩ := Prod.mk.inj hop'
        exact hall pc'' hmid
    · exact hall pc'' (boundary_iff.mpr (.inr ⟨instr, pc', hop, hpc''⟩))
  | case3 pc h pc' hop =>
    refine iff_of_true rfl fun pc'' hpc'' => ?_
    rcases boundary_iff.mp hpc'' with rfl | ⟨instr', mid, hop', -⟩
    · exact fun hfront => h ⟨hb, hfront⟩
    · rw [hop] at hop'
      exact absurd (Prod.mk.inj hop').1 (by simp)

/-! ## `FindAndDelete` -/

variable (common) in
theorem findAndDelete_eq_reference (script b : CScript) :
    findAndDelete common script b = reference common b script := by
  unfold findAndDelete
  by_cases hb : b = []
  · have hzero : (reference common b script).2 = 0 := by
      fun_induction reference common b script with
      | case1 pc h after ih => exact absurd hb h.1
      | case2 pc h instr pc' hop after ih => exact ih
      | case3 pc h pc' hop => rfl
    rw [dif_pos hb]
    exact Prod.ext (reference_eq_self hzero).symm hzero.symm
  · obtain ⟨hresult, hcount⟩ := deleteLoop_spec common b hb [] script script 0
    have hnone : between script script = [] := by simp [between]
    rw [hnone, List.append_nil, List.nil_append] at hresult
    rw [Nat.zero_add] at hcount
    rw [dif_neg hb]
    simp only [hcount, hresult]
    split
    case isTrue => rfl
    case isFalse hpos =>
      have hzero : (reference common b script).2 = 0 := by omega
      exact Prod.ext (reference_eq_self hzero).symm rfl

/-- **`FindAndDelete` is its specification** on every script. The script and the count are those of
the reference; every occurrence counted is missing and nothing else is; the script is unchanged
where the count is zero, as it is for the empty pattern; and the count is zero if and only if the
pattern is at no instruction boundary, wherever else it is in the script. -/
theorem findAndDelete_exact (common : Common) (script b : CScript) :
    findAndDelete common script b = reference common b script ∧
    (findAndDelete common script b).1.length + (findAndDelete common script b).2 * b.length =
      script.length ∧
    ((findAndDelete common script b).2 = 0 → (findAndDelete common script b).1 = script) ∧
    (b = [] → findAndDelete common script b = (script, 0)) ∧
    (b ≠ [] → ((findAndDelete common script b).2 = 0 ↔
      ∀ pc, Boundary common script pc → ¬ b <+: pc)) := by
  have href := findAndDelete_eq_reference common script b
  refine ⟨href, ?_, ?_, fun hb => ?_, fun hb => ?_⟩
  · rw [href]
    exact length_reference b script
  · rw [href]
    exact reference_eq_self
  · unfold findAndDelete
    rw [dif_pos hb]
  · rw [href]
    exact reference_eq_zero_iff hb script

/-- Two occurrences in a row and one behind a push go; the two in the data of the push stay, and so
does the truncated push at the end. -/
theorem findAndDelete_exact_sample :
    findAndDelete .littleEndian [0x51, 0x51, 2, 0x51, 0x51, 0x51, 0x4c, 9] [0x51] =
      ([2, 0x51, 0x51, 0x4c, 9], 3) ∧
    reference .littleEndian [0x51] [0x51, 0x51, 2, 0x51, 0x51, 0x51, 0x4c, 9] =
      ([2, 0x51, 0x51, 0x4c, 9], 3) := by
  have hrun : findAndDelete .littleEndian [0x51, 0x51, 2, 0x51, 0x51, 0x51, 0x4c, 9] [0x51] =
      ([2, 0x51, 0x51, 0x4c, 9], 3) := by decide +kernel
  exact ⟨hrun, (findAndDelete_exact .littleEndian _ _).1.symm.trans hrun⟩

end ChainX.Script.CScript
