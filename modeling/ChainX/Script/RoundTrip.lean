import ChainX.Script.Number

/-!
# A script is read as it was written, `chainx-ui.id/script.h:368-542`

A script is made by appending items with `operator<<`: opcodes above `OP_PUSHDATA4`, vectors and
numbers. `Item.ReadAs` says which instruction an item may come back as: an opcode as itself, a
vector as a push with its bytes, whatever the size of the push, and a number as a small-integer
opcode or a push of its serialised bytes.

* A vector is pushed with a header by its length (`pushHeader`), of one, two, three or five bytes,
  and `GetOp2` reads a size of as many (`operandSize_pushHeader`).
* Every item is appended as some bytes that `GetOp2` takes from the front of whatever follows
  (`append_item`), so that the items come back one by one, by induction on the list (`build_items`).
* An opcode below the pushes would be read as one: `Item.Valid` leaves it out, and the number that
  has no opposite.

**`getOps_build`**: a script below `2 ^ 31` bytes is read as one instruction for each item, and ends
with the last of them.
-/

namespace ChainX.Script

open ChainX.Node CScript

variable (common : Common)

/-- What `operator<<` takes. -/
inductive Item where
  | opcode (op : opcodetype)
  | vector (b : Bytes)
  | int64 (n : Int64)

/-- An opcode that is not read as a push, and a number that has an opposite. -/
def Item.Valid : Item → Prop
  | .opcode op => OP_PUSHDATA4 < op ∧ op ≤ 0xff
  | .vector _ => True
  | .int64 n => n ≠ Int64.minValue

/-- The opcode and the data that an item is read as. -/
def Item.ReadAs : Item → opcodetype × Bytes → Prop
  | .opcode op, instr => instr = (op, [])
  | .vector b, instr => instr.1 ≤ OP_PUSHDATA4 ∧ instr.2 = b
  | .int64 n, instr =>
    (n = -1 ∧ instr = (OP_1NEGATE, [])) ∨ (n = 0 ∧ instr = (OP_0, [])) ∨
      (1 ≤ n ∧ n ≤ 16 ∧ (instr.1.toNat : Int) = OP_1.toNat + (n.toInt - 1) ∧ instr.2 = []) ∨
      ((n < -1 ∨ 16 < n) ∧ instr.1 ≤ OP_PUSHDATA4 ∧ CScriptNum.ofVch instr.2 true 8 = .ok n)

/-- `operator<<`, of any kind of item. -/
def append (script : CScript) : Item → Except String CScript
  | .opcode op => appendOpcode script op
  | .vector b => .ok (appendVector common script b)
  | .int64 n => .ok (pushInt64 common script n)

/-- The items appended in order. -/
def build : List Item → CScript → Except String CScript
  | [], script => .ok script
  | item :: items, script => do build items (← append common script item)

/-- `GetOp` called `n` times: the instructions, and the position after them. -/
def getOps : Nat → Bytes → Option (List (opcodetype × Bytes) × Bytes)
  | 0, pc => some ([], pc)
  | n + 1, pc =>
    match getOp2 common pc with
    | (none, _) => none
    | (some instr, pc) => (getOps n pc).map fun (instrs, pc) => (instr :: instrs, pc)

/-! ## One item -/

/-- The header of a push is an opcode and the bytes of the size, which are read back. -/
theorem operandSize_pushHeader {size : Nat} (hsize : size < 2 ^ 32) : ∃ (b : UInt8) (more : Bytes)
    (nSize : UInt32), pushHeader common size = b :: more ∧ b.toUInt32 ≤ OP_PUSHDATA4 ∧
      nSize.toNat = size ∧ ∀ pc, operandSize common b.toUInt32 (more ++ pc) = (some nSize, pc) := by
  unfold pushHeader
  by_cases h1 : size < OP_PUSHDATA1.toNat
  · have h76 : size < 76 := h1
    have hb : (UInt8.ofNat size).toUInt32.toNat = size := by
      rw [UInt8.toNat_toUInt32, UInt8.toNat_ofNat']
      omega
    have hlt : (UInt8.ofNat size).toUInt32 < OP_PUSHDATA1 := by
      rw [UInt32.lt_iff_toNat_lt, hb]
      exact h1
    refine ⟨UInt8.ofNat size, [], (UInt8.ofNat size).toUInt32, if_pos h1, ?_, hb, fun pc => ?_⟩
    · exact UInt32.le_of_lt (UInt32.lt_trans hlt (by decide))
    · unfold operandSize
      rw [if_pos hlt, List.nil_append]
  · rw [if_neg h1]
    by_cases h2 : size ≤ 0xff
    · refine ⟨_, _, (UInt8.ofNat size).toUInt32, if_pos h2, by decide, ?_, fun pc => rfl⟩
      rw [UInt8.toNat_toUInt32, UInt8.toNat_ofNat']
      omega
    · rw [if_neg h2]
      by_cases h3 : size ≤ 0xffff
      · refine ⟨_, _, (UInt16.ofNat size).toUInt32, if_pos h3, by decide, ?_, fun pc => ?_⟩
        · rw [UInt16.toNat_toUInt32, UInt16.toNat_ofNat']
          omega
        · exact congrArg (fun n : UInt16 => (some n.toUInt32, pc)) (common.readLE16_writeLE16 _)
      · refine ⟨_, _, UInt32.ofNat size, if_neg h3, by decide, ?_, fun pc => ?_⟩
        · rw [UInt32.toNat_ofNat']
          omega
        · exact congrArg (fun n => (some n, pc)) (common.readLE32_writeLE32 _)

/-- A push is read with its data. -/
theorem getOp2_push {b : Bytes} (hb : b.length < 2 ^ 32) (t : Bytes) :
    ∃ opcode, opcode ≤ OP_PUSHDATA4 ∧
      getOp2 common (pushHeader common b.length ++ b ++ t) = (some (opcode, b), t) := by
  obtain ⟨first, more, nSize, hheader, hle, hnSize, hoperand⟩ := operandSize_pushHeader common hb
  refine ⟨first.toUInt32, hle, ?_⟩
  have hlong : ¬ (b ++ t).length < b.length := by
    rw [List.length_append]
    omega
  rw [hheader, List.append_assoc, List.cons_append, getOp2]
  simp only [if_pos hle, hoperand, hnSize, if_neg hlong, List.take_left, List.drop_left]

/-- An opcode above the pushes is read alone. -/
theorem getOp2_opcode {opcode : opcodetype} (hpush : OP_PUSHDATA4 < opcode) (hbyte : opcode ≤ 0xff)
    (t : Bytes) : getOp2 common (opcode.toUInt8 :: t) = (some (opcode, []), t) := by
  have hcast : opcode.toUInt8.toUInt32 = opcode := by
    have hle : opcode.toNat ≤ 255 := UInt32.le_iff_toNat_le.mp hbyte
    rw [← UInt32.toNat_inj, UInt8.toNat_toUInt32, UInt32.toNat_toUInt8]
    omega
  rw [getOp2, hcast]
  simp only [if_neg (UInt32.not_le.mpr hpush)]

/-- The small numbers have opcodes of their own. -/
theorem getOp2_small {n : Int64} (hn : n = -1 ∨ (1 ≤ n ∧ n ≤ 16)) (t : Bytes) : ∃ instr,
    getOp2 common ((n.toUInt64 + (OP_1 - 1).toUInt64).toUInt8 :: t) = (some instr, t) ∧
      (Item.int64 n).ReadAs instr := by
  rcases hn with rfl | ⟨hlow, hhigh⟩
  · exact ⟨(OP_1NEGATE, []), rfl, .inl ⟨rfl, rfl⟩⟩
  · have hlow' : 1 ≤ n.toInt := Int64.le_iff_toInt_le.mp hlow
    have hhigh' : n.toInt ≤ 16 := Int64.le_iff_toInt_le.mp hhigh
    have hop : (n.toUInt64 + (OP_1 - 1).toUInt64).toUInt8 =
        (UInt32.ofNat (80 + n.toInt.toNat)).toUInt8 := by
      have hcast : n.toUInt64.toNat = n.toInt.toNat :=
        Int64.toNat_toUInt64_of_le (Int64.le_trans (by decide) hlow)
      have hbase : (OP_1 - 1).toUInt64.toNat = 80 := by decide
      rw [← UInt8.toNat_inj, UInt64.toNat_toUInt8, UInt64.toNat_add, hcast, hbase,
        UInt32.toNat_toUInt8, UInt32.toNat_ofNat']
      omega
    have hval : (UInt32.ofNat (80 + n.toInt.toNat)).toNat = 80 + n.toInt.toNat := by
      rw [UInt32.toNat_ofNat']
      omega
    have hpush : OP_PUSHDATA4 < UInt32.ofNat (80 + n.toInt.toNat) := by
      have h78 : OP_PUSHDATA4.toNat = 78 := rfl
      rw [UInt32.lt_iff_toNat_lt, hval, h78]
      omega
    have hbyte : UInt32.ofNat (80 + n.toInt.toNat) ≤ 0xff := by
      have h255 : (0xff : UInt32).toNat = 255 := rfl
      rw [UInt32.le_iff_toNat_le, hval, h255]
      omega
    refine ⟨_, by rw [hop]; exact getOp2_opcode common hpush hbyte t, .inr (.inr (.inl ?_))⟩
    have h81 : OP_1.toNat = 81 := rfl
    refine ⟨hlow, hhigh, ?_, rfl⟩
    simp only [hval, h81]
    omega

theorem outside_small {n : Int64} (hsmall : ¬ (n = -1 ∨ (1 ≤ n ∧ n ≤ 16))) (hzero : n ≠ 0) :
    n < -1 ∨ 16 < n := by
  have hone : (1 : Int64).toInt = 1 := rfl
  have hneg : (-1 : Int64).toInt = -1 := rfl
  have hsixteen : (16 : Int64).toInt = 16 := rfl
  simp only [← Int64.toInt_inj, Int64.le_iff_toInt_le, Int64.lt_iff_toInt_lt, ne_eq, hone, hneg,
    hsixteen, Int64.toInt_zero] at *
  omega

/-- Every item is appended as bytes of its own, and read back from the front of what follows. -/
theorem append_item {item : Item} (hvalid : item.Valid) : ∃ enc,
    (∀ script, append common script item = .ok (script ++ enc)) ∧
      (enc.length < 2 ^ 31 → ∀ t, ∃ instr, getOp2 common (enc ++ t) = (some instr, t) ∧
        item.ReadAs instr) := by
  have hpush : ∀ b : Bytes, (pushHeader common b.length ++ b).length < 2 ^ 31 → ∀ t, ∃ opcode,
      opcode ≤ OP_PUSHDATA4 ∧
        getOp2 common (pushHeader common b.length ++ b ++ t) = (some (opcode, b), t) := by
    intro b hb t
    rw [List.length_append] at hb
    exact getOp2_push common (by omega) t
  cases item with
  | opcode op =>
    refine ⟨[op.toUInt8], fun script => if_neg (UInt32.not_lt.mpr hvalid.2), fun _ t => ?_⟩
    exact ⟨(op, []), getOp2_opcode common hvalid.1 hvalid.2 t, rfl⟩
  | vector b =>
    refine ⟨pushHeader common b.length ++ b, fun script => ?_, fun hlen t => ?_⟩
    · rw [append, appendVector, List.append_assoc]
    · obtain ⟨opcode, hle, hget⟩ := hpush b hlen t
      exact ⟨(opcode, b), hget, hle, rfl⟩
  | int64 n =>
    by_cases hsmall : n = -1 ∨ (1 ≤ n ∧ n ≤ 16)
    · refine ⟨[(n.toUInt64 + (OP_1 - 1).toUInt64).toUInt8], fun script => ?_, fun _ t => ?_⟩
      · rw [append, pushInt64, if_pos hsmall]
      · exact getOp2_small common hsmall t
    · by_cases hzero : n = 0
      · refine ⟨[OP_0.toUInt8], fun script => ?_, fun _ t => ⟨(OP_0, []), rfl, ?_⟩⟩
        · rw [append, pushInt64, if_neg hsmall, if_pos hzero]
        · exact .inr (.inl ⟨hzero, rfl⟩)
      · refine ⟨pushHeader common (CScriptNum.serialize n).length ++ CScriptNum.serialize n,
          fun script => ?_, fun hlen t => ?_⟩
        · rw [append, pushInt64, if_neg hsmall, if_neg hzero, appendVector, List.append_assoc]
        · obtain ⟨opcode, hle, hget⟩ := hpush _ hlen t
          refine ⟨(opcode, CScriptNum.serialize n), hget, .inr (.inr (.inr ⟨?_, hle, ?_⟩))⟩
          · exact outside_small hsmall hzero
          · exact CScriptNum.ofVch_serialize hvalid

/-! ## All items -/

/-- The items are appended as some bytes, and read back one by one, by induction on the list. -/
theorem build_items : ∀ {items : List Item}, (∀ item ∈ items, item.Valid) → ∃ enc,
    (∀ script, build common items script = .ok (script ++ enc)) ∧
      (enc.length < 2 ^ 31 → ∀ t, ∃ instrs,
        getOps common items.length (enc ++ t) = some (instrs, t) ∧
          List.Forall₂ Item.ReadAs items instrs)
  | [], _ => by
    refine ⟨[], fun script => ?_, fun _ t => ⟨[], rfl, .nil⟩⟩
    rw [build, List.append_nil]
  | item :: items, hvalid => by
    obtain ⟨hitem, hitems⟩ := List.forall_mem_cons.mp hvalid
    obtain ⟨enc, happend, hread⟩ := append_item common hitem
    obtain ⟨rest, hbuild, hrest⟩ := build_items hitems
    refine ⟨enc ++ rest, fun script => ?_, fun hlen t => ?_⟩
    · rw [build, happend, ← List.append_assoc, ← hbuild]
      rfl
    · rw [List.length_append] at hlen
      obtain ⟨instr, hget, hinstr⟩ := hread (by omega) (rest ++ t)
      obtain ⟨instrs, hgets, hinstrs⟩ := hrest (by omega) t
      refine ⟨instr :: instrs, ?_, .cons hinstr hinstrs⟩
      rw [List.length_cons, getOps, List.append_assoc, hget]
      simp only [hgets, Option.map_some]

/-- **A script is read as it was written.** From any valid items a script is made, and if it is
shorter than `2 ^ 31` bytes, then as many calls of `GetOp` as there are items succeed on it, give
back the items in order and end at its end. -/
theorem getOps_build {items : List Item} (hvalid : ∀ item ∈ items, item.Valid) : ∃ script,
    build common items [] = .ok script ∧ (script.length < 2 ^ 31 → ∃ instrs,
      getOps common items.length script = some (instrs, []) ∧
        List.Forall₂ Item.ReadAs items instrs) := by
  obtain ⟨enc, hbuild, hread⟩ := build_items common hvalid
  refine ⟨enc, by rw [hbuild, List.nil_append], fun hlen => ?_⟩
  obtain ⟨instrs, hgets, hinstrs⟩ := hread hlen []
  rw [List.append_nil] at hgets
  exact ⟨instrs, hgets, hinstrs⟩

/-- The functions of `crypto/common.h`: the bytes, lowest first. -/
def Common.littleEndian : Common where
  writeLE16 x := (x.toUInt8, (x >>> 8).toUInt8)
  readLE16 b := b.1.toUInt16 + b.2.toUInt16 * 256
  writeLE32 x := (x.toUInt8, (x >>> 8).toUInt8, (x >>> 16).toUInt8, (x >>> 24).toUInt8)
  readLE32 b :=
    b.1.toUInt32 + b.2.1.toUInt32 * 256 + b.2.2.1.toUInt32 * 65536 + b.2.2.2.toUInt32 * 16777216
  readLE16_writeLE16 x := by
    have hx := x.toNat_lt
    rw [← UInt16.toNat_inj]
    simp [Nat.shiftRight_eq_div_pow]
    omega
  readLE32_writeLE32 x := by
    have hx := x.toNat_lt
    rw [← UInt32.toNat_inj]
    simp [Nat.shiftRight_eq_div_pow]
    omega

/-- An opcode, a vector whose bytes look like opcodes, and a number of each kind. -/
theorem getOps_build_sample : ∃ script instrs,
    build .littleEndian [.opcode 0x76, .vector [0x76, 0x4c], .int64 (-1), .int64 (-1000)] [] =
        .ok script ∧ script = [0x76, 2, 0x76, 0x4c, 0x4f, 2, 0xe8, 0x83] ∧
      getOps .littleEndian 4 script = some (instrs, []) ∧ List.Forall₂ Item.ReadAs
        [.opcode 0x76, .vector [0x76, 0x4c], .int64 (-1), .int64 (-1000)] instrs := by
  have hvalid : ∀ item ∈ [Item.opcode 0x76, .vector [0x76, 0x4c], .int64 (-1), .int64 (-1000)],
      item.Valid := by
    simp only [List.forall_mem_cons]
    exact ⟨⟨by decide, by decide⟩, trivial, (by decide : _ ≠ _), (by decide : _ ≠ _), nofun⟩
  obtain ⟨script, hbuild, hread⟩ := getOps_build .littleEndian hvalid
  have hscript : script = [0x76, 2, 0x76, 0x4c, 0x4f, 2, 0xe8, 0x83] :=
    Except.ok.inj (hbuild.symm.trans (by decide +kernel))
  subst hscript
  obtain ⟨instrs, hgets, hinstrs⟩ := hread (by decide)
  exact ⟨_, instrs, hbuild, rfl, hgets, hinstrs⟩

end ChainX.Script
