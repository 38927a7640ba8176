import ChainX.Lib.Varint

/-!
# Scripts and script numbers, `chainx-ui.id/script.h`

`CScriptNum::serialize`, `set_vch` and the constructor from a vector (`script.h:206-231, 308-357`),
the `operator<<` of `CScript` (`script.h:368-453`) and `GetOp2` (`script.h:492-542`).

* A `CScript` and a `std::vector<unsigned char>` are lists of bytes; a position in a script is the
  list of the bytes from there on. The differences of positions are exact, as they are in scripts
  below `2 ^ 31` bytes. `Position` has the positions as the source has them.
* `opcodetype` is the `unsigned int` that the enumeration is stored in.
* The functions of `crypto/common.h`, which is not part of the repository, are a parameter with the
  one law the header is used for (`Common`).
* `GetOp2` leaves `OP_INVALIDOPCODE` and an empty vector behind when it returns `false`; that is
  `none` here. The position moves on all the same.
* The copy of the header at `chainx-ui.id/scrypt/script.h` says the same of all this.

The byte vectors and hashes that all C++ sources of the node share come first (`ChainX.Node`).
-/

namespace ChainX.Node

/-- `std::vector<unsigned char>`. -/
abbrev Bytes := List UInt8

/-- `uint256`, which is 32 bytes to the code that hashes and copies it. -/
abbrev Uint256 := Vector UInt8 32

end ChainX.Node

namespace ChainX.Script

open ChainX.Lib ChainX.Node

/-- `ReadLE16` and the others of `crypto/common.h`: what was written is read back. -/
structure Common where
  writeLE16 : UInt16 → UInt8 × UInt8
  readLE16 : UInt8 × UInt8 → UInt16
  writeLE32 : UInt32 → UInt8 × UInt8 × UInt8 × UInt8
  readLE32 : UInt8 × UInt8 × UInt8 × UInt8 → UInt32
  readLE16_writeLE16 : ∀ x, readLE16 (writeLE16 x) = x
  readLE32_writeLE32 : ∀ x, readLE32 (writeLE32 x) = x

/-- `opcodetype`. -/
abbrev opcodetype := UInt32

/-- The opcode that pushes nothing. -/
def OP_0 : opcodetype := 0x00
/-- The size follows in one byte. -/
def OP_PUSHDATA1 : opcodetype := 0x4c
/-- The size follows in two bytes. -/
def OP_PUSHDATA2 : opcodetype := 0x4d
/-- The size follows in four bytes. -/
def OP_PUSHDATA4 : opcodetype := 0x4e
/-- The opcode that pushes `-1`. -/
def OP_1NEGATE : opcodetype := 0x4f
/-- The opcode that pushes `1`. -/
def OP_1 : opcodetype := 0x51

/-! ## `CScriptNum` -/

namespace CScriptNum

/-- The loop of `serialize`. Eight rounds are enough for 64 bits. -/
def serializeLoop : Nat → UInt64 → Bytes
  | 0, _ => []
  | rounds + 1, absvalue =>
    if absvalue = 0 then [] else absvalue.toUInt8 :: serializeLoop rounds (absvalue >>> 8)

/-- `CScriptNum::serialize`: the magnitude, lowest byte first, with the sign in the highest bit. -/
def serialize (value : Int64) : Bytes :=
  if value = 0 then []
  else
    let neg := value < 0
    let absvalue := if neg then (-value).toUInt64 else value.toUInt64
    let result := serializeLoop 8 absvalue
    let back := result.getLastD 0
    if back &&& 0x80 ≠ 0 then result ++ [if neg then 0x80 else 0]
    else if neg then result.dropLast ++ [back ||| 0x80]
    else result

/-- The loop of `set_vch`, from the byte `i` on: the bits of `result`. -/
def setVchLoop (result : UInt64) (i : Nat) : Bytes → UInt64
  | [] => result
  | b :: vch => setVchLoop (result ||| shl b.toUInt64 (8 * i)) (i + 1) vch

/-- `set_vch`. From the ninth byte on the shifts are undefined in C++. -/
def setVch (vch : Bytes) : Int64 :=
  if vch = [] then 0
  else
    let result := setVchLoop 0 0 vch
    if vch.getLastD 0 &&& 0x80 ≠ 0 then
      -(result &&& ~~~ shl 0x80 (8 * (vch.length - 1))).toInt64
    else result.toInt64

/-- The most significant byte, the sign bit aside, is zero, and not because the bit is needed. -/
def nonMinimal (vch : Bytes) : Prop :=
  0 < vch.length ∧ vch.getLastD 0 &&& 0x7f = 0 ∧
    (vch.length ≤ 1 ∨ vch.getD (vch.length - 2) 0 &&& 0x80 = 0)

instance (vch : Bytes) : Decidable (nonMinimal vch) :=
  inferInstanceAs (Decidable (_ ∧ _ ∧ _))

/-- The constructor from a vector, with the text of the exception it throws. -/
def ofVch (vch : Bytes) (fRequireMinimal : Bool) (nMaxNumSize : Nat) : Except String Int64 :=
  if nMaxNumSize < vch.length then .error "script number overflow"
  else if fRequireMinimal ∧ nonMinimal vch then .error "non-minimally encoded script number"
  else .ok (setVch vch)

end CScriptNum

/-! ## `CScript` -/

/-- `CScript`, which is a vector of bytes. -/
abbrev CScript := Bytes

namespace CScript

/-- `operator<<` of an opcode. -/
def appendOpcode (script : CScript) (opcode : opcodetype) : Except String CScript :=
  if 0xff < opcode then .error "CScript::operator<<(): invalid opcode"
  else .ok (script ++ [opcode.toUInt8])

variable (common : Common)

/-- What `operator<<` puts in front of a vector of `size` bytes. -/
def pushHeader (size : Nat) : Bytes :=
  if size < OP_PUSHDATA1.toNat then [UInt8.ofNat size]
  else if size ≤ 0xff then [OP_PUSHDATA1.toUInt8, UInt8.ofNat size]
  else if size ≤ 0xffff then
    let data := common.writeLE16 (UInt16.ofNat size)
    [OP_PUSHDATA2.toUInt8, data.1, data.2]
  else
    let data := common.writeLE32 (UInt32.ofNat size)
    [OP_PUSHDATA4.toUInt8, data.1, data.2.1, data.2.2.1, data.2.2.2]

/-- `operator<<` of a vector. -/
def appendVector (script : CScript) (b : Bytes) : CScript :=
  script ++ pushHeader common b.length ++ b

/-- `push_int64`: small numbers have opcodes of their own. -/
def pushInt64 (script : CScript) (n : Int64) : CScript :=
  if n = -1 ∨ (1 ≤ n ∧ n ≤ 16) then script ++ [(n.toUInt64 + (OP_1 - 1).toUInt64).toUInt8]
  else if n = 0 then script ++ [OP_0.toUInt8]
  else appendVector common script (CScriptNum.serialize n)

/-- The size of an immediate operand, and the position after it. -/
def operandSize (opcode : opcodetype) (pc : Bytes) : Option UInt32 × Bytes :=
  if opcode < OP_PUSHDATA1 then (some opcode, pc)
  else if opcode = OP_PUSHDATA1 then
    match pc with
    | n :: pc => (some n.toUInt32, pc)
    | pc => (none, pc)
  else if opcode = OP_PUSHDATA2 then
    match pc with
    | n0 :: n1 :: pc => (some (common.readLE16 (n0, n1)).toUInt32, pc)
    | pc => (none, pc)
  else if opcode = OP_PUSHDATA4 then
    match pc with
    | n0 :: n1 :: n2 :: n3 :: pc => (some (common.readLE32 (n0, n1, n2, n3)), pc)
    | pc => (none, pc)
  else (some 0, pc)

/-- The opcode and the data at a position, and the position after them. -/
def getOp2 : Bytes → Option (opcodetype × Bytes) × Bytes
  | [] => (none, [])
  | b :: pc =>
    let opcode := b.toUInt32
    if opcode ≤ OP_PUSHDATA4 then
      match operandSize common opcode pc with
      | (none, pc) => (none, pc)
      | (some nSize, pc) =>
        if pc.length < nSize.toNat then (none, pc)
        else (some (opcode, pc.take nSize.toNat), pc.drop nSize.toNat)
    else (some (opcode, []), pc)

end CScript

end ChainX.Script
