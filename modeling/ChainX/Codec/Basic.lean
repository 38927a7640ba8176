import ChainX.Lib.Varint

/-!
# The codec of `Blockchain/blockchain.go`

Length-prefixed strings and lists of them, over a reader that holds the unread bytes and a writer
that may fail: `ReadByte` and `Read` (`blockchain.go:41-59`), the functions that read
(`blockchain.go:62-126`) and those that write (`blockchain.go:145-191`).

* A byte slice is its list of bytes; the nil slice and the empty one are the same list.
* A reader is its unread bytes. A function that returns a value and an error returns the value in
  `Except` where the callers drop it on an error; `readVarstrList` returns both.
* `Writer W` is an `io.Writer` with state `W`. The state comes in `StateT W Option`: `none` is a
  panic, here an index past the nine bytes of a pooled buffer.
* `ReadVarint31` and `ReadVarint63` are one function with two limits, and so are the writers
  (`readVarint`, `writeVarint`); each keeps its own definition.
* The second copy of `Read` that the file has inside `ReadVarint63` is read as absent.

The extensible strings are in `Extensible`, and the functions over slices with their capacity in
`Slice`, which says when the lists of bytes of this module are all there is to a reader. Left out:
`NewReader` and `Len`, which wrap a slice and tell its length, and the pool behind `buffer`.
-/

namespace ChainX.Codec

open ChainX.Lib

/-- A `[]byte`, or what is left in a buffer. -/
abbrev Bytes := List UInt8

/-- `math.MaxInt32`. -/
def MaxInt32 : UInt64 := 2147483647

/-- `math.MaxInt64`. -/
def MaxInt64 : UInt64 := 9223372036854775807

/-- The errors that are returned. `nil` is `none`. -/
inductive Err where
  | eof
  | unexpectedEOF
  /-- `ErrRange`. -/
  | range
  /-- The overflow error of `binary.ReadUvarint`. -/
  | overflow
  /-- An error of the writer. -/
  | write (code : Nat)
  deriving DecidableEq

/-! ## Reading -/

/-- `ReadByte` of the buffer. -/
def readByte : Bytes → Except Err UInt8 × Bytes
  | [] => (.error .eof, [])
  | b :: buf => (.ok b, buf)

/-- `Read`, into a slice of length `p`: the bytes copied and the error. -/
def read (p : Nat) (buf : Bytes) : (Bytes × Option Err) × Bytes :=
  ((buf.take p, if (buf.drop p).length = 0 then some .eof else none), buf.drop p)

/-- What `binary.ReadUvarint` returns: the reader's `io.EOF`, or its own overflow error. -/
def Err.ofVarint : VarintError → Err
  | .ended => .eof
  | .overflow => .overflow

/-- The body that `ReadVarint31` and `ReadVarint63` share. -/
def readVarint (max : UInt64) (buf : Bytes) : Except Err UInt64 × Bytes :=
  match readUvarint buf with
  | (.error e, buf) => (.error (.ofVarint e), buf)
  | (.ok val, buf) => if max < val then (.error .range, buf) else (.ok val, buf)

/-- `readVarint31`: a varint that is no larger than `MaxInt32`. -/
def readVarint31 (buf : Bytes) : Except Err UInt32 × Bytes :=
  match readVarint MaxInt32 buf with
  | (.error e, buf) => (.error e, buf)
  | (.ok val, buf) => (.ok val.toUInt32, buf)

/-- `readVarint63`: a varint that is no larger than `MaxInt64`. -/
def readVarint63 (buf : Bytes) : Except Err UInt64 × Bytes := readVarint MaxInt64 buf

/-- `readVarstr31`: the length as a varint, and then so many bytes. -/
def readVarstr31 (buf : Bytes) : Except Err Bytes × Bytes :=
  match readVarint31 buf with
  | (.error e, buf) => (.error e, buf)
  | (.ok l, buf) =>
    if l = 0 then (.ok [], buf)
    else if buf.length < l.toNat then (.error .unexpectedEOF, buf)
    else (.ok (buf.take l.toNat), buf.drop l.toNat)

/-- The loop of `readVarstrList`, with `nelts` strings to go. Also returns the `nelts` it ends
with: the count goes down once more after a string that could not be read. -/
def readVarstrs : Nat → List Bytes → Bytes → (Nat × List Bytes × Option Err) × Bytes
  | 0, result, buf => ((0, result, none), buf)
  | nelts + 1, result, buf =>
    match readVarstr31 buf with
    | (.error e, buf) => ((nelts, result ++ [[]], some e), buf)
    | (.ok s, buf) => readVarstrs nelts (result ++ [s]) buf

/-- `readVarstrList`: the count as a varint, and then so many strings. -/
def readVarstrList (buf : Bytes) : (List Bytes × Option Err) × Bytes :=
  match readVarint31 buf with
  | (.error e, buf) => (([], some e), buf)
  | (.ok nelts, buf) =>
    if nelts = 0 then (([], none), buf)
    else
      match readVarstrs nelts.toNat [] buf with
      | ((nelts, result, err), buf) =>
        ((result, if result.length < nelts then some .unexpectedEOF else err), buf)

/-! ## Writing -/

/-- An `io.Writer`: the number of bytes written and the error. -/
structure Writer (W : Type) where
  write : Bytes → W → (Nat × Option Err) × W

/-- A `bytes.Buffer`, which never fails. -/
def buffer : Writer Bytes where
  write p w := ((p.length, none), w ++ p)

variable {W : Type} (out : Writer W)

/-- Code that writes. -/
abbrev WriteM (W : Type) := StateT W Option

/-- `w.Write(p)`. -/
def Writer.send (p : Bytes) : WriteM W (Nat × Option Err) := fun w => some (out.write p w)

/-- The body that `WriteVarint31` and `WriteVarint63` share. The pooled buffer has nine bytes. -/
def writeVarint (max val : UInt64) : WriteM W (Nat × Option Err) :=
  if max < val then return (0, some .range)
  else do
    let bytes ← (putUvarint 9 val : Option Bytes)
    out.send bytes

/-- `writeVarint31`, which refuses what is larger than `MaxInt32`. -/
def writeVarint31 (val : UInt64) : WriteM W (Nat × Option Err) := writeVarint out MaxInt32 val

/-- `writeVarint63`, which refuses what is larger than `MaxInt64`. -/
def writeVarint63 (val : UInt64) : WriteM W (Nat × Option Err) := writeVarint out MaxInt64 val

/-- `writeVarstr31`: the length, and then the bytes. -/
def writeVarstr31 (str : Bytes) : WriteM W (Nat × Option Err) := do
  let (n, err) ← writeVarint31 out (UInt64.ofNat str.length)
  if err ≠ none then
    return (n, err)
  let (n2, err) ← out.send str
  return (n + n2, err)

/-- The loop of `writeVarstrList`, with `n` bytes written so far. -/
def writeVarstrs (n : Nat) : List Bytes → WriteM W (Nat × Option Err)
  | [] => return (n, none)
  | s :: l => do
    let (n2, err) ← writeVarstr31 out s
    if err ≠ none then
      return (n + n2, err)
    writeVarstrs (n + n2) l

/-- `writeVarstrList`: the count, and then each of the strings. -/
def writeVarstrList (l : List Bytes) : WriteM W (Nat × Option Err) := do
  let (n, err) ← writeVarint31 out (UInt64.ofNat l.length)
  if err ≠ none then
    return (n, err)
  writeVarstrs out n l

end ChainX.Codec
