import Mathlib.Order.Std
import Std.Data.ExtTreeMap.Lemmas

/-!
# Serialisers

A `Codec` writes values as bytes and reads back what it has written, whatever follows. Codecs of
bytes, words, pairs, lists and maps are put together from those of their parts.

* The round trip is a field (`read_write`), so every way to put codecs together carries its proof,
  and whoever has a `Codec` of its parts has one of the whole.
* It is stated with a rest: what was written is read back and the rest is left. Without it a pair
  could not be read.
* Nothing is said about bytes that were not written by the codec. A reader may refuse them or take
  them for some value.
* `map` gives the values of one type as those of another, along a function with a section; `fixed`
  and `list` are vectors of a known length and lists after their count; `treeMap` is a map as the
  list of its entries.
* `count` is an encoding of counts of its own, and not that of some format: one byte below 253, and
  a byte for every unit from there on.
-/

namespace ChainX.Lib

/-- A way to write values that reads back what was written. -/
structure Codec (α : Type) where
  write : α → List UInt8
  /-- The value at the start of the bytes, and the bytes that are left. -/
  read : List UInt8 → Option (α × List UInt8)
  read_write : ∀ a rest, read (write a ++ rest) = some (a, rest)

namespace Codec

variable {α β : Type}

/-! ## Bytes and words -/

/-- One byte. -/
def byte : Codec UInt8 where
  write b := [b]
  read
    | [] => none
    | b :: rest => some (b, rest)
  read_write _ _ := rfl

/-- The values of one type as those of another. -/
def map (c : Codec α) (f : α → β) (g : β → α) (hfg : ∀ b, f (g b) = b) : Codec β where
  write b := c.write (g b)
  read bytes := (c.read bytes).map fun r => (f r.1, r.2)
  read_write b rest := by rw [c.read_write, Option.map_some, hfg]

/-- A pair, one part after the other. -/
def prod (c : Codec α) (d : Codec β) : Codec (α × β) where
  write p := c.write p.1 ++ d.write p.2
  read bytes := do
    let (a, bytes) ← c.read bytes
    let (b, bytes) ← d.read bytes
    return ((a, b), bytes)
  read_write p rest := by
    rw [List.append_assoc, c.read_write]
    simp only [Option.bind_eq_bind, Option.bind_some, d.read_write]
    rfl

/-- Four bytes, lowest first. -/
def uint32 : Codec UInt32 :=
  (byte.prod (byte.prod (byte.prod byte))).map
    (fun b => UInt32.ofNat (b.1.toNat + 256 * (b.2.1.toNat + 256 * (b.2.2.1.toNat +
      256 * b.2.2.2.toNat))))
    (fun x => (.ofNat x.toNat, .ofNat (x.toNat / 256), .ofNat (x.toNat / 65536),
      .ofNat (x.toNat / 16777216)))
    (by
      intro x
      have hx := x.toNat_lt
      have hbytes : x.toNat % 256 + 256 * (x.toNat / 256 % 256 + 256 * (x.toNat / 65536 % 256 +
          256 * (x.toNat / 16777216 % 256))) = x.toNat := by
        omega
      simp only [UInt8.toNat_ofNat']
      exact (congrArg UInt32.ofNat hbytes).trans x.ofNat_toNat)

/-- Four bytes, of a signed number. -/
def int32 : Codec Int32 := uint32.map UInt32.toInt32 Int32.toUInt32 Int32.toInt32_toUInt32

/-- One byte, of a signed number. -/
def int8 : Codec Int8 := byte.map UInt8.toInt8 Int8.toUInt8 Int8.toInt8_toUInt8

/-! ## Lists and maps -/

/-- A count: one byte below 253, and a byte for every unit from there on. -/
def count : Codec Nat where
  write n := if n < 253 then [.ofNat n] else 253 :: (List.replicate n 1 ++ [0])
  read
    | [] => none
    | b :: rest =>
      if b < 253 then some (b.toNat, rest)
      else
        let n := (rest.takeWhile (· == 1)).length
        some (n, rest.drop (n + 1))
  read_write n rest := by
    by_cases hn : n < 253
    · have hbyte : (UInt8.ofNat n).toNat = n := by
        rw [UInt8.toNat_ofNat']
        omega
      have hsmall : UInt8.ofNat n < 253 := UInt8.lt_iff_toNat_lt.mpr (lt_of_eq_of_lt hbyte hn)
      simp only [if_pos hn, List.singleton_append, if_pos hsmall, hbyte]
    · have htake : ((List.replicate n 1 ++ [0] ++ rest).takeWhile (· == (1 : UInt8))).length =
          n := by
        rw [List.append_assoc, List.takeWhile_append_of_pos fun b hb => by
          rw [List.eq_of_mem_replicate hb]; rfl]
        simp
      have hlarge : ¬ (253 : UInt8) < 253 := by decide
      simp only [if_neg hn, List.cons_append, if_neg hlarge, htake]
      rw [List.drop_left' (by simp)]

/-- `n` values one after the other. -/
def readMany (c : Codec α) : Nat → List UInt8 → Option (List α × List UInt8)
  | 0, bytes => some ([], bytes)
  | n + 1, bytes => do
    let (a, bytes) ← c.read bytes
    let (as, bytes) ← readMany c n bytes
    return (a :: as, bytes)

theorem readMany_write (c : Codec α) (as : List α) (rest : List UInt8) :
    c.readMany as.length (as.flatMap c.write ++ rest) = some (as, rest) := by
  induction as with
  | nil => rfl
  | cons a as ih =>
    rw [List.flatMap_cons, List.append_assoc, List.length_cons, readMany, c.read_write]
    simp only [Option.bind_eq_bind, Option.bind_some, ih]
    rfl

/-- `n` values, which is known. -/
def fixed (c : Codec α) (n : Nat) : Codec (Vector α n) where
  write v := v.toList.flatMap c.write
  read bytes := do
    let (as, bytes) ← c.readMany n bytes
    if h : as.length = n then some (⟨as.toArray, h⟩, bytes) else none
  read_write v rest := by
    have h := readMany_write c v.toList rest
    rw [Vector.length_toList] at h
    rw [h]
    simp only [Option.bind_eq_bind, Option.bind_some, dif_pos v.length_toList]
    rfl

/-- A list, after its length. -/
def list (c : Codec α) : Codec (List α) where
  write as := count.write as.length ++ as.flatMap c.write
  read bytes := do
    let (n, bytes) ← count.read bytes
    c.readMany n bytes
  read_write as rest := by
    rw [List.append_assoc, count.read_write]
    simp only [Option.bind_eq_bind, Option.bind_some]
    exact readMany_write c as rest

/-- A map, as the list of its entries. -/
def treeMap [Ord α] [Std.TransOrd α] [Std.LawfulEqOrd α] [BEq α] [Std.LawfulBEqOrd α]
    (c : Codec α) (d : Codec β) : Codec (Std.ExtTreeMap α β) :=
  (c.prod d).list.map (Std.ExtTreeMap.ofList · compare) Std.ExtTreeMap.toList (by
    intro m
    refine Std.ExtTreeMap.ext_getElem? fun k => ?_
    cases hk : m[k]? with
    | none =>
      refine Std.ExtTreeMap.getElem?_ofList_of_contains_eq_false ?_
      rw [Std.ExtTreeMap.map_fst_toList_eq_keys, Std.ExtTreeMap.contains_keys,
        Std.ExtTreeMap.contains_eq_isSome_getElem?, hk]
      rfl
    | some v =>
      refine Std.ExtTreeMap.getElem?_ofList_of_mem Std.ReflCmp.compare_self
        Std.ExtTreeMap.distinct_keys_toList ?_
      exact Std.ExtTreeMap.mem_toList_iff_getElem?_eq_some.mpr hk)

end Codec

end ChainX.Lib
