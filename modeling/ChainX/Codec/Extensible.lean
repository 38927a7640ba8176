import ChainX.Codec.RoundTrip
import ChainX.Codec.Slice

/-!
# Extensible strings, `Blockchain/blockchain.go:131-140, 195-209`

`ReadExtensibleString` hands the content of a string to a function that knows how to read the front
of it, and returns what that function has left: the fields of a later version. A later writer's
suffix is put back by `WriteExtensibleString`.

The function that reads is a `Consumer`, a client of a reader: it can ask for the number of unread
bytes, for a byte, for `p` bytes into a slice of its own and for a string, as often as it wants and
as the replies tell it. Of a string it gets the bytes, which is all that a reader over the string
could tell it. The other `Read` functions of the package are such consumers themselves. The reader
it gets is a slice of the same memory as the rest of the input, with the rest of the input between
its length and its capacity. The function that writes is a `Producer`, a client of a writer.

**`extensible_roundtrip`**: what was written with a suffix is read up to the suffix, by a reader
that does not know of it, and is written back; and no consumer is told anything that depends on what
follows the string (`readExtensibleString_spec`).
-/

namespace ChainX.Codec

open ChainX.Lib

variable {E : Type}

/-! ## Consumers -/

/-- A call on a reader. -/
inductive Call where
  | len
  | readByte
  /-- `Read`, into a slice of length `p`. -/
  | read (p : Nat)
  | readVarstr31

/-- What a call of the reader returns. -/
def Call.Reply : Call → Type
  | .len => Nat
  | .readByte => Except Err UInt8
  | .read _ => Bytes × Option Err
  | .readVarstr31 => Except Err Bytes

/-- A call on a reader that is a slice. -/
def Call.ask : (call : Call) → ReadM call.Reply
  | .len => Reader.len
  | .readByte => Reader.readByte
  | .read p => Reader.read p
  | .readVarstr31 => do return (← Reader.readVarstr31).map Slice.bytes

/-- A call on the unread bytes alone. -/
def Call.answer : (call : Call) → Bytes → call.Reply × Bytes
  | .len, buf => (buf.length, buf)
  | .readByte, buf => Codec.readByte buf
  | .read p, buf => Codec.read p buf
  | .readVarstr31, buf => Codec.readVarstr31 buf

theorem Call.ask_refines : ∀ call : Call, Refines call.ask call.answer
  | .len => Reader.len_refines
  | .readByte => Reader.readByte_refines
  | .read p => Reader.read_refines p
  | .readVarstr31 => by
    intro r
    obtain ⟨res, r', hread, hres, hr'⟩ := Reader.readVarstr31_refines r
    refine ⟨r', ?_, hr'⟩
    rw [Call.ask, bind_run hread, pure_run, hres]
    rfl

/-- A function of a reader that returns an error, or `none`. -/
abbrev Consumer (E : Type) := Client Call Call.Reply (Option E)

/-- On the bytes `c` the consumer returns no error and leaves `s`. -/
def Consumer.Leaves (f : Consumer E) (c s : Bytes) : Prop :=
  ∃ seen, f.respond Call.answer c = ((seen, none), s)

/-- What the function `f` is told comes along with the result. -/
def readExtensibleString (f : Consumer E) :
    ReadM (Client.Transcript Call Call.Reply × Except (Err ⊕ E) Slice) := do
  match ← Reader.readVarstr31 with
  | .error err => return ([], .error (.inl err))
  | .ok s =>
    let ((seen, err), sr) ← (f.run Call.ask s : Option _)
    match err with
    | some err => return (seen, .error (.inr err))
    | none => return (seen, .ok sr)

/-! ## Producers -/

/-- A function of a writer that returns an error, or `none`. -/
abbrev Producer (E : Type) := Client Bytes (fun _ => Nat × Option Err) (Option E)

/-- Into an empty buffer the producer writes `p`, and returns no error. -/
def Producer.Writes (f : Producer E) (p : Bytes) : Prop :=
  ∃ seen, f.run buffer.send [] = some ((seen, none), p)

/-- The pool hands out an empty buffer. -/
def writeExtensibleString {W : Type} (out : Writer W) (suffix : Bytes) (f : Producer E) :
    WriteM W (Nat × Option (Err ⊕ E)) := do
  let ((_, err), buf) ← (f.run buffer.send [] : Option _)
  if let some err := err then
    return (0, some (.inr err))
  let ((_, err), buf) :=
    if 0 < suffix.length then buffer.write suffix buf else ((0, none), buf)
  if let some err := err then
    return (0, some (.inl err))
  let (n, err) ← writeVarstr31 out buf
  return (n, err.map .inl)

/-! ## Reading and writing back -/

/-- What a consumer leaves, or the error it returns. -/
def Consumer.outcome (f : Consumer E) (c : Bytes) : Except (Err ⊕ E) Bytes :=
  match f.respond Call.answer c with
  | ((_, some err), _) => .error (.inr err)
  | ((_, none), s) => .ok s

/-- Where the string `c` stands before `t`, the consumer is told what it would be told of `c` alone,
and the reader is left at `t`. -/
theorem readExtensibleString_spec (f : Consumer E) {c t : Bytes} {r : Slice}
    (hr : Codec.readVarstr31 r.bytes = (.ok c, t)) :
    ∃ res r', readExtensibleString f r = some (((f.respond Call.answer c).1.1, res), r') ∧
      r'.bytes = t ∧ res.map Slice.bytes = f.outcome c := by
  obtain ⟨res, r', hread, hres, hr'⟩ := Reader.readVarstr31_refines r
  rw [hr] at hres hr'
  cases res with
  | error err => exact absurd hres (by simp [Except.map])
  | ok s =>
    have hs : s.bytes = c := Except.ok.inj hres
    obtain ⟨sr, hrun, hsr⟩ := Client.run_of_refines Call.ask_refines f s
    rw [hs] at hrun hsr
    unfold readExtensibleString Consumer.outcome
    rw [bind_run hread]
    simp only
    rw [bind_run (lift_run hrun)]
    rcases hleft : f.respond Call.answer c with ⟨⟨seen, err⟩, left⟩
    rw [hleft] at hsr
    cases err with
    | some err => exact ⟨_, r', rfl, hr', rfl⟩
    | none => exact ⟨_, r', rfl, hr', congrArg Except.ok hsr⟩

/-- The producer's bytes and the suffix are written as one string. -/
theorem writeExtensibleString_eq {W : Type} (out : Writer W) {f : Producer E} {p : Bytes}
    (hf : f.Writes p) (s : Bytes) {w w' : W} {n : Nat}
    (hw : writeVarstr31 out (p ++ s) w = some ((n, none), w')) :
    writeExtensibleString out s f w = some ((n, none), w') := by
  obtain ⟨seen, hrun⟩ := hf
  unfold writeExtensibleString
  rw [bind_run (lift_run hrun)]
  by_cases hs : 0 < s.length
  · simp only [if_pos hs, buffer]
    rw [bind_run hw]
    rfl
  · have hnil : s = [] := List.length_eq_zero_iff.mp (Nat.eq_zero_of_not_pos hs)
    rw [hnil, List.append_nil] at hw
    simp only [if_neg hs]
    rw [bind_run hw]
    rfl

/-- **Extensible strings survive an old reader.** For every content `p ++ s` in range there are
bytes that `writeVarstr31` appends to a buffer, and for every slice with these bytes and `t` after
them, whatever `t` is and whatever lies beyond the slice's length: every consumer is told exactly
what it would be told of `p ++ s` alone, and the reader is left at `t`; a consumer that reads `p`
makes `readExtensibleString` return `s`; and `writeExtensibleString` with the suffix `s` and a
producer of `p` appends the same bytes. -/
theorem extensible_roundtrip (E : Type) (p s : Bytes) (hc : (p ++ s).length ≤ MaxInt32.toNat) :
    ∃ enc, (∀ w, writeVarstr31 buffer (p ++ s) w = some ((enc.length, none), w ++ enc)) ∧
      (∀ (f : Consumer E) (r : Slice) t, r.bytes = enc ++ t →
        (∃ res r', readExtensibleString f r =
            some (((f.respond Call.answer (p ++ s)).1.1, res), r') ∧ r'.bytes = t) ∧
          (f.Leaves (p ++ s) s → ∃ seen suffix r', readExtensibleString f r =
            some ((seen, .ok suffix), r') ∧ suffix.bytes = s ∧ r'.bytes = t)) ∧
      ∀ f : Producer E, f.Writes p →
        ∀ w, writeExtensibleString buffer s f w = some ((enc.length, none), w ++ enc) := by
  obtain ⟨enc, hwrite, hread⟩ := varstr31_roundtrip hc
  refine ⟨enc, hwrite, fun f r t hr => ?_, fun f hf w => writeExtensibleString_eq _ hf s (hwrite w)⟩
  have hstr : Codec.readVarstr31 r.bytes = (.ok (p ++ s), t) := by rw [hr, hread]
  obtain ⟨res, r', hext, hr', hres⟩ := readExtensibleString_spec f hstr
  refine ⟨⟨res, r', hext, hr'⟩, ?_⟩
  rintro ⟨seen, hleaves⟩
  rw [Consumer.outcome, hleaves] at hres
  cases res with
  | error err => exact absurd hres (by simp [Except.map])
  | ok suffix => exact ⟨_, suffix, r', hext, Except.ok.inj hres, hr'⟩

/-- Reads `n` bytes. -/
def Consumer.bytes : Nat → Consumer Err
  | 0 => .done none
  | n + 1 => .call .readByte fun
    | .error err => .done (some err)
    | .ok _ => bytes n

/-- Writes `p` at once. -/
def Producer.bytes (p : Bytes) : Producer Err := .call p fun (_, err) => .done err

/-- The content `[1, 2]`, read by a consumer of one byte; three bytes are not to be had of it. -/
theorem extensible_roundtrip_sample :
    ([1] ++ [2] : Bytes).length ≤ MaxInt32.toNat ∧ (Consumer.bytes 1).Leaves ([1] ++ [2]) [2] ∧
      (Producer.bytes [1]).Writes [1] ∧ (Consumer.bytes 3).outcome [1, 2] = .error (.inr .eof) ∧
      ∃ enc, (∀ w, writeVarstr31 buffer ([1] ++ [2]) w = some ((enc.length, none), w ++ enc)) ∧
        (∀ (r : Slice) t, r.bytes = enc ++ t →
          ∃ seen suffix r', readExtensibleString (Consumer.bytes 1) r =
            some ((seen, .ok suffix), r') ∧ suffix.bytes = [2] ∧ r'.bytes = t) ∧
        ∀ w, writeExtensibleString buffer [2] (Producer.bytes [1]) w =
          some ((enc.length, none), w ++ enc) := by
  have hleaves : (Consumer.bytes 1).Leaves ([1] ++ [2]) [2] := ⟨_, rfl⟩
  have hwrites : (Producer.bytes [1]).Writes [1] := ⟨_, rfl⟩
  refine ⟨by decide, hleaves, hwrites, rfl, ?_⟩
  obtain ⟨enc, hwrite, hread, hsame⟩ := extensible_roundtrip Err [1] [2] (by decide)
  exact ⟨enc, hwrite, fun r t hr => (hread (Consumer.bytes 1) r t hr).2 hleaves,
    hsame (Producer.bytes [1]) hwrites⟩

end ChainX.Codec
