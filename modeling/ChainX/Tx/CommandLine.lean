import ChainX.Lib.Parts
import ChainX.Script.RoundTrip
import ChainX.Tx.Sign
import Mathlib.Data.List.InsertIdx

/-!
# The command line, `Maternodes/SRC/chain-tx.cpp`

`CommandLineRawTx` (`chain-tx.cpp:588-655`) with all commands of `MutateTx`
(`chain-tx.cpp:496-533`), and the registers (`chain-tx.cpp:98-163`). Money, addresses, scripts,
hexadecimal and JSON texts are read by other files, which are a parameter (`LineTools`); so are the
files, and what is printed for a transaction. The options, `-create` among them, are parsed before.

A command other than `sign` denotes a change of one part of the session (`Change`), whatever the
session is, so that commands of different parts are independent (`Lib/Parts.lean`). The registers
are one part: a text that is not JSON makes a command fail, and what is stored under one name may be
read by any later command.

* `denotes_command`: what a command does.
* **`commandLineRawTx_reorder`**: of the order of the commands only that within a part matters, for
  what goes to the standard output and for the exit code. Which error is named may change.
* **`commands_without_sign`**: signature commands can be left out, but for the signatures.
-/

namespace ChainX.Tx

open ChainX.Lib ChainX.Script
open ChainX.Node (Bytes)

/-- What is used of other files, and what is read. -/
structure LineTools (Uint256 : Type) where
  /-- `UniValue::read`, with the value. -/
  read : Text → Option UniValue
  /-- What can be read of a file, and whether an error ends it. -/
  fopen : Text → Option (Text × Bool)
  stdin : Text × Bool
  parseMoney : Text → Option Int64
  /-- The script of a `CBitcoinAddress`, if it is valid. -/
  scriptForAddress : Text → Option CScript
  parseScript : Text → Except Text CScript
  parseHex : Text → Bytes
  common : Common
  decodeHexTx : Text → Option (Transaction Uint256)
  /-- What `OutputTx` prints. -/
  outputTx : Transaction Uint256 → Text

/-- What the commands of a line work on. -/
structure Session (Uint256 : Type) where
  tx : Transaction Uint256
  registers : Registers

variable {Uint256 Key KeyStore : Type} (tools : TxTools (CTxIn Uint256) Uint256)
  (signTools : SignTools Uint256 Key KeyStore) (lineTools : LineTools Uint256)

/-! ## Registers -/

/-- A loop with `fread`. A chunk that is short is the last one. -/
def readLoop (rest : Text) : Text :=
  let buf := rest.take 4096
  if rest.length < 4096 then buf else buf ++ readLoop (rest.drop 4096)
termination_by rest.length
decreasing_by
  rw [List.length_drop]
  omega

/-- The chunks make no difference: everything is read. -/
theorem readLoop_eq (rest : Text) : readLoop rest = rest := by
  induction rest using readLoop.induct with
  | case1 rest hlt => rw [readLoop, if_pos hlt, List.take_of_length_le (Nat.le_of_lt hlt)]
  | case2 rest hlt ih => rw [readLoop, if_neg hlt, ih, List.take_append_drop]

/-- The register that is set, and its value. -/
def registerSetJson (key rawJson : Text) : Except Text (Text × UniValue) :=
  match lineTools.read rawJson with
  | none => .error (ascii "Cannot parse JSON for key " ++ key)
  | some val => .ok (key, val)

/-- The texts before and after the first `:`, neither of them empty. -/
def separate (strErr : String) (strInput : Text) : Except Text (Text × Text) :=
  match strInput.findIdx? (· == 58) with
  | none => .error (ascii strErr)
  | some pos =>
    if pos = 0 ∨ pos = strInput.length - 1 then .error (ascii strErr)
    else .ok (strInput.take pos, strInput.drop (pos + 1))

/-- `RegisterSet`: a name and a JSON text. -/
def registerSet (strInput : Text) : Except Text (Text × UniValue) := do
  let (key, valStr) ← separate "Register input requires NAME:VALUE" strInput
  registerSetJson lineTools key valStr

/-- `RegisterLoad`: a name and a file with a JSON text. -/
def registerLoad (strInput : Text) : Except Text (Text × UniValue) := do
  let (key, filename) ← separate "Register load requires NAME:FILENAME" strInput
  match lineTools.fopen filename with
  | none => throw (ascii "Cannot open file " ++ filename)
  | some (contents, error) =>
    let valStr := readLoop contents
    if error then throw (ascii "Error reading file " ++ filename)
    else registerSetJson lineTools key valStr

/-! ## Outputs -/

/-- The opcode of outputs that carry data. -/
def OP_RETURN : opcodetype := 0x6a

/-- `ParseMoney`, or the exception. -/
def parseValue (strValue : Text) : Except Text Int64 :=
  match lineTools.parseMoney strValue with
  | none => .error (ascii "invalid TX output value")
  | some value => .ok value

/-- The output of `MutateTxAddOutAddr`. -/
def outAddr (strInput : Text) : Except Text CTxOut := do
  let (strValue, strAddr) ← separate "TX output missing separator" strInput
  let value ← parseValue lineTools strValue
  match lineTools.scriptForAddress strAddr with
  | none => throw (ascii "invalid TX output address")
  | some scriptPubKey => return ⟨value, scriptPubKey⟩

/-- The output of `MutateTxAddOutData`. -/
def outData (strInput : Text) : Except Text CTxOut := do
  let (value, strData) ←
    match strInput.findIdx? (· == 58) with
    | none => pure (0, strInput)
    | some pos =>
      if pos = 0 then throw (ascii "TX output value not specified")
      else pure (← parseValue lineTools (strInput.take pos), strInput.drop (pos + 1))
  if tools.isHex strData = false then throw (ascii "invalid TX output data")
  return ⟨value, CScript.appendVector lineTools.common [OP_RETURN.toUInt8]
    (lineTools.parseHex strData)⟩

/-- The output of `MutateTxAddOutScript`. Nothing has to stand behind the `:`. -/
def outScript (strInput : Text) : Except Text CTxOut :=
  match strInput.findIdx? (· == 58) with
  | none => throw (ascii "TX output missing separator")
  | some pos => do
    if pos = 0 then throw (ascii "TX output missing separator")
    let value ← parseValue lineTools (strInput.take pos)
    let scriptPubKey ← lineTools.parseScript (strInput.drop (pos + 1))
    return ⟨value, scriptPubKey⟩

/-- `tx.vout.push_back(txout)`. -/
def addOutput (tx : Transaction Uint256) : Except Text CTxOut → Outcome (CTxIn Uint256) CTxOut :=
  thrown tx fun txout => { tx with vout := tx.vout ++ [txout] }

/-! ## Commands -/

variable [DecidableEq Uint256]

/-- The commands on a transaction that have no number in them. -/
def otherCommand (s : Session Uint256) (command commandVal : Text) :
    Outcome (CTxIn Uint256) CTxOut :=
  if command = ascii "outaddr" then addOutput s.tx (outAddr lineTools commandVal)
  else if command = ascii "outdata" then addOutput s.tx (outData tools lineTools commandVal)
  else if command = ascii "outscript" then addOutput s.tx (outScript lineTools commandVal)
  else if command = ascii "sign" then
    mutateTxSign tools signTools s.registers s.tx commandVal
  else (.error (ascii "unknown command"), s.tx)

/-- The session after a command on its transaction, or the exception. -/
def Session.after (s : Session Uint256) :
    Outcome (CTxIn Uint256) CTxOut → Except Text (Session Uint256)
  | (.ok (), tx) => .ok { s with tx }
  | (.error strErr, _) => .error strErr

/-- The session after a register is set. -/
def Session.withRegister (s : Session Uint256) :
    Except Text (Text × UniValue) → Except Text (Session Uint256)
  | .ok (key, val) => .ok { s with registers := Function.update s.registers key (some val) }
  | .error strErr => .error strErr

/-- `MutateTx`, with the registers. -/
def command (command commandVal : Text) (s : Session Uint256) : Except Text (Session Uint256) :=
  if command = ascii "load" then s.withRegister (registerLoad lineTools commandVal)
  else if command = ascii "set" then s.withRegister (registerSet lineTools commandVal)
  else s.after (mutateTx tools s.tx (otherCommand tools signTools lineTools s) command commandVal)

/-- The key and the value of an argument. -/
def keyValue (arg : Text) : Text × Text :=
  match arg.findIdx? (· == 61) with
  | none => (arg, [])
  | some eqpos => (arg.take eqpos, arg.drop (eqpos + 1))

/-- One round of the loop over the arguments. -/
def step (arg : Text) (s : Session Uint256) : Except Text (Session Uint256) :=
  command tools signTools lineTools (keyValue arg).1 (keyValue arg).2 s

/-! ## The program -/

/-- `readStdin`: the transaction, without the spaces behind it. -/
def readStdin : Except Text Text :=
  let ret := readLoop lineTools.stdin.1
  if lineTools.stdin.2 then .error (ascii "error reading stdin")
  else .ok (ret.reverse.dropWhile isSpace).reverse

/-- `CTransaction()`. -/
def blankTx : Transaction Uint256 := ⟨tools.CURRENT_VERSION, [], [], 0⟩

/-- A switch starts with `-`, and there is more of it. -/
def isSwitch (arg : Text) : Bool := arg.head? == some 45 && arg.length != 1

/-- The transaction that the arguments start from, and the commands. -/
def startTx (fCreateBlank : Bool) (args : List Text) :
    Except Text (Transaction Uint256 × List Text) :=
  match fCreateBlank, args.dropWhile isSwitch with
  | true, commands => .ok (blankTx tools, commands)
  | false, [] => .error (ascii "too few parameters")
  | false, arg :: commands => do
    let strHexTx ← if arg = ascii "-" then readStdin lineTools else pure arg
    match lineTools.decodeHexTx strHexTx with
    | none => throw (ascii "invalid transaction encoding")
    | some tx => return (tx, commands)

/-- What the program prints, and its exit code. -/
structure Printed where
  stdout : Text
  stderr : Text
  nRet : Int
  deriving DecidableEq

/-- `CommandLineRawTx`: the transaction to start from, the commands, and what is printed. -/
def commandLineRawTx (fCreateBlank : Bool) (args : List Text) : Printed :=
  let session := do
    let (tx, commands) ← startTx tools lineTools fCreateBlank args
    Parts.run (step tools signTools lineTools) commands ⟨tx, fun _ => none⟩
  match session with
  | .ok s => ⟨lineTools.outputTx s.tx, [], 0⟩
  | .error what => ⟨[], ascii "error: " ++ what ++ ascii "\n", 1⟩

/-! ## Parts -/

/-- What a command is about. -/
inductive Part where
  | version
  | locktime
  | inputs
  | outputs
  | registers
  | unknown
  deriving DecidableEq

/-- The part that a command is about; `sign` has to do with everything. -/
def partOf (command : Text) : Option Part :=
  if command = ascii "load" then some .registers
  else if command = ascii "set" then some .registers
  else if command = ascii "nversion" then some .version
  else if command = ascii "locktime" then some .locktime
  else if command = ascii "delin" then some .inputs
  else if command = ascii "in" then some .inputs
  else if command = ascii "delout" then some .outputs
  else if command = ascii "outaddr" then some .outputs
  else if command = ascii "outdata" then some .outputs
  else if command = ascii "outscript" then some .outputs
  else if command = ascii "sign" then none
  else some .unknown

/-- The part that an argument is about. -/
def argPart (arg : Text) : Option Part := partOf (keyValue arg).1

/-- What a session holds of a part, where `V` is what is looked at of an input. -/
def Held (V : Type) : Part → Type
  | .version => Int32
  | .locktime => UInt32
  | .inputs => List V
  | .outputs => List CTxOut
  | .registers => Registers
  | .unknown => Unit

/-- A part of the session, with the inputs as `look` shows them. -/
def Session.part {Uint256 V : Type} (look : CTxIn Uint256 → V) :
    (i : Part) → Session Uint256 → Held V i
  | .version, s => s.tx.nVersion
  | .locktime, s => s.tx.nLockTime
  | .inputs, s => s.tx.vin.map look
  | .outputs, s => s.tx.vout
  | .registers, s => s.registers
  | .unknown, _ => ()

/-- What a command changes. -/
inductive Change (Uint256 : Type) where
  | version (nVersion : Int32)
  | locktime (nLockTime : UInt32)
  | addInput (txin : CTxIn Uint256)
  | delInput (inIdx : Int32)
  | addOutput (txout : CTxOut)
  | delOutput (outIdx : Int32)
  | register (key : Text) (val : UniValue)

namespace Change

variable {Uint256 V : Type} {look : CTxIn Uint256 → V} {s s' t : Session Uint256} {i : Part}

/-- The part that a change is about. -/
def part : Change Uint256 → Part
  | version _ => .version
  | locktime _ => .locktime
  | addInput _ => .inputs
  | delInput _ => .inputs
  | addOutput _ => .outputs
  | delOutput _ => .outputs
  | register _ _ => .registers

/-- An index of a list of this length, compared as an `int`. -/
def InRange (idx : Int32) (size : Nat) : Prop := ¬ (idx < 0 ∨ idx ≥ .ofNat size)

instance (idx : Int32) (size : Nat) : Decidable (InRange idx size) := by
  unfold InRange
  infer_instance

/-- The session with the change, if it can be made. -/
def apply (s : Session Uint256) : Change Uint256 → Option (Session Uint256)
  | version nVersion => some { s with tx := { s.tx with nVersion } }
  | locktime nLockTime => some { s with tx := { s.tx with nLockTime } }
  | addInput txin => some { s with tx := { s.tx with vin := s.tx.vin ++ [txin] } }
  | delInput inIdx =>
    if InRange inIdx s.tx.vin.length then
      some { s with tx := { s.tx with vin := s.tx.vin.eraseIdx inIdx.toInt.toNat } }
    else none
  | addOutput txout => some { s with tx := { s.tx with vout := s.tx.vout ++ [txout] } }
  | delOutput outIdx =>
    if InRange outIdx s.tx.vout.length then
      some { s with tx := { s.tx with vout := s.tx.vout.eraseIdx outIdx.toInt.toNat } }
    else none
  | register key val => some { s with registers := Function.update s.registers key (some val) }

theorem apply_keeps {change : Change Uint256} (h : change.apply s = some s')
    (hne : change.part ≠ i) : s'.part look i = s.part look i := by
  cases change with
  | version nVersion | locktime nLockTime | addInput txin | addOutput txout | register key val =>
    obtain rfl := Option.some.inj h
    cases i <;> first | rfl | exact absurd rfl hne
  | delInput idx | delOutput idx =>
    rw [apply] at h
    split at h
    · obtain rfl := Option.some.inj h
      cases i with
      | version | locktime | inputs | outputs | registers | unknown =>
        first | rfl | exact absurd rfl hne
    · simp at h

theorem apply_reads {change : Change Uint256} (h : change.apply s = some s')
    (hpart : t.part look change.part = s.part look change.part) :
    ∃ t', change.apply t = some t' ∧ t'.part look change.part = s'.part look change.part := by
  cases change with
  | version nVersion | locktime nLockTime =>
    obtain rfl := Option.some.inj h
    exact ⟨_, rfl, rfl⟩
  | addInput txin =>
    obtain rfl := Option.some.inj h
    have hvin : t.tx.vin.map look = s.tx.vin.map look := hpart
    refine ⟨_, rfl, ?_⟩
    change (t.tx.vin ++ [txin]).map look = (s.tx.vin ++ [txin]).map look
    rw [List.map_append, List.map_append, hvin]
  | delInput inIdx =>
    have hvin : t.tx.vin.map look = s.tx.vin.map look := hpart
    have hlength : t.tx.vin.length = s.tx.vin.length := by
      simpa using congrArg List.length hvin
    rw [apply] at h
    split at h
    · rename_i hrange
      obtain rfl := Option.some.inj h
      refine ⟨_, by rw [apply, if_pos (hlength ▸ hrange)], ?_⟩
      change (t.tx.vin.eraseIdx _).map look = (s.tx.vin.eraseIdx _).map look
      rw [← List.eraseIdx_map, ← List.eraseIdx_map, hvin]
    · simp at h
  | addOutput txout =>
    obtain rfl := Option.some.inj h
    have hvout : t.tx.vout = s.tx.vout := hpart
    exact ⟨_, rfl, congrArg (fun vout => vout ++ [txout]) hvout⟩
  | delOutput outIdx =>
    have hvout : t.tx.vout = s.tx.vout := hpart
    rw [apply] at h
    split at h
    · rename_i hrange
      obtain rfl := Option.some.inj h
      exact ⟨_, by rw [apply, if_pos (hvout ▸ hrange)],
        congrArg (fun vout => vout.eraseIdx outIdx.toInt.toNat) hvout⟩
    · simp at h
  | register key val =>
    obtain rfl := Option.some.inj h
    have hregisters : t.registers = s.registers := hpart
    exact ⟨_, rfl,
      congrArg (fun registers : Registers => Function.update registers key (some val)) hregisters⟩

end Change

/-- On every session, `f` makes one change of this part, or it always throws. -/
def Denotes (f : Session Uint256 → Except Text (Session Uint256)) (i : Part) : Prop :=
  ∃ change? : Option (Change Uint256), (∀ change, change? = some change → change.part = i) ∧
    ∀ s s', f s = .ok s' ↔ ∃ change, change? = some change ∧ change.apply s = some s'

section Denotes

variable {Uint256 : Type} {f : Session Uint256 → Except Text (Session Uint256)} {i : Part}

theorem denotes_error (h : ∀ s s', f s ≠ .ok s') : Denotes f i :=
  ⟨none, by simp, fun s s' => by simp [h s s']⟩

theorem denotes_change (change : Change Uint256) (hpart : change.part = i)
    (h : ∀ s s', f s = .ok s' ↔ change.apply s = some s') : Denotes f i :=
  ⟨some change, fun _ heq => Option.some.inj heq ▸ hpart, fun s s' => by simp [h s s']⟩

variable {tools : TxTools (CTxIn Uint256) Uint256}

theorem denotes_version (commandVal : Text) :
    Denotes (fun s => s.after (mutateTxVersion tools s.tx commandVal)) .version := by
  by_cases hbad : tools.atoi64 commandVal < 1 ∨
      tools.atoi64 commandVal > tools.CURRENT_VERSION.toInt64
  · exact denotes_error fun s s' => by simp [mutateTxVersion, if_pos hbad, Session.after]
  · refine denotes_change (.version (tools.atoi64 commandVal).toInt32) rfl fun s s' => ?_
    simp [mutateTxVersion, if_neg hbad, Session.after, Change.apply]

theorem denotes_locktime (commandVal : Text) :
    Denotes (fun s => s.after (mutateTxLocktime tools s.tx commandVal)) .locktime := by
  by_cases hbad : tools.atoi64 commandVal < 0 ∨ tools.atoi64 commandVal > 0xffffffff
  · exact denotes_error fun s s' => by simp [mutateTxLocktime, if_pos hbad, Session.after]
  · refine denotes_change (.locktime (.ofInt (tools.atoi64 commandVal).toInt)) rfl fun s s' => ?_
    simp [mutateTxLocktime, if_neg hbad, Session.after, Change.apply]

theorem denotes_delInput (commandVal : Text) :
    Denotes (fun s => s.after (mutateTxDelInput tools s.tx commandVal)) .inputs := by
  refine denotes_change (.delInput (tools.atoi commandVal)) rfl fun s s' => ?_
  simp only [mutateTxDelInput, Change.apply, Change.InRange]
  split
  · rename_i hbad
    simp [Session.after, hbad]
  · rename_i hbad
    simp [Session.after, hbad]

theorem denotes_delOutput (commandVal : Text) :
    Denotes (fun s => s.after (mutateTxDelOutput tools s.tx commandVal)) .outputs := by
  refine denotes_change (.delOutput (tools.atoi commandVal)) rfl fun s s' => ?_
  simp only [mutateTxDelOutput, Change.apply, Change.InRange]
  split
  · rename_i hbad
    simp [Session.after, hbad]
  · rename_i hbad
    simp [Session.after, hbad]

theorem denotes_addInput (commandVal : Text) :
    Denotes (fun s => s.after (mutateTxAddInput tools s.tx commandVal)) .inputs := by
  cases hpos : commandVal.findIdx? (· == 58) with
  | none => exact denotes_error fun s s' => by simp [mutateTxAddInput, hpos, Session.after]
  | some pos =>
    by_cases hends : pos = 0 ∨ pos = commandVal.length - 1
    · exact denotes_error fun s s' => by
        simp [mutateTxAddInput, hpos, if_pos hends, Session.after]
    by_cases htxid : (commandVal.take pos).length ≠ 64 ∨ tools.isHex (commandVal.take pos) = false
    · exact denotes_error fun s s' => by
        simp only [mutateTxAddInput, hpos, if_neg hends, if_pos htxid, Session.after]
        simp
    by_cases hvout : tools.atoi (commandVal.drop (pos + 1)) < 0 ∨
        tools.atoi (commandVal.drop (pos + 1)) > (maxVout tools).toInt32
    · exact denotes_error fun s s' => by
        simp only [mutateTxAddInput, hpos, if_neg hends, if_neg htxid, if_pos hvout, Session.after]
        simp
    · refine denotes_change (.addInput (tools.txIn (tools.uint256S (commandVal.take pos))
        (tools.atoi (commandVal.drop (pos + 1))).toUInt32)) rfl fun s s' => ?_
      simp only [mutateTxAddInput, hpos, if_neg hends, if_neg htxid, if_neg hvout, Session.after,
        Change.apply]
      simp

theorem denotes_addOutput (out : Except Text CTxOut) :
    Denotes (fun s : Session Uint256 => s.after (addOutput s.tx out)) .outputs := by
  cases out with
  | error strErr => exact denotes_error fun s s' => by simp [addOutput, thrown, Session.after]
  | ok txout =>
    refine denotes_change (.addOutput txout) rfl fun s s' => ?_
    simp [addOutput, thrown, Session.after, Change.apply]

theorem denotes_register (set : Except Text (Text × UniValue)) :
    Denotes (fun s : Session Uint256 => s.withRegister set) .registers := by
  cases set with
  | error strErr => exact denotes_error fun s s' => by simp [Session.withRegister]
  | ok keyVal =>
    refine denotes_change (.register keyVal.1 keyVal.2) rfl fun s s' => ?_
    simp [Session.withRegister, Change.apply]

end Denotes

section Steps

variable {V : Type} {look : CTxIn Uint256 → V} {tools signTools lineTools} {arg : Text}
  {s s' : Session Uint256} {i : Part}

theorem of_ite_some {p : Prop} [Decidable p] {j : Part} {o : Option Part}
    (h : (if p then some j else o) = some i) : p ∧ j = i ∨ ¬ p ∧ o = some i := by
  split at h
  · exact .inl ⟨‹p›, Option.some.inj h⟩
  · exact .inr ⟨‹¬ p›, h⟩

theorem of_ite_none {p : Prop} [Decidable p] {j : Part} {o : Option Part}
    (h : (if p then some j else o) = none) : o = none := by
  split at h
  · simp at h
  · exact h

theorem denotes_command {name : Text} (commandVal : Text) (h : partOf name = some i) :
    Denotes (command tools signTools lineTools name commandVal) i := by
  obtain ⟨rfl, rfl⟩ | ⟨hload, h⟩ := of_ite_some h
  · exact denotes_register _
  obtain ⟨rfl, rfl⟩ | ⟨hset, h⟩ := of_ite_some h
  · exact denotes_register _
  obtain ⟨rfl, rfl⟩ | ⟨hversion, h⟩ := of_ite_some h
  · exact denotes_version commandVal
  obtain ⟨rfl, rfl⟩ | ⟨hlocktime, h⟩ := of_ite_some h
  · exact denotes_locktime commandVal
  obtain ⟨rfl, rfl⟩ | ⟨hdelin, h⟩ := of_ite_some h
  · exact denotes_delInput commandVal
  obtain ⟨rfl, rfl⟩ | ⟨hin, h⟩ := of_ite_some h
  · exact denotes_addInput commandVal
  obtain ⟨rfl, rfl⟩ | ⟨hdelout, h⟩ := of_ite_some h
  · exact denotes_delOutput commandVal
  obtain ⟨rfl, rfl⟩ | ⟨houtaddr, h⟩ := of_ite_some h
  · exact denotes_addOutput _
  obtain ⟨rfl, rfl⟩ | ⟨houtdata, h⟩ := of_ite_some h
  · exact denotes_addOutput _
  obtain ⟨rfl, rfl⟩ | ⟨houtscript, h⟩ := of_ite_some h
  · exact denotes_addOutput _
  split at h
  · simp at h
  · refine denotes_error fun s s' => ?_
    simp [command, mutateTx, otherCommand, Session.after, *]

theorem argPart_eq_none : argPart arg = none ↔ (keyValue arg).1 = ascii "sign" := by
  unfold argPart
  constructor
  · intro h
    by_contra hne
    unfold partOf at h
    -- no name but the last one gives no part
    iterate 10 replace h := of_ite_none h
    rw [if_neg hne] at h
    simp at h
  · intro h
    rw [h]
    decide

/-- A signature command that does not throw. -/
theorem step_sign (hsign : argPart arg = none)
    (h : step tools signTools lineTools arg s = .ok s') :
    s'.registers = s.registers ∧ SameUnsigned s.tx s'.tx := by
  rw [step, argPart_eq_none.mp hsign] at h
  change s.after (mutateTxSign tools signTools s.registers s.tx (keyValue arg).2) = .ok s' at h
  rw [mutateTxSign] at h
  cases hsigned : signedTx tools signTools s.registers s.tx (keyValue arg).2 with
  | error strErr => simp [hsigned, thrown, Session.after] at h
  | ok tx' =>
    rw [hsigned] at h
    obtain rfl := Except.ok.inj h
    obtain ⟨_, _, _, -, hresult⟩ := signed_of_ok hsigned
    exact ⟨rfl, hresult.sameUnsigned⟩

theorem denotes_step (h : argPart arg = some i) :
    Denotes (step tools signTools lineTools arg) i := denotes_command _ h

/-- Nothing of the signatures is looked at. -/
def IgnoresSigs (look : CTxIn Uint256 → V) : Prop :=
  ∀ txin txin' : CTxIn Uint256, txin.unsigned = txin'.unsigned → look txin = look txin'

omit [DecidableEq Uint256] in
theorem map_look (hlook : IgnoresSigs look) {vin vin' : List (CTxIn Uint256)}
    (h : vin'.map CTxIn.unsigned = vin.map CTxIn.unsigned) : vin'.map look = vin.map look := by
  induction vin' generalizing vin with
  | nil =>
    rw [List.map_nil, eq_comm, List.map_eq_nil_iff] at h
    rw [h]
  | cons txin' vin' ih =>
    cases vin with
    | nil => simp at h
    | cons txin vin =>
      rw [List.map_cons, List.map_cons, List.cons.injEq] at h
      rw [List.map_cons, List.map_cons, hlook _ _ h.1, ih h.2]

/-- Commands work on their parts, where signatures are not looked at or not made. -/
theorem local_step (look : CTxIn Uint256 → V) :
    Parts.Local (fun arg => argPart arg = none → IgnoresSigs look)
      (step tools signTools lineTools) (Session.part look) argPart where
  keeps {arg s s' i} hmay hstep hne := by
    cases hpart : argPart arg with
    | none =>
      obtain ⟨hregisters, hsame⟩ := step_sign hpart hstep
      cases i with
      | version => exact hsame.nVersion
      | locktime => exact hsame.nLockTime
      | inputs => exact map_look (hmay hpart) hsame.vin
      | outputs => exact hsame.vout
      | registers => exact hregisters
      | unknown => rfl
    | some j =>
      obtain ⟨change?, hpart', hchange⟩ : Denotes (step tools signTools lineTools arg) j :=
        denotes_step hpart
      obtain ⟨change, hsome, happly⟩ := (hchange s s').mp hstep
      obtain rfl := hpart' change hsome
      exact Change.apply_keeps happly fun h => hne (hpart.trans (congrArg some h))
  reads {arg s s' t i} hmay hstep hpart heq := by
    obtain ⟨change?, hpart', hchange⟩ : Denotes (step tools signTools lineTools arg) i :=
      denotes_step hpart
    obtain ⟨change, hsome, happly⟩ := (hchange s s').mp hstep
    obtain rfl := hpart' change hsome
    obtain ⟨t', happly', heq'⟩ := Change.apply_reads happly heq
    exact ⟨t', (hchange t t').mpr ⟨change, hsome, happly'⟩, heq'⟩

omit [DecidableEq Uint256] in
theorem session_ext (h : ∀ i, s'.part id i = s.part id i) : s' = s := by
  obtain ⟨⟨nVersion, vin, vout, nLockTime⟩, registers⟩ := s
  obtain ⟨⟨nVersion', vin', vout', nLockTime'⟩, registers'⟩ := s'
  obtain rfl : nVersion' = nVersion := h .version
  have hvin : vin'.map id = vin.map id := h .inputs
  rw [List.map_id, List.map_id] at hvin
  subst hvin
  obtain rfl : vout' = vout := h .outputs
  obtain rfl : nLockTime' = nLockTime := h .locktime
  obtain rfl : registers' = registers := h .registers
  rfl

/-- Two runs without signature commands, and with the same commands of every part. -/
theorem run_reordered {cmds cmds' : List Text} (hsign : ∀ arg ∈ cmds, argPart arg ≠ none)
    (hsign' : ∀ arg ∈ cmds', argPart arg ≠ none)
    (hof : ∀ i, Parts.of argPart i cmds = Parts.of argPart i cmds')
    (h : Parts.run (step tools signTools lineTools) cmds s = .ok s') :
    Parts.run (step tools signTools lineTools) cmds' s = .ok s' := by
  obtain ⟨s'', hrun, hparts⟩ := Parts.run_reorder (local_step id)
    (fun arg hmem hnone => absurd hnone (hsign arg hmem))
    (fun arg hmem hnone => absurd hnone (hsign' arg hmem)) hsign' hof h
  rw [hrun, session_ext hparts]

end Steps

/-- Numbers as transaction ids. -/
def sampleTxTools : TxTools (CTxIn Nat) Nat :=
  { sampleTools with txIn := fun hash n => ⟨⟨hash, n⟩, [], 0xffffffff⟩ }

/-- A signature is a single byte; what is there is kept behind it. -/
def sampleSignTools : SignTools Nat Text (List Text) where
  secret := some
  emptyKeyStore := []
  addKey keys key := key :: keys
  addCScript keys script := script :: keys
  parseHashUV v _ := .ok (digitsValue v.getValStr)
  parseHexUV v _ := .ok v.getValStr
  isPayToScriptHash _ := false
  scriptToAsmStr script := script
  signSignature keys _ _ _ _ := [UInt8.ofNat keys.length]
  combineSignatures _ _ _ sig sig' := sig ++ sig'

/-- JSON texts are a key or the output 0 of a transaction; what is printed is the first script. -/
def sampleLineTools : LineTools Nat where
  read s :=
    if s = ascii "key" then some (.array [.str s])
    else some (.array [.object [(ascii "txid", .str s), (ascii "vout", .num (ascii "0")),
      (ascii "scriptPubKey", .str [0x51])]])
  fopen _ := none
  stdin := ([], false)
  parseMoney s := some (strtoll s)
  scriptForAddress s := some s
  parseScript s := .ok s
  parseHex s := s
  common := .littleEndian
  decodeHexTx s := some ⟨1, [⟨⟨digitsValue s, 0⟩, [], 0⟩], [], 0⟩
  outputTx tx := scriptSigAt tx 0

/-! ## Results -/

/-- **Two command lines that start from the same transaction print the same, and exit with the same
code, if they have the same commands of every part in the same order, in front of the signature
commands.** -/
theorem commandLineRawTx_reorder (fCreateBlank : Bool) (args args' : List Text)
    {tx : Transaction Uint256} {cmds cmds' rest : List Text}
    (hstart : startTx tools lineTools fCreateBlank args = .ok (tx, cmds ++ rest))
    (hstart' : startTx tools lineTools fCreateBlank args' = .ok (tx, cmds' ++ rest))
    (hsign : ∀ arg ∈ cmds, (keyValue arg).1 ≠ ascii "sign")
    (hsign' : ∀ arg ∈ cmds', (keyValue arg).1 ≠ ascii "sign")
    (hof : ∀ i, Parts.of argPart i cmds = Parts.of argPart i cmds') :
    (commandLineRawTx tools signTools lineTools fCreateBlank args).stdout =
        (commandLineRawTx tools signTools lineTools fCreateBlank args').stdout ∧
      (commandLineRawTx tools signTools lineTools fCreateBlank args).nRet =
        (commandLineRawTx tools signTools lineTools fCreateBlank args').nRet := by
  have hkinds : ∀ arg ∈ cmds, argPart arg ≠ none := fun arg hmem hnone =>
    hsign arg hmem (argPart_eq_none.mp hnone)
  have hkinds' : ∀ arg ∈ cmds', argPart arg ≠ none := fun arg hmem hnone =>
    hsign' arg hmem (argPart_eq_none.mp hnone)
  have hsame : ∀ s s', Parts.run (step tools signTools lineTools) (cmds ++ rest) s = .ok s' ↔
      Parts.run (step tools signTools lineTools) (cmds' ++ rest) s = .ok s' := by
    intro s s'
    rw [Parts.run_append, Parts.run_append]
    constructor
    · rintro ⟨s₁, hrun, hrest⟩
      exact ⟨s₁, run_reordered hkinds hkinds' hof hrun, hrest⟩
    · rintro ⟨s₁, hrun, hrest⟩
      exact ⟨s₁, run_reordered hkinds' hkinds (fun i => (hof i).symm) hrun, hrest⟩
  simp only [commandLineRawTx, hstart, hstart', bind, Except.bind]
  have h := hsame ⟨tx, fun _ => none⟩
  cases hrun : Parts.run (step tools signTools lineTools) (cmds ++ rest) ⟨tx, fun _ => none⟩ with
  | ok s => rw [(h s).mp hrun]; exact ⟨rfl, rfl⟩
  | error e =>
    cases hrun' : Parts.run (step tools signTools lineTools) (cmds' ++ rest)
        ⟨tx, fun _ => none⟩ with
    | ok s =>
      have hok := (h s).mpr hrun'
      rw [hrun] at hok
      simp at hok
    | error e' => exact ⟨rfl, rfl⟩

/-- Commands of three parts, in front of a signature command. -/
def sampleArgs : List Text :=
  [ascii "set=privatekeys:key", ascii "outscript=5:ab", ascii "set=prevtxs:7", ascii "locktime=9",
    ascii "outscript=6:cd"]

/-- The same commands, part after part. -/
def sampleArgs' : List Text :=
  [ascii "locktime=9", ascii "outscript=5:ab", ascii "outscript=6:cd",
    ascii "set=privatekeys:key", ascii "set=prevtxs:7"]

theorem commandLineRawTx_reorder_sample :
    (commandLineRawTx sampleTxTools sampleSignTools sampleLineTools false
        (ascii "7" :: sampleArgs ++ [ascii "sign=ALL"])).stdout =
      (commandLineRawTx sampleTxTools sampleSignTools sampleLineTools false
        (ascii "7" :: sampleArgs' ++ [ascii "sign=ALL"])).stdout :=
  have hstart : startTx sampleTxTools sampleLineTools false
      (ascii "7" :: sampleArgs ++ [ascii "sign=ALL"]) =
        .ok (⟨1, [⟨⟨7, 0⟩, [], 0⟩], [], 0⟩, sampleArgs ++ [ascii "sign=ALL"]) := rfl
  have hstart' : startTx sampleTxTools sampleLineTools false
      (ascii "7" :: sampleArgs' ++ [ascii "sign=ALL"]) =
        .ok (⟨1, [⟨⟨7, 0⟩, [], 0⟩], [], 0⟩, sampleArgs' ++ [ascii "sign=ALL"]) := rfl
  (commandLineRawTx_reorder sampleTxTools sampleSignTools sampleLineTools false _ _ hstart hstart'
    (by decide) (by decide) (fun i => by cases i <;> decide +kernel)).1

/-- **Where a command line succeeds, it also does without its signature commands, and the
transactions that are printed differ in nothing but signatures.** -/
theorem commands_without_sign (fCreateBlank : Bool) (args args' : List Text)
    {tx : Transaction Uint256} {cmds : List Text}
    (hstart : startTx tools lineTools fCreateBlank args = .ok (tx, cmds))
    (hstart' : startTx tools lineTools fCreateBlank args' =
      .ok (tx, cmds.filter fun arg => (keyValue arg).1 ≠ ascii "sign"))
    (hok : (commandLineRawTx tools signTools lineTools fCreateBlank args).nRet = 0) :
    ∃ signed unsigned, SameUnsigned signed unsigned ∧
      commandLineRawTx tools signTools lineTools fCreateBlank args =
        ⟨lineTools.outputTx signed, [], 0⟩ ∧
      commandLineRawTx tools signTools lineTools fCreateBlank args' =
        ⟨lineTools.outputTx unsigned, [], 0⟩ := by
  have hfilter : (cmds.filter fun arg => (keyValue arg).1 ≠ ascii "sign") =
      cmds.filter fun arg => argPart arg ≠ none :=
    List.filter_congr fun arg _ => by simp [argPart_eq_none]
  rw [hfilter] at hstart'
  simp only [commandLineRawTx, hstart, hstart', bind, Except.bind] at hok ⊢
  cases hrun : Parts.run (step tools signTools lineTools) cmds ⟨tx, fun _ => none⟩ with
  | error e =>
    rw [hrun] at hok
    simp at hok
  | ok s =>
    obtain ⟨s', hrun', hparts⟩ :=
      Parts.run_erase (local_step CTxIn.unsigned) (fun arg _ _ txin txin' h => h) hrun
    rw [hrun']
    exact ⟨s.tx, s'.tx, ⟨hparts .version, hparts .inputs, hparts .outputs, hparts .locktime⟩,
      rfl, rfl⟩

/-- The signature command in the middle. -/
def sampleSigned : List Text :=
  [ascii "set=privatekeys:key", ascii "set=prevtxs:7", ascii "sign", ascii "outscript=6:cd"]

theorem commands_without_sign_sample : ∃ signed unsigned : Transaction Nat,
    SameUnsigned signed unsigned ∧
      commandLineRawTx sampleTxTools sampleSignTools sampleLineTools false
        (ascii "7" :: sampleSigned) = ⟨sampleLineTools.outputTx signed, [], 0⟩ ∧
      commandLineRawTx sampleTxTools sampleSignTools sampleLineTools false
        (ascii "7" :: sampleSigned.eraseIdx 2) = ⟨sampleLineTools.outputTx unsigned, [], 0⟩ :=
  have hstart : startTx sampleTxTools sampleLineTools false (ascii "7" :: sampleSigned) =
      .ok (⟨1, [⟨⟨7, 0⟩, [], 0⟩], [], 0⟩, sampleSigned) := rfl
  have hfilter : (sampleSigned.filter fun arg => (keyValue arg).1 ≠ ascii "sign") =
      sampleSigned.eraseIdx 2 := by decide +kernel
  have hstart' : startTx sampleTxTools sampleLineTools false
      (ascii "7" :: sampleSigned.eraseIdx 2) = .ok (⟨1, [⟨⟨7, 0⟩, [], 0⟩], [], 0⟩,
        sampleSigned.filter fun arg => (keyValue arg).1 ≠ ascii "sign") := by
    rw [hfilter]
    rfl
  commands_without_sign sampleTxTools sampleSignTools sampleLineTools false _ _ hstart hstart'
    (by decide +kernel)

end ChainX.Tx
