import ChainX.Lib.Decimal

/-!
# Commands with numbers, `Maternodes/SRC/chain-tx.cpp`

`MutateTx` (`chain-tx.cpp:496-533`) with the commands `nversion`, `locktime`, `delin`, `in` and
`delout` (`chain-tx.cpp:165-210, 293-317`). A command returns the transaction with the exception, if
it throws one. `atoi`, `atoi64`, `IsHex`, `uint256S`, the constructor of an input and two constants
are not part of the repository and are a parameter (`TxTools`); of what `atoi` gives beyond 32 bits
nothing is said.

* A number is read by C's functions, which skip white space, take a sign and as many digits as there
  are, and give 0 for none. The checks are of what was read, not of the text.
* An index is compared with the number of inputs or outputs as an `int`; the version and the lock
  time are read as 64 bits first.
* `Guarded` says once what a command with such a check does: it makes the change that C reads, or it
  throws and changes nothing. All five are `Guarded`, and the result is about any that is.

**`rejects_iff`**: a malformed number is rejected when C's reading of it is out of range, and not
otherwise; `malformed_accepted` has texts that are no numbers.
-/

namespace ChainX.Tx

open ChainX.Lib

/-- `struct CMutableTransaction`. -/
structure CMutableTransaction (TxIn TxOut : Type) where
  nVersion : Int32
  vin : List TxIn
  vout : List TxOut
  nLockTime : UInt32
  deriving DecidableEq

/-- What is used of other files. -/
structure TxTools (TxIn Uint256 : Type) where
  CURRENT_VERSION : Int32
  MAX_BLOCK_SIZE : UInt32
  atoi : Text → Int32
  atoi64 : Text → Int64
  isHex : Text → Bool
  uint256S : Text → Uint256
  /-- `CTxIn(txid, vout)`. -/
  txIn : Uint256 → UInt32 → TxIn
  atoi_eq : ∀ s, Int32.minValue.toInt ≤ strtol s → strtol s ≤ Int32.maxValue.toInt →
    (atoi s).toInt = strtol s
  atoi64_eq : ∀ s, atoi64 s = strtoll s

variable {TxIn TxOut Uint256 : Type} (tools : TxTools TxIn Uint256)
  (tx : CMutableTransaction TxIn TxOut)

/-- What a command throws, and the transaction after it. -/
abbrev Outcome (TxIn TxOut : Type) : Type := Except Text Unit × CMutableTransaction TxIn TxOut

/-! ## Functions -/

/-- `MutateTxVersion`: a version that the node knows. -/
def mutateTxVersion (cmdVal : Text) : Outcome TxIn TxOut :=
  let newVersion := tools.atoi64 cmdVal
  if newVersion < 1 ∨ newVersion > tools.CURRENT_VERSION.toInt64 then
    (.error (ascii "Invalid TX version requested"), tx)
  else (.ok (), { tx with nVersion := newVersion.toInt32 })

/-- `MutateTxLocktime`: a lock time of 32 bits. -/
def mutateTxLocktime (cmdVal : Text) : Outcome TxIn TxOut :=
  let newLocktime := tools.atoi64 cmdVal
  if newLocktime < 0 ∨ newLocktime > 0xffffffff then
    (.error (ascii "Invalid TX locktime requested"), tx)
  else (.ok (), { tx with nLockTime := .ofInt newLocktime.toInt })

/-- `MAX_BLOCK_SIZE / minTxOutSz`. -/
def maxVout : UInt32 := tools.MAX_BLOCK_SIZE / 9

/-- `MutateTxAddInput`: `TXID:VOUT`, behind the inputs that are there. -/
def mutateTxAddInput (strInput : Text) : Outcome TxIn TxOut :=
  -- the position of `:`
  match strInput.findIdx? (· == 58) with
  | none => (.error (ascii "TX input missing separator"), tx)
  | some pos =>
    if pos = 0 ∨ pos = strInput.length - 1 then
      (.error (ascii "TX input missing separator"), tx)
    else
      let strTxid := strInput.take pos
      if strTxid.length ≠ 64 ∨ tools.isHex strTxid = false then
        (.error (ascii "invalid TX input txid"), tx)
      else
        let vout := tools.atoi (strInput.drop (pos + 1))
        if vout < 0 ∨ vout > (maxVout tools).toInt32 then
          (.error (ascii "invalid TX input vout"), tx)
        else
          let txin := tools.txIn (tools.uint256S strTxid) vout.toUInt32
          (.ok (), { tx with vin := tx.vin ++ [txin] })

/-- The text of `runtime_error(strErr.c_str())`. -/
def indexError (what strIdx : Text) : Text :=
  (what ++ strIdx ++ ascii "'").takeWhile (· != 0)

/-- `MutateTxDelInput`: the input with the number is removed. -/
def mutateTxDelInput (strInIdx : Text) : Outcome TxIn TxOut :=
  let inIdx := tools.atoi strInIdx
  if inIdx < 0 ∨ inIdx ≥ .ofNat tx.vin.length then
    (.error (indexError (ascii "Invalid TX input index '") strInIdx), tx)
  else (.ok (), { tx with vin := tx.vin.eraseIdx inIdx.toInt.toNat })

/-- `MutateTxDelOutput`: the output with the number is removed. -/
def mutateTxDelOutput (strOutIdx : Text) : Outcome TxIn TxOut :=
  let outIdx := tools.atoi strOutIdx
  if outIdx < 0 ∨ outIdx ≥ .ofNat tx.vout.length then
    (.error (indexError (ascii "Invalid TX output index '") strOutIdx), tx)
  else (.ok (), { tx with vout := tx.vout.eraseIdx outIdx.toInt.toNat })

/-- `MutateTx`, with what the other commands do. -/
def mutateTx (others : Text → Text → Outcome TxIn TxOut) (command commandVal : Text) :
    Outcome TxIn TxOut :=
  if command = ascii "nversion" then mutateTxVersion tools tx commandVal
  else if command = ascii "locktime" then mutateTxLocktime tools tx commandVal
  else if command = ascii "delin" then mutateTxDelInput tools tx commandVal
  else if command = ascii "in" then mutateTxAddInput tools tx commandVal
  else if command = ascii "delout" then mutateTxDelOutput tools tx commandVal
  else others command commandVal

/-! ## What is asked for -/

/-- The commands with numbers. -/
inductive NumberCommand where
  | version
  | locktime
  | delInput
  | addInput
  | delOutput
  deriving DecidableEq

/-- The command, as it is written. -/
def NumberCommand.text : NumberCommand → Text
  | version => ascii "nversion"
  | locktime => ascii "locktime"
  | delInput => ascii "delin"
  | addInput => ascii "in"
  | delOutput => ascii "delout"

/-- What stands before the first `:`. -/
def strTxid (strInput : Text) : Text := strInput.takeWhile (· != 58)

/-- What stands behind it. -/
def strVout (strInput : Text) : Text := (strInput.dropWhile (· != 58)).drop 1

/-- The number in an argument that is otherwise right. -/
def numberText (command : NumberCommand) (s : Text) : Option Text :=
  match command with
  | .addInput =>
    if (strTxid s).length = 64 ∧ tools.isHex (strTxid s) = true ∧ strVout s ≠ [] then
      some (strVout s)
    else none
  | .version | .locktime | .delInput | .delOutput => some s

/-- The accepted numbers. Sizes are compared as an `int`. -/
def Accepted (command : NumberCommand) (n : Int) : Prop :=
  match command with
  | .version => 1 ≤ n ∧ n ≤ tools.CURRENT_VERSION.toInt
  | .locktime => 0 ≤ n ∧ n ≤ 0xffffffff
  | .delInput => 0 ≤ n ∧ n < (Int32.ofNat tx.vin.length).toInt
  | .addInput => 0 ≤ n ∧ n ≤ (maxVout tools).toNat
  | .delOutput => 0 ≤ n ∧ n < (Int32.ofNat tx.vout.length).toInt

/-- The change that a number names, and nothing else. -/
def Changed (command : NumberCommand) (s : Text) (n : Int) (tx' : CMutableTransaction TxIn TxOut) :
    Prop :=
  match command with
  | .version => ∃ nVersion : Int32, nVersion.toInt = n ∧ tx' = { tx with nVersion }
  | .locktime => ∃ nLockTime : UInt32, (nLockTime.toNat : Int) = n ∧ tx' = { tx with nLockTime }
  | .delInput => tx' = { tx with vin := tx.vin.eraseIdx n.toNat }
  | .addInput => ∃ vout : UInt32, (vout.toNat : Int) = n ∧
      tx' = { tx with vin := tx.vin ++ [tools.txIn (tools.uint256S (strTxid s)) vout] }
  | .delOutput => tx' = { tx with vout := tx.vout.eraseIdx n.toNat }

/-- The argument holds the decimal numeral of an accepted number, which names this change. -/
def Names (command : NumberCommand) (s : Text) (tx' : CMutableTransaction TxIn TxOut) : Prop :=
  ∃ text, numberText tools command s = some text ∧ IsNumeral text ∧
    Accepted tools tx command (digitsValue text) ∧
    Changed tools tx command s (digitsValue text) tx'

/-- The command makes the change that its argument names, and throws if there is none. -/
def RejectsMalformed (others : Text → Text → Outcome TxIn TxOut) (command : NumberCommand)
    (s : Text) : Prop :=
  (∀ tx', Names tools tx command s tx' →
      mutateTx tools tx others command.text s = (.ok (), tx')) ∧
    ((∀ tx', ¬ Names tools tx command s tx') →
      ∃ strErr, mutateTx tools tx others command.text s = (.error strErr, tx))

/-- What C reads of the number. -/
def reading (command : NumberCommand) (text : Text) : Int :=
  match command with
  | .version | .locktime => (tools.atoi64 text).toInt
  | .delInput | .addInput | .delOutput => (tools.atoi text).toInt

/-- What C reads is an accepted number, and this is its change. -/
def Reads (command : NumberCommand) (s : Text) (tx' : CMutableTransaction TxIn TxOut) : Prop :=
  ∃ text, numberText tools command s = some text ∧
    Accepted tools tx command (reading tools command text) ∧
    Changed tools tx command s (reading tools command text) tx'

/-- The command makes the change that C reads, or it throws and changes nothing. -/
def Guarded (command : NumberCommand) (s : Text) (outcome : Outcome TxIn TxOut) : Prop :=
  (∃ tx', Reads tools tx command s tx' ∧ outcome = (.ok (), tx')) ∨
    (∀ text, numberText tools command s = some text →
      ¬ Accepted tools tx command (reading tools command text)) ∧
    ∃ strErr, outcome = (.error strErr, tx)

section Commands

variable {tools tx}

theorem reading_numeral {command : NumberCommand} {text : Text} (hnumeral : IsNumeral text)
    (haccepted : Accepted tools tx command (digitsValue text)) :
    reading tools command text = digitsValue text := by
  have hvalue := strtol_numeral hnumeral
  have hlonglong : (digitsValue text : Int) < 2 ^ 63 →
      (tools.atoi64 text).toInt = digitsValue text := fun hlt => by
    have hmin : Int64.minValue.toInt = -2 ^ 63 := by decide
    have hmax : Int64.maxValue.toInt = 2 ^ 63 - 1 := by decide
    rw [tools.atoi64_eq, toInt_strtoll, hvalue]
    omega
  have hint : (digitsValue text : Int) < 2 ^ 31 →
      (tools.atoi text).toInt = digitsValue text := fun hlt => by
    have hmin : Int32.minValue.toInt = -2 ^ 31 := by decide
    have hmax : Int32.maxValue.toInt = 2 ^ 31 - 1 := by decide
    rw [tools.atoi_eq text (by omega) (by omega), hvalue]
  cases command with
  | version =>
    have := Int32.toInt_lt tools.CURRENT_VERSION
    exact hlonglong (by have := haccepted.2; omega)
  | locktime => exact hlonglong (by have := haccepted.2; omega)
  | delInput =>
    have := Int32.toInt_lt (.ofNat tx.vin.length)
    exact hint (by have := haccepted.2; omega)
  | addInput =>
    have hmax : (maxVout tools).toNat = tools.MAX_BLOCK_SIZE.toNat / 9 := UInt32.toNat_div _ _
    have := UInt32.toNat_lt tools.MAX_BLOCK_SIZE
    exact hint (by have := haccepted.2; omega)
  | delOutput =>
    have := Int32.toInt_lt (.ofNat tx.vout.length)
    exact hint (by have := haccepted.2; omega)

theorem Changed.unique {command : NumberCommand} {s : Text} {n : Int}
    {tx₁ tx₂ : CMutableTransaction TxIn TxOut} (h₁ : Changed tools tx command s n tx₁)
    (h₂ : Changed tools tx command s n tx₂) : tx₁ = tx₂ := by
  cases command with
  | version =>
    obtain ⟨v₁, hv₁, rfl⟩ := h₁
    obtain ⟨v₂, hv₂, rfl⟩ := h₂
    rw [Int32.toInt_inj.mp (hv₁.trans hv₂.symm)]
  | locktime =>
    obtain ⟨v₁, hv₁, rfl⟩ := h₁
    obtain ⟨v₂, hv₂, rfl⟩ := h₂
    rw [UInt32.toNat_inj.mp (Int.ofNat_inj.mp (hv₁.trans hv₂.symm))]
  | delInput => exact h₁.trans h₂.symm
  | addInput =>
    obtain ⟨v₁, hv₁, rfl⟩ := h₁
    obtain ⟨v₂, hv₂, rfl⟩ := h₂
    rw [UInt32.toNat_inj.mp (Int.ofNat_inj.mp (hv₁.trans hv₂.symm))]
  | delOutput => exact h₁.trans h₂.symm

/-! ## What the commands do -/

/-- A check of what C reads, before the change. -/
theorem guarded_check {command : NumberCommand} {s text strErr : Text}
    {tx' : CMutableTransaction TxIn TxOut} (htext : numberText tools command s = some text)
    {bad : Prop} [Decidable bad]
    (hbad : bad ↔ ¬ Accepted tools tx command (reading tools command text))
    (hchanged : Accepted tools tx command (reading tools command text) →
      Changed tools tx command s (reading tools command text) tx') :
    Guarded tools tx command s (if bad then (.error strErr, tx) else (.ok (), tx')) := by
  split
  · rename_i hb
    refine .inr ⟨fun text' htext' => ?_, strErr, rfl⟩
    rw [htext] at htext'
    exact Option.some.inj htext' ▸ hbad.mp hb
  · rename_i hb
    have haccepted := not_not.mp (mt hbad.mpr hb)
    exact .inl ⟨tx', ⟨text, htext, haccepted, hchanged haccepted⟩, rfl⟩

theorem guarded_version (s : Text) :
    Guarded tools tx .version s (mutateTxVersion tools tx s) := by
  refine guarded_check rfl ?_ fun h => ?_
  · simp only [Accepted, reading, Int64.lt_iff_toInt_lt, gt_iff_lt, Int32.toInt_toInt64]
    have hone : (1 : Int64).toInt = 1 := by decide
    omega
  · have := Int32.toInt_lt tools.CURRENT_VERSION
    refine ⟨(tools.atoi64 s).toInt32, ?_, rfl⟩
    simp only [Accepted, reading] at h ⊢
    rw [Int64.toInt_toInt32]
    exact Int.bmod_eq_of_le (by omega) (by omega)

theorem guarded_locktime (s : Text) :
    Guarded tools tx .locktime s (mutateTxLocktime tools tx s) := by
  refine guarded_check rfl ?_ fun h => ?_
  · simp only [Accepted, reading, Int64.lt_iff_toInt_lt, gt_iff_lt]
    have hzero : (0 : Int64).toInt = 0 := by decide
    have hmax : (0xffffffff : Int64).toInt = 0xffffffff := by decide
    omega
  · refine ⟨.ofInt (tools.atoi64 s).toInt, ?_, rfl⟩
    simp only [Accepted, reading] at h ⊢
    rw [UInt32.ofInt, UInt32.toNat_ofNat']
    omega

/-- The check of an index that is compared as an `int`. -/
theorem bad_index_iff (idx size : Int32) :
    idx < 0 ∨ idx ≥ size ↔ ¬ (0 ≤ idx.toInt ∧ idx.toInt < size.toInt) := by
  have hzero : (0 : Int32).toInt = 0 := by decide
  rw [Int32.lt_iff_toInt_lt, ge_iff_le, Int32.le_iff_toInt_le, hzero]
  omega

theorem guarded_delInput (s : Text) :
    Guarded tools tx .delInput s (mutateTxDelInput tools tx s) :=
  guarded_check rfl (bad_index_iff _ _) fun _ => rfl

theorem guarded_delOutput (s : Text) :
    Guarded tools tx .delOutput s (mutateTxDelOutput tools tx s) :=
  guarded_check rfl (bad_index_iff _ _) fun _ => rfl

/-- The position of the `:` splits the argument. -/
theorem colon (s : Text) : (s.findIdx? (· == 58) = none ∧ strVout s = []) ∨
    ∃ pos, s.findIdx? (· == 58) = some pos ∧ s.take pos = strTxid s ∧
      s.drop (pos + 1) = strVout s ∧ (strTxid s).length = pos ∧
      (pos = s.length - 1 ↔ strVout s = []) := by
  have htake : strTxid s = s.take (s.findIdx (· == 58)) := by
    rw [strTxid, List.takeWhile_eq_take_findIdx_not]
    simp only [bne, Bool.not_not]
  have hdrop : strVout s = s.drop (s.findIdx (· == 58) + 1) := by
    rw [strVout, List.dropWhile_eq_drop_findIdx_not, List.drop_drop]
    simp only [bne, Bool.not_not]
  rw [List.findIdx?_eq_guard_findIdx_lt]
  by_cases hlt : s.findIdx (· == 58) < s.length
  · refine .inr ⟨s.findIdx (· == 58), by simp [hlt], htake.symm, hdrop.symm, ?_, ?_⟩
    · rw [htake, List.length_take]
      omega
    · rw [hdrop, List.drop_eq_nil_iff]
      omega
  · refine .inl ⟨by simp [hlt], ?_⟩
    rw [hdrop, List.drop_eq_nil_iff]
    omega

theorem toInt_maxVout : (maxVout tools).toInt32.toInt = (maxVout tools).toNat := by
  have hmax : (maxVout tools).toNat = tools.MAX_BLOCK_SIZE.toNat / 9 := UInt32.toNat_div _ _
  have := UInt32.toNat_lt tools.MAX_BLOCK_SIZE
  have hmod : (maxVout tools).toInt32.toInt = ((maxVout tools).toNat : Int).bmod (2 ^ 32) :=
    BitVec.toInt_eq_toNat_bmod _
  rw [hmod]
  exact Int.bmod_eq_of_le (by omega) (by omega)

theorem guarded_addInput (s : Text) :
    Guarded tools tx .addInput s (mutateTxAddInput tools tx s) := by
  -- an argument that is wrong otherwise has no number
  have hwrong : ¬ ((strTxid s).length = 64 ∧ tools.isHex (strTxid s) = true ∧ strVout s ≠ []) →
      ∀ strErr, Guarded tools tx .addInput s (.error strErr, tx) := fun h strErr =>
    .inr ⟨fun text htext => absurd htext (by rw [numberText, if_neg h]; simp), strErr, rfl⟩
  unfold mutateTxAddInput
  rcases colon s with ⟨hnone, hvout⟩ | ⟨pos, hpos, htake, hdrop, hlength, hlast⟩
  · rw [hnone]
    exact hwrong (fun h => h.2.2 hvout) _
  · rw [hpos]
    simp only [htake, hdrop]
    split
    · rename_i hends
      refine hwrong (fun h => ?_) _
      rcases hends with hzero | hend
      · have := h.1
        omega
      · exact h.2.2 (hlast.mp hend)
    · rename_i hends
      split
      · rename_i htxid
        refine hwrong (fun h => ?_) _
        rcases htxid with hsize | hhex
        · exact hsize h.1
        · rw [h.2.1] at hhex
          exact Bool.noConfusion hhex
      · rename_i htxid
        rw [not_or, not_not, Bool.not_eq_false] at htxid
        have hvout : strVout s ≠ [] := fun h => hends (.inr (hlast.mpr h))
        have htext : numberText tools .addInput s = some (strVout s) :=
          if_pos ⟨htxid.1, htxid.2, hvout⟩
        refine guarded_check htext ?_ fun h => ?_
        · simp only [Accepted, reading, Int32.lt_iff_toInt_lt, gt_iff_lt, toInt_maxVout]
          have hzero : (0 : Int32).toInt = 0 := by decide
          omega
        · refine ⟨(tools.atoi (strVout s)).toUInt32, ?_, rfl⟩
          have hnonneg : 0 ≤ tools.atoi (strVout s) := Int32.le_iff_toInt_le.mpr h.1
          rw [Int32.toNat_toUInt32_of_le hnonneg]
          exact Int.toNat_of_nonneg h.1

theorem guarded_mutateTx (others : Text → Text → Outcome TxIn TxOut) (command : NumberCommand)
    (s : Text) : Guarded tools tx command s (mutateTx tools tx others command.text s) := by
  cases command with
  | version => exact guarded_version s
  | locktime => exact guarded_locktime s
  | delInput => exact guarded_delInput s
  | addInput => exact guarded_addInput s
  | delOutput => exact guarded_delOutput s

/-- A command that makes a change for a text that is no numeral. -/
theorem not_rejects {others : Text → Text → Outcome TxIn TxOut} {command : NumberCommand} {s : Text}
    {tx' : CMutableTransaction TxIn TxOut}
    (hrun : mutateTx tools tx others command.text s = (.ok (), tx'))
    (hnumeral : ∀ text, numberText tools command s = some text → ¬ IsNumeral text) :
    ¬ RejectsMalformed tools tx others command s := fun ⟨_, herror⟩ => by
  obtain ⟨strErr, herr⟩ := herror fun _ ⟨text, htext, hnum, _⟩ => hnumeral text htext hnum
  rw [hrun] at herr
  simp at herr

end Commands

/-! ## Results -/

/-- **A command rejects malformed numbers if and only if what C reads is not accepted, or the text
is the decimal numeral of what C reads.** -/
theorem rejects_iff (others : Text → Text → Outcome TxIn TxOut) (command : NumberCommand)
    (s : Text) : RejectsMalformed tools tx others command s ↔
      ∀ text, numberText tools command s = some text →
        Accepted tools tx command (reading tools command text) →
        IsNumeral text ∧ (digitsValue text : Int) = reading tools command text := by
  have hguarded : Guarded tools tx command s (mutateTx tools tx others command.text s) :=
    guarded_mutateTx others command s
  constructor
  · rintro ⟨-, herror⟩ text htext haccepted
    rcases hguarded with ⟨tx', -, hrun⟩ | ⟨hnone, -⟩
    · have hnames : ∃ tx', Names tools tx command s tx' := by
        by_contra hnone
        obtain ⟨strErr, herr⟩ := herror (not_exists.mp hnone)
        rw [hrun] at herr
        simp at herr
      obtain ⟨-, text', htext', hnumeral, hvalue, -⟩ := hnames
      obtain rfl := Option.some.inj (htext.symm.trans htext')
      exact ⟨hnumeral, (reading_numeral hnumeral hvalue).symm⟩
    · exact absurd haccepted (hnone text htext)
  · intro hcond
    refine ⟨fun tx' ⟨text, htext, hnumeral, hvalue, hchanged⟩ => ?_, fun hnone => ?_⟩
    · have hreading := reading_numeral hnumeral hvalue
      rcases hguarded with ⟨tx'', ⟨text', htext', -, hchanged'⟩, hrun⟩ | ⟨hnone, -⟩
      · obtain rfl := Option.some.inj (htext.symm.trans htext')
        rw [hreading] at hchanged'
        rw [hrun, hchanged'.unique hchanged]
      · exact absurd (hreading ▸ hvalue) (hnone text htext)
    · rcases hguarded with ⟨tx', ⟨text, htext, haccepted, hchanged⟩, -⟩ | ⟨-, herr⟩
      · obtain ⟨hnumeral, hvalue⟩ := hcond text htext haccepted
        rw [← hvalue] at haccepted hchanged
        exact absurd ⟨text, htext, hnumeral, haccepted, hchanged⟩ (hnone tx')
      · exact herr

/-- Conversions that wrap, for transactions with numbers as outputs. -/
def sampleTools : TxTools (Nat × UInt32) Nat where
  CURRENT_VERSION := 2
  MAX_BLOCK_SIZE := 1000000
  atoi s := .ofInt (strtoll s).toInt
  atoi64 := strtoll
  isHex s := s ≠ [] ∧ s.length % 2 = 0 ∧ s.all fun b => isDigit b || (97 ≤ b && b ≤ 102)
  uint256S s := s.foldl (fun n b => 16 * n + if b < 97 then b.toNat - 48 else b.toNat - 87) 0
  txIn hash n := (hash, n)
  atoi_eq s hmin hmax := by
    have hlow : Int64.minValue.toInt = -2 ^ 63 := by decide
    have hhigh : Int64.maxValue.toInt = 2 ^ 63 - 1 := by decide
    have hlow' : Int32.minValue.toInt = -2 ^ 31 := by decide
    have hhigh' : Int32.maxValue.toInt = 2 ^ 31 - 1 := by decide
    rw [toInt_strtoll, Int32.toInt_ofInt_of_le] <;> omega
  atoi64_eq _ := rfl

/-- Two inputs and an output. -/
def sampleTx : CMutableTransaction (Nat × UInt32) Nat := ⟨1, [(7, 0), (8, 1)], [100], 500⟩

/-- What `mutateTx` makes of a sample command. -/
def sampleRun (command : NumberCommand) (s : String) : Outcome (Nat × UInt32) Nat :=
  mutateTx sampleTools sampleTx (fun _ _ => (.error [], sampleTx)) command.text (ascii s)

/-- Texts that are no numbers are read as 0 and as what they start with. -/
theorem malformed_accepted :
    sampleRun .delInput "last" = (.ok (), { sampleTx with vin := [(8, 1)] }) ∧
      sampleRun .delOutput "" = (.ok (), { sampleTx with vout := [] }) ∧
      sampleRun .locktime "noon" = (.ok (), { sampleTx with nLockTime := 0 }) ∧
      sampleRun .version " +2nd" = (.ok (), { sampleTx with nVersion := 2 }) ∧
      ¬ RejectsMalformed sampleTools sampleTx (fun _ _ => (.error [], sampleTx)) .delInput
        (ascii "last") := by
  have hrun : sampleRun .delInput "last" = (.ok (), { sampleTx with vin := [(8, 1)] }) := by rfl
  refine ⟨hrun, by rfl, by rfl, by rfl, not_rejects hrun fun text htext => ?_⟩
  obtain rfl := Option.some.inj htext
  decide

end ChainX.Tx
