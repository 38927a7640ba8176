import ChainX.Rpc.Headers

/-!
# The state of the chain, `Maternodes/ChainX-MN/rpcclient.cpp`

`SoftForkMajorityDesc` (`rpcclient.cpp:696-713`), `SoftForkDesc` (`rpcclient.cpp:715-723`),
`BIP9SoftForkDesc` (`rpcclient.cpp:725-737`) and `getblockchaininfo` (`rpcclient.cpp:739-815`). The
name of the network, `GuessVerificationProgress` and `GetMedianTimePast` of the tip are left out.
The state of a deployment is one of the five that the `switch` has.

* The chain is that of `Headers`. The counts are `int`s, and `signalling_le` rules out that they
  wrap.
* The loop for the pruned height goes down from the tip and looks at the block below each time: it
  never asks whether the tip itself has data (`PrunedAt.kept`).
* The descriptions of the three majority forks come from the same window, so that one is about a
  part of the blocks of another (`Counted.status_anti`).

**`getblockchaininfo_spec`**: the counts are those of the blocks in the window below the tip, no
fork has a threshold before an older one, and the pruned height is that of the lowest block down to
which the blocks below the tip have data.
-/

namespace ChainX.Rpc

open ChainX.Lib

variable {Pointer Hash Difficulty : Type} {m : BlockMap Pointer Hash Difficulty}

/-! ## Data types -/

/-- The answer of `SoftForkMajorityDesc`. -/
structure MajorityDesc where
  status : Bool
  found : Int32
  required : Int32
  window : Int32

/-- The answer of `SoftForkDesc`. -/
structure ForkDesc where
  id : Text
  version : Int32
  enforce : MajorityDesc
  reject : MajorityDesc

/-- What is read of `Consensus::Params`. -/
structure ConsensusParams where
  nMajorityWindow : Int32
  nMajorityEnforceBlockUpgrade : Int32
  nMajorityRejectBlockOutdated : Int32

/-- The states of a deployment. -/
inductive ThresholdState where
  | THRESHOLD_DEFINED
  | THRESHOLD_STARTED
  | THRESHOLD_LOCKED_IN
  | THRESHOLD_ACTIVE
  | THRESHOLD_FAILED

/-- The answer of `getblockchaininfo`. -/
structure BlockChainInfo (Hash Difficulty : Type) where
  blocks : Int32
  headers : Int32
  bestblockhash : Hash
  difficulty : Difficulty
  chainwork : Nat
  pruned : Bool
  softforks : List ForkDesc
  bip9_softforks : List (Text × Text)
  pruneheight : Option Int32

/-! ## Functions -/

section Functions

variable (chainActive : Chain m) (consensusParams : ConsensusParams)

/-- The loop over the window, for so many rounds at most. -/
def majorityLoop (minVersion : Int32) : Nat → Option Pointer → Int32 → Int32
  | 0, _, nFound => nFound
  | _ + 1, none, nFound => nFound
  | rounds + 1, some pstart, nFound =>
    majorityLoop minVersion rounds (m.block pstart).pprev
      (if (chainActive.fields pstart).nVersion ≥ minVersion then nFound + 1 else nFound)

/-- `SoftForkMajorityDesc`: how many of the last blocks have at least the version. -/
def softForkMajorityDesc (minVersion : Int32) (pindex : Pointer) (nRequired : Int32) :
    MajorityDesc :=
  let nFound := majorityLoop chainActive minVersion consensusParams.nMajorityWindow.toInt.toNat
    (some pindex) 0
  { status := nFound ≥ nRequired
    found := nFound
    required := nRequired
    window := consensusParams.nMajorityWindow }

/-- `SoftForkDesc`: the counts for enforcing and for rejecting. -/
def softForkDesc (name : Text) (version : Int32) (pindex : Pointer) : ForkDesc where
  id := name
  version := version
  enforce := softForkMajorityDesc chainActive consensusParams version pindex
    consensusParams.nMajorityEnforceBlockUpgrade
  reject := softForkMajorityDesc chainActive consensusParams version pindex
    consensusParams.nMajorityRejectBlockOutdated

/-- `BIP9SoftForkDesc`: the text for the state. -/
def bip9SoftForkDesc (name : Text) : ThresholdState → Text × Text
  | .THRESHOLD_DEFINED => (name, ascii "defined")
  | .THRESHOLD_STARTED => (name, ascii "started")
  | .THRESHOLD_LOCKED_IN => (name, ascii "locked_in")
  | .THRESHOLD_ACTIVE => (name, ascii "active")
  | .THRESHOLD_FAILED => (name, ascii "failed")

/-- The loop of `pruneheight`, for so many rounds at most. `haveData` is
`nStatus & BLOCK_HAVE_DATA`. -/
def pruneLoop (m : BlockMap Pointer Hash Difficulty) (haveData : Pointer → Bool) :
    Nat → Pointer → Pointer
  | 0, block => block
  | rounds + 1, block =>
    match (m.block block).pprev with
    | none => block
    | some p => if haveData p = true then pruneLoop m haveData rounds p else block

/-- `getblockchaininfo`: where the chain ends, how far it is verified, and what is pruned. -/
def getblockchaininfo (haveData : Pointer → Bool) (pindexBestHeader : Option Pointer)
    (csvState : ThresholdState) (fPruneMode fHelp : Bool) :
    Except RpcError (BlockChainInfo Hash Difficulty) :=
  if fHelp = true then .error .help
  else
    let tip := chainActive.tip
    .ok
      { blocks := chainActive.height
        headers := pindexBestHeader.elim (-1) m.nHeight
        bestblockhash := (m.block tip).phashBlock
        difficulty := (m.block tip).difficulty
        chainwork := (m.block tip).nChainWork
        pruned := fPruneMode
        softforks := [softForkDesc chainActive consensusParams (ascii "bip34") 2 tip,
          softForkDesc chainActive consensusParams (ascii "bip66") 3 tip,
          softForkDesc chainActive consensusParams (ascii "bip65") 4 tip]
        bip9_softforks := [bip9SoftForkDesc (ascii "csv") csvState]
        -- every round of the loop goes one block down
        pruneheight :=
          if fPruneMode = true then
            some (m.nHeight (pruneLoop m haveData chainActive.height.toInt.toNat tip))
          else none }

end Functions

/-! ## The loops -/

/-- The active chain has a block at this depth below the tip, of this version or a later one. -/
def Signals (chainActive : Chain m) (minVersion : Int32) (depth : Nat) : Bool :=
  decide ((depth : Int) ≤ chainActive.height.toInt) &&
    match chainActive.blockAt (.ofInt (chainActive.height.toInt - depth)) with
    | some b => decide ((chainActive.fields b).nVersion ≥ minVersion)
    | none => false

section Loops

variable {chainActive : Chain m} {b : Pointer}

theorem signals_active (minVersion : Int32) {depth : Nat} (hb : m.Ancestor b chainActive.tip)
    (hheight : (m.nHeight b).toInt = chainActive.height.toInt - depth) :
    Signals chainActive minVersion depth =
      decide ((chainActive.fields b).nVersion ≥ minVersion) := by
  have hat : chainActive.blockAt (.ofInt (chainActive.height.toInt - depth)) = some b :=
    (chainActive.blockAt_iff _ b).mpr ⟨hb, by rw [← hheight, Int32.ofInt_toInt]⟩
  have hpos := BlockMap.nHeight_nonneg (mem_of_active hb)
  rw [Signals, hat, decide_eq_true (by omega), Bool.true_and]

/-- Below the first block none is counted. -/
theorem countP_below (chainActive : Chain m) (minVersion : Int32) {depth : Nat} (rounds : Nat)
    (hdepth : chainActive.height.toInt < depth) :
    (List.range' depth rounds).countP (Signals chainActive minVersion) = 0 := by
  rw [List.countP_eq_zero]
  intro i hi
  have hle := (List.mem_range'_1.mp hi).1
  rw [Signals, decide_eq_false (by omega), Bool.false_and]
  exact Bool.false_ne_true

variable (chainActive) in
/-- The blocks from a depth on are counted. -/
theorem majorityLoop_eq (minVersion : Int32) (rounds depth : Nat) (nFound : Int32)
    (hb : m.Ancestor b chainActive.tip)
    (hheight : (m.nHeight b).toInt = chainActive.height.toInt - depth) :
    majorityLoop chainActive minVersion rounds (some b) nFound =
      nFound + .ofNat ((List.range' depth rounds).countP (Signals chainActive minVersion)) := by
  induction rounds generalizing b depth nFound with
  | zero => simp [majorityLoop]
  | succ rounds ih =>
    have hsignals := signals_active minVersion hb hheight
    have hfound : (if (chainActive.fields b).nVersion ≥ minVersion then nFound + 1 else nFound) +
          .ofNat ((List.range' (depth + 1) rounds).countP (Signals chainActive minVersion)) =
        nFound + .ofNat ((List.range' depth (rounds + 1)).countP
          (Signals chainActive minVersion)) := by
      rw [List.range'_succ, List.countP_cons, hsignals]
      split
      · rename_i hversion
        rw [if_pos (decide_eq_true hversion), Int32.ofNat_add]
        grind
      · rename_i hversion
        rw [if_neg (by simpa using hversion)]
        rfl
    rw [majorityLoop]
    cases hpprev : (m.block b).pprev with
    | none =>
      -- the first block, below which nothing is counted
      have hzero : (m.nHeight b).toInt = 0 := by
        rw [(m.pprev_eq_none b (mem_of_active hb)).mp hpprev, BlockMap.nHeight, m.nHeight_genesis]
        rfl
      rw [countP_below chainActive minVersion rounds (by omega)] at hfound
      rw [← hfound]
      cases rounds <;> simp [majorityLoop]
    | some p =>
      have hparent : (m.nHeight b).toInt = (m.nHeight p).toInt + 1 :=
        m.nHeight_pprev b (mem_of_active hb) p hpprev
      rw [ih (depth + 1) _ (hb.tail hpprev) (by push_cast; omega), hfound]

/-- A block above another one is not below it. -/
theorem ancestor_antisymm {d : Pointer} (hb : b ∈ m.mapBlockIndex) (h : m.Ancestor d b)
    (h' : m.Ancestor b d) : d = b := by
  rcases Relation.ReflTransGen.cases_head h with heq | ⟨p, hpprev, hchain⟩
  · exact heq.symm
  · have hp := m.pprev_mem b hb p hpprev
    have hle := BlockMap.Ancestor.nHeight_le hp hchain
    have hle' := BlockMap.Ancestor.nHeight_le (BlockMap.Ancestor.mem hb h) h'
    obtain hparent : (m.nHeight b).toInt = (m.nHeight p).toInt + 1 := m.nHeight_pprev b hb p hpprev
    omega

/-- A block is the lowest one down to which the blocks below another one have data. -/
structure PrunedAt (m : BlockMap Pointer Hash Difficulty) (haveData : Pointer → Bool)
    (b c : Pointer) : Prop where
  ancestor : m.Ancestor c b
  stops : ∀ p, (m.block c).pprev = some p → haveData p = false
  kept : ∀ d, m.Ancestor c d → m.Ancestor d b → d ≠ b → haveData d = true

theorem PrunedAt.self {haveData : Pointer → Bool} (hb : b ∈ m.mapBlockIndex)
    (hstop : ∀ p, (m.block b).pprev = some p → haveData p = false) : PrunedAt m haveData b b where
  ancestor := .refl
  stops := hstop
  kept _ hlow hhigh hne := absurd (ancestor_antisymm hb hhigh hlow) hne

theorem PrunedAt.child {haveData : Pointer → Bool} {p c : Pointer}
    (hpprev : (m.block b).pprev = some p) (hdata : haveData p = true)
    (h : PrunedAt m haveData p c) : PrunedAt m haveData b c where
  ancestor := h.ancestor.head hpprev
  stops := h.stops
  kept d hlow hhigh hne := by
    rcases Relation.ReflTransGen.cases_head hhigh with heq | ⟨q, hq, hchain⟩
    · exact absurd heq.symm hne
    · obtain rfl : p = q := Option.some.inj (hpprev.symm.trans hq)
      by_cases hd : d = p
      · exact hd ▸ hdata
      · exact h.kept d hlow hchain hd

/-- Where the loop stops, after as many rounds as there are blocks below. -/
theorem pruneLoop_spec (haveData : Pointer → Bool) (rounds : Nat) (hb : b ∈ m.mapBlockIndex)
    (hrounds : (m.nHeight b).toInt ≤ rounds) :
    PrunedAt m haveData b (pruneLoop m haveData rounds b) := by
  induction rounds generalizing b with
  | zero =>
    refine .self hb fun p hpprev => ?_
    obtain hparent : (m.nHeight b).toInt = (m.nHeight p).toInt + 1 := m.nHeight_pprev b hb p hpprev
    have := BlockMap.nHeight_nonneg (m.pprev_mem b hb p hpprev)
    omega
  | succ rounds ih =>
    rw [pruneLoop]
    cases hpprev : (m.block b).pprev with
    | none =>
      refine .self hb fun p hp => ?_
      rw [hpprev] at hp
      simp at hp
    | some p =>
      obtain hparent : (m.nHeight b).toInt = (m.nHeight p).toInt + 1 :=
        m.nHeight_pprev b hb p hpprev
      cases hdata : haveData p with
      | true =>
        simp only [hdata, if_true]
        exact .child hpprev hdata (ih (m.pprev_mem b hb p hpprev) (by push_cast at hrounds; omega))
      | false =>
        simp only [hdata, Bool.false_eq_true, if_false]
        refine .self hb fun q hq => ?_
        obtain rfl : p = q := Option.some.inj (hpprev.symm.trans hq)
        exact hdata

end Loops

/-! ## Result -/

/-- The blocks in the window that have this version or a later one. -/
def signalling (chainActive : Chain m) (nMajorityWindow minVersion : Int32) : Nat :=
  (List.range' 0 nMajorityWindow.toInt.toNat).countP (Signals chainActive minVersion)

/-- A count is not above the window. -/
theorem signalling_le (chainActive : Chain m) (nMajorityWindow minVersion : Int32) :
    signalling chainActive nMajorityWindow minVersion ≤ nMajorityWindow.toInt.toNat :=
  (List.countP_le_length ..).trans_eq List.length_range'

/-- A later version is that of no more blocks. -/
theorem signalling_anti (chainActive : Chain m) (nMajorityWindow : Int32) {v w : Int32}
    (h : v ≤ w) : signalling chainActive nMajorityWindow w ≤
      signalling chainActive nMajorityWindow v := by
  refine List.countP_mono_left fun depth _ hw => ?_
  rw [Signals, Bool.and_eq_true] at hw ⊢
  refine ⟨hw.1, ?_⟩
  have hversion := hw.2
  split at hversion
  · rename_i b _
    simp only [decide_eq_true_eq, ge_iff_le] at hversion ⊢
    exact Int32.le_trans h hversion
  · simp at hversion

/-- The counts do not wrap, as the window is an `int`. -/
theorem softForkMajorityDesc_found (chainActive : Chain m) (consensusParams : ConsensusParams)
    (minVersion nRequired : Int32) :
    (softForkMajorityDesc chainActive consensusParams minVersion chainActive.tip
        nRequired).found.toInt =
      signalling chainActive consensusParams.nMajorityWindow minVersion := by
  have hloop := majorityLoop_eq chainActive minVersion
    consensusParams.nMajorityWindow.toInt.toNat 0 0 .refl (by simp [Chain.height])
  have hle := signalling_le chainActive consensusParams.nMajorityWindow minVersion
  have hwindow := Int32.toInt_lt consensusParams.nMajorityWindow
  rw [softForkMajorityDesc, hloop, Int32.zero_add, ← signalling]
  exact Int32.toInt_ofNat_of_lt (by omega)

/-- What is told about a fork agrees with the chain. -/
structure Counted (chainActive : Chain m) (consensusParams : ConsensusParams) (version : Int32)
    (desc : MajorityDesc) : Prop where
  found : desc.found.toInt = signalling chainActive consensusParams.nMajorityWindow version
  status : desc.status = true ↔ desc.required ≤ desc.found

theorem counted_softForkMajorityDesc (chainActive : Chain m) (consensusParams : ConsensusParams)
    (version nRequired : Int32) : Counted chainActive consensusParams version
      (softForkMajorityDesc chainActive consensusParams version chainActive.tip nRequired) where
  found := softForkMajorityDesc_found chainActive consensusParams version nRequired
  status := by simp [softForkMajorityDesc]

theorem Counted.status_anti {chainActive : Chain m} {consensusParams : ConsensusParams}
    {v w : Int32} {older newer : MajorityDesc} (hv : Counted chainActive consensusParams v older)
    (hw : Counted chainActive consensusParams w newer) (hle : v ≤ w)
    (hrequired : older.required = newer.required) (h : newer.status = true) :
    older.status = true := by
  have hcount := signalling_anti chainActive consensusParams.nMajorityWindow hle
  have hfound : newer.found ≤ older.found := by
    rw [Int32.le_iff_toInt_le, hv.found, hw.found]
    exact_mod_cast hcount
  rw [hv.status, hrequired]
  exact Int32.le_trans (hw.status.mp h) hfound

/-- **The counts are those of the blocks in the window below the tip, a fork that is enforced has
every older one enforced, and the pruned height is that of the lowest block down to which the blocks
below the tip have data.** -/
theorem getblockchaininfo_spec (chainActive : Chain m) (consensusParams : ConsensusParams)
    (haveData : Pointer → Bool) (pindexBestHeader : Option Pointer) (csvState : ThresholdState)
    (fPruneMode : Bool) : ∃ info, getblockchaininfo chainActive consensusParams haveData
        pindexBestHeader csvState fPruneMode false = .ok info ∧
      (∀ fork ∈ info.softforks, Counted chainActive consensusParams fork.version fork.enforce ∧
        Counted chainActive consensusParams fork.version fork.reject) ∧
      info.softforks.Pairwise (fun older newer =>
        (newer.enforce.status = true → older.enforce.status = true) ∧
          (newer.reject.status = true → older.reject.status = true)) ∧
      (info.pruneheight.isSome = fPruneMode) ∧
      ∀ height, info.pruneheight = some height →
        ∃ c, PrunedAt m haveData chainActive.tip c ∧ m.nHeight c = height := by
  have hcounted (version nRequired : Int32) :=
    counted_softForkMajorityDesc chainActive consensusParams version nRequired
  refine ⟨_, rfl, ?_, ?_, ?_, ?_⟩
  · intro fork hfork
    simp only [List.mem_cons, List.not_mem_nil, or_false] at hfork
    rcases hfork with rfl | rfl | rfl
    · exact ⟨hcounted 2 _, hcounted 2 _⟩
    · exact ⟨hcounted 3 _, hcounted 3 _⟩
    · exact ⟨hcounted 4 _, hcounted 4 _⟩
  · have hpair {v w : Int32} (hle : v ≤ w) :=
      And.intro
        ((hcounted v consensusParams.nMajorityEnforceBlockUpgrade).status_anti
          (hcounted w consensusParams.nMajorityEnforceBlockUpgrade) hle rfl)
        ((hcounted v consensusParams.nMajorityRejectBlockOutdated).status_anti
          (hcounted w consensusParams.nMajorityRejectBlockOutdated) hle rfl)
    simp only [List.pairwise_cons, List.mem_cons, List.not_mem_nil, or_false, forall_eq_or_imp,
      forall_eq, false_implies, implies_true, List.Pairwise.nil, and_true]
    exact ⟨⟨hpair (by decide), hpair (by decide)⟩, hpair (by decide)⟩
  · cases fPruneMode <;> rfl
  · intro height hheight
    cases fPruneMode with
    | false => simp at hheight
    | true =>
      have hpruned := pruneLoop_spec haveData chainActive.height.toInt.toNat chainActive.tip_mem
        (Int.self_le_toNat _)
      exact ⟨_, hpruned, Option.some.inj hheight⟩

end ChainX.Rpc
