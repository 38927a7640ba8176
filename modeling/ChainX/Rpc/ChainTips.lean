import ChainX.Lib.StdSet
import Mathlib.Data.List.Forall2
import Mathlib.Data.Nat.Basic
import Mathlib.Logic.Relation
import Mathlib.Order.Lattice

/-!
# Chain tips, `Maternodes/ChainX-MN/rpcclient.cpp`

`getchaintips` (`rpcclient.cpp:832-941`) and its order `CompareBlocksByHeight`
(`rpcclient.cpp:818-830`). `chain.h` is not part of the repository: of a block the model has what is
read of it, and of `chainActive` the answers of `Contains` and `FindFork`, with what they are as
laws. Pointers are values of an ordered type.

* The set starts with all blocks and loses those that are somebody's `pprev`, so that the tips are
  the blocks without a child (`Lib.mem_foldl_erase`); the tip of the active chain is put in again.
* The order is by height, the highest first, and by address among blocks of one height. It is a
  strict total order, which is what the set needs.
* The parameters of the call are the number of entries and the least branch length; `output` is the
  loop that skips and stops by them. The fields that are printed of a block are those of the source,
  with the status by its `if` chain.

**`getchaintips_tips`**: the answer is the first of the tips, each printed with what its block has
(`Prints`), and the active one is the active tip.
-/

namespace ChainX.Rpc

open ChainX.Lib

/-- What is read of a block, for pointers to blocks. -/
structure CBlockIndex (Pointer Hash Difficulty : Type) where
  pprev : Option Pointer
  nHeight : Int32
  /-- `*phashBlock`. -/
  phashBlock : Hash
  /-- `GetDifficulty(block)`. -/
  difficulty : Difficulty
  nChainWork : Nat
  nChainTx : UInt32
  /-- `nStatus & BLOCK_FAILED_MASK`. -/
  failed : Bool
  /-- `IsValid(BLOCK_VALID_SCRIPTS)`. -/
  validScripts : Bool
  /-- `IsValid(BLOCK_VALID_TREE)`. -/
  validTree : Bool

/-- The known blocks, a tree with one root. -/
structure BlockMap (Pointer Hash Difficulty : Type) where
  /-- What a pointer points to. -/
  block : Pointer → CBlockIndex Pointer Hash Difficulty
  /-- The pointers in the order of a traversal. -/
  mapBlockIndex : List Pointer
  genesis : Pointer
  pprev_eq_none : ∀ b ∈ mapBlockIndex, (block b).pprev = none ↔ b = genesis
  pprev_mem : ∀ b ∈ mapBlockIndex, ∀ p, (block b).pprev = some p → p ∈ mapBlockIndex
  nHeight_genesis : (block genesis).nHeight = 0
  nHeight_pprev : ∀ b ∈ mapBlockIndex, ∀ p, (block b).pprev = some p →
    (block b).nHeight.toInt = (block p).nHeight.toInt + 1

variable {Pointer Hash Difficulty : Type}

namespace BlockMap

variable (m : BlockMap Pointer Hash Difficulty)

/-- The height of a block. -/
abbrev nHeight (b : Pointer) : Int32 := (m.block b).nHeight

/-- The first block is the second or comes before it. -/
def Ancestor (a b : Pointer) : Prop :=
  Relation.ReflTransGen (fun b p => (m.block b).pprev = some p) b a

/-- The block has no child. -/
def Leaf (b : Pointer) : Prop :=
  b ∈ m.mapBlockIndex ∧ ∀ c ∈ m.mapBlockIndex, (m.block c).pprev ≠ some b

variable {m} {a b : Pointer}

theorem Ancestor.mem (hb : b ∈ m.mapBlockIndex) (h : m.Ancestor a b) : a ∈ m.mapBlockIndex := by
  induction h with
  | refl => exact hb
  | tail _ hstep ih => exact m.pprev_mem _ ih _ hstep

theorem Ancestor.nHeight_le (hb : b ∈ m.mapBlockIndex) (h : m.Ancestor a b) :
    (m.nHeight a).toInt ≤ (m.nHeight b).toInt := by
  induction h with
  | refl => exact Int.le_refl _
  | tail hchain hstep ih =>
    have hheight := m.nHeight_pprev _ (Ancestor.mem hb hchain) _ hstep
    exact Int.le_trans (Int.le_of_lt (Int.lt_of_add_one_le (Int.le_of_eq hheight.symm))) ih

/-- Heights are counted from the genesis block. -/
theorem nHeight_nonneg (hb : b ∈ m.mapBlockIndex) : 0 ≤ (m.nHeight b).toInt := by
  -- down the chain of parents there are only so many `int`s
  induction hsteps : ((m.nHeight b).toInt + 2 ^ 31).toNat using Nat.strongRecOn
    generalizing b with
  | ind steps ih =>
    cases hpprev : (m.block b).pprev with
    | none =>
      rw [(m.pprev_eq_none b hb).mp hpprev, nHeight, m.nHeight_genesis]
      decide
    | some p =>
      have hheight : (m.nHeight b).toInt = (m.nHeight p).toInt + 1 :=
        m.nHeight_pprev b hb p hpprev
      have hmin := Int32.le_toInt (m.nHeight p)
      have := ih _ (by omega) (m.pprev_mem b hb p hpprev) rfl
      omega

/-- A leaf above which there is a known block is that block. -/
theorem Leaf.eq_of_ancestor (hb : m.Leaf b) {c : Pointer} (hc : c ∈ m.mapBlockIndex)
    (h : m.Ancestor b c) : b = c := by
  rcases Relation.ReflTransGen.cases_tail h with heq | ⟨child, hchain, hstep⟩
  · exact heq
  · exact absurd hstep (hb.2 child (Ancestor.mem hc hchain))

end BlockMap

/-- `chainActive`, of the blocks up to its tip. -/
structure CChain (m : BlockMap Pointer Hash Difficulty) where
  tip : Pointer
  tip_mem : tip ∈ m.mapBlockIndex
  contains : Pointer → Bool
  findFork : Pointer → Pointer
  contains_iff : ∀ b ∈ m.mapBlockIndex, contains b = true ↔ m.Ancestor b tip
  findFork_ancestor : ∀ b ∈ m.mapBlockIndex,
    m.Ancestor (findFork b) b ∧ m.Ancestor (findFork b) tip
  findFork_highest : ∀ b ∈ m.mapBlockIndex, ∀ a, m.Ancestor a b → m.Ancestor a tip →
    m.nHeight a ≤ m.nHeight (findFork b)

/-- The texts of `status`. -/
inductive Status where
  | active
  | invalid
  | headersOnly
  | validFork
  | validHeaders
  | unknown
  deriving DecidableEq

/-- An object of the answer. -/
structure ChainTip (Hash Difficulty : Type) where
  height : Int32
  hash : Hash
  difficulty : Difficulty
  chainwork : Nat
  branchlen : Int32
  status : Status
  deriving DecidableEq

variable [LinearOrder Pointer] (m : BlockMap Pointer Hash Difficulty) (chainActive : CChain m)

/-! ## Functions -/

/-- `CompareBlocksByHeight`: higher blocks come first, and the pointers decide between equals. -/
def compareBlocksByHeight (a b : Pointer) : Prop :=
  if m.nHeight a ≠ m.nHeight b then m.nHeight a > m.nHeight b else a < b

instance : DecidableRel (compareBlocksByHeight m) := fun a b =>
  inferInstanceAs
    (Decidable (if m.nHeight a ≠ m.nHeight b then m.nHeight a > m.nHeight b else a < b))

/-- A set of blocks. -/
abbrev BlockSet : Type := Std.TreeSet Pointer (cmpUsing (compareBlocksByHeight m))

/-- The set when it is printed. -/
def setTips : BlockSet m :=
  let known : BlockSet m := m.mapBlockIndex.foldl (fun setTips item => setTips.insert item) ∅
  let leaves : BlockSet m := m.mapBlockIndex.foldl (fun setTips item =>
    match (m.block item).pprev with
    | some pprev => setTips.erase pprev
    | none => setTips) known
  leaves.insert chainActive.tip

/-- The blocks between a tip and the active chain. -/
def branchLen (block : Pointer) : Int32 :=
  m.nHeight block - m.nHeight (chainActive.findFork block)

/-- The status of a tip: the first test that applies. -/
def status (block : Pointer) : Status :=
  if chainActive.contains block then .active
  else if (m.block block).failed then .invalid
  else if (m.block block).nChainTx = 0 then .headersOnly
  else if (m.block block).validScripts then .validFork
  else if (m.block block).validTree then .validHeaders
  else .unknown

/-- The entry for a tip. -/
def chainTip (block : Pointer) : ChainTip Hash Difficulty where
  height := m.nHeight block
  hash := (m.block block).phashBlock
  difficulty := (m.block block).difficulty
  chainwork := (m.block block).nChainWork
  branchlen := branchLen m chainActive block
  status := status m chainActive block

/-- The loop over the set. -/
def output (nBranchMin : Int32) : Int32 → List Pointer → List (ChainTip Hash Difficulty)
  | _, [] => []
  | nCountMax, block :: blocks =>
    if branchLen m chainActive block < nBranchMin then output nBranchMin nCountMax blocks
    else if nCountMax < 1 then []
    else chainTip m chainActive block :: output nBranchMin (nCountMax - 1) blocks

/-- `none` if the help is thrown. Of the parameters the model has what `get_int` makes of them. -/
def getchaintips (fHelp : Bool) (params : List Int32) : Option (List (ChainTip Hash Difficulty)) :=
  if fHelp = true ∨ params.length > 2 then none
  else
    let nCountMax := if params.length ≥ 1 then params.getD 0 0 else Int32.maxValue
    let nBranchMin := if params.length = 2 then params.getD 1 0 else -1
    some (output m chainActive nBranchMin nCountMax (setTips m chainActive).toList)

/-! ## The order -/

theorem compareBlocksByHeight_iff {a b : Pointer} : compareBlocksByHeight m a b ↔
    m.nHeight b < m.nHeight a ∨ m.nHeight a = m.nHeight b ∧ a < b := by
  unfold compareBlocksByHeight
  split
  · rename_i hne
    exact ⟨.inl, fun h => h.resolve_right fun heq => hne heq.1⟩
  · rename_i heq
    rw [Ne, not_not] at heq
    rw [heq]
    exact ⟨fun h => .inr ⟨rfl, h⟩, fun h => (h.resolve_left Int32.lt_irrefl).2⟩

instance : IsStrictTotalOrder Pointer (compareBlocksByHeight m) where
  irrefl a h := by
    rw [compareBlocksByHeight_iff] at h
    exact h.elim Int32.lt_irrefl fun h => lt_irrefl a h.2
  trans a b c hab hbc := by
    rw [compareBlocksByHeight_iff] at *
    rcases hab with hab | ⟨hab, hlt⟩
    · rcases hbc with hbc | ⟨hbc, -⟩
      · exact .inl (Int32.lt_trans hbc hab)
      · exact .inl (hbc ▸ hab)
    · rcases hbc with hbc | ⟨hbc, hlt'⟩
      · exact .inl (hab ▸ hbc)
      · exact .inr ⟨hab.trans hbc, hlt.trans hlt'⟩
  trichotomous a b hab hba := by
    rw [compareBlocksByHeight_iff, not_or] at hab hba
    have heq := Int32.le_antisymm (Int32.not_lt.mp hab.1) (Int32.not_lt.mp hba.1)
    exact le_antisymm (not_lt.mp fun h => hba.2 ⟨heq.symm, h⟩) (not_lt.mp fun h => hab.2 ⟨heq, h⟩)

/-! ## The set -/

variable {m} {chainActive}

theorem mem_setTips {b : Pointer} :
    b ∈ setTips m chainActive ↔ b = chainActive.tip ∨ m.Leaf b := by
  rw [setTips, mem_insert_iff]
  refine or_congr_right ((mem_foldl_erase fun item => (m.block item).pprev).trans ?_)
  rw [mem_foldl_insert, BlockMap.Leaf, or_iff_left Std.TreeSet.not_mem_emptyc]

theorem mem_of_mem_setTips {b : Pointer} (h : b ∈ setTips m chainActive) :
    b ∈ m.mapBlockIndex := by
  rcases mem_setTips.mp h with rfl | hleaf
  · exact chainActive.tip_mem
  · exact hleaf.1

omit [LinearOrder Pointer] in
/-- The length of a branch does not overflow. -/
theorem toInt_branchLen {b : Pointer} (hb : b ∈ m.mapBlockIndex) :
    (branchLen m chainActive b).toInt =
      (m.nHeight b).toInt - (m.nHeight (chainActive.findFork b)).toInt := by
  have hfork := (chainActive.findFork_ancestor b hb).1
  have hle := hfork.nHeight_le hb
  have hnonneg := BlockMap.nHeight_nonneg (hfork.mem hb)
  have hlt := Int32.toInt_lt (m.nHeight b)
  rw [branchLen, Int32.toInt_sub]
  exact Int.bmod_eq_of_le (by omega) (by omega)

/-- A tip on the active chain is its tip. -/
theorem contains_iff_tip {b : Pointer} (hb : b ∈ setTips m chainActive) :
    chainActive.contains b = true ↔ b = chainActive.tip := by
  rw [chainActive.contains_iff b (mem_of_mem_setTips hb)]
  constructor
  · intro hancestor
    rcases mem_setTips.mp hb with rfl | hleaf
    · rfl
    · exact hleaf.eq_of_ancestor chainActive.tip_mem hancestor
  · rintro rfl
    exact .refl

theorem status_eq_active_iff {b : Pointer} (hb : b ∈ setTips m chainActive) :
    status m chainActive b = .active ↔ b = chainActive.tip := by
  rw [← contains_iff_tip hb]
  unfold status
  split
  · rename_i h
    exact iff_of_true rfl h
  · rename_i h
    refine iff_of_false ?_ h
    split_ifs <;> simp

/-! ## The loop -/

omit [LinearOrder Pointer] in
/-- The loop prints the first of the blocks whose branch is long enough. -/
theorem output_eq (nBranchMin nCountMax : Int32) (blocks : List Pointer) :
    output m chainActive nBranchMin nCountMax blocks =
      ((blocks.filter fun b => nBranchMin ≤ branchLen m chainActive b).take
        nCountMax.toInt.toNat).map (chainTip m chainActive) := by
  induction blocks generalizing nCountMax with
  | nil => simp [output]
  | cons block blocks ih =>
    unfold output
    split
    · rename_i hshort
      rw [List.filter_cons_of_neg (by simpa using Int32.not_le.mpr hshort), ih]
    · rename_i hlong
      rw [List.filter_cons_of_pos (by simpa using Int32.not_lt.mp hlong)]
      split
      · rename_i hnone
        have hle : nCountMax.toInt ≤ 0 := Int.lt_add_one_iff.mp (Int32.lt_iff_toInt_lt.mp hnone)
        rw [Int.toNat_eq_zero.mpr hle]
        rfl
      · rename_i hsome
        have hpos : 1 ≤ nCountMax.toInt := Int32.le_iff_toInt_le.mp (Int32.not_lt.mp hsome)
        have hlt := Int32.toInt_lt nCountMax
        have hpred : (nCountMax - 1).toInt = nCountMax.toInt - 1 := by
          rw [Int32.toInt_sub]
          exact Int.bmod_eq_of_le (by simp; omega) (by simp; omega)
        have hsucc : nCountMax.toInt.toNat = (nCountMax.toInt - 1).toNat + 1 := by omega
        rw [ih, hpred, hsucc, List.take_succ_cons, List.map_cons]

/-! ## The answer -/

/-- The object is that of the block. -/
structure Prints (m : BlockMap Pointer Hash Difficulty) (chainActive : CChain m) (b : Pointer)
    (tip : ChainTip Hash Difficulty) : Prop where
  height : tip.height = m.nHeight b
  hash : tip.hash = (m.block b).phashBlock
  difficulty : tip.difficulty = (m.block b).difficulty
  chainwork : tip.chainwork = (m.block b).nChainWork
  branchlen : tip.branchlen.toInt =
    (m.nHeight b).toInt - (m.nHeight (chainActive.findFork b)).toInt
  active : tip.status = .active ↔ b = chainActive.tip

theorem prints_chainTip {b : Pointer} (hb : b ∈ setTips m chainActive) :
    Prints m chainActive b (chainTip m chainActive b) :=
  ⟨rfl, rfl, rfl, rfl, toInt_branchLen (mem_of_mem_setTips hb), status_eq_active_iff hb⟩

/-- **`getchaintips` prints the first of the tips whose branch is long enough**, the highest ones
first, each with what its block has, and the active one is the active tip. -/
theorem getchaintips_tips (m : BlockMap Pointer Hash Difficulty) (chainActive : CChain m)
    (params : List Int32) (hparams : params.length ≤ 2) : ∃ tips : List Pointer, ∃ printed,
    getchaintips m chainActive false params = some printed ∧
      List.Forall₂ (Prints m chainActive)
        (tips.take (params.getD 0 Int32.maxValue).toInt.toNat) printed ∧
      tips.Nodup ∧ tips.Pairwise (fun a b => m.nHeight b ≤ m.nHeight a) ∧
      ∀ b, b ∈ tips ↔ (b = chainActive.tip ∨ m.Leaf b) ∧ (params.getD 1 (-1)).toInt ≤
        (m.nHeight b).toInt - (m.nHeight (chainActive.findFork b)).toInt := by
  obtain ⟨tips, htips⟩ : ∃ tips, tips = (setTips m chainActive).toList.filter fun b =>
    params.getD 1 (-1) ≤ branchLen m chainActive b := ⟨_, rfl⟩
  have hmem : ∀ b, b ∈ tips ↔ b ∈ setTips m chainActive ∧
      params.getD 1 (-1) ≤ branchLen m chainActive b := by
    intro b
    rw [htips, List.mem_filter, Std.TreeSet.mem_toList, decide_eq_true_iff]
  refine ⟨tips, (tips.take (params.getD 0 Int32.maxValue).toInt.toNat).map (chainTip m chainActive),
    ?_, ?_, ?_, ?_, fun b => ?_⟩
  · have hcount : (if params.length ≥ 1 then params.getD 0 0 else Int32.maxValue) =
        params.getD 0 Int32.maxValue := by
      cases params <;> rfl
    have hbranch : (if params.length = 2 then params.getD 1 0 else -1) = params.getD 1 (-1) := by
      match params, hparams with
      | [], _ => rfl
      | [_], _ => rfl
      | [_, _], _ => rfl
    rw [getchaintips, if_neg (by simpa using hparams)]
    simp only [hcount, hbranch, output_eq, htips]
  · rw [List.forall₂_map_right_iff, List.forall₂_same]
    exact fun b hb => prints_chainTip ((hmem b).mp (List.mem_of_mem_take hb)).1
  · rw [htips]
    exact (nodup_toList _).filter _
  · rw [htips]
    refine ((pairwise_toList _).filter _).imp fun h => ?_
    rcases (compareBlocksByHeight_iff m).mp h with hlt | ⟨heq, -⟩
    · exact Int32.le_of_lt hlt
    · exact Int32.le_of_eq heq.symm
  · rw [hmem, mem_setTips]
    refine and_congr_right fun hb => ?_
    rw [Int32.le_iff_toInt_le, toInt_branchLen (mem_of_mem_setTips (mem_setTips.mpr hb))]

/-- A block with its number for its hash. -/
def sampleBlock (pprev : Option Nat) (nHeight : Int32) (hash : Nat) : CBlockIndex Nat Nat Unit :=
  ⟨pprev, nHeight, hash, (), 0, 1, false, true, true⟩

/-- A block with two children on the genesis block. -/
def sampleMap : BlockMap Nat Nat Unit where
  block
    | 0 => sampleBlock none 0 0
    | 1 => sampleBlock (some 0) 1 1
    | b => sampleBlock (some 1) 2 b
  mapBlockIndex := [3, 0, 2, 1]
  genesis := 0
  pprev_eq_none := by decide
  pprev_mem := by simp [sampleBlock]
  nHeight_genesis := rfl
  nHeight_pprev := by simp [sampleBlock]

theorem ancestor_sampleMap_zero {a : Nat} (h : sampleMap.Ancestor a 0) : a = 0 := by
  rcases Relation.ReflTransGen.cases_head h with heq | ⟨_, hstep, -⟩
  · exact heq.symm
  · exact absurd hstep (by simp [sampleMap, sampleBlock])

theorem ancestor_sampleMap_one {a : Nat} : sampleMap.Ancestor a 1 ↔ a ≤ 1 := by
  constructor
  · intro h
    rcases Relation.ReflTransGen.cases_head h with rfl | ⟨p, hstep, hp⟩
    · exact le_rfl
    · obtain rfl : 0 = p := Option.some.inj hstep
      exact (ancestor_sampleMap_zero hp).trans_le (Nat.zero_le 1)
  · intro h
    obtain rfl | rfl := Nat.le_one_iff_eq_zero_or_eq_one.mp h
    · exact .single rfl
    · exact .refl

/-- The chain up to that block. -/
def sampleChain : CChain sampleMap where
  tip := 1
  tip_mem := by decide
  contains b := b ≤ 1
  findFork b := min b 1
  contains_iff := by simp [ancestor_sampleMap_one]
  findFork_ancestor b hb := by
    refine ⟨?_, ancestor_sampleMap_one.mpr (min_le_right b 1)⟩
    obtain rfl | rfl | rfl | rfl : b = 3 ∨ b = 0 ∨ b = 2 ∨ b = 1 := by simpa [sampleMap] using hb
    · exact .single rfl
    · exact .refl
    · exact .single rfl
    · exact .refl
  findFork_highest b hb a hab ha := by
    rcases Nat.eq_zero_or_pos b with rfl | hpos
    · rw [ancestor_sampleMap_zero hab]
      decide
    · rw [min_eq_right hpos]
      obtain rfl | rfl := Nat.le_one_iff_eq_zero_or_eq_one.mp (ancestor_sampleMap_one.mp ha)
      · decide
      · decide

theorem phashBlock_sampleMap : ∀ b, (sampleMap.block b).phashBlock = b
  | 0 => rfl
  | 1 => rfl
  | _ + 2 => rfl

/-- The three tips, told apart by their hashes. -/
theorem getchaintips_tips_sampleMap : ∃ tips : List Nat, ∃ printed,
    getchaintips sampleMap sampleChain false [3, 0] = some printed ∧
      List.Forall₂ (Prints sampleMap sampleChain) (tips.take 3) printed ∧
      printed.map ChainTip.hash = tips.take 3 ∧ 1 ∈ tips ∧ 2 ∈ tips ∧ 3 ∈ tips := by
  obtain ⟨tips, printed, hprint, hall, -, -, hmem⟩ := getchaintips_tips sampleMap sampleChain [3, 0]
    (by decide)
  refine ⟨tips, printed, hprint, hall, ?_, (hmem 1).mpr ⟨.inl rfl, by decide⟩,
    (hmem 2).mpr ⟨.inr ⟨by decide, by decide⟩, by decide⟩,
    (hmem 3).mpr ⟨.inr ⟨by decide, by decide⟩, by decide⟩⟩
  have hhash : List.Forall₂ (fun tip b => tip.hash = b) printed (tips.take 3) :=
    hall.flip.imp fun tip b h => h.hash.trans (phashBlock_sampleMap b)
  rw [← List.forall₂_map_left_iff (f := ChainTip.hash), List.forall₂_eq_eq_eq] at hhash
  exact hhash

end ChainX.Rpc
