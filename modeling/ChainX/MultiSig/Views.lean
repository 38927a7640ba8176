import ChainX.Lib.Collect
import ChainX.MultiSig.Owners

/-!
# What the wallet tells a web client (`Contracts/Base/MultiSigWallet.sol`, "Web3 call functions")

The constant functions that show the confirmations of a transaction, each with a loop of its own
over the owners: `getConfirmationCount` counts, `getConfirmations` collects, and `isConfirmed` of
`Wallet` stops as soon as its count equals the requirement. `getTransactionCount` and
`getTransactionIds` do the same over the transactions that pass a filter.

* `countsTo_iff`: the stop on equality is a test `required ≤ …` as long as the count starts below
  the requirement, hence only because a requirement is never `0`.
* **`views_agree`**: in every run the three say the same.
* `getTransactionIds_eq`: the temporary array has room for all transactions, and behind the ids that
  pass the filter its slots are still `0`.
* **`transactionIds_iff`**: so the ids are those asked for as long as no such slot is copied, and
  `pending_listed` is a run in which one is.
-/

namespace ChainX.MultiSig

open ChainX.Evm ChainX.Lib ChainX.Reentry

/-- The loop of `getConfirmationCount`, over the owners that are left. -/
def countConfirmations (confirmed : Address → Bool) : List Address → Nat → Nat
  | [], count => count
  | owner :: rest, count =>
    countConfirmations confirmed rest (if confirmed owner then count + 1 else count)

/-- `getConfirmationCount`: the owners that have confirmed. -/
def getConfirmationCount (s : Storage) (transactionId : Nat) : Nat :=
  countConfirmations (s.confirmations transactionId) s.owners 0

/-- `none` is a throw, at an index outside one of the two arrays. -/
def getConfirmations (s : Storage) (transactionId : Nat) : Option (List Address) := do
  let confirmationsTemp := List.replicate s.owners.length 0
  let (confirmationsTemp, count) ←
    collect (s.confirmations transactionId) s.owners confirmationsTemp 0
  copyLoop confirmationsTemp 0 count 0 (List.replicate count 0)

/-- The condition on a transaction in the two functions below. -/
def isListed (s : Storage) (pending executed : Bool) (transactionId : Nat) : Bool :=
  (pending && !(s.transactions transactionId).executed) ||
    (executed && (s.transactions transactionId).executed)

/-- `getTransactionCount`: the transactions that pass the filters. -/
def getTransactionCount (s : Storage) (pending executed : Bool) : Nat :=
  countLoop (isListed s pending executed) (List.range s.transactionCount) 0

/-- From `start` to before `stop`, which are `from` and `to`. `none` is a throw, at an index outside
one of the two arrays, or because `to - from` wraps around and no array is that long. -/
def getTransactionIds (s : Storage) (start stop : Nat) (pending executed : Bool) :
    Option (List Nat) := do
  let transactionIdsTemp := List.replicate s.transactionCount 0
  let (transactionIdsTemp, _) ←
    collect (isListed s pending executed) (List.range s.transactionCount) transactionIdsTemp 0
  if stop < start then none
  else copyLoop transactionIdsTemp start (stop - start) start (List.replicate (stop - start) 0)

variable {s : Storage} {id : Nat}

/-! ## The loops over the owners -/

theorem countConfirmations_eq {confirmed : Address → Bool} {owners : List Address} {count : Nat} :
    countConfirmations confirmed owners count = count + (owners.filter confirmed).length := by
  have hloop : countConfirmations confirmed owners count = countLoop confirmed owners count := by
    induction owners generalizing count with
    | nil => rfl
    | cons owner rest ih => exact ih
  rw [hloop, countLoop_eq]

/-- The loop of `isConfirmed`, which passes every count between its start and its end. -/
theorem countsTo_iff {confirmed : Address → Bool} {required : Nat} {owners : List Address}
    {count : Nat} (hlt : count < required) :
    countsTo confirmed required owners count = true ↔
      required ≤ count + (owners.filter confirmed).length := by
  induction owners generalizing count with
  | nil => simpa [countsTo] using hlt
  | cons owner rest ih =>
    rw [countsTo]
    by_cases hc : confirmed owner = true
    · simp only [if_pos hc]
      rw [List.filter_cons_of_pos hc, List.length_cons]
      by_cases heq : count + 1 = required
      · rw [if_pos heq]
        exact iff_of_true rfl (by omega)
      · rw [if_neg heq, ih (by omega)]
        omega
    · simp only [if_neg hc]
      rw [List.filter_cons_of_neg hc, if_neg (by omega : count ≠ required), ih hlt]

theorem getConfirmationCount_eq :
    getConfirmationCount s id = (s.owners.filter (s.confirmations id)).length := by
  rw [getConfirmationCount, countConfirmations_eq, Nat.zero_add]

theorem isConfirmed_iff (hs : Consistent s) :
    isConfirmed s id = true ↔ s.required ≤ (s.owners.filter (s.confirmations id)).length := by
  rw [isConfirmed, countsTo_iff hs.one_le, Nat.zero_add]

/-- The temporary array has room for all owners, so nothing is ever written outside it. -/
theorem getConfirmations_eq :
    getConfirmations s id = some (s.owners.filter (s.confirmations id)) := by
  have hle : (s.owners.filter (s.confirmations id)).length ≤ s.owners.length :=
    List.length_filter_le _ _
  have hfill := collect_spec (s.confirmations id) s.owners []
    (List.replicate s.owners.length (0 : Address)) (by rwa [List.length_replicate])
  have hcopy := copyLoop_spec
    (s.owners.filter (s.confirmations id) ++ (List.replicate s.owners.length (0 : Address)).drop
      (s.owners.filter (s.confirmations id)).length) []
    (List.replicate (s.owners.filter (s.confirmations id)).length (0 : Address)) 0 (by simp)
  simp only [List.nil_append, List.length_nil, Nat.zero_add] at hfill
  simp only [List.nil_append, List.length_nil, List.length_replicate, Nat.add_zero,
    List.drop_zero, List.take_left] at hcopy
  simp only [getConfirmations, hfill, Option.bind_eq_bind, Option.bind_some, hcopy]

/-! ## Agreement -/

/-- **The three views of a quorum agree.** At every moment of every run from the constructor,
`getConfirmations` is the list of the owners that have confirmed the transaction, each once and in
the order of `owners`, `getConfirmationCount` is its length, and `isConfirmed` says whether that
meets the requirement. -/
theorem views_agree (this : Address) {owners : List Address} {required : Nat} {s : Storage}
    (hinit : construct owners required = some s) (moves : List (Move Call Unit)) (id : Nat) :
    ∀ w, w = (exec (entry this) ⟨s, []⟩ moves).cur →
      ∃ who, getConfirmations w id = some who ∧ who.Nodup ∧ who.Sublist w.owners ∧
        (∀ a, a ∈ who ↔ w.isOwner a = true ∧ w.confirmations id a = true) ∧
        getConfirmationCount w id = who.length ∧
        (isConfirmed w id = true ↔ w.required ≤ who.length) := by
  rintro w rfl
  have hrun : Consistent (exec (entry this) ⟨s, []⟩ moves).cur := consistent_run hinit moves
  refine ⟨_, getConfirmations_eq, hrun.nodup.filter _, List.filter_sublist, fun a => ?_,
    getConfirmationCount_eq, isConfirmed_iff hrun⟩
  rw [List.mem_filter, hrun.mem_iff]

/-- The owners `12` and `10` confirm the transaction `0`, in that order. -/
def confirmedRun : List (Move Call Unit) :=
  [.enter (.submitTransaction 12 40 0 []), .enter (.confirmTransaction 10 0)]

theorem views_agree_three :
    getConfirmations (exec (entry 100) ⟨threeOwners, []⟩ confirmedRun).cur 0 = some [10, 12] ∧
      ∃ who, getConfirmations (exec (entry 100) ⟨threeOwners, []⟩ confirmedRun).cur 0 = some who ∧
        who.Sublist (exec (entry 100) ⟨threeOwners, []⟩ confirmedRun).cur.owners ∧
        getConfirmationCount (exec (entry 100) ⟨threeOwners, []⟩ confirmedRun).cur 0 =
          who.length := by
  have hinit : construct [10, 11, 12] 2 = some threeOwners := (Option.some_get _).symm
  obtain ⟨who, hwho, -, hsub, -, hcount, -⟩ := views_agree 100 hinit confirmedRun 0 _ rfl
  exact ⟨by decide +kernel, who, hwho, hsub, hcount⟩

/-! ## The loops over the transactions -/

/-- The ids that pass the filter, in their order. -/
def listedIds (s : Storage) (pending executed : Bool) : List Nat :=
  (List.range s.transactionCount).filter (isListed s pending executed)

variable {pending executed : Bool} {start stop : Nat}

theorem getTransactionCount_eq :
    getTransactionCount s pending executed = (listedIds s pending executed).length := by
  rw [getTransactionCount, countLoop_eq, Nat.zero_add, listedIds]

theorem length_listedIds_le : (listedIds s pending executed).length ≤ s.transactionCount := by
  have h := List.length_filter_le (isListed s pending executed) (List.range s.transactionCount)
  rwa [List.length_range] at h

/-- Behind the ids that pass the filter there are the untouched slots of the temporary array. -/
theorem getTransactionIds_eq (hle : start ≤ stop) (hstop : stop ≤ s.transactionCount) :
    getTransactionIds s start stop pending executed =
      some (((listedIds s pending executed ++ List.replicate
        (s.transactionCount - (listedIds s pending executed).length) 0).drop start).take
          (stop - start)) := by
  have hroom : (listedIds s pending executed).length ≤ s.transactionCount := length_listedIds_le
  have hfill := collect_spec (isListed s pending executed) (List.range s.transactionCount) []
    (List.replicate s.transactionCount (0 : Nat)) (by rwa [List.length_replicate])
  have hcopy := copyLoop_spec (listedIds s pending executed ++ List.replicate
    (s.transactionCount - (listedIds s pending executed).length) 0) []
    (List.replicate (stop - start) (0 : Nat)) start
    (by
      simp only [List.length_append, List.length_replicate, List.length_nil]
      omega)
  simp only [List.nil_append, List.length_nil, Nat.zero_add, List.drop_replicate] at hfill
  simp only [List.nil_append, List.length_nil, List.length_replicate, Nat.add_zero] at hcopy
  rw [listedIds] at hcopy ⊢
  simp only [getTransactionIds, hfill, Option.bind_eq_bind, Option.bind_some, hcopy,
    if_neg (Nat.not_lt.mpr hle)]

/-! ## What was asked for -/

/-- The ids are those at the positions from `start` to `stop - 1` among the ids that pass the
filter; so each of them passes it, and none occurs twice. -/
structure AskedFor (s : Storage) (start stop : Nat) (pending executed : Bool) (ids : List Nat) :
    Prop where
  eq : ids = ((listedIds s pending executed).drop start).take (stop - start)
  listed : ∀ i ∈ ids, i < s.transactionCount ∧ isListed s pending executed i = true
  nodup : ids.Nodup

theorem askedFor_slice (s : Storage) (start stop : Nat) (pending executed : Bool) :
    AskedFor s start stop pending executed
      (((listedIds s pending executed).drop start).take (stop - start)) := by
  have hsub : (((listedIds s pending executed).drop start).take (stop - start)).Sublist
      (listedIds s pending executed) := (List.take_sublist _ _).trans (List.drop_sublist _ _)
  refine ⟨rfl, fun i hi => ?_, (List.nodup_range.filter _).sublist hsub⟩
  obtain ⟨hrange, hlisted⟩ := List.mem_filter.mp (hsub.subset hi)
  exact ⟨List.mem_range.mp hrange, hlisted⟩

/-- **When `getTransactionIds` returns what was asked for.** In every state, whether or not a run
comes to it, and for every filter and range within the transactions: exactly when the range is
empty, or does not reach beyond the transactions that pass the filter. -/
theorem transactionIds_iff (s : Storage) (pending executed : Bool) {start stop : Nat}
    (hle : start ≤ stop) (hstop : stop ≤ s.transactionCount) :
    (∃ ids, getTransactionIds s start stop pending executed = some ids ∧
        AskedFor s start stop pending executed ids) ↔
      start = stop ∨ stop ≤ getTransactionCount s pending executed := by
  have hroom : (listedIds s pending executed).length ≤ s.transactionCount := length_listedIds_le
  rw [getTransactionIds_eq hle hstop, getTransactionCount_eq,
    ← slice_padded_iff (n := s.transactionCount - (listedIds s pending executed).length)
      (listedIds s pending executed) 0 hle (by omega)]
  constructor
  · rintro ⟨ids, hids, hasked⟩
    rw [Option.some.inj hids, hasked.eq]
  · intro heq
    refine ⟨_, rfl, ?_⟩
    rw [heq]
    exact askedFor_slice s start stop pending executed

/-- The transaction `0` is submitted by the owner `12`, and waits for another confirmation. -/
def pendingRun : List (Move Call Unit) := [.enter (.submitTransaction 12 40 0 [])]

/-- The transaction `0` is the first of the pending ones. -/
theorem transactionIds_iff_first :
    ∃ ids, getTransactionIds (exec (entry 100) ⟨threeOwners, []⟩ pendingRun).cur 0 1 true false =
        some ids ∧
      AskedFor (exec (entry 100) ⟨threeOwners, []⟩ pendingRun).cur 0 1 true false ids :=
  (transactionIds_iff _ true false (by decide) (by decide +kernel)).mpr (.inr (by decide +kernel))

/-- **A pending transaction is listed as executed.** -/
theorem pending_listed :
    let w := (exec (entry 100) ⟨threeOwners, []⟩ pendingRun).cur
    w.transactionCount = 1 ∧ (w.transactions 0).executed = false ∧
      getTransactionIds w 0 1 false true = some [0] ∧
      ¬ ∃ ids, getTransactionIds w 0 1 false true = some ids ∧
        AskedFor w 0 1 false true ids := by
  have hids : getTransactionIds (exec (entry 100) ⟨threeOwners, []⟩ pendingRun).cur 0 1 false true =
      some [0] := by decide +kernel
  refine ⟨by decide +kernel, by decide +kernel, hids, ?_⟩
  rintro ⟨ids, hsome, hasked⟩
  rw [hids] at hsome
  obtain rfl := Option.some.inj hsome
  exact absurd hasked.eq (by decide +kernel)

end ChainX.MultiSig
