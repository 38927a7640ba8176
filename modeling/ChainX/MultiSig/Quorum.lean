import ChainX.MultiSig.Execution
import ChainX.MultiSig.Views

/-!
# What a quorum can do

`confirmTransaction` (`MultiSigWallet.sol:195-204`) goes on to `executeTransaction`
(`MultiSigWallet.sol:220-234`), so confirming is enough: the confirmation that completes the quorum
executes the transaction, and one that had its quorum before, and whose call failed then, is
executed on demand.

* The calls here come one after the other, and the call that the wallet makes succeeds and does not
  come back into the wallet, so each of them is `once` with the answer of that call.
* `Awaiting s₀ id who s`: the transaction waits as in `s₀`, and `who` have confirmed it.
  `ExecutedOnce s₀ id s`: it was executed, as it was in `s₀`, and nothing else has succeeded.
* An owner who has confirmed before is refused, and so is one who comes too late: both throw and
  leave the wallet as it is (`executedOnce_call`).

Results:
* `awaiting_confirm`: what one confirmation does to a transaction that waits.
* **`quorum_executes`**: whatever has happened before, as many owners as are required get a
  transaction executed, once, by confirming it.
-/

namespace ChainX.MultiSig

open ChainX.Evm ChainX.Reentry

variable {this : Address} {s₀ s : Storage} {id : Nat} {who : List Address} {a : Address}

/-- The storage in which `confirmTransaction` goes on to execute. -/
def Storage.confirm (s : Storage) (id : Nat) (sender : Address) : Storage :=
  { s with
    confirmations := Function.update s.confirmations id
      (Function.update (s.confirmations id) sender true)
    log := .confirmation sender id :: s.log }

/-- The storage after a call that succeeded. -/
def Storage.executedCall (s : Storage) (id : Nat) : Storage :=
  { (s.setExecuted id true).succeed id with log := .execution id :: s.log }

/-! ## Calls that are answered -/

theorem play_executeTransaction (s : Storage) (id : Nat) :
    (executeTransaction id s).play [some ()] =
      if (s.transactions id).executed = false then
        if isConfirmed s id = true then some ((), s.executedCall id) else some ((), s)
      else none := by
  by_cases hexecuted : (s.transactions id).executed = false
  · by_cases hconfirmed : isConfirmed s id = true
    · simp only [executeTransaction, Contract.bind_apply, Contract.get_apply,
        Contract.require_apply, Contract.modify_apply, Proc.bind, hexecuted, hconfirmed, if_true]
      rfl
    · simp only [executeTransaction, Contract.bind_apply, Contract.get_apply,
        Contract.require_apply, Contract.ite_apply, Proc.bind, hexecuted, hconfirmed, if_true]
      rfl
  · simp only [executeTransaction, Contract.bind_apply, Contract.get_apply,
      Contract.require_apply, Proc.bind, hexecuted]
    rfl

theorem play_confirmTransaction (s : Storage) (sender : Address) (id : Nat)
    (rs : List (Option Unit)) : (confirmTransaction sender id s).play rs =
      if s.isOwner sender = true ∧ (s.transactions id).destination ≠ 0 ∧
          s.confirmations id sender = false then
        (executeTransaction id (s.confirm id sender)).play rs
      else none := by
  by_cases howner : s.isOwner sender = true
  · by_cases hdestination : (s.transactions id).destination ≠ 0
    · by_cases hnew : s.confirmations id sender = false
      · rw [if_pos ⟨howner, hdestination, hnew⟩]
        simp only [confirmTransaction, emit, Contract.bind_apply, Contract.get_apply,
          Contract.require_apply, Contract.modify_apply, Proc.bind, howner, hdestination, hnew,
          if_true, ne_eq, not_false_eq_true]
        rfl
      · rw [if_neg fun h => hnew h.2.2]
        simp only [confirmTransaction, Contract.bind_apply, Contract.get_apply,
          Contract.require_apply, Proc.bind, howner, hdestination, hnew, if_true, ne_eq,
          not_false_eq_true]
        rfl
    · rw [if_neg fun h => hdestination h.2.1]
      simp only [confirmTransaction, Contract.bind_apply, Contract.get_apply,
        Contract.require_apply, Proc.bind, howner, hdestination, if_true, if_false]
      rfl
  · rw [if_neg fun h => howner h.1]
    simp only [confirmTransaction, Contract.bind_apply, Contract.get_apply,
      Contract.require_apply, Proc.bind, howner]
    rfl

/-! ## A transaction that waits -/

/-- The transaction waits as in `s₀`, and these owners have confirmed it. -/
structure Awaiting (s₀ : Storage) (id : Nat) (who : List Address) (s : Storage) : Prop where
  owners : SameOwners s₀ s
  transaction : s.transactions id = s₀.transactions id
  succeeded : s.succeeded = s₀.succeeded
  confirmed : ∀ a ∈ who, s.confirmations id a = true

/-- It has been executed, once and as it was in `s₀`. -/
structure ExecutedOnce (s₀ : Storage) (id : Nat) (s : Storage) : Prop where
  transaction : s.transactions id = { s₀.transactions id with executed := true }
  succeeded : s.succeededIds = id :: s₀.succeededIds

theorem Awaiting.executedCall (h : Awaiting s₀ id who s) :
    ExecutedOnce s₀ id (s.executedCall id) where
  transaction := by
    simp only [Storage.executedCall, Storage.succeed, Storage.setExecuted, Function.update_self,
      h.transaction]
  succeeded := by
    simp only [Storage.executedCall, Storage.succeed, Storage.setExecuted, Storage.succeededIds,
      List.map_cons, h.succeeded]

theorem Awaiting.confirm (h : Awaiting s₀ id who s) (a : Address) :
    Awaiting s₀ id (a :: who) (s.confirm id a) where
  owners := ⟨h.owners.owners, h.owners.isOwner, h.owners.required⟩
  transaction := h.transaction
  succeeded := h.succeeded
  confirmed b hb := by
    simp only [Storage.confirm, Function.update_self]
    by_cases hba : b = a
    · rw [hba, Function.update_self]
    · rw [Function.update_of_ne hba]
      exact h.confirmed b ((List.mem_cons.mp hb).resolve_left hba)

/-- **One confirmation** executes the transaction, or is one more. -/
theorem awaiting_confirm (howner : s₀.isOwner a = true)
    (hdestination : (s₀.transactions id).destination ≠ 0)
    (hwaits : (s₀.transactions id).executed = false) (h : Awaiting s₀ id who s) :
    ExecutedOnce s₀ id (once (entry this) s (.confirmTransaction a id) [some ()]) ∨
      Awaiting s₀ id (a :: who) (once (entry this) s (.confirmTransaction a id) [some ()]) := by
  have hplay := play_confirmTransaction s a id [some ()]
  have hconfirm := h.confirm a
  unfold once
  rw [entry, hplay]
  by_cases hnew : s.confirmations id a = false
  · rw [if_pos ⟨h.owners.isOwner ▸ howner, h.transaction ▸ hdestination, hnew⟩,
      play_executeTransaction, if_pos (hconfirm.transaction ▸ hwaits)]
    by_cases hquorum : isConfirmed (s.confirm id a) id = true
    · rw [if_pos hquorum]
      exact .inl hconfirm.executedCall
    · rw [if_neg hquorum]
      exact .inr hconfirm
  · -- confirmed before: the call throws
    rw [if_neg fun h => hnew h.2.2]
    refine .inr ⟨h.owners, h.transaction, h.succeeded, fun b hb => ?_⟩
    rcases List.mem_cons.mp hb with rfl | hb
    · exact (Bool.not_eq_false _).mp hnew
    · exact h.confirmed b hb

/-- With a quorum it is executed on demand. -/
theorem awaiting_execute (hs : Consistent s₀) (hwaits : (s₀.transactions id).executed = false)
    (h : Awaiting s₀ id who s) (hnodup : who.Nodup) (howners : ∀ a ∈ who, s₀.isOwner a = true)
    (hle : s₀.required ≤ who.length) :
    ExecutedOnce s₀ id (once (entry this) s (.executeTransaction id) [some ()]) := by
  have hconsistent : Consistent s := hs.congr h.owners
  have hsub : who ⊆ s.owners.filter (s.confirmations id) := by
    intro a ha
    refine List.mem_filter.mpr ⟨(hconsistent.mem_iff a).mpr ?_, h.confirmed a ha⟩
    rw [h.owners.isOwner]
    exact howners a ha
  have hquorum : isConfirmed s id = true := by
    rw [isConfirmed_iff hconsistent, h.owners.required]
    exact hle.trans (hnodup.subperm hsub).length_le
  unfold once
  rw [entry, play_executeTransaction, if_pos (h.transaction ▸ hwaits), if_pos hquorum]
  exact h.executedCall

/-- What is executed stays as it is. -/
theorem executedOnce_call {c : Call} (h : ExecutedOnce s₀ id s)
    (hc : c = .executeTransaction id ∨ ∃ a, c = .confirmTransaction a id) :
    once (entry this) s c [some ()] = s := by
  have hthrow (s' : Storage) (htransaction : s'.transactions id = s.transactions id) :
      (executeTransaction id s').play [some ()] = none := by
    rw [play_executeTransaction, htransaction, h.transaction]
    rfl
  unfold once
  rcases hc with rfl | ⟨a, rfl⟩
  · rw [entry, hthrow s rfl]
  · rw [entry, play_confirmTransaction, hthrow (s.confirm id a) rfl, ite_self]

/-! ## Result -/

theorem awaiting_confirmations (hdestination : (s₀.transactions id).destination ≠ 0)
    (hwaits : (s₀.transactions id).executed = false) (signers : List Address)
    (howners : ∀ a ∈ signers, s₀.isOwner a = true)
    (h : ExecutedOnce s₀ id s ∨ Awaiting s₀ id who s) :
    let s' := runSeq (entry this) s
      (signers.map fun a => (.confirmTransaction a id, [some ()]))
    ExecutedOnce s₀ id s' ∨ Awaiting s₀ id (signers.reverse ++ who) s' := by
  induction signers generalizing s who with
  | nil => exact h
  | cons a signers ih =>
    have hrest := fun b hb => howners b (List.mem_cons_of_mem a hb)
    rw [List.reverse_cons, List.append_assoc]
    refine ih (s := once (entry this) s (.confirmTransaction a id) [some ()]) hrest ?_
    rcases h with h | h
    · rw [executedOnce_call h (.inr ⟨a, rfl⟩)]
      exact .inl h
    · exact awaiting_confirm (howners a List.mem_cons_self) hdestination hwaits h

/-- **A quorum can act.** After every run from the constructor, whatever the called code has done, a
transaction that was submitted and is not executed is executed when as many owners as are required
confirm it one after the other and then somebody asks for it, if its call succeeds and does not come
back into the wallet; owners that have confirmed it already, and confirmations that come too late,
do no harm. The call is the one that was submitted, and it is made once. -/
theorem quorum_executes (this : Address) {owners : List Address} {required : Nat} {s : Storage}
    (hinit : construct owners required = some s) (moves : List (Move Call Unit)) (id : Nat)
    (signers : List Address) : ∀ w, w = (exec (entry this) ⟨s, []⟩ moves).cur →
      (w.transactions id).destination ≠ 0 → (w.transactions id).executed = false →
      signers.Nodup → (∀ a ∈ signers, w.isOwner a = true) → w.required ≤ signers.length →
      let w' := runSeq (entry this) w
        (signers.map (fun a => (.confirmTransaction a id, [some ()])) ++
          [(.executeTransaction id, [some ()])])
      w'.transactions id = { w.transactions id with executed := true } ∧
        w'.succeededIds = id :: w.succeededIds := by
  rintro w rfl hdestination hwaits hnodup howners hle
  have hs : Consistent (exec (entry this) ⟨s, []⟩ moves).cur := consistent_run hinit moves
  generalize (exec (entry this) ⟨s, []⟩ moves).cur = w at *
  intro w'
  have hstart : Awaiting w id [] w := ⟨⟨rfl, rfl, rfl⟩, rfl, rfl, by simp⟩
  have hconfirmed : ExecutedOnce w id (runSeq (entry this) w
      (signers.map fun a => (.confirmTransaction a id, [some ()]))) ∨
      Awaiting w id (signers.reverse ++ []) (runSeq (entry this) w
        (signers.map fun a => (.confirmTransaction a id, [some ()]))) :=
    awaiting_confirmations hdestination hwaits signers howners (.inr hstart)
  have hw' : w' = once (entry this) (runSeq (entry this) w
      (signers.map fun a => (.confirmTransaction a id, [some ()]))) (.executeTransaction id)
      [some ()] := by
    simp only [w', runSeq, List.foldl_append, List.foldl_cons, List.foldl_nil]
  have hend : ExecutedOnce w id w' := by
    rw [hw']
    rcases hconfirmed with h | h
    · rw [executedOnce_call h (.inl rfl)]
      exact h
    · rw [List.append_nil] at h
      refine awaiting_execute hs hwaits h (List.nodup_reverse.mpr hnodup) ?_ ?_
      · exact fun a ha => howners a (List.mem_reverse.mp ha)
      · rw [List.length_reverse]
        exact hle
  exact ⟨hend.transaction, hend.succeeded⟩

/-- Two of three owners confirm a call, which fails. -/
def failedRun : List (Move Call Unit) :=
  [.enter (.submitTransaction 10 50 5 []), .enter (.confirmTransaction 11 0), .answer none]

/-- Both have confirmed it already, and it is executed on demand. -/
theorem quorum_executes_failed :
    let w := (exec (entry 100) ⟨threeOwners, []⟩ failedRun).cur
    let w' := runSeq (entry 100) w
      ([10, 11].map (fun a => (.confirmTransaction a 0, [some ()])) ++
        [(.executeTransaction 0, [some ()])])
    w'.transactions 0 = ⟨50, 5, [], true⟩ ∧ w'.succeededIds = [0] := by
  have hinit : construct [10, 11, 12] 2 = some threeOwners := (Option.some_get _).symm
  have hwaits : (exec (entry 100) ⟨threeOwners, []⟩ failedRun).cur.transactions 0 =
      ⟨50, 5, [], false⟩ := by
    decide +kernel
  have hnone : (exec (entry 100) ⟨threeOwners, []⟩ failedRun).cur.succeededIds = [] := by
    decide +kernel
  have howners : (exec (entry 100) ⟨threeOwners, []⟩ failedRun).cur.owners = [10, 11, 12] := by
    decide +kernel
  have hrequired : (exec (entry 100) ⟨threeOwners, []⟩ failedRun).cur.required = 2 := by
    decide +kernel
  have hs : Consistent (exec (entry 100) ⟨threeOwners, []⟩ failedRun).cur :=
    consistent_run hinit failedRun
  have hquorum := quorum_executes 100 hinit failedRun 0 [10, 11] _ rfl
  generalize (exec (entry 100) ⟨threeOwners, []⟩ failedRun).cur = w at *
  rw [hwaits, hnone] at hquorum
  have hsigners : ∀ a ∈ [10, 11], w.isOwner a = true := by
    intro a ha
    refine (hs.mem_iff a).mp ?_
    rw [howners]
    exact List.mem_append_left [12] ha
  exact hquorum (by decide) rfl (by decide) hsigners hrequired.le

end ChainX.MultiSig
