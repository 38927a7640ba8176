import ChainX.Lib.Journal
import ChainX.MultiSig.Execution

/-!
# The events of the wallet

Whoever reads the events of `Contracts/Base/MultiSigWallet.sol:8-16` can follow the wallet: a replay
of them (`journal`) computes who has confirmed what, who is an owner, the requirement, how many
transactions there are and which calls have succeeded.

* `View` leaves out what no event tells: the destination, value and data of a transaction, and the
  order of the owners.
* `Execution` and `ExecutionFailure` tell how a call ended; a failure changes nothing that is seen.
* A function that changes the requirement on its way, because owners have gone, writes two events
  (`told_removeOwner`).
* `told_execute` is the step for the call of the outside: what happens during it tells its own
  events, and what is undone with it takes them back.

**`log_tells`**: at every moment of every run, whatever the called code does and however deep it
calls the wallet again, the events tell exactly what is stored. A call that throws takes back its
events with the rest.
-/

namespace ChainX.MultiSig

open ChainX.Evm ChainX.Reentry

variable {this : Address} {s s' : Storage}

/-- What the events tell. -/
@[ext] structure View where
  confirmations : Nat → Address → Bool
  isOwner : Address → Bool
  required : Nat
  transactionCount : Nat
  /-- The transactions whose call has succeeded, the last one first. -/
  executions : List Nat

/-- What the events are to tell. -/
def Storage.view (s : Storage) : View where
  confirmations := s.confirmations
  isOwner := s.isOwner
  required := s.required
  transactionCount := s.transactionCount
  executions := s.succeededIds

/-- `confirmations[transactionId][owner] = confirmed`. -/
def View.confirm (v : View) (transactionId : Nat) (owner : Address) (confirmed : Bool) : View :=
  { v with
    confirmations := Function.update v.confirmations transactionId
      (Function.update (v.confirmations transactionId) owner confirmed) }

/-- One event. -/
def View.apply (v : View) : Event → View
  | .confirmation sender transactionId => v.confirm transactionId sender true
  | .revocation sender transactionId => v.confirm transactionId sender false
  | .submission transactionId => { v with transactionCount := transactionId + 1 }
  | .execution transactionId => { v with executions := transactionId :: v.executions }
  | .executionFailure _ => v
  | .deposit _ _ => v
  | .ownerAddition owner => { v with isOwner := Function.update v.isOwner owner true }
  | .ownerRemoval owner => { v with isOwner := Function.update v.isOwner owner false }
  | .requirementChange required => { v with required := required }

/-- What the events of the wallet mean. -/
def journal : Lib.Journal Storage View Event := ⟨Storage.view, Storage.log, View.apply⟩

variable {v : View}

theorem told_execute {id : Nat} (h : journal.Told v s) :
    wp (Boundary.keeping (journal.Told v)) (executeTransaction id)
      (fun _ s' => journal.Told v s') s := by
  rw [wp_executeTransaction]
  refine fun _ => ⟨fun _ => ⟨h.silent rfl rfl, ?_⟩, fun _ => h⟩
  rintro r s' ⟨h', -⟩
  cases r with
  | some _ => exact h'.event rfl rfl
  | none =>
    have hfailed : journal.Told v { s' with log := .executionFailure id :: s'.log } :=
      h'.event rfl rfl
    exact hfailed.silent rfl rfl

/-- The change of the requirement is told before the removal. -/
theorem told_removeOwner {sender owner : Address} (h : journal.Told v s) :
    wp (Boundary.keeping (journal.Told v)) (removeOwner this sender owner)
      (fun _ s' => journal.Told v s') s := by
  simp only [removeOwner, wp_bind, wp_require, wp_get, wp_modify, wp_ite, wp_changeRequirement]
  rintro rfl _ _
  refine ⟨fun _ _ _ => ?_, fun _ => h.event rfl rfl⟩
  have hchanged : journal.Told v { s with
      required := (Lib.swapRemove s.owners owner).length
      log := .requirementChange (Lib.swapRemove s.owners owner).length :: s.log } :=
    h.event rfl rfl
  exact hchanged.event rfl rfl

/-- **Every call tells what it does.** -/
theorem told_entry (c : Call) (h : journal.Told v s) :
    wp (Boundary.keeping (journal.Told v)) (entry this c) (fun _ s' => journal.Told v s') s := by
  cases c with
  | fallback sender value =>
    simp only [entry, fallback, wp_ite, wp_modify, wp_pure]
    exact ⟨fun _ => h.event rfl rfl, fun _ => h⟩
  | addOwner sender owner =>
    simp only [entry, addOwner, wp_bind, wp_require, wp_get, wp_modify]
    exact fun _ _ _ _ => h.event rfl rfl
  | removeOwner sender owner => exact told_removeOwner h
  | replaceOwner sender owner newOwner =>
    simp only [entry, replaceOwner, wp_bind, wp_require, wp_get, wp_modify]
    rintro rfl _ _
    have hremoved : journal.Told v { s with
        isOwner := Function.update s.isOwner owner false
        owners := s.owners.replace owner newOwner
        log := .ownerRemoval owner :: s.log } := h.event rfl rfl
    exact hremoved.event rfl rfl
  | changeRequirement sender required =>
    rw [entry, wp_changeRequirement]
    exact fun _ _ => h.event rfl rfl
  | submitTransaction sender destination value data =>
    rw [entry, wp_void, wp_submitTransaction]
    intro _
    rw [wp_confirmTransaction]
    intro _ _ _
    have hsubmitted : journal.Told v { s with
        transactions := Function.update s.transactions s.transactionCount
          ⟨destination, value, data, false⟩
        transactionCount := s.transactionCount + 1
        log := .submission s.transactionCount :: s.log } := h.event rfl rfl
    exact told_execute (hsubmitted.event rfl rfl)
  | confirmTransaction sender id =>
    rw [entry, wp_confirmTransaction]
    exact fun _ _ _ => told_execute (h.event rfl rfl)
  | revokeConfirmation sender id =>
    rw [entry, wp_revokeConfirmation]
    exact fun _ _ _ => h.event rfl rfl
  | executeTransaction id => exact told_execute h

/-- **The events tell what is stored.** At every moment of every run from the constructor, with
re-entrancy to any depth: from the wallet as it was constructed, the events lead to the
confirmations, the owners, the requirement and the number of transactions that are stored, and to
the calls that have succeeded, in their order. -/
theorem log_tells (this : Address) {owners : List Address} {required : Nat} {s : Storage}
    (hinit : construct owners required = some s) (moves : List (Move Call Unit)) :
    (exec (entry this) ⟨s, []⟩ moves).cur.view =
      journal.replay s.view (exec (entry this) ⟨s, []⟩ moves).cur.log := by
  obtain ⟨-, -, -, -, -, hlog, -⟩ := construct_spec hinit
  have hstart : journal.Told s.view s := Lib.Journal.told_start hlog
  exact exec_keeping (fun c _ hs => told_entry c hs) hstart moves

/-- After `nestedRun`, whose call comes back into the wallet. -/
theorem log_tells_nested :
    let s := (exec (entry 100) ⟨threeOwners, []⟩ nestedRun).cur
    s.view = journal.replay threeOwners.view s.log ∧ s.view.executions = [0] := by
  have hinit : construct [10, 11, 12] 2 = some threeOwners := (Option.some_get _).symm
  exact ⟨log_tells 100 hinit nestedRun, by decide +kernel⟩

end ChainX.MultiSig
