import ChainX.MultiSig.Owners

/-!
# Executing the wallet's transactions

The code called by `executeTransaction` (`MultiSigWallet.sol:220-234`) may call the wallet again, to
any depth, and change the owners, the requirement, confirmations and other transactions before it
returns. The executed flag is what protects a transaction: it is set before the call, and nothing
that happens while it is set touches the transaction or its confirmations (`Settled`, the guarantee
of every call).

* `Sane` is the invariant: a transaction that has succeeded is executed, as it was then, and no
  transaction is there beyond the count.
* `Quorum` speaks of the storage at the moment of the call, which the stack of the machine has for
  every call that is under way.

Results:
* **`execution_safe`**: in every run a transaction has at most one successful call, a call is made
  only with a quorum of the owners of that moment, and what has succeeded stays as it is.
* `transactionCount_le`: the count of transactions does not wrap.
-/

namespace ChainX.MultiSig

open ChainX.Evm ChainX.Reentry

variable {this : Address} {s s' s'' : Storage}

/-! ## Quorum -/

/-- `required` distinct owners have confirmed the transaction. -/
def Quorum (s : Storage) (id : Nat) : Prop :=
  ∃ who : List Address, who.Nodup ∧ s.required ≤ who.length ∧
    ∀ a ∈ who, s.isOwner a = true ∧ s.confirmations id a = true

/-- The loop of `isConfirmed` stops at the requirement only after that many confirmations. -/
theorem le_of_countsTo {confirmed : Address → Bool} {required : Nat} :
    ∀ {owners : List Address} {count : Nat}, countsTo confirmed required owners count = true →
      required ≤ count + (owners.filter confirmed).length
  | [], _, h => by simp [countsTo] at h
  | owner :: rest, count, h => by
    unfold countsTo at h
    by_cases hc : confirmed owner = true
    · simp only [hc, if_true] at h
      rw [List.filter_cons_of_pos hc, List.length_cons]
      split at h
      · omega
      · have := le_of_countsTo h
        omega
    · rw [List.filter_cons_of_neg hc]
      rw [Bool.not_eq_true] at hc
      simp only [hc, Bool.false_eq_true, if_false] at h
      split at h
      · omega
      · exact le_of_countsTo h

theorem quorum_of_isConfirmed (hs : Consistent s) {id : Nat} (h : isConfirmed s id = true) :
    Quorum s id := by
  refine ⟨s.owners.filter (s.confirmations id), hs.nodup.filter _, ?_, fun a ha => ?_⟩
  · have := le_of_countsTo h
    omega
  · rw [List.mem_filter] at ha
    exact ⟨(hs.mem_iff a).mp ha.1, ha.2⟩

/-- Somebody has confirmed a transaction with a quorum. -/
theorem Quorum.confirmed (hs : Consistent s) {id : Nat} (h : Quorum s id) :
    ∃ a, s.confirmations id a = true := by
  obtain ⟨who, -, hle, hwho⟩ := h
  have hone := hs.one_le
  cases who with
  | nil => exact absurd hle (by simp only [List.length_nil]; omega)
  | cons a rest => exact ⟨a, (hwho a List.mem_cons_self).2⟩

/-! ## Invariant and guarantee -/

/-- The ids whose call has succeeded. -/
def Storage.succeededIds (s : Storage) : List Nat := s.succeeded.map Success.transactionId

/-- The books of the transactions, `past` being successes that are there to stay. -/
structure Sane (past : List Success) (s : Storage) : Prop where
  owners : Consistent s
  /-- Slots past the counter were never written. -/
  fresh : ∀ id, s.transactionCount ≤ id →
    s.transactions id = .empty ∧ ∀ a, s.confirmations id a = false
  once : s.succeededIds.Nodup
  /-- What has succeeded is executed, and is as it was then. -/
  final : ∀ r ∈ s.succeeded, r.transaction.executed = true ∧
    s.transactions r.transactionId = r.transaction ∧
    s.confirmations r.transactionId = r.confirmations
  past : past <:+ s.succeeded

/-- An executed transaction is left alone, and its success is neither recorded nor forgotten. -/
structure Settled (s s' : Storage) : Prop where
  transaction : ∀ id, (s.transactions id).executed = true → s'.transactions id = s.transactions id
  confirmations : ∀ id, (s.transactions id).executed = true →
    s'.confirmations id = s.confirmations id
  succeeded : ∀ id, (s.transactions id).executed = true →
    (id ∈ s'.succeededIds ↔ id ∈ s.succeededIds)

theorem Settled.refl (s : Storage) : Settled s s :=
  ⟨fun _ _ => rfl, fun _ _ => rfl, fun _ _ => Iff.rfl⟩

theorem Settled.trans (h : Settled s s') (h' : Settled s' s'') : Settled s s'' := by
  have hkeep : ∀ id, (s.transactions id).executed = true → (s'.transactions id).executed = true :=
    fun id hid => by rw [h.transaction id hid]; exact hid
  refine ⟨fun id hid => ?_, fun id hid => ?_, fun id hid => ?_⟩
  · rw [h'.transaction id (hkeep id hid), h.transaction id hid]
  · rw [h'.confirmations id (hkeep id hid), h.confirmations id hid]
  · rw [h'.succeeded id (hkeep id hid), h.succeeded id hid]

/-- The step touches no transaction but `id`. -/
structure Touches (id : Nat) (s s' : Storage) : Prop where
  transaction : ∀ i, i ≠ id → s'.transactions i = s.transactions i
  confirmations : ∀ i, i ≠ id → s'.confirmations i = s.confirmations i
  succeeded : ∀ i, i ≠ id → (i ∈ s'.succeededIds ↔ i ∈ s.succeededIds)

/-- What is not executed may be touched. -/
theorem Settled.touch {id : Nat} (h : Settled s s') (hid : (s.transactions id).executed = false)
    (ht : Touches id s' s'') : Settled s s'' := by
  have hne : ∀ i, (s.transactions i).executed = true → i ≠ id := by
    rintro i hi rfl
    rw [hid] at hi
    exact Bool.false_ne_true hi
  refine ⟨fun i hi => ?_, fun i hi => ?_, fun i hi => ?_⟩
  · rw [ht.transaction i (hne i hi), h.transaction i hi]
  · rw [ht.confirmations i (hne i hi), h.confirmations i hi]
  · rw [ht.succeeded i (hne i hi), h.succeeded i hi]

/-- What is not executed has not succeeded. -/
theorem Sane.not_succeeded {past : List Success} (hs : Sane past s) {id : Nat}
    (hid : (s.transactions id).executed = false) : id ∉ s.succeededIds := by
  intro h
  obtain ⟨r, hr, rfl⟩ := List.mem_map.mp h
  obtain ⟨hexec, htx, -⟩ := hs.final r hr
  rw [htx, hexec] at hid
  exact Bool.false_ne_true hid.symm

/-- **A step that touches `id` only** keeps the books when `id` has not succeeded and is, after it,
still unwritten or below the counter. -/
theorem Sane.touch {past : List Success} (hs : Sane past s) {id : Nat}
    (hid : id ∉ s.succeededIds) (ht : Touches id s s') (howners : SameOwners s s')
    (hsucceeded : s'.succeeded = s.succeeded) (hcount : s.transactionCount ≤ s'.transactionCount)
    (hlt : id < s'.transactionCount) : Sane past s' := by
  refine ⟨hs.owners.congr howners, fun i hi => ?_, ?_, fun r hr => ?_, ?_⟩
  · rw [ht.transaction i (by omega), ht.confirmations i (by omega)]
    exact hs.fresh i (by omega)
  · unfold Storage.succeededIds
    rw [hsucceeded]
    exact hs.once
  · rw [hsucceeded] at hr
    have hne : r.transactionId ≠ id := fun e => hid (List.mem_map.mpr ⟨r, hr, e⟩)
    rw [ht.transaction _ hne, ht.confirmations _ hne]
    exact hs.final r hr
  · rw [hsucceeded]
    exact hs.past

/-- A slot that was written is below the counter. -/
theorem Sane.lt_of_confirmed {past : List Success} (hs : Sane past s) {id : Nat} {a : Address}
    (h : s.confirmations id a = true) : id < s.transactionCount := by
  by_contra hle
  rw [(hs.fresh id (Nat.le_of_not_lt hle)).2 a] at h
  exact Bool.false_ne_true h

theorem Sane.lt_of_destination {past : List Success} (hs : Sane past s) {id : Nat}
    (h : (s.transactions id).destination ≠ 0) : id < s.transactionCount := by
  by_contra hle
  rw [(hs.fresh id (Nat.le_of_not_lt hle)).1] at h
  exact h rfl

/-! ## The steps -/

theorem touches_setExecuted (s : Storage) (id : Nat) (executed : Bool) (log : List Event) :
    Touches id s ({ s with log := log }.setExecuted id executed) :=
  ⟨fun _ hi => Function.update_of_ne hi _ _, fun _ _ => rfl, fun _ _ => Iff.rfl⟩

theorem touches_confirmations (s : Storage) (id : Nat) (who : Address → Bool) (log : List Event) :
    Touches id s { s with confirmations := Function.update s.confirmations id who, log := log } :=
  ⟨fun _ _ => rfl, fun _ hi => Function.update_of_ne hi _ _, fun _ _ => Iff.rfl⟩

theorem touches_submit (s : Storage) (tx : Transaction) (log : List Event) :
    Touches s.transactionCount s
      { s with
        transactions := Function.update s.transactions s.transactionCount tx
        transactionCount := s.transactionCount + 1
        log := log } :=
  ⟨fun _ hi => Function.update_of_ne hi _ _, fun _ _ => rfl, fun _ _ => Iff.rfl⟩

theorem touches_succeed (s : Storage) (id : Nat) (log : List Event) :
    Touches id s { s.succeed id with log := log } := by
  refine ⟨fun _ _ => rfl, fun _ _ => rfl, fun i hi => ?_⟩
  unfold Storage.succeededIds Storage.succeed
  rw [List.map_cons, List.mem_cons, or_iff_right hi]

/-- Recording the success of an executed transaction that had none. -/
theorem Sane.succeed {past : List Success} (hs : Sane past s) {id : Nat} (hid : id ∉ s.succeededIds)
    (hexec : (s.transactions id).executed = true) (log : List Event) :
    Sane past { s.succeed id with log := log } := by
  refine ⟨hs.owners.congr ⟨rfl, rfl, rfl⟩, hs.fresh, ?_, fun r hr => ?_, ?_⟩
  · exact List.nodup_cons.mpr ⟨hid, hs.once⟩
  · rcases List.mem_cons.mp hr with rfl | hr
    · exact ⟨hexec, rfl, rfl⟩
    · exact hs.final r hr
  · exact hs.past.trans (List.suffix_cons _ _)

/-- A change of the owners leaves the transactions alone. -/
theorem OwnerChange.sane {past : List Success} {c : Call} (h : OwnerChange this c s s')
    (hs : Sane past s) : Sane past s' ∧ Settled s s' := by
  have howners := h.consistent hs.owners
  cases h <;>
    exact ⟨⟨howners, hs.fresh, hs.once, hs.final, hs.past⟩,
      fun _ _ => rfl, fun _ _ => rfl, fun _ _ => Iff.rfl⟩

/-- A call is made for a transaction of this storage with a quorum. -/
def Called (q : Query) (s : Storage) : Prop :=
  Quorum s q.transactionId ∧ q = s.query q.transactionId

/-- The boundary at which the outside keeps the books and leaves what is executed alone. -/
abbrev guarded (past : List Success) : Boundary Storage Query Unit :=
  boundary Rules.free (C := Call) (Sane past) Settled Called

/-- **`executeTransaction` keeps the books.** It may be reached from `s0` by steps of the same
call. -/
theorem sane_execute {past : List Success} {s0 : Storage} {id : Nat}
    (hs : (s.transactions id).executed = false →
      Sane past s ∧ Settled s0 s ∧ (s0.transactions id).executed = false) :
    wp (guarded past) (executeTransaction id) (fun _ s' => Sane past s' ∧ Settled s0 s') s := by
  rw [wp_executeTransaction]
  intro hid
  obtain ⟨hsane, hsettled, hid0⟩ := hs hid
  refine ⟨fun hconf => ?_, fun _ => ⟨hsane, hsettled⟩⟩
  have hquorum : Quorum s id := quorum_of_isConfirmed hsane.owners hconf
  obtain ⟨a, ha⟩ := hquorum.confirmed hsane.owners
  have hlt := hsane.lt_of_confirmed ha
  have hnot := hsane.not_succeeded hid
  have hcall : Sane past (s.setExecuted id true) :=
    hsane.touch hnot (touches_setExecuted s id true s.log) ⟨rfl, rfl, rfl⟩ rfl (Nat.le_refl _) hlt
  have hflag : ((s.setExecuted id true).transactions id).executed = true := by
    simp [Storage.setExecuted]
  have hquery : s.query id = (s.setExecuted id true).query id := by
    simp [Storage.query, Storage.setExecuted]
  refine ⟨⟨hcall, hquorum, hquery⟩, ?_⟩
  rintro r s' ⟨hsane', hback, -⟩
  -- while the flag was set, nobody touched the transaction or recorded its success
  have hflag' : (s'.transactions id).executed = true := by
    rw [hback.transaction id hflag]
    exact hflag
  have hnot' : id ∉ s'.succeededIds := by
    rw [hback.succeeded id hflag]
    exact hnot
  have hsettled' : Settled s0 s' :=
    (hsettled.touch hid0 (touches_setExecuted s id true s.log)).trans hback
  cases r with
  | some _ =>
    exact ⟨hsane'.succeed hnot' hflag' _, hsettled'.touch hid0 (touches_succeed s' id _)⟩
  | none =>
    have hlt' : id < s'.transactionCount := by
      by_contra hle
      rw [(hsane'.fresh id (Nat.le_of_not_lt hle)).1] at hflag'
      exact Bool.false_ne_true hflag'
    have hlog : Sane past { s' with log := .executionFailure id :: s'.log } :=
      ⟨hsane'.owners.congr ⟨rfl, rfl, rfl⟩, hsane'.fresh, hsane'.once, hsane'.final, hsane'.past⟩
    exact ⟨hlog.touch hnot' (touches_setExecuted _ id false _) ⟨rfl, rfl, rfl⟩ rfl (Nat.le_refl _)
      hlt', hsettled'.touch hid0 (touches_setExecuted s' id false _)⟩

/-- **Every call keeps the books** and leaves what is executed alone. -/
theorem sane_entry {past : List Success} (c : Call) (hs : Sane past s) :
    wp (guarded past) (entry this c) (fun _ s' => Sane past s' ∧ Settled s s') s := by
  cases c with
  | fallback sender value =>
    simp only [entry, fallback, wp_ite, wp_modify, wp_pure]
    refine ⟨fun _ => ⟨?_, fun _ _ => rfl, fun _ _ => rfl, fun _ _ => Iff.rfl⟩,
      fun _ => ⟨hs, Settled.refl s⟩⟩
    exact ⟨hs.owners.congr ⟨rfl, rfl, rfl⟩, hs.fresh, hs.once, hs.final, hs.past⟩
  | addOwner sender owner => exact wp_mono wp_addOwner fun _ _ h => h.sane hs
  | removeOwner sender owner => exact wp_mono wp_removeOwner fun _ _ h => h.sane hs
  | replaceOwner sender owner newOwner => exact wp_mono wp_replaceOwner fun _ _ h => h.sane hs
  | changeRequirement sender required =>
    rw [entry, wp_changeRequirement]
    rintro rfl hvalid
    have h : OwnerChange sender (.changeRequirement sender required) s _ :=
      .changeRequirement required (.requirementChange required :: s.log) hvalid
    exact h.sane hs
  | submitTransaction sender destination value data =>
    rw [entry, wp_void, wp_submitTransaction]
    intro _
    rw [wp_confirmTransaction]
    intro _ _ _
    have hid : (s.transactions s.transactionCount).executed = false := by
      rw [(hs.fresh _ (Nat.le_refl _)).1]
      rfl
    have ht := touches_submit s ⟨destination, value, data, false⟩
      (.submission s.transactionCount :: s.log)
    have hadd := hs.touch (hs.not_succeeded hid) ht ⟨rfl, rfl, rfl⟩ rfl (Nat.le_succ _)
      (Nat.lt_succ_self _)
    refine sane_execute fun _ => ⟨?_, ?_, hid⟩
    · exact hadd.touch (hs.not_succeeded hid) (touches_confirmations _ _ _ _) ⟨rfl, rfl, rfl⟩ rfl
        (Nat.le_refl _) (Nat.lt_succ_self _)
    · exact ((Settled.refl s).touch hid ht).touch hid (touches_confirmations _ _ _ _)
  | confirmTransaction sender id =>
    rw [entry, wp_confirmTransaction]
    intro _ hdest _
    refine sane_execute fun hid => ⟨?_, (Settled.refl s).touch hid
      (touches_confirmations s id _ _), hid⟩
    exact hs.touch (hs.not_succeeded hid) (touches_confirmations s id _ _) ⟨rfl, rfl, rfl⟩ rfl
      (Nat.le_refl _) (hs.lt_of_destination hdest)
  | revokeConfirmation sender id =>
    rw [entry, wp_revokeConfirmation]
    intro _ hconf hid
    refine ⟨?_, (Settled.refl s).touch hid (touches_confirmations s id _ _)⟩
    exact hs.touch (hs.not_succeeded hid) (touches_confirmations s id _ _) ⟨rfl, rfl, rfl⟩ rfl
      (Nat.le_refl _) (hs.lt_of_confirmed hconf)
  | executeTransaction id => exact sane_execute fun hid => ⟨hs, Settled.refl s, hid⟩

/-! ## Runs -/

/-- The books are kept over every run, and every waiting call was made with a quorum. -/
theorem sane_run (this : Address) {past : List Success} (hs : Sane past s)
    (moves : List (Move Call Unit)) :
    Sane past (exec (entry this) ⟨s, []⟩ moves).cur ∧
      ∀ F ∈ (exec (entry this) ⟨s, []⟩ moves).stack, Sane past F.saved ∧ Called F.query F.saved :=
  exec_invariant (fun s => Settled.refl s) (fun _ _ _ h h' => h.trans h')
    (fun c _ _ hs => sane_entry c hs) hs (runs_free _ moves _)

theorem sane_construct {owners : List Address} {required : Nat}
    (hinit : construct owners required = some s) : Sane [] s := by
  obtain ⟨howners, -, hempty, hnone, hsucceeded, -⟩ := construct_spec hinit
  refine ⟨howners, fun id _ => ⟨hempty id, hnone id⟩, ?_, fun r hr => ?_, List.nil_suffix⟩
  · simp [Storage.succeededIds, hsucceeded]
  · rw [hsucceeded] at hr
    exact absurd hr List.not_mem_nil

/-! ## The number of transactions -/

/-- The submissions among the calls. -/
def Call.submits : Call → Nat
  | .submitTransaction .. => 1
  | _ => 0

theorem count_execute {n id : Nat} (h : s.transactionCount ≤ n) :
    wp (Boundary.keeping fun s => s.transactionCount ≤ n) (executeTransaction id)
      (fun _ s' => s'.transactionCount ≤ n) s := by
  rw [wp_executeTransaction]
  refine fun _ => ⟨fun _ => ⟨h, ?_⟩, fun _ => h⟩
  rintro r s' ⟨h', -⟩
  cases r <;> exact h'

/-- A call submits one transaction at most, and what is called inside of it counts for itself. -/
theorem count_entry (n : Nat) (c : Call) (s : Storage) (h : s.transactionCount + c.submits ≤ n) :
    wp (Boundary.keeping fun s => s.transactionCount ≤ n) (entry this c)
      (fun _ s' => s'.transactionCount ≤ n) s := by
  cases c with
  | fallback sender value =>
    simp only [entry, fallback, wp_ite, wp_modify, wp_pure]
    exact ⟨fun _ => h, fun _ => h⟩
  | addOwner sender owner =>
    simp only [entry, addOwner, wp_bind, wp_require, wp_get, wp_modify]
    exact fun _ _ _ _ => h
  | removeOwner sender owner =>
    simp only [entry, removeOwner, wp_bind, wp_require, wp_get, wp_modify, wp_ite,
      wp_changeRequirement]
    exact fun _ _ _ => ⟨fun _ _ _ => h, fun _ => h⟩
  | replaceOwner sender owner newOwner =>
    simp only [entry, replaceOwner, wp_bind, wp_require, wp_get, wp_modify]
    exact fun _ _ _ => h
  | changeRequirement sender required =>
    rw [entry, wp_changeRequirement]
    exact fun _ _ => h
  | submitTransaction sender destination value data =>
    rw [entry, wp_void, wp_submitTransaction]
    intro _
    rw [wp_confirmTransaction]
    exact fun _ _ _ => count_execute h
  | confirmTransaction sender id =>
    rw [entry, wp_confirmTransaction]
    exact fun _ _ _ => count_execute h
  | revokeConfirmation sender id =>
    rw [entry, wp_revokeConfirmation]
    exact fun _ _ _ => h
  | executeTransaction id => exact count_execute h

/-- **The count does not wrap.** At every moment of every run from the constructor there are at most
as many transactions as calls of `submitTransaction` were entered: the `uint` of the source holds
the same number, unless `2 ^ 256` of them were. -/
theorem transactionCount_le (this : Address) {owners : List Address} {required : Nat}
    {s : Storage} (hinit : construct owners required = some s) (moves : List (Move Call Unit)) :
    (exec (entry this) ⟨s, []⟩ moves).cur.transactionCount ≤
      (moves.map (Move.cost Call.submits)).sum := by
  obtain ⟨-, -, -, -, -, -, hzero⟩ := construct_spec hinit
  have hrun : (exec (entry this) ⟨s, []⟩ moves).cur.transactionCount ≤
      s.transactionCount + (moves.map (Move.cost Call.submits)).sum :=
    exec_costs (f := Storage.transactionCount) count_entry s moves
  rwa [hzero, Nat.zero_add] at hrun

/-! ## Safety -/

/-- **Execution is safe.** At every moment of every run from the constructor, whatever the called
code does:
no transaction has succeeded twice;
every call that is under way was made for the transaction as stored, with a quorum of the owners of
that moment;
every transaction that has succeeded is executed, and it and its confirmations are as they were when
its call returned;
and what had succeeded when no call was under way stays so. -/
theorem execution_safe (this : Address) {owners : List Address} {required : Nat} {s : Storage}
    (hinit : construct owners required = some s) (moves : List (Move Call Unit)) :
    (exec (entry this) ⟨s, []⟩ moves).cur.succeededIds.Nodup ∧
      (∀ F ∈ (exec (entry this) ⟨s, []⟩ moves).stack,
        Quorum F.saved F.query.transactionId ∧ F.query = F.saved.query F.query.transactionId) ∧
      (∀ r ∈ (exec (entry this) ⟨s, []⟩ moves).cur.succeeded, r.transaction.executed = true ∧
        (exec (entry this) ⟨s, []⟩ moves).cur.transactions r.transactionId = r.transaction ∧
        (exec (entry this) ⟨s, []⟩ moves).cur.confirmations r.transactionId = r.confirmations) ∧
      ∀ before after, moves = before ++ after → (exec (entry this) ⟨s, []⟩ before).stack = [] →
        (exec (entry this) ⟨s, []⟩ before).cur.succeeded <:+
          (exec (entry this) ⟨s, []⟩ moves).cur.succeeded := by
  have hstart : Sane [] s := sane_construct hinit
  obtain ⟨hrun, hcalls⟩ := sane_run this hstart moves
  refine ⟨hrun.once, fun F hF => (hcalls F hF).2, hrun.final, ?_⟩
  rintro before after rfl hidle
  -- restart the run where it was idle, with what had succeeded by then
  generalize hmid : exec (entry this) ⟨s, []⟩ before = mid at hidle ⊢
  obtain ⟨cur, stack⟩ := mid
  subst hidle
  have hcur : Sane [] cur := by
    have := (sane_run this hstart before).1
    rwa [hmid] at this
  have hpast : Sane cur.succeeded cur :=
    ⟨hcur.owners, hcur.fresh, hcur.once, hcur.final, List.suffix_refl _⟩
  have hrest := (sane_run this hpast after).1.past
  unfold exec at hmid ⊢ hrest
  rwa [List.foldl_append, hmid]

/-- Two of three owners send a call to account `50`, which tries to have it executed again before it
returns. -/
def nestedRun : List (Move Call Unit) :=
  [.enter (.submitTransaction 10 50 5 []), .enter (.confirmTransaction 11 0),
    .enter (.executeTransaction 0), .answer (some ())]

theorem execution_safe_nested :
    construct [10, 11, 12] 2 = some threeOwners ∧
      (exec (entry 100) ⟨threeOwners, []⟩ nestedRun).cur.succeededIds = [0] ∧
      (exec (entry 100) ⟨threeOwners, []⟩ nestedRun).cur.succeededIds.Nodup := by
  have hinit : construct [10, 11, 12] 2 = some threeOwners := (Option.some_get _).symm
  exact ⟨hinit, by decide +kernel, (execution_safe 100 hinit nestedRun).1⟩

end ChainX.MultiSig
