import ChainX.MultiSig.Wallet

/-!
# The owners of the wallet

`addOwner`, `removeOwner`, `replaceOwner` and `changeRequirement` (`MultiSigWallet.sol:118-178`),
which only the wallet itself can call, in the runs of all functions.

`OwnerChange` says once what a call can do to the owners; every transaction function leaves them
alone, save for what happens during its external call (`wp_entry`).

* `Consistent` is the invariant, and `construct_spec` where it starts: the constructor throws unless
  it holds.
* `AdmitsNull` is a call of `replaceOwner` for the null address that passes the checks there are.

Results:
* **`owners_consistent`**: in every run `owners` and `isOwner` say the same and
  `1 ≤ required ≤ owners.length ≤ 50`; `removeOwner` throws or removes exactly its owner.
* `replaceOwner` is the one function that lets the null address in (`null_owner`).
  **`quorum_of_notNull`**: in every run in which it is not called so, the owners that can act are
  enough for a quorum.
-/

namespace ChainX.MultiSig

open ChainX.Evm ChainX.Lib ChainX.Reentry

variable {this : Address} {B : Boundary Storage Query Unit} {s s' : Storage}

/-! ## What a call does to the owners -/

/-- `s'` is `s` after the call, which passed its checks and changed the owners or the
requirement. -/
inductive OwnerChange (this : Address) : Call → Storage → Storage → Prop
  | addOwner {s : Storage} (owner : Address) (log : List Event) (hnew : s.isOwner owner = false)
      (hne : owner ≠ 0) (hvalid : ValidRequirement (s.owners.length + 1) s.required) :
      OwnerChange this (.addOwner this owner) s
        { s with
          isOwner := Function.update s.isOwner owner true
          owners := s.owners ++ [owner]
          log := log }
  | removeOwner {s : Storage} (owner : Address) (required : Nat) (log : List Event)
      (howner : s.isOwner owner = true)
      (hrequired : s.required ≤ (swapRemove s.owners owner).length ∧ required = s.required ∨
        ValidRequirement (swapRemove s.owners owner).length required ∧
          required = (swapRemove s.owners owner).length) :
      OwnerChange this (.removeOwner this owner) s
        { s with
          isOwner := Function.update s.isOwner owner false
          owners := swapRemove s.owners owner
          required := required
          log := log }
  | replaceOwner {s : Storage} (owner newOwner : Address) (log : List Event)
      (howner : s.isOwner owner = true) (hnew : s.isOwner newOwner = false) :
      OwnerChange this (.replaceOwner this owner newOwner) s
        { s with
          isOwner := Function.update (Function.update s.isOwner owner false) newOwner true
          owners := s.owners.replace owner newOwner
          log := log }
  | changeRequirement {s : Storage} (required : Nat) (log : List Event)
      (hvalid : ValidRequirement s.owners.length required) :
      OwnerChange this (.changeRequirement this required) s
        { s with required := required, log := log }

/-- The owners and the requirement are the same. -/
structure SameOwners (s s' : Storage) : Prop where
  owners : s'.owners = s.owners
  isOwner : s'.isOwner = s.isOwner
  required : s'.required = s.required

theorem wp_addOwner {sender owner : Address} :
    wp B (addOwner this sender owner)
      (fun _ s' => OwnerChange this (.addOwner sender owner) s s') s := by
  simp only [addOwner, wp_bind, wp_require, wp_get, wp_modify]
  rintro rfl hnew hne hvalid
  exact .addOwner owner _ hnew hne hvalid

theorem wp_changeRequirement {sender : Address} {required : Nat} {post : Unit → Storage → Prop} :
    wp B (changeRequirement this sender required) post s ↔
      (sender = this → ValidRequirement s.owners.length required →
        post () { s with required := required, log := .requirementChange required :: s.log }) := by
  simp only [changeRequirement, wp_bind, wp_require, wp_get, wp_modify]

theorem wp_removeOwner {sender owner : Address} :
    wp B (removeOwner this sender owner)
      (fun _ s' => OwnerChange this (.removeOwner sender owner) s s') s := by
  simp only [removeOwner, wp_bind, wp_require, wp_get, wp_modify, wp_ite, wp_changeRequirement]
  rintro rfl howner _
  refine ⟨fun _ _ hvalid => ?_, fun hle => ?_⟩
  · exact .removeOwner owner _ _ howner (.inr ⟨hvalid, rfl⟩)
  · exact .removeOwner owner _ _ howner (.inl ⟨Nat.le_of_not_lt hle, rfl⟩)

theorem wp_replaceOwner {sender owner newOwner : Address} :
    wp B (replaceOwner this sender owner newOwner)
      (fun _ s' => OwnerChange this (.replaceOwner sender owner newOwner) s s') s := by
  simp only [replaceOwner, wp_bind, wp_require, wp_get, wp_modify]
  rintro rfl howner hnew
  exact .replaceOwner owner newOwner _ howner hnew

/-! ## The transaction functions -/

/-- **The rule for `executeTransaction`.** -/
theorem wp_executeTransaction {id : Nat} {post : Unit → Storage → Prop} :
    wp B (executeTransaction id) post s ↔ ((s.transactions id).executed = false →
      (isConfirmed s id = true → B.out (s.query id) (s.setExecuted id true) ∧ ∀ r s',
        B.back (s.query id) (s.setExecuted id true) r s' → match r with
          | some () => post () { s'.succeed id with log := .execution id :: s'.log }
          | none => post () ({ s' with log := .executionFailure id :: s'.log }.setExecuted id
              false)) ∧
      (isConfirmed s id = false → post () s)) := by
  simp only [executeTransaction, wp_bind, wp_get, wp_require, wp_ite, wp_modify, wp_tryCall,
    wp_pure, Bool.not_eq_true]
  refine imp_congr Iff.rfl (and_congr (imp_congr Iff.rfl (and_congr Iff.rfl ?_)) Iff.rfl)
  refine forall_congr' fun r => forall_congr' fun s' => imp_congr Iff.rfl ?_
  cases r <;> exact Iff.rfl

theorem wp_submitTransaction {sender destination : Address} {value : Uint256} {data : List UInt8}
    {post : Nat → Storage → Prop} :
    wp B (submitTransaction sender destination value data) post s ↔ (destination ≠ 0 →
      wp B (confirmTransaction sender s.transactionCount)
        (fun _ s' => post s.transactionCount s')
        { s with
          transactions := Function.update s.transactions s.transactionCount
            ⟨destination, value, data, false⟩
          transactionCount := s.transactionCount + 1
          log := .submission s.transactionCount :: s.log }) := by
  simp only [submitTransaction, addTransaction, wp_bind, wp_require, wp_get, wp_modify, wp_pure]

/-- The confirmation that `confirmTransaction` adds before it tries to execute. -/
theorem wp_confirmTransaction {sender : Address} {id : Nat} {post : Unit → Storage → Prop} :
    wp B (confirmTransaction sender id) post s ↔ (s.isOwner sender = true →
      (s.transactions id).destination ≠ 0 → s.confirmations id sender = false →
      wp B (executeTransaction id) post
        { s with
          confirmations := Function.update s.confirmations id
            (Function.update (s.confirmations id) sender true)
          log := .confirmation sender id :: s.log }) := by
  simp only [confirmTransaction, wp_bind, wp_require, wp_get, wp_modify]

theorem wp_revokeConfirmation {sender : Address} {id : Nat} {post : Unit → Storage → Prop} :
    wp B (revokeConfirmation sender id) post s ↔ (s.isOwner sender = true →
      s.confirmations id sender = true → (s.transactions id).executed = false →
      post () { s with
        confirmations := Function.update s.confirmations id
          (Function.update (s.confirmations id) sender false)
        log := .revocation sender id :: s.log }) := by
  simp only [revokeConfirmation, wp_bind, wp_require, wp_get, wp_modify]

section Keep

variable {P : Storage → Prop}

/-- What depends on the owners only, and the outside keeps, `executeTransaction` keeps. -/
theorem wp_executeTransaction_keeps {id : Nat} (hsame : ∀ s s', SameOwners s s' → P s → P s')
    (hout : ∀ q s', P s' → B.out q s') (hback : ∀ q s' r s'', P s' → B.back q s' r s'' → P s'')
    (hs : P s) : wp B (executeTransaction id) (fun _ s' => P s') s := by
  rw [wp_executeTransaction]
  refine fun _ => ⟨fun _ => ?_, fun _ => hs⟩
  have hcall : P (s.setExecuted id true) := hsame s _ ⟨rfl, rfl, rfl⟩ hs
  refine ⟨hout _ _ hcall, fun r s' hb => ?_⟩
  have hs' := hback _ _ _ _ hcall hb
  cases r with
  | none => exact hsame s' _ ⟨rfl, rfl, rfl⟩ hs'
  | some _ => exact hsame s' _ ⟨rfl, rfl, rfl⟩ hs'

/-- **The rule for what depends on the owners only**: it has to survive a change of the owners by
the call itself, and what happens during an external call. -/
theorem wp_entry {c : Call} (hsame : ∀ s s', SameOwners s s' → P s → P s')
    (hchange : ∀ s', OwnerChange this c s s' → P s') (hout : ∀ q s', P s' → B.out q s')
    (hback : ∀ q s' r s'', P s' → B.back q s' r s'' → P s'') (hs : P s) :
    wp B (entry this c) (fun _ s' => P s') s := by
  cases c with
  | fallback sender value =>
    simp only [entry, fallback, wp_ite, wp_modify, wp_pure]
    exact ⟨fun _ => hsame s _ ⟨rfl, rfl, rfl⟩ hs, fun _ => hs⟩
  | addOwner sender owner => exact wp_mono wp_addOwner fun _ s' h => hchange s' h
  | removeOwner sender owner => exact wp_mono wp_removeOwner fun _ s' h => hchange s' h
  | replaceOwner sender owner newOwner =>
    exact wp_mono wp_replaceOwner fun _ s' h => hchange s' h
  | changeRequirement sender required =>
    rw [entry, wp_changeRequirement]
    rintro rfl hvalid
    exact hchange _ (.changeRequirement required _ hvalid)
  | submitTransaction sender destination value data =>
    rw [entry, wp_void, wp_submitTransaction]
    intro _
    rw [wp_confirmTransaction]
    exact fun _ _ _ => wp_executeTransaction_keeps hsame hout hback
      (hsame s _ ⟨rfl, rfl, rfl⟩ hs)
  | confirmTransaction sender id =>
    rw [entry, wp_confirmTransaction]
    exact fun _ _ _ => wp_executeTransaction_keeps hsame hout hback
      (hsame s _ ⟨rfl, rfl, rfl⟩ hs)
  | revokeConfirmation sender id =>
    rw [entry, wp_revokeConfirmation]
    exact fun _ _ _ => hsame s _ ⟨rfl, rfl, rfl⟩ hs
  | executeTransaction id => exact wp_executeTransaction_keeps hsame hout hback hs

end Keep

/-! ## Consistency -/

/-- `owners` and `isOwner` say the same, and the requirement can be met. -/
structure Consistent (s : Storage) : Prop where
  nodup : s.owners.Nodup
  mem_iff : ∀ a, a ∈ s.owners ↔ s.isOwner a = true
  one_le : 1 ≤ s.required
  required_le : s.required ≤ s.owners.length
  length_le : s.owners.length ≤ MAX_OWNER_COUNT

theorem registerOwners_spec : ∀ {owners : List Address} {isOwner isOwner' : Address → Bool},
    registerOwners owners isOwner = some isOwner' → owners.Nodup ∧ 0 ∉ owners ∧
      (∀ a ∈ owners, isOwner a = false) ∧
      ∀ a, isOwner' a = true ↔ a ∈ owners ∨ isOwner a = true
  | [], _, _, h => by
    cases h
    simp
  | owner :: rest, isOwner, isOwner', h => by
    unfold registerOwners at h
    split at h
    · exact absurd h (by simp)
    · rename_i hno
      rw [not_or, Bool.not_eq_true] at hno
      obtain ⟨hnodup, hzero, hfree, hiff⟩ := registerOwners_spec h
      have hnot : owner ∉ rest := fun hmem => by simpa using hfree owner hmem
      refine ⟨List.nodup_cons.mpr ⟨hnot, hnodup⟩, ?_, ?_, fun a => ?_⟩
      · rw [List.mem_cons, not_or]
        exact ⟨Ne.symm hno.2, hzero⟩
      · intro a ha
        rcases List.mem_cons.mp ha with rfl | ha
        · exact hno.1
        · have := hfree a ha
          have hne : a ≠ owner := fun e => hnot (e ▸ ha)
          rwa [Function.update_of_ne hne] at this
      · rw [hiff a, List.mem_cons]
        by_cases ha : a = owner
        · subst ha
          simp
        · simp [ha]

/-- **The constructor** accepts consistent owners only, and no null address. -/
theorem construct_spec {owners : List Address} {required : Nat}
    (h : construct owners required = some s) :
    Consistent s ∧ 0 ∉ s.owners ∧ (∀ id, s.transactions id = .empty) ∧
      (∀ id a, s.confirmations id a = false) ∧ s.succeeded = [] ∧ s.log = [] ∧
      s.transactionCount = 0 := by
  unfold construct at h
  split at h
  · rename_i hvalid
    rw [Option.map_eq_some_iff] at h
    obtain ⟨isOwner, hreg, rfl⟩ := h
    obtain ⟨hnodup, hzero, -, hiff⟩ := registerOwners_spec hreg
    refine ⟨⟨hnodup, fun a => ?_, Nat.one_le_iff_ne_zero.mpr hvalid.required_ne_zero, hvalid.le,
      hvalid.max⟩, hzero, fun _ => rfl, fun _ _ => rfl, rfl, rfl, rfl⟩
    rw [hiff a]
    simp
  · exact absurd h (by simp)

theorem Consistent.congr (hs : Consistent s) (h : SameOwners s s') : Consistent s' := by
  obtain ⟨h1, h2, h3⟩ := h
  refine ⟨?_, ?_, ?_, ?_, ?_⟩
  · rw [h1]; exact hs.nodup
  · rw [h1, h2]; exact hs.mem_iff
  · rw [h3]; exact hs.one_le
  · rw [h1, h3]; exact hs.required_le
  · rw [h1]; exact hs.length_le

/-- **Every change of the owners keeps them consistent.** -/
theorem OwnerChange.consistent {c : Call} (h : OwnerChange this c s s') (hs : Consistent s) :
    Consistent s' := by
  cases h with
  | addOwner owner log hnew hne hvalid =>
    have hnot : owner ∉ s.owners := by
      rw [hs.mem_iff, hnew]
      exact Bool.false_ne_true
    refine ⟨?_, fun a => ?_, hs.one_le, ?_, ?_⟩
    · rw [List.nodup_append]
      refine ⟨hs.nodup, List.nodup_singleton owner, fun a ha b hb => ?_⟩
      rintro rfl
      exact hnot (List.mem_singleton.mp hb ▸ ha)
    · rw [List.mem_append, List.mem_singleton, hs.mem_iff]
      by_cases ha : a = owner
      · simp [ha]
      · simp [ha]
    · rw [List.length_append]
      exact Nat.le_add_right_of_le hs.required_le
    · rw [List.length_append]
      exact hvalid.max
  | removeOwner owner required log howner hrequired =>
    have hmem : owner ∈ s.owners := (hs.mem_iff owner).mpr howner
    have hlength := length_swapRemove hs.nodup hmem
    refine ⟨nodup_swapRemove hs.nodup hmem, fun a => ?_, ?_, ?_, ?_⟩
    · rw [mem_swapRemove hs.nodup hmem, hs.mem_iff]
      by_cases ha : a = owner
      · simp [ha]
      · simp [ha]
    · rcases hrequired with ⟨-, rfl⟩ | ⟨hvalid, -⟩
      · exact hs.one_le
      · exact Nat.one_le_iff_ne_zero.mpr hvalid.required_ne_zero
    · rcases hrequired with ⟨hle, rfl⟩ | ⟨hvalid, -⟩
      · exact hle
      · exact hvalid.le
    · have := hs.length_le
      simp only
      omega
  | replaceOwner owner newOwner log howner hnew =>
    have hmem : owner ∈ s.owners := (hs.mem_iff owner).mpr howner
    have hnot : newOwner ∉ s.owners := by
      rw [hs.mem_iff, hnew]
      exact Bool.false_ne_true
    have hlength : (s.owners.replace owner newOwner).length = s.owners.length :=
      List.length_replace
    refine ⟨nodup_replace hs.nodup hmem hnot, fun a => ?_, hs.one_le, ?_, ?_⟩
    · rw [mem_replace hs.nodup hmem, hs.mem_iff]
      by_cases ha : a = newOwner
      · simp [ha]
      · by_cases ha' : a = owner
        · subst ha'
          simp [ha]
        · simp [ha, ha']
    · simp only [hlength]
      exact hs.required_le
    · simp only [hlength]
      exact hs.length_le
  | changeRequirement required log hvalid =>
    exact ⟨hs.nodup, hs.mem_iff, Nat.one_le_iff_ne_zero.mpr hvalid.required_ne_zero, hvalid.le,
      hs.length_le⟩

theorem consistent_entry (c : Call) (hs : Consistent s) :
    wp (Boundary.keeping Consistent) (entry this c) (fun _ s' => Consistent s') s :=
  wp_entry (fun _ _ h hs => hs.congr h) (fun _ h => h.consistent hs)
    (fun _ _ h => h) (fun _ _ _ _ _ h => h.1) hs

/-- **The owners are consistent** at every moment of every run from the constructor. -/
theorem consistent_run {owners : List Address} {required : Nat}
    (hinit : construct owners required = some s) (moves : List (Move Call Unit)) :
    Consistent (exec (entry this) ⟨s, []⟩ moves).cur :=
  exec_keeping (fun c _ => consistent_entry c) (construct_spec hinit).1 moves

/-- **The owners of the wallet.** At every moment of every run from the constructor the owners are
consistent; and there a call of `removeOwner` throws with nothing changed, or returns and has
removed exactly its owner. -/
theorem owners_consistent (this : Address) {owners : List Address} {required : Nat} {s : Storage}
    (hinit : construct owners required = some s) (moves : List (Move Call Unit)) :
    Consistent (exec (entry this) ⟨s, []⟩ moves).cur ∧
      ∀ cfg, cfg = exec (entry this) ⟨s, []⟩ moves → ∀ sender owner,
        entry this (.removeOwner sender owner) cfg.cur = .throw ∧
            step (entry this) cfg (.enter (.removeOwner sender owner)) = cfg ∨
          ∃ s', entry this (.removeOwner sender owner) cfg.cur = .ret () s' ∧
            step (entry this) cfg (.enter (.removeOwner sender owner)) = ⟨s', cfg.stack⟩ ∧
            owner ∈ cfg.cur.owners ∧ s'.owners.Nodup ∧
            ∀ a, a ∈ s'.owners ↔ a ≠ owner ∧ a ∈ cfg.cur.owners := by
  have hrun : Consistent (exec (entry this) ⟨s, []⟩ moves).cur := consistent_run hinit moves
  refine ⟨hrun, ?_⟩
  rintro cfg rfl sender owner
  -- `removeOwner` makes no external call: it throws or returns
  have hclosed : wp Boundary.closed (removeOwner this sender owner)
      (fun _ s' => OwnerChange this (.removeOwner sender owner)
        (exec (entry this) ⟨s, []⟩ moves).cur s') (exec (entry this) ⟨s, []⟩ moves).cur :=
    wp_removeOwner
  rcases eq_of_closed hclosed with hthrow | ⟨_, s', hret, hchange⟩
  · refine .inl ⟨hthrow, ?_⟩
    rw [step, entry, hthrow, land]
  · refine .inr ⟨s', hret, ?_, ?_⟩
    · rw [step, entry, hret, land]
    · cases hchange with
      | removeOwner _ _ _ howner _ =>
        have hmem := (hrun.mem_iff owner).mpr howner
        exact ⟨hmem, nodup_swapRemove hrun.nodup hmem, fun a => mem_swapRemove hrun.nodup hmem⟩

/-- A wallet of the accounts `10`, `11` and `12`, two of whom are required. -/
def threeOwners : Storage := (construct [10, 11, 12] 2).get (by decide)

/-- The owner in the middle is removed, and the last one takes its place. -/
theorem owners_consistent_three :
    ∃ s s', construct [10, 11, 12] 2 = some s ∧
      Consistent (exec (entry 100) ⟨s, []⟩ [.enter (.removeOwner 100 11)]).cur ∧
      entry 100 (.removeOwner 100 11) s = .ret () s' ∧ s'.owners = [10, 12] ∧
      ∀ a, a ∈ s'.owners ↔ a ≠ 11 ∧ a ∈ s.owners := by
  have hinit : construct [10, 11, 12] 2 = some threeOwners := (Option.some_get _).symm
  have hmiddle : ((entry 100 (.removeOwner 100 11) threeOwners).play []).map
      (fun r => r.2.owners) = some [10, 12] := by
    decide +kernel
  obtain ⟨hthrow, -⟩ | ⟨s', hret, -, -, -, hmem⟩ :=
    (owners_consistent 100 hinit []).2 _ rfl 100 11
  · -- the call does not throw
    have hthrow' : entry 100 (.removeOwner 100 11) threeOwners = .throw := hthrow
    rw [hthrow'] at hmiddle
    exact absurd hmiddle (by simp [Proc.play])
  · have hret' : entry 100 (.removeOwner 100 11) threeOwners = .ret () s' := hret
    rw [hret'] at hmiddle
    exact ⟨threeOwners, s', hinit,
      (owners_consistent 100 hinit [.enter (.removeOwner 100 11)]).1, hret',
      Option.some.inj hmiddle, hmem⟩

/-! ## The null address -/

/-- The call is a `replaceOwner` that names the null address as the new owner and passes its
checks. -/
def AdmitsNull (this : Address) (c : Call) (s : Storage) : Prop :=
  ∃ owner, c = .replaceOwner this owner 0 ∧ s.isOwner owner = true ∧ s.isOwner 0 = false

/-- No call admits the null address. -/
def notNull (this : Address) : Rules Storage Query Call where
  mayEnter c s := ¬ AdmitsNull this c s
  mayAnswer _ _ _ := True

/-- The owners other than the null address can meet the requirement. -/
def CanAct (s : Storage) : Prop := s.required ≤ (s.owners.filter fun a => a ≠ 0).length

instance (s : Storage) : Decidable (CanAct s) := inferInstanceAs (Decidable (_ ≤ _))

/-- Only a call that admits it makes the null address an owner. -/
theorem OwnerChange.zero_not_mem {c : Call} (h : OwnerChange this c s s') (hs : Consistent s)
    (hc : ¬ AdmitsNull this c s) (hzero : 0 ∉ s.owners) : 0 ∉ s'.owners := by
  cases h with
  | addOwner owner log hnew hne hvalid =>
    simp only [List.mem_append, List.mem_singleton, not_or]
    exact ⟨hzero, Ne.symm hne⟩
  | removeOwner owner required log howner hrequired =>
    rw [mem_swapRemove hs.nodup ((hs.mem_iff owner).mpr howner)]
    exact fun h => hzero h.2
  | replaceOwner owner newOwner log howner hnew =>
    rw [mem_replace hs.nodup ((hs.mem_iff owner).mpr howner)]
    rintro (rfl | h)
    · exact hc ⟨owner, rfl, howner, hnew⟩
    · exact hzero h.2
  | changeRequirement required log hvalid => exact hzero

/-- **The owners that can act meet the requirement** at every moment of every run from the
constructor in which no call admits the null address. -/
theorem quorum_of_notNull (this : Address) {owners : List Address} {required : Nat} {s : Storage}
    (hinit : construct owners required = some s) (moves : List (Move Call Unit))
    (hruns : Runs (entry this) (notNull this) ⟨s, []⟩ moves) :
    CanAct (exec (entry this) ⟨s, []⟩ moves).cur := by
  obtain ⟨hstart, hzero, -⟩ := construct_spec hinit
  obtain ⟨hrun, hzero'⟩ : Consistent (exec (entry this) ⟨s, []⟩ moves).cur ∧
      0 ∉ (exec (entry this) ⟨s, []⟩ moves).cur.owners := by
    refine exec_ruled (I := fun s => Consistent s ∧ 0 ∉ s.owners) (fun c s hc hs => ?_)
      ⟨hstart, hzero⟩ hruns
    refine wp_entry (P := fun s => Consistent s ∧ 0 ∉ s.owners) ?_ ?_ ?_ ?_ hs
    · exact fun _ _ h hs => ⟨hs.1.congr h, h.owners ▸ hs.2⟩
    · exact fun _ h => ⟨h.consistent hs.1, h.zero_not_mem hs.1 hc hs.2⟩
    · exact fun _ _ h => ⟨h, trivial⟩
    · exact fun _ _ _ _ _ h => h.1
  have hall : (exec (entry this) ⟨s, []⟩ moves).cur.owners.filter (fun a => a ≠ 0) =
      (exec (entry this) ⟨s, []⟩ moves).cur.owners := by
    rw [List.filter_eq_self]
    intro a ha
    rw [decide_eq_true_iff]
    rintro rfl
    exact hzero' ha
  unfold CanAct
  rw [hall]
  exact hrun.required_le

theorem quorum_of_notNull_three :
    ∃ s, construct [10, 11, 12] 2 = some s ∧
      CanAct (exec (entry 100) ⟨s, []⟩ [.enter (.replaceOwner 100 12 13)]).cur ∧
      (exec (entry 100) ⟨s, []⟩ [.enter (.replaceOwner 100 12 13)]).cur.owners = [10, 11, 13] := by
  have hinit : construct [10, 11, 12] 2 = some threeOwners := (Option.some_get _).symm
  refine ⟨threeOwners, hinit, quorum_of_notNull 100 hinit _ ⟨?_, trivial⟩, by decide +kernel⟩
  rintro ⟨owner, h, -⟩
  cases h

/-- A wallet of the account `10` alone. -/
def soleOwner : Storage := (construct [10] 1).get (by decide)

/-- The sole owner submits a call of the wallet `100` to itself, of `replaceOwner(10, 0)`, which is
executed at once. -/
def nullRun : List (Move Call Unit) :=
  [.enter (.submitTransaction 10 100 0 ([0xe2, 0x00, 0x56, 0xe6] ++ packBytes 32 10 ++
      packBytes 32 0)),
    .enter (.replaceOwner 100 10 0), .answer (some ())]

/-- **The null address becomes the only owner**, and nobody can confirm anything any more. -/
theorem null_owner :
    construct [10] 1 = some soleOwner ∧
      (exec (entry 100) ⟨soleOwner, []⟩ nullRun).stack.length = 0 ∧
      (exec (entry 100) ⟨soleOwner, []⟩ nullRun).cur.owners = [0] ∧
      ¬ CanAct (exec (entry 100) ⟨soleOwner, []⟩ nullRun).cur :=
  ⟨(Option.some_get _).symm, by decide +kernel, by decide +kernel, by decide +kernel⟩

end ChainX.MultiSig
