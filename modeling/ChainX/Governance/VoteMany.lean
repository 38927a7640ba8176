import ChainX.Lib.Decimal
import ChainX.Script.Basic

/-!
# `gobject vote-many`, `Maternodes/ChainX-MN/rpcgovernance.cpp`

One vote for each entry of the masternode configuration. What the loop calls is a parameter (`Env`):
decoding of keys and numbers, the masternodes, signing, and `ProcessVoteAndRelay`, which changes the
`World`. A JSON object is the list of its members, to which `push_back` appends.

The answers of `ProcessVoteAndRelay` are recorded beside the counters.

* `voteEntry` is one round of the loop, with each `continue` of the source: an entry that could not
  vote is counted as failed and reported under its alias, but for one of them, which is skipped.
* The other subcommands of `gobject` are left out.
* `Accounted` is the property: every entry is counted and has an item under its alias, in order, and
  the successful votes are those that `ProcessVoteAndRelay` has accepted.

Results:
* `aliases_voteEntry`, `reported_voteEntry`: one entry.
* **`accounted_iff`**: an entry leaves no trace if its key can be decoded and its output index
  cannot.
-/

namespace ChainX.Governance

open ChainX.Lib ChainX.Node

/-! ## Data types -/

/-- `CMasternodeConfig::CMasternodeEntry`: a line of the configuration. -/
structure CMasternodeEntry where
  getAlias : Text
  getPrivKey : Text
  getTxHash : Text
  getOutputIndex : Text

/-- `COutPoint`: a transaction and one of its outputs. -/
structure COutPoint where
  hash : Uint256
  n : UInt32

/-- `JSONRPCError(RPC_INVALID_PARAMETER, …)`, or what `ParseHashV` throws. -/
inductive RPCError
  | invalidParameter (message : Text)
  | parseHashV (what : Text)

/-- The calls, without an answer where they fail. -/
structure Env (World Keys CTxIn CGovernanceVote : Type) where
  parseHashV : Text → Except Text Uint256
  /-- Nothing is `VOTE_SIGNAL_NONE`. -/
  convertVoteSignal : Text → Option Int
  /-- Nothing is `VOTE_OUTCOME_NONE`. -/
  convertVoteOutcome : Text → Option Int
  getKeysFromSecret : Text → Option Keys
  setHex : Text → Uint256
  parseInt32 : Text → Option Int32
  txIn : COutPoint → CTxIn
  /-- `mnodeman.Get`: the `vin` of the masternode. -/
  get : World → CTxIn → Option CTxIn
  /-- The constructor of `CGovernanceVote`. -/
  newVote : CTxIn → Uint256 → Int → Int → CGovernanceVote
  sign : CGovernanceVote → Keys → Option CGovernanceVote
  /-- Whether the vote is accepted, and the message of the exception. -/
  processVoteAndRelay : World → CGovernanceVote → Bool × Text × World

/-- The members of a `statusObj`. -/
abbrev Status := List (Text × Text)

/-- The variables of the loop. -/
structure Votes (World : Type) where
  nSuccessful : Nat
  nFailed : Nat
  resultsObj : List (Text × Status)
  world : World
  /-- What `ProcessVoteAndRelay` has returned. -/
  answers : List Bool

variable {World Keys CTxIn CGovernanceVote : Type} (env : Env World Keys CTxIn CGovernanceVote)
  (hash : Uint256) (eVoteSignal eVoteOutcome : Int)

/-! ## The command -/

namespace Votes

/-- An entry has voted. -/
def success (r : Votes World) (mne : CMasternodeEntry) : Votes World :=
  { r with
    nSuccessful := r.nSuccessful + 1
    resultsObj := r.resultsObj ++ [(mne.getAlias, [(ascii "result", ascii "success")])] }

/-- An entry could not vote, and why. -/
def failed (r : Votes World) (mne : CMasternodeEntry) (errorMessage : Text) : Votes World :=
  { r with
    nFailed := r.nFailed + 1
    resultsObj := r.resultsObj ++ [(mne.getAlias,
      [(ascii "result", ascii "failed"), (ascii "errorMessage", errorMessage)])] }

end Votes

/-- The body of the loop. -/
def voteEntry (r : Votes World) (mne : CMasternodeEntry) : Votes World :=
  match env.getKeysFromSecret mne.getPrivKey with
  | none => r.failed mne (ascii "Masternode signing error, could not set key correctly")
  | some keys =>
    match env.parseInt32 mne.getOutputIndex with
    | none => r
    | some nOutputIndex =>
      match env.get r.world (env.txIn ⟨env.setHex mne.getTxHash, nOutputIndex.toUInt32⟩) with
      | none => r.failed mne (ascii "Can't find masternode by collateral output")
      | some vin =>
        match env.sign (env.newVote vin hash eVoteSignal eVoteOutcome) keys with
        | none => r.failed mne (ascii "Failure to sign.")
        | some vote =>
          let answer := env.processVoteAndRelay r.world vote
          let r := { r with world := answer.2.2, answers := r.answers ++ [answer.1] }
          if answer.1 = true then r.success mne else r.failed mne answer.2.1

/-- The loop over the entries. -/
def voteEntries (world : World) (entries : List CMasternodeEntry) : Votes World :=
  entries.foldl (voteEntry env hash eVoteSignal eVoteOutcome) ⟨0, 0, [], world, []⟩

/-- What is returned: the members `overall` and `detail`. -/
def report (r : Votes World) : Text × List (Text × Status) :=
  (ascii "Voted successfully " ++ decimal r.nSuccessful ++ ascii " time(s) and failed " ++
    decimal r.nFailed ++ ascii " time(s).", r.resultsObj)

/-- `gobject vote-many`, of all its parameters. -/
def voteMany (world : World) (entries : List CMasternodeEntry) :
    List Text → Except RPCError ((Text × List (Text × Status)) × World)
  | [_, object, strVoteSignal, strVoteOutcome] =>
    match env.parseHashV object with
    | .error what => .error (.parseHashV what)
    | .ok hash =>
      match env.convertVoteSignal strVoteSignal with
      | none => .error (.invalidParameter (
          ascii "Invalid vote signal. Please using one of the following: " ++
          ascii "(funding|valid|delete|endorsed) OR `custom sentinel code` "))
      | some eVoteSignal =>
        match env.convertVoteOutcome strVoteOutcome with
        | none => .error (.invalidParameter (ascii
            "Invalid vote outcome. Please use one of the following: 'yes', 'no' or 'abstain'"))
        | some eVoteOutcome =>
          let r := voteEntries env hash eVoteSignal eVoteOutcome world entries
          .ok (report r, r.world)
  | _ => .error (.invalidParameter (
      ascii "Correct usage is 'gobject vote-many <governance-hash> " ++
      ascii "[funding|valid|delete] [yes|no|abstain]'"))

/-! ## One entry -/

/-- Nothing is counted and nothing reported for the entry. -/
def skips (mne : CMasternodeEntry) : Bool :=
  (env.getKeysFromSecret mne.getPrivKey).isSome && (env.parseInt32 mne.getOutputIndex).isNone

/-- Every item has been counted, and the votes that were accepted as successful. -/
structure Reported (r : Votes World) : Prop where
  items : r.nSuccessful + r.nFailed = r.resultsObj.length
  accepted : r.nSuccessful = r.answers.count true

namespace Reported

variable {r : Votes World}

theorem success (h : Reported r) (mne : CMasternodeEntry) (world : World) :
    Reported ({ r with world := world, answers := r.answers ++ [true] }.success mne) where
  items := by
    have hitems := h.items
    simp only [Votes.success, List.length_append, List.length_cons, List.length_nil]
    omega
  accepted := by simp [Votes.success, h.accepted]

theorem failed (h : Reported r) (mne : CMasternodeEntry) (errorMessage : Text) :
    Reported (r.failed mne errorMessage) where
  items := by
    have hitems := h.items
    simp only [Votes.failed, List.length_append, List.length_cons, List.length_nil]
    omega
  accepted := h.accepted

theorem refused (h : Reported r) (world : World) :
    Reported { r with world := world, answers := r.answers ++ [false] } where
  items := h.items
  accepted := by simp [h.accepted]

end Reported

variable {env}

theorem reported_voteEntry {r : Votes World} (h : Reported r) (mne : CMasternodeEntry) :
    Reported (voteEntry env hash eVoteSignal eVoteOutcome r mne) := by
  unfold voteEntry
  split
  · exact h.failed mne _
  split
  · exact h
  split
  · exact h.failed mne _
  split
  · exact h.failed mne _
  rename_i vote _
  rcases hanswer : env.processVoteAndRelay r.world vote with ⟨accepted, message, world⟩
  cases accepted with
  | true => exact h.success mne world
  | false => exact (h.refused world).failed mne message

/-- One item, under the alias, unless the entry is skipped. -/
theorem aliases_voteEntry (r : Votes World) (mne : CMasternodeEntry) :
    (voteEntry env hash eVoteSignal eVoteOutcome r mne).resultsObj.map Prod.fst =
      r.resultsObj.map Prod.fst ++ if skips env mne = true then [] else [mne.getAlias] := by
  unfold voteEntry skips
  cases hkeys : env.getKeysFromSecret mne.getPrivKey with
  | none => simp [Votes.failed]
  | some keys =>
    cases hindex : env.parseInt32 mne.getOutputIndex with
    | none => simp
    | some nOutputIndex =>
      simp only [Option.isSome_some, Option.isNone_some, Bool.and_false, Bool.false_eq_true,
        if_false]
      split
      · simp [Votes.failed]
      split
      · simp [Votes.failed]
      split
      · simp [Votes.success]
      · simp [Votes.failed]

/-! ## All entries -/

theorem reported_foldl (entries : List CMasternodeEntry) {r : Votes World} (h : Reported r) :
    Reported (entries.foldl (voteEntry env hash eVoteSignal eVoteOutcome) r) := by
  induction entries generalizing r with
  | nil => exact h
  | cons mne entries ih => exact ih (reported_voteEntry hash eVoteSignal eVoteOutcome h mne)

theorem aliases_foldl (entries : List CMasternodeEntry) (r : Votes World) :
    (entries.foldl (voteEntry env hash eVoteSignal eVoteOutcome) r).resultsObj.map Prod.fst =
      r.resultsObj.map Prod.fst ++
        (entries.filter fun mne => !skips env mne).map CMasternodeEntry.getAlias := by
  induction entries generalizing r with
  | nil => simp
  | cons mne entries ih =>
    rw [List.foldl_cons, ih, aliases_voteEntry, List.append_assoc, List.filter_cons]
    cases skips env mne <;> simp

/-- Every entry is counted, has an item under its alias, in order, and the successful votes are
those that `ProcessVoteAndRelay` has accepted. -/
structure Accounted (entries : List CMasternodeEntry) (r : Votes World) : Prop where
  counted : r.nSuccessful + r.nFailed = entries.length
  items : r.resultsObj.map Prod.fst = entries.map CMasternodeEntry.getAlias
  accepted : r.nSuccessful = r.answers.count true

/-- **Every masternode is accounted for** if and only if no entry has a key that can be decoded and
an output index that cannot. -/
theorem accounted_iff (env : Env World Keys CTxIn CGovernanceVote) (hash : Uint256)
    (eVoteSignal eVoteOutcome : Int) (world : World) (entries : List CMasternodeEntry) :
    Accounted entries (voteEntries env hash eVoteSignal eVoteOutcome world entries) ↔
      ∀ mne ∈ entries, env.getKeysFromSecret mne.getPrivKey ≠ none →
        env.parseInt32 mne.getOutputIndex ≠ none := by
  have hreported : Reported (voteEntries env hash eVoteSignal eVoteOutcome world entries) :=
    reported_foldl hash eVoteSignal eVoteOutcome entries ⟨rfl, rfl⟩
  have haliases : (voteEntries env hash eVoteSignal eVoteOutcome world entries).resultsObj.map
      Prod.fst = (entries.filter fun mne => !skips env mne).map CMasternodeEntry.getAlias :=
    aliases_foldl hash eVoteSignal eVoteOutcome entries ⟨0, 0, [], world, []⟩
  have hskips : ∀ mne, (!skips env mne) = true ↔
      (env.getKeysFromSecret mne.getPrivKey ≠ none → env.parseInt32 mne.getOutputIndex ≠ none) := by
    intro mne
    unfold skips
    cases env.getKeysFromSecret mne.getPrivKey <;> cases env.parseInt32 mne.getOutputIndex <;>
      simp
  calc Accounted entries (voteEntries env hash eVoteSignal eVoteOutcome world entries)
      ↔ (entries.filter fun mne => !skips env mne) = entries := by
        constructor
        · intro h
          have hlength := congrArg List.length (haliases.symm.trans h.items)
          rw [List.length_map, List.length_map] at hlength
          exact List.filter_sublist.eq_of_length hlength
        · intro h
          rw [h] at haliases
          refine ⟨?_, haliases, hreported.accepted⟩
          rw [hreported.items, ← List.length_map (f := Prod.fst), haliases, List.length_map]
    _ ↔ ∀ mne ∈ entries, (!skips env mne) = true := List.filter_eq_self
    _ ↔ _ := forall₂_congr fun mne _ => hskips mne

/-- Masternodes whose votes are all accepted. -/
def accepting : Env Unit Unit Unit Unit where
  parseHashV := fun _ => .ok (Vector.replicate 32 0)
  convertVoteSignal := fun _ => some 1
  convertVoteOutcome := fun _ => some 1
  getKeysFromSecret := fun _ => some ()
  setHex := fun _ => Vector.replicate 32 0
  parseInt32 := fun s => (parseInt s).map fun n => n.toInt32
  txIn := fun _ => ()
  get := fun _ _ => some ()
  newVote := fun _ _ _ _ => ()
  sign := fun _ _ => some ()
  processVoteAndRelay := fun _ _ => (true, [], ())

/-- An entry with no number for its output index. -/
def misconfigured : CMasternodeEntry := ⟨ascii "mn1", [], [], ascii "one"⟩

theorem voteEntries_misconfigured :
    report (voteEntries accepting (Vector.replicate 32 0) 1 1 () [misconfigured]) =
        (ascii "Voted successfully 0 time(s) and failed 0 time(s).", []) ∧
      ¬ Accounted [misconfigured]
        (voteEntries accepting (Vector.replicate 32 0) 1 1 () [misconfigured]) := by
  refine ⟨by rfl, fun h => ?_⟩
  have hcounted : (0 : Nat) = 1 := h.counted
  exact absurd hcounted (by decide)

end ChainX.Governance
