import ChainX.Lib.Decimal
import ChainX.Lib.Throttle
import Mathlib.Logic.Function.Basic

/-!
# The active masternode, `Maternodes/activemasternode.cpp`

`CActiveMasternode::ManageState` (`activemasternode.cpp:12-46`) is called again and again, and by
`masternode start` (`rpcmasternode.cpp:219-236`). It goes on with the start of the masternode
(`ManageStateInitial`, `activemasternode.cpp:125-182`) and then sends a ping
(`activemasternode.cpp:92-123`), unless the last one on record is too young. The list of
masternodes, what GetLocal and the signing give, and the parts that are not in the file (`Part`) are
parameters. `EnsureWalletIsUnlocked` is that of `rpcwallet.cpp:48-52`.

* The file ends within `ManageStateInitial`; its end, `ManageStateRemote` and `ManageStateLocal` are
  called and may do anything but send a ping.
* Between two calls anything may happen to the masternode and to the list, but for a collateral's
  time on record, which is neither lost nor set back: that is the record of `Lib.Heeds`.

Results:
* `manageState_syncing_iff`: when the state is `ACTIVE_MASTERNODE_SYNC_IN_PROCESS`.
* `relays_sendMasternodePing`, `relays_step`: what one step relays agrees with the record.
* **`relayed_run`**: the pings that are relayed over a run are far enough apart.
-/

namespace ChainX.Masternode

open ChainX.Lib

/-! ## State -/

/-- The states of the masternode. -/
inductive State where
  | ACTIVE_MASTERNODE_INITIAL
  | ACTIVE_MASTERNODE_SYNC_IN_PROCESS
  | ACTIVE_MASTERNODE_INPUT_TOO_NEW
  | ACTIVE_MASTERNODE_NOT_CAPABLE
  | ACTIVE_MASTERNODE_STARTED
  deriving DecidableEq

open State

/-- The types of an active masternode. -/
inductive EType where
  | MASTERNODE_UNKNOWN
  | MASTERNODE_REMOTE
  | MASTERNODE_LOCAL
  deriving DecidableEq

open EType

/-- `Params().NetworkIDString()`. -/
inductive NetworkID where
  | MAIN
  | TESTNET
  | REGTEST
  deriving DecidableEq

/-- `CActiveMasternode`; `keys` are `keyMasternode` and `pubKeyMasternode`. -/
structure CActiveMasternode (CTxIn Keys CService : Type) where
  eType : EType
  fPingerEnabled : Bool
  vin : CTxIn
  keys : Keys
  service : CService
  nState : State
  strNotCapableReason : Text

/-- The configuration, and the calls that are the same at all times. -/
structure Env (CMasternodeMan CTxIn CService CMasternodePing : Type) where
  fMasterNode : Bool
  fListen : Bool
  networkID : NetworkID
  mainnetDefaultPort : Nat
  nMasternodeMinimumConfirmations : Nat
  MASTERNODE_MIN_MNP_SECONDS : Nat
  isValidNetAddr : CService → Bool
  getPort : CService → Nat
  sigTime : CMasternodePing → Int
  has : CMasternodeMan → CTxIn → Bool
  isMasternodePingedWithin : CMasternodeMan → CTxIn → Nat → Int → Bool
  setMasternodeLastPing : CMasternodeMan → CTxIn → CMasternodePing → CMasternodeMan

/-- `CNode`: a peer, and what is looked at of it. -/
structure CNode (CNetAddr : Type) where
  fSuccessfullyConnected : Bool
  isIPv4 : Bool
  addr : CNetAddr

/-- What is not in the file: the end of `ManageStateInitial`, and two functions. -/
inductive Part where
  | manageStateInitial
  | manageStateRemote
  | manageStateLocal

/-- What the rest of the node answers during one call. -/
structure Moment (CMasternodeMan CTxIn Keys CService CNetAddr CMasternodePing : Type) where
  isBlockchainSynced : Bool
  vNodes : List (CNode CNetAddr)
  /-- With the service that is found, or what is left of the one before. -/
  getLocal : Option CNetAddr → CService → Bool × CService
  /-- `CMasternodePing mnp(vin)`. -/
  newPing : CTxIn → CMasternodePing
  /-- `mnp.Sign(keyMasternode, pubKeyMasternode)`. -/
  sign : Keys → CMasternodePing → Option CMasternodePing
  unseen : Part → CActiveMasternode CTxIn Keys CService × CMasternodeMan →
    CActiveMasternode CTxIn Keys CService × CMasternodeMan

/-- The masternode, the list of masternodes, and the pings that were relayed, with their collateral
and the oldest first. -/
structure Node (CMasternodeMan CTxIn Keys CService CMasternodePing : Type) where
  active : CActiveMasternode CTxIn Keys CService
  mnodeman : CMasternodeMan
  relayed : List (CTxIn × CMasternodePing)

variable {CMasternodeMan CTxIn Keys CService CNetAddr CMasternodePing : Type}
  (env : Env CMasternodeMan CTxIn CService CMasternodePing)
  (moment : Moment CMasternodeMan CTxIn Keys CService CNetAddr CMasternodePing)

/-! ## Functions -/

/-- `GetStatus`: the text for the state. -/
def CActiveMasternode.getStatus (active : CActiveMasternode CTxIn Keys CService) : Text :=
  match active.nState with
  | ACTIVE_MASTERNODE_INITIAL => ascii "Node just started, not yet activated"
  | ACTIVE_MASTERNODE_SYNC_IN_PROCESS =>
    ascii "Sync in progress. Must wait until sync is complete to start Masternode"
  | ACTIVE_MASTERNODE_INPUT_TOO_NEW =>
    ascii "Masternode input must have at least " ++
      decimal env.nMasternodeMinimumConfirmations ++ ascii " confirmations"
  | ACTIVE_MASTERNODE_NOT_CAPABLE =>
    ascii "Not capable masternode: " ++ active.strNotCapableReason
  | ACTIVE_MASTERNODE_STARTED => ascii "Masternode successfully started"

/-- The masternode cannot be started, and why. -/
def CActiveMasternode.notCapable (active : CActiveMasternode CTxIn Keys CService)
    (reason : Text) : CActiveMasternode CTxIn Keys CService :=
  { active with nState := ACTIVE_MASTERNODE_NOT_CAPABLE, strNotCapableReason := reason }

/-- `GetLocal(service, paddrPeer) && CMasternode::IsValidNetAddr(service)`. -/
def foundLocal (paddrPeer : Option CNetAddr) (service : CService) : Bool × CService :=
  let r := moment.getLocal paddrPeer service
  (r.1 && env.isValidNetAddr r.2, r.2)

/-- The loop over the peers. -/
def peersLoop : List (CNode CNetAddr) → CService → Bool × CService
  | [], service => (false, service)
  | pnode :: vNodes, service =>
    if pnode.fSuccessfullyConnected && pnode.isIPv4 then
      let r := foundLocal env moment (some pnode.addr) service
      if r.1 then r else peersLoop vNodes r.2
    else peersLoop vNodes service

/-- The peers are asked where nothing is found without them. -/
def localOrPeers (r : Bool × CService) : Bool × CService :=
  if r.1 then r else peersLoop env moment moment.vNodes r.2

/-- What is wrong with the port. -/
def portReason (service : CService) : Option Text :=
  if env.networkID = .MAIN then
    if env.getPort service ≠ env.mainnetDefaultPort then
      some (ascii "Invalid port: " ++ decimal (env.getPort service) ++ ascii " - only " ++
        decimal env.mainnetDefaultPort ++ ascii " is supported on mainnet.")
    else none
  else if env.getPort service = env.mainnetDefaultPort then
    some (ascii "Invalid port: " ++ decimal (env.getPort service) ++ ascii " - " ++
      decimal env.mainnetDefaultPort ++ ascii " is only supported on mainnet.")
  else none

/-- A part that is not in the file. -/
def unseen (part : Part) (node : Node CMasternodeMan CTxIn Keys CService CMasternodePing) :
    Node CMasternodeMan CTxIn Keys CService CMasternodePing :=
  let r := moment.unseen part (node.active, node.mnodeman)
  { node with active := r.1, mnodeman := r.2 }

/-- `ManageStateInitial`: finds the address of the node, and goes on where the file ends. -/
def manageStateInitial (node : Node CMasternodeMan CTxIn Keys CService CMasternodePing) :
    Node CMasternodeMan CTxIn Keys CService CMasternodePing :=
  if !env.fListen then
    { node with
      active := node.active.notCapable
        (ascii "Masternode must accept connections from outside. " ++
          ascii "Make sure listen configuration option is not overwritten by some another " ++
            ascii "parameter.") }
  else
    let r := foundLocal env moment none node.active.service
    if !r.1 && moment.vNodes.isEmpty then
      { node with
        active := { node.active with service := r.2 }.notCapable
          (ascii "Can't detect valid external address. " ++
            ascii "Will retry when there are some connections available.") }
    else
      let r := localOrPeers env moment r
      let active := { node.active with service := r.2 }
      if !r.1 then
        { node with
          active := active.notCapable
            (ascii "Can't detect valid external address. " ++
              ascii "Please consider using the externalip configuration option if problem " ++
                ascii "persists. Make sure to use IPv4 address only.") }
      else
        match portReason env r.2 with
        | some reason => { node with active := active.notCapable reason }
        | none => unseen moment .manageStateInitial { node with active := active }

/-- `SendMasternodePing`: refuses where the last ping on record is too young. -/
def sendMasternodePing (node : Node CMasternodeMan CTxIn Keys CService CMasternodePing) :
    Bool × Node CMasternodeMan CTxIn Keys CService CMasternodePing :=
  let vin := node.active.vin
  if !node.active.fPingerEnabled then (false, node)
  else if !env.has node.mnodeman vin then
    (false, { node with
      active := node.active.notCapable (ascii "Masternode not in masternode list") })
  else
    match moment.sign node.active.keys (moment.newPing vin) with
    | none => (false, node)
    | some mnp =>
      if env.isMasternodePingedWithin node.mnodeman vin env.MASTERNODE_MIN_MNP_SECONDS
          (env.sigTime mnp) then (false, node)
      else
        (true, { node with
          mnodeman := env.setMasternodeLastPing node.mnodeman vin mnp
          relayed := node.relayed ++ [(vin, mnp)] })

/-- The sync is over. -/
def resume (node : Node CMasternodeMan CTxIn Keys CService CMasternodePing) :
    Node CMasternodeMan CTxIn Keys CService CMasternodePing :=
  if node.active.nState = ACTIVE_MASTERNODE_SYNC_IN_PROCESS then
    { node with active := { node.active with nState := ACTIVE_MASTERNODE_INITIAL } }
  else node

/-- The calls between the check for the sync and the ping. -/
def manageStart (node : Node CMasternodeMan CTxIn Keys CService CMasternodePing) :
    Node CMasternodeMan CTxIn Keys CService CMasternodePing :=
  let node := resume node
  let node :=
    if node.active.eType = MASTERNODE_UNKNOWN then manageStateInitial env moment node else node
  match node.active.eType with
  | MASTERNODE_UNKNOWN => node
  | MASTERNODE_REMOTE => unseen moment .manageStateRemote node
  | MASTERNODE_LOCAL =>
    -- a started masternode can be restarted without a new broadcast
    let node := unseen moment .manageStateRemote node
    if node.active.nState ≠ ACTIVE_MASTERNODE_STARTED then
      unseen moment .manageStateLocal node
    else node

/-- `ManageState`, which ends with a ping. -/
def manageState (node : Node CMasternodeMan CTxIn Keys CService CMasternodePing) :
    Node CMasternodeMan CTxIn Keys CService CMasternodePing :=
  if !env.fMasterNode then node
  else if env.networkID ≠ .REGTEST ∧ moment.isBlockchainSynced = false then
    { node with active := { node.active with nState := ACTIVE_MASTERNODE_SYNC_IN_PROCESS } }
  else (sendMasternodePing env moment (manageStart env moment node)).2

/-- `JSONRPCError`, with the codes that occur. -/
inductive RpcError where
  | RPC_INTERNAL_ERROR (message : Text)
  | RPC_WALLET_UNLOCK_NEEDED (message : Text)

/-- `masternode start`. -/
def start (isLocked : Bool) (node : Node CMasternodeMan CTxIn Keys CService CMasternodePing) :
    Except RpcError Text × Node CMasternodeMan CTxIn Keys CService CMasternodePing :=
  if !env.fMasterNode then
    (.error (.RPC_INTERNAL_ERROR (ascii "You must set masternode=1 in the configuration")), node)
  else if isLocked then
    (.error (.RPC_WALLET_UNLOCK_NEEDED (ascii "Error: Please enter the wallet passphrase with " ++
      ascii "walletpassphrase first.")), node)
  else
    let node :=
      if node.active.nState ≠ ACTIVE_MASTERNODE_STARTED then
        manageState env moment
          { node with active := { node.active with nState := ACTIVE_MASTERNODE_INITIAL } }
      else node
    (.ok (node.active.getStatus env), node)

/-! ## Runs -/

/-- What happens. Everything else that changes the masternode or the list is `outside`. -/
inductive Event (CMasternodeMan CTxIn Keys CService CNetAddr CMasternodePing : Type) where
  | manageState (moment : Moment CMasternodeMan CTxIn Keys CService CNetAddr CMasternodePing)
  | start (isLocked : Bool)
    (moment : Moment CMasternodeMan CTxIn Keys CService CNetAddr CMasternodePing)
  | outside (change : CActiveMasternode CTxIn Keys CService × CMasternodeMan →
      CActiveMasternode CTxIn Keys CService × CMasternodeMan)

/-- The moment of a call. -/
def Event.moments : Event CMasternodeMan CTxIn Keys CService CNetAddr CMasternodePing →
    List (Moment CMasternodeMan CTxIn Keys CService CNetAddr CMasternodePing)
  | .manageState moment => [moment]
  | .start _ moment => [moment]
  | .outside _ => []

/-- One event of the node. -/
def Node.step (node : Node CMasternodeMan CTxIn Keys CService CMasternodePing) :
    Event CMasternodeMan CTxIn Keys CService CNetAddr CMasternodePing →
      Node CMasternodeMan CTxIn Keys CService CMasternodePing
  | .manageState moment => Masternode.manageState env moment node
  | .start isLocked moment => (Masternode.start env moment isLocked node).2
  | .outside change =>
    { node with
      active := (change (node.active, node.mnodeman)).1
      mnodeman := (change (node.active, node.mnodeman)).2 }

/-- The events, one after the other. -/
def Node.run (node : Node CMasternodeMan CTxIn Keys CService CMasternodePing)
    (events : List (Event CMasternodeMan CTxIn Keys CService CNetAddr CMasternodePing)) :
    Node CMasternodeMan CTxIn Keys CService CMasternodePing :=
  events.foldl (Node.step env) node

/-! ## The record -/

/-- How the list keeps the time of the last ping of a masternode on it. -/
structure Keeper where
  lastPing : CMasternodeMan → CTxIn → Option Int
  pinged : ∀ {m vin nSeconds t u}, env.has m vin = true →
    env.isMasternodePingedWithin m vin nSeconds t = false → lastPing m vin = some u →
      u + nSeconds ≤ t
  lastPing_set : ∀ {m vin} mnp, env.has m vin = true →
    lastPing (env.setMasternodeLastPing m vin mnp) vin = some (env.sigTime mnp)
  lastPing_set_ne : ∀ {m vin other} mnp, vin ≠ other →
    lastPing (env.setMasternodeLastPing m vin mnp) other = lastPing m other

variable {env} (keeper : Keeper env) (vin : CTxIn)

/-- The time on record for a collateral is neither lost nor set back. -/
def Kept (m m' : CMasternodeMan) : Prop :=
  ∀ t, keeper.lastPing m vin = some t → ∃ t', keeper.lastPing m' vin = some t' ∧ t ≤ t'

/-- What is not modelled keeps the record of a collateral: it stays on the list. -/
def Event.Keeps : Event CMasternodeMan CTxIn Keys CService CNetAddr CMasternodePing → Prop
  | .manageState moment => ∀ part r, Kept keeper vin r.2 (moment.unseen part r).2
  | .start _ moment => ∀ part r, Kept keeper vin r.2 (moment.unseen part r).2
  | .outside change => ∀ r, Kept keeper vin r.2 (change r).2

/-- A ping for the collateral is accounted for by the time on record. -/
def Recorded (node : Node CMasternodeMan CTxIn Keys CService CMasternodePing)
    (sent : CTxIn × CMasternodePing) : Prop :=
  sent.1 = vin → ∃ t, keeper.lastPing node.mnodeman vin = some t ∧ env.sigTime sent.2 ≤ t

variable (env) in
/-- Two pings for the collateral are far enough apart. -/
def Apart (sent later : CTxIn × CMasternodePing) : Prop :=
  sent.1 = vin → later.1 = vin →
    env.sigTime sent.2 + env.MASTERNODE_MIN_MNP_SECONDS ≤ env.sigTime later.2

variable (env) in
/-- A ping that a masternode on a synced chain has made and signed. -/
def Signed (moments : List (Moment CMasternodeMan CTxIn Keys CService CNetAddr CMasternodePing))
    (sent : CTxIn × CMasternodePing) : Prop :=
  env.fMasterNode = true ∧ ∃ moment ∈ moments,
    (env.networkID = .REGTEST ∨ moment.isBlockchainSynced = true) ∧
      ∃ keys, moment.sign keys (moment.newPing sent.1) = some sent.2

/-- What some calls relay. -/
structure Relays
    (moments : List (Moment CMasternodeMan CTxIn Keys CService CNetAddr CMasternodePing))
    (node : Node CMasternodeMan CTxIn Keys CService CMasternodePing)
    (sent : List (CTxIn × CMasternodePing))
    (node' : Node CMasternodeMan CTxIn Keys CService CMasternodePing) : Prop where
  relayed : node'.relayed = node.relayed ++ sent
  heeds : Heeds (Recorded keeper vin) (Apart env vin) node sent node'
  signed : ∀ p ∈ sent, Signed env moments p

/-! ## What one call does -/

section Calls

variable {keeper : Keeper env} {vin : CTxIn} {m m₁ m' : CMasternodeMan}
  {node node₁ node' : Node CMasternodeMan CTxIn Keys CService CMasternodePing}
  {moment : Moment CMasternodeMan CTxIn Keys CService CNetAddr CMasternodePing}
  {moments moments' : List (Moment CMasternodeMan CTxIn Keys CService CNetAddr CMasternodePing)}
  {sent sent' : List (CTxIn × CMasternodePing)}

theorem Kept.refl (keeper : Keeper env) (vin : CTxIn) (m : CMasternodeMan) :
    Kept keeper vin m m := fun t h => ⟨t, h, Int.le_refl t⟩

theorem Kept.trans (h : Kept keeper vin m m₁) (h' : Kept keeper vin m₁ m') :
    Kept keeper vin m m' := by
  intro t ht
  obtain ⟨t₁, ht₁, hle⟩ := h t ht
  obtain ⟨t', ht', hle'⟩ := h' t₁ ht₁
  exact ⟨t', ht', Int.le_trans hle hle'⟩

/-- What holds before the calls holds after them if each of the changes keeps it. -/
theorem manageStart_rule (P : Node CMasternodeMan CTxIn Keys CService CMasternodePing → Prop)
    (hinitial : node.active.nState = ACTIVE_MASTERNODE_SYNC_IN_PROCESS →
      P { node with active := { node.active with nState := ACTIVE_MASTERNODE_INITIAL } })
    (hstart : node.active.nState ≠ ACTIVE_MASTERNODE_SYNC_IN_PROCESS → P node)
    (hservice : ∀ node service, P node →
      P { node with active := { node.active with service := service } })
    (hnotCapable : ∀ node reason, P node →
      P { node with active := node.active.notCapable reason })
    (hunseen : ∀ node part, P node → P (unseen moment part node)) :
    P (manageStart env moment node) := by
  have hmanageStateInitial : ∀ node, P node → P (manageStateInitial env moment node) := by
    intro node h
    unfold manageStateInitial
    split
    · exact hnotCapable node _ h
    · simp only
      split
      · exact hnotCapable _ _ (hservice node _ h)
      · split
        · exact hnotCapable _ _ (hservice node _ h)
        · split
          · exact hnotCapable _ _ (hservice node _ h)
          · exact hunseen _ _ (hservice node _ h)
  have hresume : P (resume node) := by
    unfold resume
    split
    · exact hinitial ‹_›
    · exact hstart ‹_›
  rw [manageStart]
  generalize resume node = node₁ at hresume ⊢
  have hfirst : P (if node₁.active.eType = MASTERNODE_UNKNOWN then
      manageStateInitial env moment node₁ else node₁) := by
    split
    · exact hmanageStateInitial node₁ hresume
    · exact hresume
  generalize (if node₁.active.eType = MASTERNODE_UNKNOWN then
      manageStateInitial env moment node₁ else node₁) = node₂ at hfirst ⊢
  simp only
  split
  · exact hfirst
  · exact hunseen _ _ hfirst
  · split
    · exact hunseen _ _ (hunseen _ _ hfirst)
    · exact hunseen _ _ hfirst

variable (node) in
/-- Before the ping nothing is relayed, and the record is kept. -/
theorem kept_manageStart (hkeeps : ∀ part r, Kept keeper vin r.2 (moment.unseen part r).2) :
    (manageStart env moment node).relayed = node.relayed ∧
      Kept keeper vin node.mnodeman (manageStart env moment node).mnodeman := by
  have hrefl := Kept.refl keeper vin node.mnodeman
  refine manageStart_rule (fun node' => node'.relayed = node.relayed ∧
    Kept keeper vin node.mnodeman node'.mnodeman) (fun _ => ⟨rfl, hrefl⟩) (fun _ => ⟨rfl, hrefl⟩)
    (fun _ _ h => h) (fun _ _ h => h) ?_
  intro node' part h
  exact ⟨h.1, h.2.trans (hkeeps part (node'.active, node'.mnodeman))⟩

/-- If no other part goes back to it, the state says whether the chain is being synced. -/
theorem manageState_syncing_iff (hmasternode : env.fMasterNode = true)
    (hparts : ∀ part r, r.1.nState ≠ ACTIVE_MASTERNODE_SYNC_IN_PROCESS →
      (moment.unseen part r).1.nState ≠ ACTIVE_MASTERNODE_SYNC_IN_PROCESS) :
    (manageState env moment node).active.nState = ACTIVE_MASTERNODE_SYNC_IN_PROCESS ↔
      env.networkID ≠ .REGTEST ∧ moment.isBlockchainSynced = false := by
  have hstarted : (manageStart env moment node).active.nState ≠
      ACTIVE_MASTERNODE_SYNC_IN_PROCESS := by
    refine manageStart_rule (fun node => node.active.nState ≠ ACTIVE_MASTERNODE_SYNC_IN_PROCESS)
      (fun _ => by simp) (fun h => h) (fun _ _ h => h)
      (fun _ _ _ => by simp [CActiveMasternode.notCapable]) ?_
    intro node part h
    exact hparts part (node.active, node.mnodeman) h
  have hping : ∀ node : Node CMasternodeMan CTxIn Keys CService CMasternodePing,
      node.active.nState ≠ ACTIVE_MASTERNODE_SYNC_IN_PROCESS →
      (sendMasternodePing env moment node).2.active.nState ≠
        ACTIVE_MASTERNODE_SYNC_IN_PROCESS := by
    intro node h
    unfold sendMasternodePing
    simp only
    split
    · exact h
    · split
      · simp [CActiveMasternode.notCapable]
      · split
        · exact h
        · split
          · exact h
          · exact h
  rw [manageState, hmasternode]
  simp only [Bool.not_true, Bool.false_eq_true, if_false]
  split
  · rename_i hsync
    exact ⟨fun _ => hsync, fun _ => rfl⟩
  · rename_i hsync
    exact ⟨fun h => absurd h (hping _ hstarted), fun h => absurd h hsync⟩

theorem Relays.refl (h : Kept keeper vin node.mnodeman node'.mnodeman)
    (hrelayed : node'.relayed = node.relayed) : Relays keeper vin moments node [] node' where
  relayed := by rw [hrelayed, List.append_nil]
  heeds := by
    refine .silent fun a ha hvin => ?_
    obtain ⟨t, ht, hle⟩ := ha hvin
    obtain ⟨t', ht', hle'⟩ := h t ht
    exact ⟨t', ht', Int.le_trans hle hle'⟩
  signed _ hmem := absurd hmem List.not_mem_nil

theorem Relays.trans (h : Relays keeper vin moments node sent node₁)
    (h' : Relays keeper vin moments' node₁ sent' node') :
    Relays keeper vin (moments ++ moments') node (sent ++ sent') node' where
  relayed := by rw [h'.relayed, h.relayed, List.append_assoc]
  heeds := h.heeds.trans h'.heeds
  signed p hmem := by
    rcases List.mem_append.mp hmem with hmem | hmem
    · obtain ⟨hmasternode, moment, hmoment, hsigned⟩ := h.signed p hmem
      exact ⟨hmasternode, moment, List.mem_append_left _ hmoment, hsigned⟩
    · obtain ⟨hmasternode, moment, hmoment, hsigned⟩ := h'.signed p hmem
      exact ⟨hmasternode, moment, List.mem_append_right _ hmoment, hsigned⟩

variable (keeper vin node) in
/-- A ping goes out only when the one on record is old enough, and is put on record. -/
theorem relays_sendMasternodePing (hmasternode : env.fMasterNode = true)
    (hsync : env.networkID = .REGTEST ∨ moment.isBlockchainSynced = true) :
    ∃ sent, Relays keeper vin [moment] node sent (sendMasternodePing env moment node).2 := by
  have hquiet : ∀ active, ∃ sent,
      Relays keeper vin [moment] node sent { node with active := active } :=
    fun active => ⟨[], .refl (Kept.refl keeper vin _) rfl⟩
  unfold sendMasternodePing
  simp only
  split
  · exact hquiet node.active
  · split
    · exact hquiet _
    · rename_i hhas
      rw [Bool.not_eq_true', Bool.not_eq_false] at hhas
      split
      · exact hquiet node.active
      · rename_i mnp hsign
        split
        · exact hquiet node.active
        · rename_i hold
          rw [Bool.not_eq_true] at hold
          refine ⟨[(node.active.vin, mnp)], rfl, .single ?_ ?_ ?_, ?_⟩
          · -- the record of this collateral goes up, and the others stay
            intro b hb hvin
            obtain ⟨t, ht, hle⟩ := hb hvin
            by_cases hown : node.active.vin = vin
            · subst hown
              have hlast := keeper.pinged hhas hold ht
              exact ⟨env.sigTime mnp, keeper.lastPing_set mnp hhas, by omega⟩
            · exact ⟨t, (keeper.lastPing_set_ne mnp hown).trans ht, hle⟩
          · rintro rfl
            exact ⟨env.sigTime mnp, keeper.lastPing_set mnp hhas, Int.le_refl _⟩
          · intro b hb hvin hown
            obtain ⟨t, ht, hle⟩ := hb hvin
            subst hown
            have hlast := keeper.pinged hhas hold ht
            show env.sigTime b.2 + _ ≤ env.sigTime mnp
            omega
          · intro p hmem
            obtain rfl := List.mem_singleton.mp hmem
            exact ⟨hmasternode, moment, List.mem_singleton_self moment, hsync, _, hsign⟩

variable (node) in
theorem relays_manageState (hkeeps : ∀ part r, Kept keeper vin r.2 (moment.unseen part r).2) :
    ∃ sent, Relays keeper vin [moment] node sent (manageState env moment node) := by
  rw [manageState]
  split
  · exact ⟨[], .refl (Kept.refl keeper vin _) rfl⟩
  · rename_i hmasternode
    rw [Bool.not_eq_true', Bool.not_eq_false] at hmasternode
    split
    · exact ⟨[], .refl (Kept.refl keeper vin _) rfl⟩
    · rename_i hsync
      rw [not_and_or, not_not, Bool.not_eq_false] at hsync
      obtain ⟨hrelayed, hkept⟩ := kept_manageStart node hkeeps
      obtain ⟨sent, hsent⟩ := relays_sendMasternodePing keeper vin (manageStart env moment node)
        hmasternode hsync
      have hstart : Relays keeper vin ([] : List (Moment CMasternodeMan CTxIn Keys CService CNetAddr
          CMasternodePing)) node [] (manageStart env moment node) := .refl hkept hrelayed
      exact ⟨sent, hstart.trans hsent⟩

variable (node) in
/-- One event relays what agrees with the record, and keeps it up. -/
theorem relays_step {event : Event CMasternodeMan CTxIn Keys CService CNetAddr CMasternodePing}
    (hkeeps : event.Keeps keeper vin) :
    ∃ sent, Relays keeper vin event.moments node sent (node.step env event) := by
  cases event with
  | manageState moment => exact relays_manageState node hkeeps
  | start isLocked moment =>
    have hquiet : ∃ sent, Relays keeper vin [moment] node sent node :=
      ⟨[], .refl (Kept.refl keeper vin _) rfl⟩
    rw [Node.step, start]
    split
    · exact hquiet
    · split
      · exact hquiet
      · simp only
        split
        · obtain ⟨sent, hsent⟩ := relays_manageState { node with
            active := { node.active with nState := ACTIVE_MASTERNODE_INITIAL } } hkeeps
          have hinitial : Relays keeper vin ([] : List (Moment CMasternodeMan CTxIn Keys CService
              CNetAddr CMasternodePing)) node [] { node with
                active := { node.active with nState := ACTIVE_MASTERNODE_INITIAL } } :=
            .refl (Kept.refl keeper vin _) rfl
          exact ⟨sent, hinitial.trans hsent⟩
        · exact hquiet
  | outside change =>
    exact ⟨[], .refl (hkeeps (node.active, node.mnodeman)) rfl⟩

variable (node) in
theorem relays_run
    (events : List (Event CMasternodeMan CTxIn Keys CService CNetAddr CMasternodePing))
    (hkeeps : ∀ event ∈ events, event.Keeps keeper vin) :
    ∃ sent, Relays keeper vin (events.flatMap Event.moments) node sent (node.run env events) := by
  induction events generalizing node with
  | nil => exact ⟨[], .refl (Kept.refl keeper vin _) rfl⟩
  | cons event events ih =>
    obtain ⟨sent, hstep⟩ := relays_step node (hkeeps event List.mem_cons_self)
    obtain ⟨sent', hrun⟩ := ih (node.step env event) fun e he =>
      hkeeps e (List.mem_cons_of_mem event he)
    exact ⟨sent ++ sent', hstep.trans hrun⟩

end Calls

/-! ## Result -/

/-- **Over any calls of `ManageState` and `masternode start`, with anything done in between that
keeps the record of a collateral, the pings relayed for it are at least
`MASTERNODE_MIN_MNP_SECONDS` apart, and all that are relayed were signed on a synced chain.** -/
theorem relayed_run (keeper : Keeper env) (vin : CTxIn)
    (events : List (Event CMasternodeMan CTxIn Keys CService CNetAddr CMasternodePing))
    (hkeeps : ∀ event ∈ events, event.Keeps keeper vin)
    (node : Node CMasternodeMan CTxIn Keys CService CMasternodePing)
    (hrelayed : node.relayed = []) :
    (node.run env events).relayed.Pairwise (Apart env vin) ∧
      ∀ sent ∈ (node.run env events).relayed, Signed env (events.flatMap Event.moments) sent := by
  obtain ⟨sent, hrun⟩ := relays_run node events hkeeps
  rw [hrun.relayed, hrelayed, List.nil_append]
  exact ⟨hrun.heeds.pairwise, hrun.signed⟩

/-! ### Sample -/

/-- A list of the masternodes with the times of their last pings. -/
abbrev SampleList := Nat → Option (Option Int)

/-- A ping is its time. -/
def sampleEnv : Env SampleList Nat Nat Int where
  fMasterNode := true
  fListen := true
  networkID := .MAIN
  mainnetDefaultPort := 9999
  nMasternodeMinimumConfirmations := 15
  MASTERNODE_MIN_MNP_SECONDS := 600
  isValidNetAddr _ := true
  getPort service := service
  sigTime mnp := mnp
  has list vin := (list vin).isSome
  isMasternodePingedWithin list vin nSeconds t :=
    match (list vin).join with
    | some u => decide (t - u < nSeconds)
    | none => false
  setMasternodeLastPing list vin mnp := Function.update list vin ((list vin).map fun _ => some mnp)

/-- A list that keeps the last ping of each masternode. -/
def sampleKeeper : Keeper sampleEnv where
  lastPing list vin := (list vin).join
  pinged _ hold hlast := by
    simp only [sampleEnv, hlast, decide_eq_false_iff_not, not_lt] at hold
    omega
  lastPing_set {list vin} mnp hhas := by
    obtain ⟨last, hlast⟩ := Option.isSome_iff_exists.mp hhas
    simp [sampleEnv, hlast]
  lastPing_set_ne mnp hne := by
    simp [sampleEnv, Function.update_of_ne hne.symm]

/-- A call at some time, on a synced chain. -/
def sampleMoment (now : Int) : Moment SampleList Nat Nat Nat Nat Int where
  isBlockchainSynced := true
  vNodes := []
  getLocal _ service := (true, service)
  newPing _ := now
  sign _ mnp := some mnp
  unseen _ r := r

/-- A remote masternode that is on the list. -/
def sampleNode : Node SampleList Nat Nat Nat Int where
  active := ⟨.MASTERNODE_REMOTE, true, 7, 1, 9999, .ACTIVE_MASTERNODE_STARTED, []⟩
  mnodeman vin := if vin = 7 then some none else none
  relayed := []

/-- The second call comes too early. -/
def sampleEvents : List (Event SampleList Nat Nat Nat Nat Int) :=
  [.manageState (sampleMoment 1000), .manageState (sampleMoment 1300),
    .start false (sampleMoment 1400), .manageState (sampleMoment 1700)]

example : (sampleNode.run sampleEnv sampleEvents).relayed = [(7, 1000), (7, 1700)] := by decide

theorem relayed_run_sample :
    (sampleNode.run sampleEnv sampleEvents).relayed.Pairwise (Apart sampleEnv 7) ∧
      ∀ sent ∈ (sampleNode.run sampleEnv sampleEvents).relayed,
        Signed sampleEnv (sampleEvents.flatMap Event.moments) sent := by
  have hkeeps : ∀ event ∈ sampleEvents, event.Keeps sampleKeeper 7 := by
    intro event hevent
    simp only [sampleEvents, List.mem_cons, List.not_mem_nil, or_false] at hevent
    rcases hevent with rfl | rfl | rfl | rfl <;>
      exact fun _ r => Kept.refl sampleKeeper 7 r.2
  exact relayed_run sampleKeeper 7 sampleEvents hkeeps sampleNode rfl

end ChainX.Masternode
