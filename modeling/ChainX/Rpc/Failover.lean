import ChainX.Lib.Round

/-!
# Failover between RPC connections, `Maternodes/ChainX.intf.py`

`open` (`ChainX.intf.py:300-330`) tries the current configuration and, when that fails, lets
`switch_to_next_config` (`ChainX.intf.py:271-294`) go on to the next one, which calls `open` in
turn, round the list until it is back at the configuration with which the call has begun. What comes
of an attempt is a parameter; it may depend on all the attempts before. `conn_cfg_failure` and
`last_error_message` have no part in this and are left out, as are the tunnel and the methods that
pass a command on.

The methods have a budget (`fuel`) of calls and rounds of the loop, and no result when it is used
up. What is left of the round (`Lib.restOfRound`) gets shorter from one attempt to the next, and the
budget is enough for the list.

* `ends_openConn`, `switchEnds`: what one call tries is a part of the round, and what is left of the
  round is to be tried still.
* **`failover_ends`**: with the budget for a round, `open` ends, and has tried nothing twice.
-/

namespace ChainX.Rpc

open ChainX.Lib

/-! ## Data types -/

/-- What comes of an attempt to connect. -/
inductive Outcome
  | connected
  | returnedFalse
  | userCancelled
  | connectionError
  | otherError

/-- What a call may raise. -/
inductive Exn
  | userCancelled
  | connection
  | other

variable {Conn : Type} {connections : List Conn}

/-- The interface, with the attempts it has made. -/
structure Interface (connections : List Conn) where
  curConnIndex : Fin connections.length
  startingConn : Option Conn
  /-- `active`, and the configuration that is connected. -/
  active : Option Conn
  attempts : List Conn
  active_eq : ∀ conn ∈ active, conn = connections[curConnIndex]

namespace Interface

variable (s : Interface connections)

/-- `cur_conn_def`. -/
def curConnDef : Conn := connections[s.curConnIndex]

theorem active_of_isSome {s : Interface connections} (h : s.active.isSome = true) :
    s.active = some s.curConnDef := by
  obtain ⟨conn, hconn⟩ := Option.isSome_iff_exists.mp h
  rw [hconn, s.active_eq conn hconn]
  rfl

/-! ## Methods -/

/-- `mark_call_begin`: remembers where the search has started. -/
def markCallBegin : Interface connections := { s with startingConn := some s.curConnDef }

/-- `disconnect`. -/
def disconnect : Interface connections :=
  { s with active := none, active_eq := fun _ h => nomatch h }

/-- The index after the current one. -/
def nextIndex : Fin connections.length :=
  if h : s.curConnIndex.val < connections.length - 1 then ⟨s.curConnIndex + 1, by omega⟩
  else ⟨0, s.curConnIndex.pos⟩

theorem val_nextIndex (s : Interface connections) :
    s.nextIndex.val = (s.curConnIndex + 1) % connections.length := by
  have hlt := s.curConnIndex.isLt
  unfold nextIndex
  split
  · exact (Nat.mod_eq_of_lt (by omega)).symm
  · have hlast : s.curConnIndex + 1 = connections.length := by omega
    rw [hlast, Nat.mod_self]

/-- `cur_conn_index = idx; cur_conn_def = conn`, of an interface that is disconnected. -/
def switchTo (idx : Fin connections.length) : Interface connections :=
  { s.disconnect with curConnIndex := idx, active_eq := fun _ h => nomatch h }

/-- An attempt is made. -/
def attempt : Interface connections := { s with attempts := s.attempts ++ [s.curConnDef] }

/-- The attempt has been successful. -/
def connect : Interface connections :=
  { s with active := some s.curConnDef, active_eq := fun _ h => (Option.some.inj h).symm }

/-- `open_internal`: an attempt, unless a connection is active. -/
def openInternal (outcome : List Conn → Conn → Outcome) :
    Except Exn Bool × Interface connections :=
  if s.active.isSome = true then (.ok true, s)
  else
    match outcome s.attempts s.curConnDef with
    | .connected => (.ok true, s.attempt.connect)
    | .returnedFalse => (.ok false, s.attempt)
    | .userCancelled => (.error .userCancelled, s.attempt)
    | .connectionError => (.error .connection, s.attempt)
    | .otherError => (.error .other, s.attempt)

/-- The handler of connection errors, by what `switch_to_next_config` has made of one. -/
def handled : Option (Except Exn Bool × Interface connections) →
    Option (Except Exn Bool × Interface connections)
  | some (.ok false, s) => some (.error .connection, s)
  | r => r

/-- The loop after an attempt that has returned false, by what `switch_to_next_config` has made of
it: the next round, or a handler of the loop. -/
def goOn (again switch : Interface connections → Option (Except Exn Bool × Interface connections)) :
    Option (Except Exn Bool × Interface connections) →
      Option (Except Exn Bool × Interface connections)
  | some (.ok true, s) => again s
  | some (.error .userCancelled, s) => some (.ok false, s)
  | some (.error .connection, s) => handled (switch s)
  | r => r

variable [DecidableEq Conn]

mutual

/-- `open`. -/
def openConn (outcome : List Conn → Conn → Outcome) :
    Nat → Interface connections → Option (Except Exn Bool × Interface connections)
  | 0, _ => none
  | fuel + 1, s =>
    match s.openInternal outcome with
    | (.ok true, s) => some (.ok true, s)
    | (.ok false, s) =>
      goOn (openConn outcome fuel) (switchToNextConfig outcome fuel)
        (switchToNextConfig outcome fuel s)
    | (.error .userCancelled, s) => some (.ok false, s)
    | (.error .connection, s) => handled (switchToNextConfig outcome fuel s)
    | (.error .other, s) => some (.error .other, s)

/-- `switch_to_next_config`: goes on until a connection opens, or the one it started with is next.
-/
def switchToNextConfig (outcome : List Conn → Conn → Outcome) :
    Nat → Interface connections → Option (Except Exn Bool × Interface connections)
  | 0, _ => none
  | fuel + 1, s =>
    if some connections[s.nextIndex] ≠ s.startingConn then
      match openConn outcome fuel (s.switchTo s.nextIndex) with
      | some (.ok false, s) => switchToNextConfig outcome fuel s
      | r => r
    else some (.ok false, s)

end

/-! ## One round -/

variable {s s' : Interface connections} {outcome : List Conn → Conn → Outcome} {start : Conn}

/-- The configurations that a call begun with `start` has still to try. -/
def rest (start : Conn) (s : Interface connections) : List Conn :=
  restOfRound connections start s.curConnIndex

theorem rest_of_ne (hstart : start ∈ connections) (h : connections[s.nextIndex] ≠ start) :
    s.rest start =
      (s.switchTo s.nextIndex).curConnDef :: (s.switchTo s.nextIndex).rest start := by
  have hlt := s.nextIndex.isLt
  simp only [Fin.getElem_fin, val_nextIndex] at h hlt
  simp only [rest, curConnDef, switchTo, Fin.getElem_fin, val_nextIndex]
  exact restOfRound_of_ne hstart hlt h

/-- What has been tried between `s` and `s'`, and the rest of the round, are `todo`. -/
structure Tried (start : Conn) (s s' : Interface connections) (todo : List Conn) : Prop where
  startingConn : s'.startingConn = some start
  attempts : ∃ l, s'.attempts = s.attempts ++ l ∧ todo = l ++ s'.rest start

theorem Tried.trans {s'' : Interface connections} {todo : List Conn} (h : Tried start s s' todo)
    (h' : Tried start s' s'' (s'.rest start)) : Tried start s s'' todo := by
  obtain ⟨l, hattempts, htodo⟩ := h.attempts
  obtain ⟨l', hattempts', htodo'⟩ := h'.attempts
  refine ⟨h'.startingConn, l ++ l', ?_, ?_⟩
  · rw [hattempts', hattempts, List.append_assoc]
  · rw [htodo, htodo', List.append_assoc]

theorem Tried.length_rest_le {todo : List Conn} (h : Tried start s s' todo) :
    (s'.rest start).length ≤ todo.length := by
  obtain ⟨l, -, htodo⟩ := h.attempts
  rw [htodo, List.length_append]
  omega

/-- With a budget of `bound`, the method `f` ends: it has tried a part of `todo`, and is connected
if it returns true. -/
def Ends (start : Conn) (f : Nat → Option (Except Exn Bool × Interface connections)) (bound : Nat)
    (s : Interface connections) (todo : List Conn) : Prop :=
  ∃ r s', (∀ fuel, bound ≤ fuel → f fuel = some (r, s')) ∧ Tried start s s' todo ∧
    (r = .ok true → s'.active.isSome = true)

namespace Ends

variable {f g : Nat → Option (Except Exn Bool × Interface connections)} {bound bound' : Nat}
  {todo : List Conn}

theorem mono (h : Ends start f bound s todo) (hle : bound ≤ bound') :
    Ends start f bound' s todo := by
  obtain ⟨r, s', hrun, h⟩ := h
  exact ⟨r, s', fun fuel hfuel => hrun fuel (hle.trans hfuel), h⟩

theorem of_tried (h : Ends start f bound s' (s'.rest start)) (htried : Tried start s s' todo) :
    Ends start f bound s todo := by
  obtain ⟨r, s'', hrun, h, hactive⟩ := h
  exact ⟨r, s'', hrun, htried.trans h, hactive⟩

/-- A call costs one. -/
theorem succ (h : Ends start g bound s todo) (heq : ∀ fuel, bound ≤ fuel → f (fuel + 1) = g fuel) :
    Ends start f (bound + 1) s todo := by
  obtain ⟨r, s', hrun, h⟩ := h
  refine ⟨r, s', fun fuel hfuel => ?_, h⟩
  obtain ⟨fuel, rfl⟩ := Nat.exists_eq_add_of_le' (Nat.le_of_add_left_le hfuel)
  rw [heq fuel (by omega), hrun fuel (by omega)]

theorem handled (h : Ends start f bound s todo) :
    Ends start (fun fuel => handled (f fuel)) bound s todo := by
  obtain ⟨r, s', hrun, htried, hactive⟩ := h
  match r with
  | .ok false =>
    exact ⟨.error .connection, s', fun fuel hfuel => congrArg Interface.handled (hrun fuel hfuel),
      htried, nofun⟩
  | .ok true =>
    exact ⟨.ok true, s', fun fuel hfuel => congrArg Interface.handled (hrun fuel hfuel), htried,
      hactive⟩
  | .error e =>
    exact ⟨.error e, s', fun fuel hfuel => congrArg Interface.handled (hrun fuel hfuel), htried,
      hactive⟩

end Ends

/-- A method that returns at once. -/
theorem Ends.const {r : Except Exn Bool} {todo : List Conn} (htried : Tried start s s' todo)
    (hactive : r = .ok true → s'.active.isSome = true) (bound : Nat) :
    Ends start (fun _ => some (r, s')) bound s todo :=
  ⟨r, s', fun _ _ => rfl, htried, hactive⟩

/-- An interface with an active connection has nothing to do. -/
theorem openConn_of_active (h : s.active.isSome = true) (fuel : Nat) :
    openConn outcome (fuel + 1) s = some (.ok true, s) := by
  rw [openConn, openInternal, if_pos h]

/-- Every switch of an interface with no more than `n` configurations to try ends. -/
def SwitchEnds (outcome : List Conn → Conn → Outcome) (connections : List Conn) (start : Conn)
    (n : Nat) : Prop :=
  ∀ s : Interface connections, s.startingConn = some start → (s.rest start).length ≤ n →
    Ends start (fun fuel => switchToNextConfig outcome fuel s) (2 * (s.rest start).length + 1) s
      (s.rest start)

theorem Ends.goOn {n : Nat} (hswitch : SwitchEnds outcome connections start n)
    {f : Nat → Option (Except Exn Bool × Interface connections)} {todo : List Conn}
    (h : Ends start f (2 * n + 1) s todo) (hn : todo.length ≤ n) :
    Ends start (fun fuel => goOn (openConn outcome fuel) (switchToNextConfig outcome fuel) (f fuel))
      (2 * n + 1) s todo := by
  obtain ⟨r, s', hrun, htried, hactive⟩ := h
  have hrest := htried.length_rest_le
  match r with
  | .ok true =>
    refine ⟨.ok true, s', fun fuel hfuel => ?_, htried, hactive⟩
    obtain ⟨fuel, rfl⟩ := Nat.exists_eq_add_of_le' (Nat.le_of_add_left_le hfuel)
    simp only [hrun _ hfuel]
    exact openConn_of_active (hactive rfl) fuel
  | .ok false =>
    exact ⟨.ok false, s', fun fuel hfuel => by simp only [hrun fuel hfuel]; rfl, htried, nofun⟩
  | .error .userCancelled =>
    exact ⟨.ok false, s', fun fuel hfuel => by simp only [hrun fuel hfuel]; rfl, htried, nofun⟩
  | .error .connection =>
    have hlength : 2 * (s'.rest start).length + 1 ≤ 2 * n + 1 := by omega
    obtain ⟨r', s'', hrun', h'⟩ :=
      (((hswitch s' htried.startingConn (hrest.trans hn)).of_tried htried).handled).mono hlength
    refine ⟨r', s'', fun fuel hfuel => ?_, h'⟩
    simp only [hrun fuel hfuel]
    exact hrun' fuel hfuel
  | .error .other =>
    exact ⟨.error .other, s', fun fuel hfuel => by simp only [hrun fuel hfuel]; rfl, htried, nofun⟩

/-- `open`, after the attempt that it begins with, if every switch ends. -/
theorem ends_openConn (hswitch : SwitchEnds outcome connections start (s.rest start).length)
    (hstart : s.startingConn = some start) (hinactive : s.active = none) :
    Ends start (fun fuel => openConn outcome fuel s) (2 * (s.rest start).length + 2) s.attempt
      (s.rest start) := by
  have hinternal : ¬ s.active.isSome = true := by simp [hinactive]
  have htried : Tried start s.attempt s.attempt (s.rest start) :=
    ⟨hstart, [], (List.append_nil _).symm, rfl⟩
  have hnext := hswitch s.attempt hstart le_rfl
  cases houtcome : outcome s.attempts s.curConnDef with
  | connected =>
    have hconnect : Tried start s.attempt s.attempt.connect (s.rest start) :=
      ⟨htried.startingConn, htried.attempts⟩
    refine (Ends.const (r := .ok true) hconnect (fun _ => rfl) _).succ fun fuel _ => ?_
    rw [openConn, openInternal, if_neg hinternal, houtcome]
  | returnedFalse =>
    refine (hnext.goOn hswitch le_rfl).succ fun fuel _ => ?_
    rw [openConn, openInternal, if_neg hinternal, houtcome]
  | userCancelled =>
    refine (Ends.const (r := .ok false) htried nofun _).succ fun fuel _ => ?_
    rw [openConn, openInternal, if_neg hinternal, houtcome]
  | connectionError =>
    refine hnext.handled.succ fun fuel _ => ?_
    rw [openConn, openInternal, if_neg hinternal, houtcome]
  | otherError =>
    refine (Ends.const (r := .error .other) htried nofun _).succ fun fuel _ => ?_
    rw [openConn, openInternal, if_neg hinternal, houtcome]

/-- At the end of the round there is nothing to switch to. -/
theorem ends_switch_of_eq (hstart : s.startingConn = some start)
    (hback : connections[s.nextIndex] = start) :
    Ends start (fun fuel => switchToNextConfig outcome fuel s) (2 * (s.rest start).length + 1) s
      (s.rest start) := by
  have htried : Tried start s s (s.rest start) := ⟨hstart, [], (List.append_nil _).symm, rfl⟩
  refine (Ends.const (r := .ok false) htried nofun _).succ fun fuel _ => ?_
  rw [switchToNextConfig, if_neg (by simp [hstart, hback])]

/-- What is tried from the next configuration on is a part of the round. -/
theorem Tried.of_switchTo (hmem : start ∈ connections) (hback : connections[s.nextIndex] ≠ start)
    (h : Tried start (s.switchTo s.nextIndex).attempt s' ((s.switchTo s.nextIndex).rest start)) :
    Tried start s s' (s.rest start) := by
  obtain ⟨l, hattempts, htodo⟩ := h.attempts
  refine ⟨h.startingConn, (s.switchTo s.nextIndex).curConnDef :: l, ?_, ?_⟩
  · rw [hattempts]
    exact List.append_assoc _ _ _
  · rw [rest_of_ne hmem hback, htodo, List.cons_append]

/-- `switch_to_next_config`, by induction on the number of configurations to try: `open` and the
switch after it have one less. -/
theorem switchEnds (outcome : List Conn → Conn → Outcome) (hmem : start ∈ connections) :
    ∀ n, SwitchEnds outcome connections start n := by
  intro n
  induction n with
  | zero =>
    intro s hstart hn
    refine ends_switch_of_eq hstart (by_contra fun hback => ?_)
    rw [rest_of_ne hmem hback] at hn
    exact absurd hn (by simp)
  | succ n ih =>
    intro s hstart hn
    by_cases hback : connections[s.nextIndex] = start
    · exact ends_switch_of_eq hstart hback
    have hlength : (s.rest start).length = ((s.switchTo s.nextIndex).rest start).length + 1 := by
      rw [rest_of_ne hmem hback, List.length_cons]
    have hopen : ∀ fuel, switchToNextConfig outcome (fuel + 1) s =
        match openConn outcome fuel (s.switchTo s.nextIndex) with
        | some (.ok false, s) => switchToNextConfig outcome fuel s
        | r => r := fun fuel => by
      rw [switchToNextConfig, if_pos (fun h => hback (Option.some.inj (h.trans hstart)))]
    have hnext : SwitchEnds outcome connections start
        ((s.switchTo s.nextIndex).rest start).length :=
      fun s' hstart' hle => ih s' hstart' (by omega)
    obtain ⟨r, s', hrun, htried, hactive⟩ := ends_openConn hnext hstart rfl
    simp only at hrun
    have hle := htried.length_rest_le
    have htried' := htried.of_switchTo hmem hback
    rw [hlength, Nat.mul_add]
    match r with
    | .ok false =>
      have hagain := ((ih s' htried.startingConn (by omega)).of_tried htried').mono
        (show _ ≤ 2 * ((s.switchTo s.nextIndex).rest start).length + 2 by omega)
      exact hagain.succ fun fuel hfuel => by rw [hopen, hrun fuel hfuel]
    | .ok true =>
      exact (Ends.const htried' hactive _).succ fun fuel hfuel => by rw [hopen, hrun fuel hfuel]
    | .error e =>
      exact (Ends.const htried' hactive _).succ fun fuel hfuel => by rw [hopen, hrun fuel hfuel]

end Interface

/-- **Failover ends**: with enough of a budget `open` returns or raises, has tried no configuration
twice, and if it returns true the active connection is of the current configuration. -/
theorem failover_ends [DecidableEq Conn] (hnodup : connections.Nodup)
    (outcome : List Conn → Conn → Outcome) (s : Interface connections) :
    ∃ r s', (∀ fuel, 2 * connections.length + 2 ≤ fuel →
        s.markCallBegin.openConn outcome fuel = some (r, s')) ∧
      (∃ l, s'.attempts = s.attempts ++ l ∧ l.Nodup) ∧
      (r = .ok true → s'.active = some s'.curConnDef) := by
  cases hactive : s.active with
  | some conn =>
    -- nothing is tried
    have hsome : s.markCallBegin.active.isSome = true := by
      rw [Interface.markCallBegin, hactive]
      rfl
    refine ⟨.ok true, s.markCallBegin, fun fuel hfuel => ?_, ⟨[], ?_, List.nodup_nil⟩, fun _ => ?_⟩
    · obtain ⟨fuel, rfl⟩ := Nat.exists_eq_add_of_le' (Nat.le_of_add_left_le hfuel)
      exact Interface.openConn_of_active hsome (fuel + 1)
    · exact (List.append_nil _).symm
    · exact Interface.active_of_isSome hsome
  | none =>
    have hmem : s.curConnDef ∈ connections := List.getElem_mem _
    obtain ⟨r, s', hrun, htried, hactive⟩ := Interface.ends_openConn (s := s.markCallBegin)
      (Interface.switchEnds outcome hmem _) rfl hactive
    obtain ⟨l, hattempts, htodo⟩ := htried.attempts
    refine ⟨r, s', fun fuel hfuel => hrun fuel ?_, ⟨s.curConnDef :: l, ?_, ?_⟩, fun hr => ?_⟩
    · have hle := length_restOfRound_le connections s.curConnDef s.curConnIndex
      exact le_trans (Nat.add_le_add_right (Nat.mul_le_mul_left 2 hle) 2) hfuel
    · rw [hattempts]
      exact List.append_assoc _ _ _
    · have hround := nodup_cons_restOfRound hnodup s.curConnIndex.isLt
      have htail : l.Sublist (s.markCallBegin.rest s.curConnDef) := by
        rw [htodo]
        exact List.sublist_append_left l _
      exact hround.sublist (htail.cons_cons s.curConnDef)
    · exact Interface.active_of_isSome (hactive hr)

/-- An interface at the second of three configurations. -/
def ofThree : Interface [1, 2, 3] := ⟨1, none, none, [], nofun⟩

/-- The first of them can be connected to. -/
theorem failover_ends_ofThree :
    ∃ r s', (∀ fuel, 8 ≤ fuel → ofThree.markCallBegin.openConn
        (fun _ conn => if conn = 1 then .connected else .connectionError) fuel = some (r, s')) ∧
      (∃ l, s'.attempts = [] ++ l ∧ l.Nodup) ∧ (r = .ok true → s'.active = some s'.curConnDef) :=
  failover_ends (by decide) _ ofThree

end ChainX.Rpc
