import Mathlib.Data.List.Basic

/-!
# Stores with transactions

A store is edited, at most one transaction at a time. What it holds is the effect of the edits that
survive: those outside of transactions, and those in transactions that are committed.

* `Store` has what is committed and, while a transaction is open, the copy that its edits go to.
  `Store.event` is one edit, start, commit or rollback. A start while a transaction is open gives
  the open one up; a commit or a rollback with none open does nothing.
* `Log` says the same without any state: the edits that survive whatever comes, and those of the
  transaction that is open. `surviving` and `visible` read it off the events alone.

Results:
* `Tells.event`: each event keeps the log and the store together. It is the step of both results,
  which are inductions on the events.
* **`committed_eq`**: the committed state is the first one with the surviving edits, in their order.
* `view_eq`: what is seen, within a transaction its own edits included, is the first state with the
  visible edits.
-/

namespace ChainX.Lib.Atomic

/-- What happens to a store. -/
inductive Event (E : Type) where
  | edit (e : E)
  | start
  | commit
  | rollback

/-- What is committed, and what the transaction that is open, if one is, has made of it. -/
structure Store (S : Type) where
  committed : S
  pending : Option S

variable {E S : Type} (apply : E → S → S)

/-- The state that is seen. -/
def Store.view (s : Store S) : S := s.pending.getD s.committed

/-- One event of the store. -/
def Store.event (s : Store S) : Event E → Store S
  | .edit e =>
    match s.pending with
    | none => { s with committed := apply e s.committed }
    | some p => { s with pending := some (apply e p) }
  | .start => { s with pending := some s.committed }
  | .commit => ⟨s.view, none⟩
  | .rollback => { s with pending := none }

/-- The edits that survive whatever comes, and those of the transaction that is open. -/
structure Log (E : Type) where
  kept : List E
  open? : Option (List E)

/-- One event of the log. -/
def Log.event (log : Log E) : Event E → Log E
  | .edit e =>
    match log.open? with
    | none => { log with kept := log.kept ++ [e] }
    | some es => { log with open? := some (es ++ [e]) }
  | .start => { log with open? := some [] }
  | .commit => ⟨log.kept ++ log.open?.getD [], none⟩
  | .rollback => { log with open? := none }

/-- The edits that survive. -/
def surviving (events : List (Event E)) : List E := (events.foldl Log.event ⟨[], none⟩).kept

/-- The edits that are seen: those that survive, and those of the transaction that is open. -/
def visible (events : List (Event E)) : List E :=
  let log := events.foldl Log.event ⟨[], none⟩
  log.kept ++ log.open?.getD []

/-- The log tells what the store holds, from what it held first. -/
structure Tells (first : S) (log : Log E) (s : Store S) : Prop where
  committed : s.committed = log.kept.foldl (fun s e => apply e s) first
  pending : s.pending = log.open?.map (List.foldl (fun s e => apply e s) s.committed)

variable {apply} {first : S} {log : Log E} {s : Store S}

theorem Tells.view (h : Tells apply first log s) :
    s.view = (log.kept ++ log.open?.getD []).foldl (fun s e => apply e s) first := by
  rw [Store.view, h.pending, List.foldl_append, ← h.committed]
  cases log.open? <;> rfl

theorem Tells.event (h : Tells apply first log s) (e : Event E) :
    Tells apply first (log.event e) (s.event apply e) := by
  cases e with
  | edit e =>
    have hpending := h.pending
    cases hopen : log.open? with
    | none =>
      rw [hopen, Option.map_none] at hpending
      refine ⟨?_, ?_⟩
      · simp [Store.event, Log.event, hopen, hpending, h.committed]
      · simp [Store.event, Log.event, hopen, hpending]
    | some es =>
      rw [hopen, Option.map_some] at hpending
      refine ⟨?_, ?_⟩
      · simp [Store.event, Log.event, hopen, hpending, h.committed]
      · simp [Store.event, Log.event, hopen, hpending]
  | start => exact ⟨h.committed, rfl⟩
  | commit => exact ⟨h.view, rfl⟩
  | rollback => exact ⟨h.committed, rfl⟩

theorem Tells.events (h : Tells apply first log s) (events : List (Event E)) :
    Tells apply first (events.foldl Log.event log) (events.foldl (Store.event apply) s) := by
  induction events generalizing log s with
  | nil => exact h
  | cons e events ih => exact ih (h.event e)

/-- **What is committed is the first state with the surviving edits.** -/
theorem committed_eq (first : S) (events : List (Event E)) :
    (events.foldl (Store.event apply) ⟨first, none⟩).committed =
      (surviving events).foldl (fun s e => apply e s) first :=
  have hblank : Tells apply first ⟨[], none⟩ ⟨first, none⟩ := ⟨rfl, rfl⟩
  (hblank.events events).committed

/-- **What is seen is the first state with the visible edits.** -/
theorem view_eq (first : S) (events : List (Event E)) :
    (events.foldl (Store.event apply) ⟨first, none⟩).view =
      (visible events).foldl (fun s e => apply e s) first :=
  have hblank : Tells apply first ⟨[], none⟩ ⟨first, none⟩ := ⟨rfl, rfl⟩
  (hblank.events events).view

end ChainX.Lib.Atomic
