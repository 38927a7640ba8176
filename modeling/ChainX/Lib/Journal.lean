/-!
# Journals

A component writes events, and `view` is what can be told of its state by one who reads nothing but
the events: `replay` does one after the other what each of them means.

* A `Journal` names the view of a state, its log (the newest event first, as a log that is consed to
  grows) and what an event does to a view (`apply`).
* `Told v s` says that the events of `s`, replayed from `v` on, give the view of `s`. It is an
  invariant like any other, so a component shows it of each of its steps and has it for its runs.

Results:
* `told_start`: before the first event the view is what it is.
* `Told.event`: a step that writes one event and changes the view as the event says.
* `Told.silent`: a step that writes none and changes nothing that is seen.
-/

namespace ChainX.Lib

/-- States with the events that were written, the newest first, and what an event means. -/
structure Journal (S View Event : Type) where
  view : S → View
  log : S → List Event
  apply : View → Event → View

namespace Journal

variable {S View Event : Type} (J : Journal S View Event)

/-- The view after all events of a log, whose last one comes first. -/
def replay (v : View) (log : List Event) : View := log.foldr (fun e v => J.apply v e) v

/-- From `v` on, the events tell what is seen. -/
def Told (v : View) (s : S) : Prop := J.view s = J.replay v (J.log s)

variable {J} {v : View} {s s' : S}

theorem told_start (h : J.log s = []) : J.Told (J.view s) s := by
  unfold Told
  rw [h]
  rfl

/-- A change with its event. -/
theorem Told.event (h : J.Told v s) {e : Event} (hlog : J.log s' = e :: J.log s)
    (hview : J.view s' = J.apply (J.view s) e) : J.Told v s' := by
  unfold Told at h ⊢
  rw [hview, h, hlog]
  rfl

/-- A change that shows nowhere. -/
theorem Told.silent (h : J.Told v s) (hlog : J.log s' = J.log s)
    (hview : J.view s' = J.view s) : J.Told v s' := by
  unfold Told at h ⊢
  rw [hview, h, hlog]

end Journal

end ChainX.Lib
