import Mathlib.Data.List.Basic

/-!
# Runs with their history

Operations `Op` on a state `S`, each with a result `R`. An operation may also bring the program
down, which is `none` and ends the run. The history of a run is the operations and their results in
order, and what a component promises usually speaks of both: of the state it is in, and of what it
has been asked and has answered so far.

* `run` gives the history with the newest operation last. `Admissible` are the runs in which every
  operation may come in the state that it comes in.
* `Since on off hist`: an event of the kind `on` has happened, and none of the kind `off` after it.
  `since_concat` is its step, by whether the newest event is of one of the two kinds.

Results:
* `run_invariant`: what every operation keeps, of the state and the history so far, a run keeps;
  `run_invariant_of_admissible` is the same for operations that may come in the state they come in.
* `run_of_admissible`: where an operation cannot bring the program down if it is one of those that
  may come in the state it comes in, neither can a run of them.
-/

namespace ChainX.Lib

/-- After an event `on` no event `off` has happened. -/
def Since {E : Type} (on off : E → Prop) (hist : List E) : Prop :=
  ∃ before e after, hist = before ++ e :: after ∧ on e ∧ ∀ e' ∈ after, ¬ off e'

theorem not_since_nil {E : Type} {on off : E → Prop} : ¬ Since on off [] := by
  rintro ⟨before, e, after, h, -⟩
  exact absurd h.symm (by simp)

theorem since_concat {E : Type} {on off : E → Prop} {hist : List E} {e : E} :
    Since on off (hist ++ [e]) ↔ on e ∨ (Since on off hist ∧ ¬ off e) := by
  constructor
  · rintro ⟨before, e', after, h, hon, hoff⟩
    rcases List.eq_nil_or_concat' after with rfl | ⟨after', e'', rfl⟩
    · obtain ⟨-, he⟩ := List.append_inj' h rfl
      rw [List.singleton_inj.mp he]
      exact .inl hon
    · rw [← List.cons_append, ← List.append_assoc] at h
      obtain ⟨rfl, he⟩ := List.append_inj' h rfl
      obtain rfl := List.singleton_inj.mp he
      refine .inr ⟨⟨before, e', after', rfl, hon, fun d hd => ?_⟩, ?_⟩
      · exact hoff d (List.mem_append_left _ hd)
      · exact hoff e (List.mem_append_right _ (List.mem_singleton_self e))
  · rintro (hon | ⟨⟨before, e', after, rfl, hon, hoff⟩, he⟩)
    · exact ⟨hist, e, [], rfl, hon, by simp⟩
    · refine ⟨before, e', after ++ [e], by simp, hon, fun d hd => ?_⟩
      rcases List.mem_append.mp hd with hd | hd
      · exact hoff d hd
      · rw [List.mem_singleton.mp hd]
        exact he

section Run

variable {S Op R : Type} (step : Op → S → Option (R × S))

/-- The operations one after the other: the history, and the state they end in. -/
def run : List Op → S → Option (List (Op × R) × S)
  | [], s => some ([], s)
  | op :: ops, s =>
    match step op s with
    | none => none
    | some (r, s) => (run ops s).map fun (hist, s) => ((op, r) :: hist, s)

/-- Each of the operations may come in the state it comes in. -/
def Admissible (may : Op → S → Prop) : List Op → S → Prop
  | [], _ => True
  | op :: ops, s => may op s ∧ ∀ r s', step op s = some (r, s') → Admissible may ops s'

variable {step} {inv : List (Op × R) → S → Prop} {ops : List Op} {hist past : List (Op × R)}
  {s s' : S}

theorem run_invariant_of_admissible_from {may : Op → S → Prop}
    (hstep : ∀ {hist s op r s'}, inv hist s → may op s → step op s = some (r, s') →
      inv (hist ++ [(op, r)]) s') : ∀ {ops past hist s s'}, inv past s → Admissible step may ops s →
    run step ops s = some (hist, s') → inv (past ++ hist) s' := by
  intro ops
  induction ops with
  | nil =>
    rintro past hist s s' hinv - h
    obtain ⟨rfl, rfl⟩ := Prod.mk.inj (Option.some.inj h)
    rwa [List.append_nil]
  | cons op ops ih =>
    rintro past hist s s' hinv ⟨hmay, hops⟩ h
    unfold run at h
    cases hop : step op s with
    | none => simp [hop] at h
    | some res =>
      rw [hop] at h
      obtain ⟨⟨rest, s1⟩, hrun, heq⟩ := Option.map_eq_some_iff.mp h
      obtain ⟨rfl, rfl⟩ := Prod.mk.inj heq
      rw [List.append_cons]
      exact ih (hstep hinv hmay hop) (hops _ _ hop) hrun

/-- **The invariant rule for admissible runs**, by induction on the run. -/
theorem run_invariant_of_admissible {may : Op → S → Prop}
    (hstep : ∀ {hist s op r s'}, inv hist s → may op s → step op s = some (r, s') →
      inv (hist ++ [(op, r)]) s') (hinv : inv [] s) (hmay : Admissible step may ops s)
    (h : run step ops s = some (hist, s')) : inv hist s' :=
  run_invariant_of_admissible_from hstep hinv hmay h

theorem admissible_true : ∀ {ops : List Op} {s : S}, Admissible step (fun _ _ => True) ops s
  | [], _ => trivial
  | _ :: _, _ => ⟨trivial, fun _ _ _ => admissible_true⟩

/-- **The invariant rule.** -/
theorem run_invariant (hstep : ∀ {hist s op r s'}, inv hist s → step op s = some (r, s') →
    inv (hist ++ [(op, r)]) s') (hinv : inv [] s) (h : run step ops s = some (hist, s')) :
    inv hist s' :=
  run_invariant_of_admissible (fun hinv _ hop => hstep hinv hop) hinv admissible_true h

theorem run_of_admissible_from {may : Op → S → Prop} (hstep : ∀ {hist s op}, inv hist s →
    may op s → ∃ r s', step op s = some (r, s') ∧ inv (hist ++ [(op, r)]) s') :
    ∀ {ops past s}, inv past s → Admissible step may ops s →
      ∃ hist s', run step ops s = some (hist, s') ∧ inv (past ++ hist) s' := by
  intro ops
  induction ops with
  | nil => exact fun hinv _ => ⟨[], _, rfl, by rwa [List.append_nil]⟩
  | cons op ops ih =>
    rintro past s hinv ⟨hmay, hops⟩
    obtain ⟨r, s1, hop, hinv1⟩ := hstep hinv hmay
    obtain ⟨hist, s2, hrun, hinv2⟩ := ih hinv1 (hops r s1 hop)
    refine ⟨(op, r) :: hist, s2, ?_, by rwa [List.append_cons]⟩
    rw [run, hop]
    simp only [hrun, Option.map_some]

/-- **The invariant rule for runs that come to their end.** -/
theorem run_of_admissible {may : Op → S → Prop} (hstep : ∀ {hist s op}, inv hist s →
    may op s → ∃ r s', step op s = some (r, s') ∧ inv (hist ++ [(op, r)]) s') (hinv : inv [] s)
    (h : Admissible step may ops s) :
    ∃ hist s', run step ops s = some (hist, s') ∧ inv hist s' :=
  run_of_admissible_from hstep hinv h

end Run

end ChainX.Lib
