import Mathlib.Data.List.Basic

/-!
# Machines made of independent parts

The state of a machine has parts, and most of its actions work on one of them (`kind`): what such an
action reads and writes is its part. An action of no kind may read everything and writes no part. A
run ends at the first failure.

* The parts are given by a map from states to what is held of each of them, so that a machine can be
  looked at in more ways than one: what is left out of every part may change as it likes.
* `Local` is what a machine has to show, in two fields: an action leaves the other parts alone
  (`keeps`), and from two states that agree in its part it makes two that do (`reads`).
* `of kind i` are the actions of the part `i`, in their order.

Results:
* `run_of`: in a run that succeeds every part ends as its own actions leave it.
* `run_of_parts`: a run without actions of no kind succeeds if the actions of every part do.
* **`run_reorder`**: how the actions of different parts are interleaved does not matter.
* **`run_erase`**: actions of no kind can be left out.
-/

namespace ChainX.Lib.Parts

variable {A S E ι : Type} {P : ι → Type} [DecidableEq ι]

/-- The actions one after the other, until one of them fails. -/
def run (step : A → S → Except E S) : List A → S → Except E S
  | [], s => .ok s
  | a :: as, s =>
    match step a s with
    | .ok s' => run step as s'
    | .error e => .error e

/-- The actions of one part, in their order. -/
def of (kind : A → Option ι) (i : ι) (as : List A) : List A := as.filter fun a => kind a = some i

/-- Every action that may be taken works on its part. -/
structure Local (may : A → Prop) (step : A → S → Except E S) (part : (i : ι) → S → P i)
    (kind : A → Option ι) : Prop where
  keeps : ∀ {a s s' i}, may a → step a s = .ok s' → kind a ≠ some i → part i s' = part i s
  reads : ∀ {a s s' t i}, may a → step a s = .ok s' → kind a = some i →
    part i t = part i s → ∃ t', step a t = .ok t' ∧ part i t' = part i s'

variable {may : A → Prop} {step : A → S → Except E S} {part : (i : ι) → S → P i}
  {kind : A → Option ι} {s s' t : S} {as bs : List A} {i : ι}

theorem run_cons {a : A} :
    run step (a :: as) s = .ok s' ↔ ∃ s₁, step a s = .ok s₁ ∧ run step as s₁ = .ok s' := by
  rw [run]
  cases step a s with
  | ok s₁ => simp
  | error e => simp

theorem run_append :
    run step (as ++ bs) s = .ok s' ↔ ∃ s₁, run step as s = .ok s₁ ∧ run step bs s₁ = .ok s' := by
  induction as generalizing s with
  | nil => simp [run]
  | cons a as ih =>
    simp only [List.cons_append, run_cons, ih]
    constructor
    · rintro ⟨s₁, ha, s₂, has, hbs⟩
      exact ⟨s₂, ⟨s₁, ha, has⟩, hbs⟩
    · rintro ⟨s₂, ⟨s₁, ha, has⟩, hbs⟩
      exact ⟨s₁, ha, s₂, has, hbs⟩

theorem of_cons_self {a : A} (h : kind a = some i) : of kind i (a :: as) = a :: of kind i as := by
  simp [of, h]

theorem of_cons_ne {a : A} (h : kind a ≠ some i) : of kind i (a :: as) = of kind i as := by
  simp [of, h]

/-- A part of the state after a run is what the actions of the part make of it, alone. -/
theorem run_of (hlocal : Local may step part kind) (hmay : ∀ a ∈ as, may a)
    (hpart : part i t = part i s) (h : run step as s = .ok s') :
    ∃ t', run step (of kind i as) t = .ok t' ∧ part i t' = part i s' := by
  induction as generalizing s t with
  | nil =>
    obtain rfl : s = s' := by simpa [run] using h
    exact ⟨t, rfl, hpart⟩
  | cons a as ih =>
    obtain ⟨s₁, hstep, hrun⟩ := run_cons.mp h
    have hmaya := hmay a List.mem_cons_self
    have hmay := fun b hb => hmay b (List.mem_cons_of_mem a hb)
    by_cases hkind : kind a = some i
    · obtain ⟨t₁, hstep', hpart'⟩ := hlocal.reads hmaya hstep hkind hpart
      obtain ⟨t', hrun', heq⟩ := ih hmay hpart' hrun
      rw [of_cons_self hkind]
      exact ⟨t', run_cons.mpr ⟨t₁, hstep', hrun'⟩, heq⟩
    · rw [of_cons_ne hkind]
      exact ih hmay (hpart.trans (hlocal.keeps hmaya hstep hkind).symm) hrun

/-- Where the actions of every part succeed alone, they succeed together. -/
theorem run_of_parts (hlocal : Local may step part kind) (hmay : ∀ a ∈ as, may a)
    (hkinds : ∀ a ∈ as, kind a ≠ none)
    (h : ∀ i, ∃ t t', part i t = part i s ∧ run step (of kind i as) t = .ok t') :
    ∃ s', run step as s = .ok s' := by
  induction as generalizing s with
  | nil => exact ⟨s, rfl⟩
  | cons a as ih =>
    obtain ⟨i, hkind⟩ := Option.ne_none_iff_exists'.mp (hkinds a List.mem_cons_self)
    obtain ⟨t, t', hpart, hrun⟩ := h i
    rw [of_cons_self hkind] at hrun
    obtain ⟨t₁, hstep, hrest⟩ := run_cons.mp hrun
    have hmaya := hmay a List.mem_cons_self
    obtain ⟨s₁, hstep', hpart'⟩ := hlocal.reads hmaya hstep hkind hpart.symm
    have hparts : ∀ j, ∃ t t', part j t = part j s₁ ∧ run step (of kind j as) t = .ok t' := by
      intro j
      by_cases hj : j = i
      · subst hj
        exact ⟨t₁, t', hpart'.symm, hrest⟩
      · have hne : kind a ≠ some j := fun heq => hj (Option.some.inj (heq.symm.trans hkind))
        obtain ⟨u, u', hu, hrunu⟩ := h j
        rw [of_cons_ne hne] at hrunu
        exact ⟨u, u', hu.trans (hlocal.keeps hmaya hstep' hne).symm, hrunu⟩
    obtain ⟨s', hrun'⟩ := ih (fun b hb => hmay b (List.mem_cons_of_mem a hb))
      (fun b hb => hkinds b (List.mem_cons_of_mem a hb)) hparts
    exact ⟨s', run_cons.mpr ⟨s₁, hstep', hrun'⟩⟩

/-- **Runs with the same actions for every part end with the same parts.** -/
theorem run_reorder (hlocal : Local may step part kind) (hmay : ∀ a ∈ as, may a)
    (hmay' : ∀ b ∈ bs, may b) (hkinds : ∀ b ∈ bs, kind b ≠ none)
    (hof : ∀ i, of kind i as = of kind i bs) (h : run step as s = .ok s') :
    ∃ s'', run step bs s = .ok s'' ∧ ∀ i, part i s'' = part i s' := by
  have halone : ∀ i, ∃ t', run step (of kind i bs) s = .ok t' ∧ part i t' = part i s' := fun i =>
    hof i ▸ run_of hlocal hmay rfl h
  obtain ⟨s'', hrun⟩ := run_of_parts hlocal hmay' hkinds fun i =>
    have ⟨t', hrun, _⟩ := halone i
    ⟨s, t', rfl, hrun⟩
  refine ⟨s'', hrun, fun i => ?_⟩
  obtain ⟨t', ht', hpart⟩ := halone i
  obtain ⟨t'', ht'', hpart'⟩ := run_of (i := i) hlocal hmay' rfl hrun
  rw [ht'] at ht''
  cases ht''
  exact hpart'.symm.trans hpart

/-- **Without the actions of no kind a run ends with the same parts.** -/
theorem run_erase (hlocal : Local may step part kind) (hmay : ∀ a ∈ as, may a)
    (h : run step as s = .ok s') :
    ∃ s'', run step (as.filter fun a => kind a ≠ none) s = .ok s'' ∧
      ∀ i, part i s'' = part i s' := by
  refine run_reorder hlocal hmay (fun b hb => hmay b (List.mem_filter.mp hb).1) (fun b hb => ?_)
    (fun i => ?_) h
  · simpa using (List.mem_filter.mp hb).2
  · rw [of, of, List.filter_filter]
    refine List.filter_congr fun a _ => ?_
    cases hkind : kind a with
    | none => simp
    | some j => simp

end ChainX.Lib.Parts
