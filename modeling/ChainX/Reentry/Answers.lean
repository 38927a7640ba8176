import ChainX.Reentry.Link

/-!
# Code run against given answers

`wp` says what holds wherever code ends, `returns` that it ends by itself. Code that asks ends only
under some answers: `yields m rs post s` says that `m`, run against the answers `rs` by an outside
that leaves the storage alone, ends in `post`, which also sees the answers that are left over.

* `yields_bind`, `yields_extCall`, …: the rules are equivalences, so that what is needed for an end
  and what follows from one are computed from the code alike. `yields_zoom`, `yields_relabel`: the
  same for code on a part, or with other queries.
* `yields_of_returns`, `yields_elim`: code that never calls out, from its rules for `returns` and
  `wp`.
* **`completes_iff_yields`**, `once_of_yields`: what this says of a top-level call.
* `Granted n rs rs'`: the first `n` of the answers `rs` are words other than `0`, and `rs'` follow.
-/

namespace ChainX.Reentry

variable {S T Q Q' R α β : Type} {s : S} {rs rs' : List (Option R)}

/-- The code ends under the answers `rs`, in `post`. -/
def yields (m : Contract S Q R α) (rs : List (Option R))
    (post : α → S → List (Option R) → Prop) (s : S) : Prop :=
  ∃ a s' rs', (m s).playRest rs = some (a, s', rs') ∧ post a s' rs'

section Rules

variable {post : α → S → List (Option R) → Prop}

theorem yields_of_eq {m : Contract S Q R α} {a : α} {s' : S}
    (h : (m s).playRest rs = some (a, s', rs')) : yields m rs post s ↔ post a s' rs' := by
  constructor
  · rintro ⟨b, t, ts, hb, hpost⟩
    rw [h] at hb
    cases hb
    exact hpost
  · exact fun hpost => ⟨a, s', rs', h, hpost⟩

theorem not_yields_of_eq {m : Contract S Q R α} (h : (m s).playRest rs = none) :
    ¬ yields m rs post s := by
  rintro ⟨_, _, _, hb, -⟩
  rw [h] at hb
  exact absurd hb (by simp)

@[simp] theorem yields_pure {a : α} : yields (pure a : Contract S Q R α) rs post s ↔ post a s rs :=
  yields_of_eq rfl

@[simp] theorem yields_bind {m : Contract S Q R α} {f : α → Contract S Q R β}
    {post : β → S → List (Option R) → Prop} :
    yields (m >>= f) rs post s ↔ yields m rs (fun a s' rs' => yields (f a) rs' post s') s := by
  unfold yields
  rw [playRest_bind]
  rcases (m s).playRest rs with _ | ⟨a, s', rs'⟩
  · simp
  · simp [and_assoc]

@[simp] theorem yields_get {post : S → S → List (Option R) → Prop} :
    yields (Contract.get : Contract S Q R S) rs post s ↔ post s s rs := yields_of_eq rfl

@[simp] theorem yields_modify {f : S → S} {post : Unit → S → List (Option R) → Prop} :
    yields (Contract.modify f : Contract S Q R Unit) rs post s ↔ post () (f s) rs :=
  yields_of_eq rfl

@[simp] theorem yields_require {p : Prop} [Decidable p]
    {post : Unit → S → List (Option R) → Prop} :
    yields (Contract.require p : Contract S Q R Unit) rs post s ↔ p ∧ post () s rs := by
  unfold Contract.require
  by_cases hp : p
  · rw [if_pos hp, and_iff_right hp]
    exact yields_pure
  · rw [if_neg hp]
    exact iff_of_false (not_yields_of_eq rfl) fun h => hp h.1

@[simp] theorem yields_ofOption {o : Option α} :
    yields (Contract.ofOption o : Contract S Q R α) rs post s ↔
      ∃ a, o = some a ∧ post a s rs := by
  cases o with
  | none => exact iff_of_false (not_yields_of_eq rfl) (by simp)
  | some a => simp [Contract.ofOption]

@[simp] theorem yields_ite {c : Prop} [Decidable c] {m n : Contract S Q R α} :
    yields (if c then m else n) rs post s ↔
      (c → yields m rs post s) ∧ (¬ c → yields n rs post s) := by
  by_cases hc : c
  · simp [hc]
  · simp [hc]

@[simp] theorem yields_tryCall {q : Q} {post : Option R → S → List (Option R) → Prop} :
    yields (Contract.tryCall q) rs post s ↔ ∃ r rest, rs = r :: rest ∧ post r s rest := by
  cases rs with
  | nil => exact iff_of_false (not_yields_of_eq rfl) (by simp)
  | cons r rest =>
    have hone : (Contract.tryCall q s).playRest (r :: rest) = some (r, s, rest) := rfl
    rw [yields_of_eq hone]
    simp [and_assoc]

@[simp] theorem yields_extCall {q : Q} {post : R → S → List (Option R) → Prop} :
    yields (Contract.extCall q) rs post s ↔ ∃ a rest, rs = some a :: rest ∧ post a s rest := by
  simp only [Contract.extCall, yields_bind, yields_tryCall, yields_ofOption]
  constructor
  · rintro ⟨r, rest, hrs, a, rfl, hpost⟩
    exact ⟨a, rest, hrs, hpost⟩
  · rintro ⟨a, rest, hrs, hpost⟩
    exact ⟨some a, rest, hrs, a, rfl, hpost⟩

/-- Where every end is in `P`, it is enough that there is one. -/
theorem yields_of_all {P : α → S → List (Option R) → Prop} {m : Contract S Q R α}
    (hall : ∀ post : α → S → List (Option R) → Prop, yields m rs post s →
      ∃ a s' rs', P a s' rs' ∧ post a s' rs')
    (hend : yields m rs (fun _ _ _ => True) s)
    (hpost : ∀ a s' rs', P a s' rs' → post a s' rs') : yields m rs post s := by
  obtain ⟨a, s', rs', hplay, -⟩ := hend
  obtain ⟨b, t, ts, hP, rfl, rfl, rfl⟩ := hall (fun b t ts => b = a ∧ t = s' ∧ ts = rs')
    ⟨a, s', rs', hplay, rfl, rfl, rfl⟩
  exact ⟨b, t, ts, hplay, hpost b t ts hP⟩

end Rules

/-! ## Code on a part, and other queries -/

theorem Proc.playRest_zoom (l : Lens T S) {t : T} (p : Proc S Q R α) :
    (p.zoom l t).playRest rs = (p.playRest rs).map fun r => (r.1, l.put t r.2.1, r.2.2) := by
  induction p generalizing t rs with
  | ret a s => rfl
  | throw => rfl
  | call q s k ih =>
    cases rs with
    | nil => rfl
    | cons r rest =>
      simp only [Proc.zoom, Proc.playRest, l.view_put, ih, l.put_put]

@[simp] theorem yields_zoom (l : Lens T S) {m : Contract S Q R α}
    {post : α → T → List (Option R) → Prop} {t : T} :
    yields (Contract.zoom l m) rs post t ↔
      yields m rs (fun a s' rs' => post a (l.put t s') rs') (l.view t) := by
  unfold yields Contract.zoom
  rw [Proc.playRest_zoom]
  rcases (m (l.view t)).playRest rs with _ | ⟨a, s', rs'⟩
  · simp
  · simp [and_assoc]

theorem Proc.playRest_relabel (f : Q → Q') (p : Proc S Q R α) :
    (p.relabel f).playRest rs = p.playRest rs := by
  induction p generalizing rs with
  | ret a s => rfl
  | throw => rfl
  | call q s k ih =>
    cases rs with
    | nil => rfl
    | cons r rest => exact ih r s

@[simp] theorem yields_relabel (f : Q → Q') {m : Contract S Q R α}
    {post : α → S → List (Option R) → Prop} :
    yields (Contract.relabel f m) rs post s ↔ yields m rs post s := by
  unfold yields Contract.relabel
  rw [Proc.playRest_relabel]

/-! ## Code that never calls out -/

/-- Code that returns needs no answer. -/
theorem yields_of_returns {m : Contract S Q R α} {post : α → S → Prop}
    {post' : α → S → List (Option R) → Prop} (h : returns m post s)
    (hpost : ∀ a s', post a s' → post' a s' rs) : yields m rs post' s := by
  unfold returns at h
  cases hm : m s with
  | ret a s' =>
    rw [hm] at h
    exact ⟨a, s', rs, by rw [hm]; rfl, hpost a s' h⟩
  | throw =>
    rw [hm] at h
    exact h.elim
  | call q s' k =>
    rw [hm] at h
    exact h.elim

/-- Code that never calls out and has ended, has ended as it ensures, with all answers left. -/
theorem yields_elim {m : Contract S Q R α} {post : α → S → Prop}
    {post' : α → S → List (Option R) → Prop} (hw : wp Boundary.closed m post s)
    (h : yields m rs post' s) : ∃ a s', post a s' ∧ post' a s' rs := by
  obtain ⟨a, s', rs', hplay, hend⟩ := h
  rcases eq_of_closed hw with hthrow | ⟨b, t, hret, hpost⟩
  · rw [hthrow] at hplay
    exact absurd hplay (by simp [Proc.playRest])
  · rw [hret] at hplay
    cases hplay
    exact ⟨a, s', hpost, hend⟩

/-! ## Top-level calls -/

section Calls

variable {C V : Type} {entry : C → Contract S Q R V} {c : C}

theorem completes_iff_yields :
    completes entry s c rs = true ↔ yields (entry c) rs (fun _ _ _ => True) s := by
  unfold completes yields
  rw [Proc.play_eq]
  rcases (entry c s).playRest rs with _ | ⟨v, s', rs'⟩
  · simp
  · simp

/-- A call that yields completes, and leaves the storage it yields. -/
theorem once_of_yields {post : V → S → List (Option R) → Prop}
    (h : yields (entry c) rs post s) :
    completes entry s c rs = true ∧ ∃ v rs', post v (once entry s c rs) rs' := by
  obtain ⟨v, s', rs', hplay, hpost⟩ := h
  unfold completes once
  rw [Proc.play_eq, hplay]
  exact ⟨rfl, v, rs', hpost⟩

end Calls

/-! ## Reports of success -/

/-- The first `n` of the answers `rs` are words other than `0`; `rs'` follow. -/
def Granted [Zero R] : Nat → List (Option R) → List (Option R) → Prop
  | 0, rs, rs' => rs' = rs
  | n + 1, rs, rs' => ∃ a rest, rs = some a :: rest ∧ a ≠ 0 ∧ Granted n rest rs'

theorem Granted.append [Zero R] {rs'' : List (Option R)} :
    ∀ {n k : Nat} {rs : List (Option R)}, Granted n rs rs' → Granted k rs' rs'' →
      Granted (n + k) rs rs''
  | 0, k, rs, h, h' => by
    rw [Nat.zero_add]
    exact (show rs' = rs from h) ▸ h'
  | n + 1, k, rs, ⟨a, rest, hrs, ha, h⟩, h' => by
    rw [Nat.add_right_comm]
    exact ⟨a, rest, hrs, ha, h.append h'⟩

/-- After the first answers come the others. -/
theorem Granted.rest [Zero R] {rs'' : List (Option R)} :
    ∀ {n k : Nat} {rs : List (Option R)}, Granted (n + k) rs rs'' → Granted n rs rs' →
      Granted k rs' rs''
  | 0, k, rs, h, h' => by
    rw [Nat.zero_add] at h
    exact (show rs' = rs from h') ▸ h
  | n + 1, k, rs, h, ⟨a, rest, hrs, _, h'⟩ => by
    rw [Nat.add_right_comm] at h
    obtain ⟨b, rest', hrs', -, h⟩ := h
    obtain rfl : rest' = rest := (List.cons.inj (hrs'.symm.trans hrs)).2
    exact h.rest h'

end ChainX.Reentry
