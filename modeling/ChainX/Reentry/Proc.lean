/-!
# Resumptions: code that hands control to code it cannot see

A piece of contract code over a storage `S` runs until it returns, throws, or calls out. At a call
it hands over a query `q : Q` and its storage, and waits: the outside answers with a word of `R`, or
with `none` when the called code failed, and the storage it finds on its return need not be the
one it left. `Proc` is that behaviour, `Contract` the monad of code with such behaviour.

* `wp B m post s` is the weakest precondition of `m` at `s`, for partial correctness: whenever
  control leaves, `B.out` holds, and whenever the outside gives control back within `B.back`, the
  code goes on and ends in `post` unless it throws. `wp_bind` and the rules beside the primitives
  let a specification be computed from the code.
* `returns m post s`: `m` comes to its end by itself, in `post`. Its rules are those of `wp` with
  the conditions turned into obligations; `returns_and` joins the two.
* `Proc.play` runs code against a list of answers by an outside that never touches the storage.
  `wp_still_iff`: the boundary `still` is exactly that outside. `loopFrom_eq_none`: a loop throws in
  its first round that throws.
* `runSeq` runs top-level calls one after the other; **`runSeq_invariant`** is its invariant rule,
  `runSeq_bound` is the rule for what comes in and goes out.

Nothing here knows what the storage, the queries or the answers are.
-/

namespace ChainX.Reentry

/-- Code run up to its next interaction. -/
inductive Proc (S Q R α : Type) where
  /-- Returned `a`, leaving the storage `s`. -/
  | ret (a : α) (s : S)
  /-- Threw: the caller undoes everything since the code was entered. -/
  | throw
  /-- Waits for the answer to `q`; `s` is the storage as it was left. -/
  | call (q : Q) (s : S) (resume : Option R → S → Proc S Q R α)

variable {S Q R α β : Type}

namespace Proc

/-- Go on with `f` where `p` returns. -/
def bind : Proc S Q R α → (α → S → Proc S Q R β) → Proc S Q R β
  | .ret a s, f => f a s
  | .throw, _ => .throw
  | .call q s k, f => .call q s fun r s' => (k r s').bind f

/-- Run against the answers `rs` of an outside that leaves the storage alone. Running out of answers
counts as a throw. -/
def play : Proc S Q R α → List (Option R) → Option (α × S)
  | .ret a s, _ => some (a, s)
  | .throw, _ => none
  | .call _ _ _, [] => none
  | .call _ s k, r :: rs => (k r s).play rs

/-- `play`, with the answers that are left over. -/
def playRest : Proc S Q R α → List (Option R) → Option (α × S × List (Option R))
  | .ret a s, rs => some (a, s, rs)
  | .throw, _ => none
  | .call _ _ _, [] => none
  | .call _ s k, r :: rs => (k r s).playRest rs

end Proc

/-- Code over the storage `S` that returns an `α`. -/
def Contract (S Q R α : Type) := S → Proc S Q R α

namespace Contract

instance : Monad (Contract S Q R) where
  pure a := fun s => .ret a s
  bind m f := fun s => (m s).bind f

/-- Read the storage. -/
def get : Contract S Q R S := fun s => .ret s s

/-- Update the storage. -/
def modify (f : S → S) : Contract S Q R Unit := fun s => .ret () (f s)

/-- Throw. -/
def revert : Contract S Q R α := fun _ => .throw

/-- Throw unless `p`. -/
def require (p : Prop) [Decidable p] : Contract S Q R Unit := if p then pure () else revert

/-- Throw on `none`. -/
def ofOption : Option α → Contract S Q R α
  | some a => pure a
  | none => revert

/-- A low-level call: a failure of the called code is reported to the caller. -/
def tryCall (q : Q) : Contract S Q R (Option R) := fun s => .call q s fun r s' => .ret r s'

/-- A high-level call: a failure of the called code is rethrown. -/
def extCall (q : Q) : Contract S Q R R := do ofOption (← tryCall q)

/-- Run `m` for its effects. -/
def void (m : Contract S Q R α) : Contract S Q R Unit := do
  let _ ← m
  pure ()

/-- `k` rounds of a loop, from index `i`. -/
def loopFrom (body : Nat → Contract S Q R Unit) : Nat → Nat → Contract S Q R Unit
  | 0, _ => pure ()
  | k + 1, i => do
    body i
    loopFrom body k (i + 1)

/-- `for (i = 0; i < n; i++) body(i)`. -/
def forLoop (n : Nat) (body : Nat → Contract S Q R Unit) : Contract S Q R Unit :=
  loopFrom body n 0

end Contract

/-! ## Code at a storage -/

namespace Contract

theorem bind_apply (m : Contract S Q R α) (f : α → Contract S Q R β) (s : S) :
    (m >>= f) s = (m s).bind f := rfl

theorem bind_ret {m : Contract S Q R α} {s s' : S} {a : α} (h : m s = .ret a s')
    (f : α → Contract S Q R β) : (m >>= f) s = f a s' := by
  rw [bind_apply, h]
  rfl

theorem bind_throw {m : Contract S Q R α} {s : S} (h : m s = .throw)
    (f : α → Contract S Q R β) : (m >>= f) s = .throw := by
  rw [bind_apply, h]
  rfl

theorem get_apply (s : S) : (get : Contract S Q R S) s = .ret s s := rfl

theorem modify_apply (f : S → S) (s : S) :
    (modify f : Contract S Q R Unit) s = .ret () (f s) := rfl

theorem ofOption_some (a : α) (s : S) : (ofOption (some a) : Contract S Q R α) s = .ret a s := rfl

theorem ofOption_some_bind (a : α) (f : α → Contract S Q R β) :
    (ofOption (some a) : Contract S Q R α) >>= f = f a := rfl

theorem ite_apply (c : Prop) [Decidable c] (m n : Contract S Q R α) (s : S) :
    (if c then m else n) s = if c then m s else n s := by
  split <;> rfl

theorem require_apply (p : Prop) [Decidable p] (s : S) :
    (require p : Contract S Q R Unit) s = if p then .ret () s else .throw := by
  unfold require
  split <;> rfl

end Contract

/-! ## Weakest preconditions -/

/-- What holds at every call and what is assumed of every return. -/
structure Boundary (S Q R : Type) where
  /-- Holds of the storage when `q` is asked. -/
  out : Q → S → Prop
  /-- Assumed of the answer to `q` and of the storage found with it. -/
  back : Q → S → Option R → S → Prop

/-- The outside that leaves the storage alone. -/
def Boundary.still : Boundary S Q R := ⟨fun _ _ => True, fun _ s _ s' => s' = s⟩

/-- The outside that leaves the storage alone, for code that only asks what `A` allows. -/
def Boundary.asking (A : Q → S → Prop) : Boundary S Q R := ⟨A, fun _ s _ s' => s' = s⟩

/-- No call leaves. -/
def Boundary.closed : Boundary S Q R := ⟨fun _ _ => False, fun _ _ _ _ => True⟩

/-- Any outside. -/
def Boundary.free : Boundary S Q R := ⟨fun _ _ => True, fun _ _ _ _ => True⟩

/-- The weakest precondition of a behaviour. -/
def Proc.Ensures (B : Boundary S Q R) (post : α → S → Prop) : Proc S Q R α → Prop
  | .ret a s => post a s
  | .throw => True
  | .call q s k => B.out q s ∧ ∀ r s', B.back q s r s' → (k r s').Ensures B post

/-- The weakest precondition of code. -/
def wp (B : Boundary S Q R) (m : Contract S Q R α) (post : α → S → Prop) (s : S) : Prop :=
  (m s).Ensures B post

variable {B : Boundary S Q R} {post post' : α → S → Prop} {s : S}

theorem Proc.ensures_bind {p : Proc S Q R α} {f : α → S → Proc S Q R β} {post : β → S → Prop} :
    (p.bind f).Ensures B post ↔ p.Ensures B fun a s => (f a s).Ensures B post := by
  induction p with
  | ret a s => exact Iff.rfl
  | throw => exact Iff.rfl
  | call q s k ih =>
    simp only [Proc.bind, Proc.Ensures]
    exact and_congr Iff.rfl (forall_congr' fun r => forall_congr' fun s' =>
      imp_congr Iff.rfl (ih r s'))

theorem Proc.Ensures.mono {p : Proc S Q R α} (h : p.Ensures B post)
    (hpost : ∀ a s, post a s → post' a s) : p.Ensures B post' := by
  induction p with
  | ret a s => exact hpost a s h
  | throw => trivial
  | call q s k ih => exact ⟨h.1, fun r s' hb => ih r s' (h.2 r s' hb)⟩

theorem wp_mono {m : Contract S Q R α} (h : wp B m post s)
    (hpost : ∀ a s, post a s → post' a s) : wp B m post' s :=
  Proc.Ensures.mono h hpost

theorem Proc.Ensures.and {p : Proc S Q R α} (h : p.Ensures B post) (h' : p.Ensures B post') :
    p.Ensures B fun a s => post a s ∧ post' a s := by
  induction p with
  | ret a s => exact ⟨h, h'⟩
  | throw => trivial
  | call q s k ih => exact ⟨h.1, fun r s' hb => ih r s' (h.2 r s' hb) (h'.2 r s' hb)⟩

theorem wp_and {m : Contract S Q R α} (h : wp B m post s) (h' : wp B m post' s) :
    wp B m (fun a s => post a s ∧ post' a s) s :=
  Proc.Ensures.and h h'

/-- Two continuations may be exchanged that agree on whatever the code before them returns. -/
theorem bind_congr_of_wp {m : Contract S Q R α} {f g : α → Contract S Q R β} {P : α → Prop}
    (hm : ∀ s, wp Boundary.free m (fun a _ => P a) s) (hfg : ∀ a, P a → f a = g a) :
    m >>= f = m >>= g := by
  have hproc : ∀ p : Proc S Q R α, p.Ensures Boundary.free (fun a _ => P a) →
      p.bind f = p.bind g := by
    intro p hp
    induction p with
    | ret a s => exact congrFun (hfg a hp) s
    | throw => rfl
    | call q s k ih =>
      simp only [Proc.bind, Proc.call.injEq, true_and]
      funext r s'
      exact ih r s' (hp.2 r s' trivial)
  funext s
  exact hproc (m s) (hm s)

/-- Code that never calls out ensures the same whatever the outside is. -/
theorem wp_of_closed {m : Contract S Q R α} (h : wp Boundary.closed m post s) :
    wp B m post s := by
  unfold wp at h ⊢
  cases hm : m s with
  | ret a s' =>
    rw [hm] at h
    exact h
  | throw => trivial
  | call q s' k =>
    rw [hm] at h
    exact h.1.elim

/-- Code that never calls out throws or returns. -/
theorem eq_of_closed {m : Contract S Q R α} (h : wp Boundary.closed m post s) :
    m s = .throw ∨ ∃ a s', m s = .ret a s' ∧ post a s' := by
  unfold wp at h
  cases hm : m s with
  | ret a s' =>
    rw [hm] at h
    exact Or.inr ⟨a, s', rfl, h⟩
  | throw => exact Or.inl rfl
  | call q s' k =>
    rw [hm] at h
    exact h.1.elim

@[simp] theorem wp_pure {a : α} : wp B (pure a) post s ↔ post a s := Iff.rfl

@[simp] theorem wp_bind {m : Contract S Q R α} {f : α → Contract S Q R β} {post : β → S → Prop} :
    wp B (m >>= f) post s ↔ wp B m (fun a s' => wp B (f a) post s') s :=
  Proc.ensures_bind

@[simp] theorem wp_get {post : S → S → Prop} :
    wp B (Contract.get : Contract S Q R S) post s ↔ post s s := Iff.rfl

@[simp] theorem wp_modify {f : S → S} {post : Unit → S → Prop} :
    wp B (Contract.modify f : Contract S Q R Unit) post s ↔ post () (f s) := Iff.rfl

@[simp] theorem wp_revert : wp B (Contract.revert : Contract S Q R α) post s ↔ True := Iff.rfl

@[simp] theorem wp_require {p : Prop} [Decidable p] {post : Unit → S → Prop} :
    wp B (Contract.require p : Contract S Q R Unit) post s ↔ (p → post () s) := by
  unfold Contract.require
  by_cases hp : p
  · simp [hp]
  · simp [hp]

@[simp] theorem wp_ofOption {o : Option α} :
    wp B (Contract.ofOption o : Contract S Q R α) post s ↔ ∀ a, o = some a → post a s := by
  cases o with
  | none => simp [Contract.ofOption]
  | some a => simp [Contract.ofOption]

@[simp] theorem wp_tryCall {q : Q} {post : Option R → S → Prop} :
    wp B (Contract.tryCall q) post s ↔ B.out q s ∧ ∀ r s', B.back q s r s' → post r s' := Iff.rfl

@[simp] theorem wp_extCall {q : Q} {post : R → S → Prop} :
    wp B (Contract.extCall q) post s ↔
      B.out q s ∧ ∀ a s', B.back q s (some a) s' → post a s' := by
  simp only [Contract.extCall, wp_bind, wp_tryCall, wp_ofOption]
  refine and_congr Iff.rfl ⟨fun h a s' hb => h (some a) s' hb a rfl, fun h r s' hb a hr => ?_⟩
  exact h a s' (hr ▸ hb)

@[simp] theorem wp_ite {c : Prop} [Decidable c] {m n : Contract S Q R α} :
    wp B (if c then m else n) post s ↔ (c → wp B m post s) ∧ (¬ c → wp B n post s) := by
  by_cases hc : c
  · simp [hc]
  · simp [hc]

@[simp] theorem wp_void {m : Contract S Q R α} {post : Unit → S → Prop} :
    wp B m.void post s ↔ wp B m (fun _ s' => post () s') s := by
  unfold Contract.void
  rw [wp_bind]
  exact Iff.rfl

/-- A loop whose rounds lead from `I i` to `I (i + 1)`. -/
theorem wp_loopFrom {I : Nat → S → Prop} {body : Nat → Contract S Q R Unit} {k i : Nat}
    (hbody : ∀ j s, i ≤ j → j < i + k → I j s → wp B (body j) (fun _ s' => I (j + 1) s') s)
    (hs : I i s) : wp B (Contract.loopFrom body k i) (fun _ s' => I (i + k) s') s := by
  induction k generalizing i s with
  | zero => exact hs
  | succ k ih =>
    simp only [Contract.loopFrom, wp_bind]
    refine wp_mono (hbody i s (Nat.le_refl i) (by omega) hs) fun _ s' hs' => ?_
    rw [← Nat.add_assoc, Nat.add_right_comm]
    exact ih (fun j s'' hle hlt => hbody j s'' (by omega) (by omega)) hs'

/-- **The loop rule**: what every round keeps, the loop keeps. -/
theorem wp_forLoop {I : S → Prop} {n : Nat} {body : Nat → Contract S Q R Unit}
    (hbody : ∀ i s, i < n → I s → wp B (body i) (fun _ s' => I s') s) (hs : I s) :
    wp B (Contract.forLoop n body) (fun _ s' => I s') s :=
  wp_loopFrom (I := fun _ => I) (fun i s' _ hlt => hbody i s' (by omega)) hs

/-! ## The outside that leaves the storage alone -/

/-- **`still` is the outside of `play`**: the weakest precondition within it speaks of exactly the
results `play` can give. -/
theorem wp_still_iff {m : Contract S Q R α} :
    wp Boundary.still m post s ↔ ∀ rs a s', (m s).play rs = some (a, s') → post a s' := by
  unfold wp
  generalize m s = p
  induction p with
  | ret a s =>
    simp only [Proc.Ensures, Proc.play, Option.some.injEq, Prod.mk.injEq]
    exact ⟨fun h _ a' s' e => e.1 ▸ e.2 ▸ h, fun h => h [] a s ⟨rfl, rfl⟩⟩
  | throw => simp [Proc.Ensures, Proc.play]
  | call q s k ih =>
    simp only [Proc.Ensures, Boundary.still, true_and, forall_eq]
    constructor
    · intro h rs a s' hp
      cases rs with
      | nil => simp [Proc.play] at hp
      | cons r rs => exact (ih r s).mp (h r) rs a s' hp
    · exact fun h r => (ih r s).mpr fun rs a s' hp => h (r :: rs) a s' hp

theorem Proc.play_eq (p : Proc S Q R α) (rs : List (Option R)) :
    p.play rs = (p.playRest rs).map fun r => (r.1, r.2.1) := by
  induction p generalizing rs with
  | ret a s => rfl
  | throw => rfl
  | call q s k ih =>
    cases rs with
    | nil => rfl
    | cons r rs => exact ih r s rs

/-- What follows runs against the answers that are left over. -/
theorem Proc.playRest_bind (p : Proc S Q R α) (f : α → S → Proc S Q R β)
    (rs : List (Option R)) :
    (p.bind f).playRest rs = (p.playRest rs).bind fun r => (f r.1 r.2.1).playRest r.2.2 := by
  induction p generalizing rs with
  | ret a s => rfl
  | throw => rfl
  | call q s k ih =>
    cases rs with
    | nil => rfl
    | cons r rs => exact ih r s rs

theorem playRest_bind {m : Contract S Q R α} {f : α → Contract S Q R β} {rs : List (Option R)} :
    ((m >>= f) s).playRest rs =
      ((m s).playRest rs).bind fun r => (f r.1 r.2.1).playRest r.2.2 :=
  Proc.playRest_bind (m s) f rs

theorem play_void {m : Contract S Q R α} {rs : List (Option R)} :
    (m.void s).play rs = ((m s).play rs).map fun r => ((), r.2) := by
  rw [Proc.play_eq, Proc.play_eq, Contract.void, playRest_bind]
  cases (m s).playRest rs with
  | none => rfl
  | some r => rfl

/-- Code that can end nowhere throws. -/
theorem playRest_eq_none {m : Contract S Q R α} {rs : List (Option R)}
    (h : wp Boundary.still m (fun _ _ => False) s) : (m s).playRest rs = none := by
  cases hplay : (m s).playRest rs with
  | none => rfl
  | some r =>
    refine (wp_still_iff.mp h rs r.1 r.2.1 ?_).elim
    rw [Proc.play_eq, hplay, Option.map_some]

/-- **A loop throws in its first round that throws**, in the storage and with the answers that the
rounds before it have left. -/
theorem loopFrom_eq_none {body : Nat → Contract S Q R Unit} {k i : Nat} {rs : List (Option R)} :
    (Contract.loopFrom body k i s).playRest rs = none ↔
      ∃ j < k, ∃ s' rs', (Contract.loopFrom body j i s).playRest rs = some ((), s', rs') ∧
        (body (i + j) s').playRest rs' = none := by
  induction k generalizing i s rs with
  | zero =>
    refine iff_of_false (fun h => ?_) fun ⟨j, hj, _⟩ => absurd hj (Nat.not_lt_zero j)
    simp [Contract.loopFrom, pure, Proc.playRest] at h
  | succ k ih =>
    have hstep : ∀ j, (Contract.loopFrom body (j + 1) i s).playRest rs =
        ((body i s).playRest rs).bind fun r =>
          (Contract.loopFrom body j (i + 1) r.2.1).playRest r.2.2 :=
      fun _ => playRest_bind
    rw [hstep]
    cases hone : (body i s).playRest rs with
    | none =>
      exact iff_of_true rfl ⟨0, Nat.succ_pos k, s, rs, rfl, hone⟩
    | some r =>
      rw [Option.bind_some, ih]
      constructor
      · rintro ⟨j, hj, s', rs', hleft, hthrow⟩
        refine ⟨j + 1, Nat.succ_lt_succ hj, s', rs', ?_, ?_⟩
        · rw [hstep, hone]
          exact hleft
        · rw [← hthrow, Nat.add_right_comm, Nat.add_assoc]
      · rintro ⟨j, hj, s', rs', hleft, hthrow⟩
        cases j with
        | zero =>
          -- the first round itself does not throw
          simp only [Contract.loopFrom, pure, Proc.playRest, Option.some.injEq, Prod.mk.injEq,
            true_and] at hleft
          obtain ⟨rfl, rfl⟩ := hleft
          rw [Nat.add_zero, hone] at hthrow
          exact absurd hthrow (by simp)
        | succ j =>
          rw [hstep, hone] at hleft
          refine ⟨j, Nat.lt_of_succ_lt_succ hj, s', rs', hleft, ?_⟩
          rw [← hthrow, Nat.add_right_comm, Nat.add_assoc]

/-- Every outside leaves the storage somewhere. -/
theorem wp_still_true {m : Contract S Q R α} : wp Boundary.still m (fun _ _ => True) s :=
  wp_still_iff.mpr fun _ _ _ _ => trivial

/-! ## Returning

The total counterpart of `wp`, for code that is meant to come to its end by itself: it neither
throws nor calls out. -/

/-- The behaviour is to return, in `post`. -/
def Proc.Returns (post : α → S → Prop) : Proc S Q R α → Prop
  | .ret a s => post a s
  | .throw => False
  | .call .. => False

/-- The code returns without calling out, in `post`. -/
def returns (m : Contract S Q R α) (post : α → S → Prop) (s : S) : Prop := (m s).Returns post

section Returns

variable {post : α → S → Prop} {s : S}

@[simp] theorem returns_pure {a : α} : returns (pure a : Contract S Q R α) post s ↔ post a s :=
  Iff.rfl

@[simp] theorem returns_bind {m : Contract S Q R α} {f : α → Contract S Q R β}
    {post : β → S → Prop} :
    returns (m >>= f) post s ↔ returns m (fun a s' => returns (f a) post s') s := by
  unfold returns
  cases h : m s <;> simp only [bind, h, Proc.bind, Proc.Returns]

@[simp] theorem returns_get {post : S → S → Prop} :
    returns (Contract.get : Contract S Q R S) post s ↔ post s s := Iff.rfl

@[simp] theorem returns_modify {f : S → S} {post : Unit → S → Prop} :
    returns (Contract.modify f : Contract S Q R Unit) post s ↔ post () (f s) := Iff.rfl

@[simp] theorem returns_require {p : Prop} [Decidable p] {post : Unit → S → Prop} :
    returns (Contract.require p : Contract S Q R Unit) post s ↔ p ∧ post () s := by
  unfold Contract.require
  by_cases hp : p
  · rw [if_pos hp, and_iff_right hp]
    exact Iff.rfl
  · rw [if_neg hp]
    exact ⟨fun h => h.elim, fun h => absurd h.1 hp⟩

@[simp] theorem returns_ofOption {o : Option α} :
    returns (Contract.ofOption o : Contract S Q R α) post s ↔ ∃ a, o = some a ∧ post a s := by
  cases o with
  | none => exact ⟨fun h => h.elim, fun ⟨_, h, _⟩ => absurd h (by simp)⟩
  | some b =>
    refine ⟨fun h => ⟨b, rfl, h⟩, ?_⟩
    rintro ⟨a, ha, h⟩
    cases ha
    exact h

@[simp] theorem returns_ite {c : Prop} [Decidable c] {m n : Contract S Q R α} :
    returns (if c then m else n) post s ↔
      (c → returns m post s) ∧ (¬ c → returns n post s) := by
  by_cases hc : c
  · simp [hc]
  · simp [hc]

theorem returns_iff_ret {m : Contract S Q R α} :
    returns m post s ↔ ∃ a s', m s = .ret a s' ∧ post a s' := by
  unfold returns
  cases m s with
  | ret a s' =>
    refine ⟨fun h => ⟨a, s', rfl, h⟩, ?_⟩
    rintro ⟨a', s'', hret, h⟩
    cases hret
    exact h
  | throw => exact ⟨fun h => h.elim, fun ⟨_, _, h, _⟩ => absurd h (by simp)⟩
  | call q s' k => exact ⟨fun h => h.elim, fun ⟨_, _, h, _⟩ => absurd h (by simp)⟩

theorem returns_mono {post' : α → S → Prop} {m : Contract S Q R α} (h : returns m post s)
    (hpost : ∀ a s', post a s' → post' a s') : returns m post' s := by
  unfold returns at h ⊢
  cases hm : m s with
  | ret a s' =>
    rw [hm] at h
    exact hpost a s' h
  | throw =>
    rw [hm] at h
    exact h.elim
  | call q s' k =>
    rw [hm] at h
    exact h.elim

/-- Code that returns, returns as its weakest precondition says. -/
theorem returns_and {post' : α → S → Prop} {m : Contract S Q R α} (h : returns m post s)
    (hw : wp B m post' s) : returns m (fun a s' => post a s' ∧ post' a s') s := by
  unfold returns wp at *
  cases hm : m s with
  | ret a s' =>
    rw [hm] at h hw
    exact ⟨h, hw⟩
  | throw =>
    rw [hm] at h
    exact h.elim
  | call q s' k =>
    rw [hm] at h
    exact h.elim

/-- What code that returns ensures holds somewhere. -/
theorem exists_of_returns {post' : α → S → Prop} {m : Contract S Q R α} (h : returns m post s)
    (hw : wp B m post' s) : ∃ a s', post a s' ∧ post' a s' := by
  obtain ⟨a, s', -, hpost⟩ := returns_iff_ret.mp (returns_and h hw)
  exact ⟨a, s', hpost⟩

end Returns

/-! ## Sequential runs -/

section Sequential

variable {C V : Type} (entry : C → Contract S Q R V)

/-- The top-level call `c` under the answers `rs`. A call that throws changes nothing. -/
def once (s : S) (c : C) (rs : List (Option R)) : S :=
  match (entry c s).play rs with
  | some (_, s') => s'
  | none => s

/-- Top-level calls one after the other, each with the answers its external calls get. -/
def runSeq (s : S) (calls : List (C × List (Option R))) : S :=
  calls.foldl (fun s c => once entry s c.1 c.2) s

/-- The call comes to its end without a throw. -/
def completes (s : S) (c : C) (rs : List (Option R)) : Bool := ((entry c s).play rs).isSome

/-- The sum of `amount` over the calls of a run that complete. -/
def sumCompleted (amount : C → Nat) : S → List (C × List (Option R)) → Nat
  | _, [] => 0
  | s, c :: cs =>
    (if completes entry s c.1 c.2 then amount c.1 else 0) +
      sumCompleted amount (once entry s c.1 c.2) cs

variable {entry}

/-- A call ends as it ensures within `still`, or throws and changes nothing. -/
theorem once_spec {c : C} (rs : List (Option R)) {post : V → S → Prop}
    (h : wp Boundary.still (entry c) post s) :
    (completes entry s c rs = false ∧ once entry s c rs = s) ∨
      completes entry s c rs = true ∧ ∃ v, post v (once entry s c rs) := by
  unfold completes once
  cases hp : (entry c s).play rs with
  | none => exact Or.inl ⟨rfl, rfl⟩
  | some r => exact Or.inr ⟨rfl, r.1, wp_still_iff.mp h rs r.1 r.2 hp⟩

/-- A call that completes ends as it ensures. -/
theorem completes_spec {c : C} {rs : List (Option R)} {post : V → S → Prop}
    (h : wp Boundary.still (entry c) post s) (hc : completes entry s c rs = true) :
    ∃ v, post v (once entry s c rs) := by
  rcases once_spec rs h with ⟨hno, -⟩ | ⟨-, hend⟩
  · rw [hno] at hc
    exact absurd hc Bool.false_ne_true
  · exact hend

/-- A call that does not complete changes nothing. -/
theorem once_of_not_completes {c : C} {rs : List (Option R)}
    (hc : completes entry s c rs = false) : once entry s c rs = s := by
  rcases once_spec rs wp_still_true with ⟨-, hsame⟩ | ⟨hyes, -⟩
  · exact hsame
  · rw [hc] at hyes
    exact absurd hyes Bool.false_ne_true

/-- **The invariant rule for sequential runs.** -/
theorem runSeq_invariant {I : S → Prop} :
    ∀ (calls : List (C × List (Option R))) (s : S),
      (∀ c ∈ calls, ∀ s, I s → wp Boundary.still (entry c.1) (fun _ s' => I s') s) → I s →
      I (runSeq entry s calls)
  | [], _, _, hs => hs
  | c :: cs, s, h, hs => by
    have hone : I (once entry s c.1 c.2) := by
      rcases once_spec c.2 (h c List.mem_cons_self s hs) with ⟨-, he⟩ | ⟨-, _, he⟩
      · rw [he]
        exact hs
      · exact he
    exact runSeq_invariant cs _ (fun d hd => h d (List.mem_cons_of_mem c hd)) hone

/-- **The accounting rule for sequential runs**: a measure that every completed call raises by at
most what comes in less what goes out is raised by a run by at most the sums of both. -/
theorem runSeq_bound {measure : S → Nat} {comes goes : C → Nat}
    (h : ∀ c s, wp Boundary.still (entry c)
      (fun _ s' => measure s' + goes c ≤ measure s + comes c) s) :
    ∀ (calls : List (C × List (Option R))) (s : S),
      measure (runSeq entry s calls) + sumCompleted entry goes s calls ≤
        measure s + sumCompleted entry comes s calls
  | [], _ => Nat.le_refl _
  | c :: cs, s => by
    have hrest := runSeq_bound h cs (once entry s c.1 c.2)
    simp only [runSeq, List.foldl_cons, sumCompleted] at hrest ⊢
    rcases once_spec c.2 (h c.1 s) with ⟨hc, he⟩ | ⟨hc, _, hone⟩
    · rw [he] at hrest
      simp only [hc, Bool.false_eq_true, if_false, Nat.zero_add, he]
      exact hrest
    · rw [if_pos hc, if_pos hc]
      omega

end Sequential

end ChainX.Reentry
