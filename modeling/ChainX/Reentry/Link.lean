import ChainX.Reentry.Proc
import Mathlib.Tactic.Simps.Basic

/-!
# Linking code with the code it calls

`Contract.link run m` is `m` with every query `q` answered by the code `run q`, over the storage of
both. A throw of `run q` undoes what `run q` did and comes back as a failure, as the machine has it.
`Contract.zoom l m` is `m` on the part of a storage that the lens `l` names,
`Contract.relabel f m` is `m` with its queries renamed and `Contract.reanswer g m` with its answers
read through `g`.

* `link_bind`, `link_extCall`, …: linking is computed from the code, so that the rules for `wp`
  apply to the outcome. `link_zoom`, `link_relabel`: code that was linked before can be linked
  again.
* `wp_zoom`, `wp_relabel`, `wp_reanswer`: what holds of code on a part, or with other queries or
  answers, within `still`.
* **`wp_link_of_wp`**: what code ensures within an outside that leaves its storage alone, the linked
  code ensures; and what every `run q` keeps of its own storage, the linked code keeps.
-/

namespace ChainX.Reentry

variable {S T U Q R Q' R' α β : Type}

/-- A part of `T`: a storage within a storage. -/
@[ext] structure Lens (T S : Type) where
  view : T → S
  put : T → S → T
  view_put : ∀ t s, view (put t s) = s
  put_view : ∀ t, put t (view t) = t
  put_put : ∀ t s s', put (put t s) s' = put t s'

namespace Lens

/-- The second of two storages. -/
@[simps] def snd : Lens (S × T) T where
  view st := st.2
  put st t := (st.1, t)
  view_put _ _ := rfl
  put_view _ := rfl
  put_put _ _ _ := rfl

/-- A part of a part. -/
@[simps] def comp (l : Lens U T) (l' : Lens T S) : Lens U S where
  view u := l'.view (l.view u)
  put u s := l.put u (l'.put (l.view u) s)
  view_put u s := by rw [l.view_put, l'.view_put]
  put_view u := by rw [l'.put_view, l.put_view]
  put_put u s s' := by rw [l.view_put, l.put_put, l'.put_put]

/-- A part of the first of two storages, beside the second. -/
@[simps] def beside (l : Lens T S) : Lens (T × U) (S × U) where
  view tu := (l.view tu.1, tu.2)
  put tu su := (l.put tu.1 su.1, su.2)
  view_put tu su := by rw [l.view_put]
  put_view tu := by rw [l.put_view]
  put_put tu su su' := by rw [l.put_put]

theorem beside_comp_snd (l : Lens T S) : (l.beside : Lens (T × U) (S × U)).comp snd = snd := by
  refine Lens.ext rfl ?_
  funext tu u
  simp only [comp_put, beside_put, beside_view, snd_put, l.put_view]

end Lens

namespace Proc

/-- A throw comes back as `none`, with the storage `s₀` the code was entered with. -/
def attempt (s₀ : S) : Proc S Q R α → Proc S Q R (Option α)
  | .ret a s => .ret (some a) s
  | .throw => .ret none s₀
  | .call q s k => .call q s fun r s' => (k r s').attempt s₀

/-- Behaviour on the part `l` of the storage `t`. -/
def zoom (l : Lens T S) : T → Proc S Q R α → Proc T Q R α
  | t, .ret a s => .ret a (l.put t s)
  | _, .throw => .throw
  | t, .call q s k => .call q (l.put t s) fun r t' => (k r (l.view t')).zoom l t'

/-- The queries renamed. -/
def relabel (f : Q → Q') : Proc S Q R α → Proc S Q' R α
  | .ret a s => .ret a s
  | .throw => .throw
  | .call q s k => .call (f q) s fun r s' => (k r s').relabel f

/-- The answers read through `g`. -/
def reanswer (g : R' → R) : Proc S Q R α → Proc S Q R' α
  | .ret a s => .ret a s
  | .throw => .throw
  | .call q s k => .call q s fun r s' => (k (r.map g) s').reanswer g

/-- The queries answered by the code `run`, over the storage `t`. -/
def link (run : Q → Contract T Q' R' R) : Proc S Q R α → T → Proc (S × T) Q' R' α
  | .ret a s, t => .ret a (s, t)
  | .throw, _ => .throw
  | .call q s k, t =>
    (((run q t).attempt t).zoom Lens.snd (s, t)).bind fun r st => (k r st.1).link run st.2

end Proc

namespace Contract

/-- Code on the part `l` of a storage. -/
def zoom (l : Lens T S) (m : Contract S Q R α) : Contract T Q R α :=
  fun t => (m (l.view t)).zoom l t

/-- Code with its queries renamed. -/
def relabel (f : Q → Q') (m : Contract S Q R α) : Contract S Q' R α := fun s => (m s).relabel f

/-- Code with its answers read through `g`. -/
def reanswer (g : R' → R) (m : Contract S Q R α) : Contract S Q R' α := fun s => (m s).reanswer g

/-- Code linked with the code that answers its queries. -/
def link (run : Q → Contract T Q' R' R) (m : Contract S Q R α) : Contract (S × T) Q' R' α :=
  fun st => (m st.1).link run st.2

end Contract

open Contract

/-! ## Laws -/

theorem Proc.bind_assoc {γ : Type} (p : Proc S Q R α) (f : α → S → Proc S Q R β)
    (g : β → S → Proc S Q R γ) : (p.bind f).bind g = p.bind fun a s => (f a s).bind g := by
  induction p with
  | ret a s => rfl
  | throw => rfl
  | call q s k ih =>
    simp only [Proc.bind, Proc.call.injEq, true_and]
    funext r s'
    exact ih r s'

theorem Proc.link_bind (run : Q → Contract T Q' R' R) (f : α → S → Proc S Q R β)
    (p : Proc S Q R α) (t : T) :
    (p.bind f).link run t = (p.link run t).bind fun a st => (f a st.1).link run st.2 := by
  induction p generalizing t with
  | ret a s => rfl
  | throw => rfl
  | call q s k ih =>
    simp only [Proc.bind, Proc.link, Proc.bind_assoc]
    congr 1
    funext r st
    exact ih r st.1 st.2

/-- Rethrowing what was caught. -/
theorem Proc.attempt_rethrow (l : Lens T S) (s₀ : S) (t : T) (p : Proc S Q R α) :
    ((p.attempt s₀).zoom l t).bind (fun o => Contract.ofOption o) = p.zoom l t := by
  induction p generalizing t with
  | ret a s => rfl
  | throw => rfl
  | call q s k ih =>
    simp only [Proc.attempt, Proc.zoom, Proc.bind, Proc.call.injEq, true_and]
    funext r t'
    exact ih r _ t'

theorem Proc.zoom_put (l : Lens T S) (t : T) (s : S) (p : Proc S Q R α) :
    p.zoom l (l.put t s) = p.zoom l t := by
  cases p with
  | ret a s' => rw [Proc.zoom, Proc.zoom, l.put_put]
  | throw => rfl
  | call q s' k => rw [Proc.zoom, Proc.zoom, l.put_put]

theorem Proc.zoom_bind (l : Lens T S) (t : T) (p : Proc S Q R α) (f : α → S → Proc S Q R β) :
    (p.bind f).zoom l t = (p.zoom l t).bind fun a t' => (f a (l.view t')).zoom l t' := by
  induction p generalizing t with
  | ret a s => rw [Proc.zoom, Proc.bind, Proc.bind, l.view_put, Proc.zoom_put]
  | throw => rfl
  | call q s k ih =>
    simp only [Proc.bind, Proc.zoom, Proc.call.injEq, true_and]
    funext r t'
    exact ih r _ t'

theorem Proc.zoom_zoom (l : Lens U T) (l' : Lens T S) (u : U) (p : Proc S Q R α) :
    (p.zoom l' (l.view u)).zoom l u = p.zoom (l.comp l') u := by
  induction p generalizing u with
  | ret a s => rfl
  | throw => rfl
  | call q s k ih =>
    simp only [Proc.zoom, Lens.comp_put, Lens.comp_view, Proc.call.injEq, true_and]
    funext r u'
    exact ih r _ u'

theorem Proc.link_zoom (run : Q → Contract U Q' R' R) (l : Lens T S) (t : T) (u : U)
    (p : Proc S Q R α) :
    (p.zoom l t).link run u = (p.link run u).zoom l.beside (t, u) := by
  induction p generalizing t u with
  | ret a s => rfl
  | throw => rfl
  | call q s k ih =>
    have hview : (s, u) = l.beside.view (l.put t s, u) := by rw [Lens.beside_view, l.view_put]
    have hput : l.beside.put (t, u) (s, u) = (l.put t s, u) := rfl
    have hone : (((run q u).attempt u).zoom Lens.snd (s, u)).zoom l.beside (t, u) =
        ((run q u).attempt u).zoom Lens.snd (l.put t s, u) := by
      rw [← Proc.zoom_put l.beside (t, u) (s, u), hput, hview, Proc.zoom_zoom,
        Lens.beside_comp_snd]
    simp only [Proc.zoom, Proc.link, Proc.zoom_bind, hone]
    congr 1
    funext r tu
    exact ih r _ tu.1 tu.2

theorem Proc.link_relabel {Q₀ : Type} (run : Q → Contract T Q' R' R) (f : Q₀ → Q) (t : T)
    (p : Proc S Q₀ R α) : (p.relabel f).link run t = p.link (fun q => run (f q)) t := by
  induction p generalizing t with
  | ret a s => rfl
  | throw => rfl
  | call q s k ih =>
    simp only [Proc.relabel, Proc.link]
    congr 1
    funext r st
    exact ih r st.1 st.2

section Link

variable (run : Q → Contract T Q' R' R)

@[simp] theorem link_pure (a : α) : link run (pure a : Contract S Q R α) = pure a := rfl

@[simp] theorem link_bind (m : Contract S Q R α) (f : α → Contract S Q R β) :
    link run (m >>= f) = link run m >>= fun a => link run (f a) := by
  funext st
  exact Proc.link_bind run f (m st.1) st.2

@[simp] theorem link_get : link run (get : Contract S Q R S) = (do return (← get).1) := rfl

@[simp] theorem link_modify (f : S → S) :
    link run (modify f : Contract S Q R Unit) = modify fun st => (f st.1, st.2) := rfl

@[simp] theorem link_revert : link run (revert : Contract S Q R α) = revert := rfl

@[simp] theorem link_require (p : Prop) [Decidable p] :
    link run (require p : Contract S Q R Unit) = require p := by
  unfold require
  by_cases hp : p
  · rw [if_pos hp, if_pos hp]
    rfl
  · rw [if_neg hp, if_neg hp]
    rfl

@[simp] theorem link_ofOption (o : Option α) :
    link run (ofOption o : Contract S Q R α) = ofOption o := by
  cases o <;> rfl

@[simp] theorem link_ite (c : Prop) [Decidable c] (m n : Contract S Q R α) :
    link run (if c then m else n) = if c then link run m else link run n := by
  by_cases hc : c
  · rw [if_pos hc, if_pos hc]
  · rw [if_neg hc, if_neg hc]

/-- **A high-level call is the code it calls.** -/
@[simp] theorem link_extCall (q : Q) :
    link run (extCall q : Contract S Q R R) = zoom Lens.snd (run q) := by
  funext st
  obtain ⟨s, t⟩ := st
  have h := Proc.attempt_rethrow (Lens.snd (S := S)) t (s, t) (run q t)
  refine Eq.trans ?_ h
  simp only [extCall, link, tryCall, bind, Proc.bind, Proc.link]
  congr 1
  funext o st
  cases o <;> rfl

theorem link_loopFrom (body : Nat → Contract S Q R Unit) (k i : Nat) :
    link run (loopFrom body k i) = loopFrom (fun j => link run (body j)) k i := by
  induction k generalizing i with
  | zero => rfl
  | succ k ih => simp only [loopFrom, link_bind, ih]

@[simp] theorem link_forLoop (n : Nat) (body : Nat → Contract S Q R Unit) :
    link run (forLoop n body) = forLoop n fun i => link run (body i) :=
  link_loopFrom run body n 0

/-- Linking code on a part. -/
@[simp] theorem link_zoom (l : Lens U S) (m : Contract S Q R α) :
    link run (zoom l m) = zoom l.beside (link run m) := by
  funext st
  exact Proc.link_zoom run l st.1 st.2 (m (l.view st.1))

@[simp] theorem link_relabel {Q₀ : Type} (f : Q₀ → Q) (m : Contract S Q₀ R α) :
    link run (relabel f m) = link (fun q => run (f q)) m := by
  funext st
  exact Proc.link_relabel run f st.2 (m st.1)

end Link

/-! ## What holds of linked code -/

theorem Proc.ensures_zoom (l : Lens T S) {p : Proc S Q R α} {post : α → T → Prop} {t : T} :
    (p.zoom l t).Ensures Boundary.still post ↔
      p.Ensures Boundary.still fun a s => post a (l.put t s) := by
  induction p generalizing t with
  | ret a s => exact Iff.rfl
  | throw => exact Iff.rfl
  | call q s k ih =>
    simp only [Proc.zoom, Proc.Ensures, Boundary.still, true_and, forall_eq, l.view_put]
    refine forall_congr' fun r => (ih r s).trans ?_
    simp only [l.put_put]
    exact Iff.rfl

/-- **Code on a part** does there what it does alone, and leaves the rest alone. -/
@[simp] theorem wp_zoom (l : Lens T S) {m : Contract S Q R α} {post : α → T → Prop} {t : T} :
    wp Boundary.still (zoom l m) post t ↔
      wp Boundary.still m (fun a s => post a (l.put t s)) (l.view t) :=
  Proc.ensures_zoom l

/-- The same for code that never calls out. -/
@[simp] theorem wp_zoom_closed (l : Lens T S) {m : Contract S Q R α} {post : α → T → Prop} {t : T} :
    wp Boundary.closed (zoom l m) post t ↔
      wp Boundary.closed m (fun a s => post a (l.put t s)) (l.view t) := by
  unfold wp zoom
  cases m (l.view t) with
  | ret a s => exact Iff.rfl
  | throw => exact Iff.rfl
  | call q s k => exact iff_of_false (fun h => h.1) fun h => h.1

/-- A question put from a part is a question put from the whole, which may come back changed. -/
@[simp] theorem wp_zoom_extCall {B : Boundary T Q R} (l : Lens T S) {q : Q} {post : R → T → Prop}
    {t : T} :
    wp B (zoom l (extCall q)) post t ↔
      B.out q t ∧ ∀ a t', B.back q t (some a) t' → post a t' := by
  have hresume : ∀ (r : Option R) (t' : T),
      ((ofOption r : Contract S Q R R) (l.view t')).zoom l t' =
        (ofOption r : Contract T Q R R) t' := by
    intro r t'
    cases r with
    | none => rfl
    | some a => exact congrArg (Proc.ret a) (l.put_view t')
  have hzoom : zoom l (extCall q : Contract S Q R R) t = (extCall q : Contract T Q R R) t := by
    change Proc.call q (l.put t (l.view t)) _ = Proc.call q t _
    rw [l.put_view]
    congr 1
    funext r t'
    exact hresume r t'
  unfold wp
  rw [hzoom]
  exact wp_extCall

/-- The same for code that returns. -/
@[simp] theorem returns_zoom (l : Lens T S) {m : Contract S Q R α} {post : α → T → Prop} {t : T} :
    returns (zoom l m) post t ↔ returns m (fun a s => post a (l.put t s)) (l.view t) := by
  unfold returns zoom
  cases m (l.view t) <;> exact Iff.rfl

@[simp] theorem wp_relabel (f : Q → Q') {m : Contract S Q R α} {post : α → S → Prop} {s : S} :
    wp Boundary.still (relabel f m) post s ↔ wp Boundary.still m post s := by
  unfold wp relabel
  induction m s with
  | ret a s => exact Iff.rfl
  | throw => exact Iff.rfl
  | call q s k ih =>
    simp only [Proc.relabel, Proc.Ensures, Boundary.still, true_and, forall_eq]
    exact forall_congr' fun r => ih r s

theorem wp_reanswer (g : R' → R) {m : Contract S Q R α} {post : α → S → Prop} {s : S}
    (h : wp Boundary.still m post s) : wp Boundary.still (reanswer g m) post s := by
  unfold wp at h
  unfold wp reanswer
  generalize m s = p at h
  induction p with
  | ret a s => exact h
  | throw => trivial
  | call q s k ih => exact ⟨trivial, fun r s' hs' => ih (r.map g) s' (h.2 (r.map g) s' hs')⟩

/-- Code that never calls out is what it was when it is linked. -/
theorem wp_link_of_closed {B : Boundary (S × T) Q' R'} {run : Q → Contract T Q' R' R}
    {m : Contract S Q R α} {post : α → S × T → Prop} {s : S} {t : T}
    (h : wp Boundary.closed m (fun a s' => post a (s', t)) s) :
    wp B (link run m) post (s, t) := by
  unfold wp at h
  unfold wp link
  cases hm : m s with
  | ret a s' =>
    rw [hm] at h
    exact h
  | throw => trivial
  | call q s' k =>
    rw [hm] at h
    exact h.1.elim

theorem Proc.ensures_attempt {p : Proc S Q R α} {I : S → Prop} {s₀ : S}
    (h : p.Ensures Boundary.still fun _ s => I s) (hs : I s₀) :
    (p.attempt s₀).Ensures Boundary.still fun _ s => I s := by
  induction p with
  | ret a s => exact h
  | throw => exact hs
  | call q s k ih => exact ⟨trivial, fun r s' hs' => ih r s' (h.2 r s' hs')⟩

/-- **The rule for linked code**: what `m` ensures when its storage is left alone, it ensures when
it is linked; and what `run` keeps, asked what `m` asks, the linked code keeps. -/
theorem wp_link_of_wp {run : Q → Contract T Q' R' R} {A : Q → S → Prop} {J : T → Prop}
    (hrun : ∀ q s t, A q s → J t → wp Boundary.still (run q) (fun _ t' => J t') t)
    {m : Contract S Q R α} {post : α → S → Prop} {s : S} {t : T}
    (h : wp (Boundary.asking A) m post s) (ht : J t) :
    wp Boundary.still (link run m) (fun a st => post a st.1 ∧ J st.2) (s, t) := by
  suffices hp : ∀ (p : Proc S Q R α) (t : T), p.Ensures (Boundary.asking A) post → J t →
      (p.link run t).Ensures Boundary.still fun a st => post a st.1 ∧ J st.2 from hp (m s) t h ht
  intro p
  induction p with
  | ret a s => exact fun t h ht => ⟨h, ht⟩
  | throw => exact fun _ _ _ => trivial
  | call q s k ih =>
    intro t h ht
    rw [Proc.link, Proc.ensures_bind, Proc.ensures_zoom]
    refine Proc.Ensures.mono (Proc.ensures_attempt (hrun q s t h.1 ht) ht) fun r t' ht' => ?_
    exact ih r s t' (h.2 r s rfl) ht'

end ChainX.Reentry
