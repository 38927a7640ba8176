import ChainX.Reentry.Link
import ChainX.Reentry.Machine
import Mathlib.Data.List.Forall2

/-!
# Notes about a run

`Contract.noted note m` is `m` with a second storage, in which the answers are noted as they arrive.
A throw takes back the notes of the call with everything else, so that what is left after a run are
the notes of the calls that went through, or still wait.

A contract keeps no record of the ether it sends or of the answers it gets. Where a result speaks of
these, they are notes: of the run and not of the code, which does not see them.

* `wp_noting`, `wp_noting_tryCall`: the rules for a question whose answer is noted.
* **`exec_noted`**: the code does not see the notes, and every run goes as it would without
  (`Config.Erases`).
* `answeredSeq`: the questions a sequential run got answers to. **`runSeq_noted`** is the rule for
  their notes, and **`runSeq_accounting`** the accounting rule: what the answered questions have
  moved (`sumAnswered`) balances, where every call balances the notes of its own.
-/

namespace ChainX.Reentry

variable {S L Q R V C α : Type}

/-- The question `q`, whose answer is noted. -/
def noting (note : Q → R → L → L) (q : Q) : Contract L Q R R := do
  let a ← Contract.extCall q
  Contract.modify (note q a)
  return a

/-- Code whose answers are noted. -/
def Contract.noted (note : Q → R → L → L) (m : Contract S Q R α) : Contract (S × L) Q R α :=
  Contract.link (noting note) m

theorem wp_noting {B : Boundary (S × L) Q R} {note : Q → R → L → L} {q : Q}
    {post : R → S × L → Prop} {st : S × L} :
    wp B (Contract.zoom Lens.snd (noting note q)) post st ↔
      B.out q st ∧ ∀ a st', B.back q st (some a) st' → post a (st'.1, note q a st'.2) := by
  refine and_congr Iff.rfl ⟨fun h a st' hback => h (some a) st' hback, fun h r st' hback => ?_⟩
  cases r with
  | none => trivial
  | some a => exact h a st' hback

/-- The same for a question from a part of the storage beside the notes. -/
theorem wp_noting_beside {T : Type} {B : Boundary (T × L) Q R} {note : Q → R → L → L}
    {l : Lens T S} {q : Q} {post : R → T × L → Prop} {st : T × L} :
    wp B (Contract.zoom l.beside (Contract.zoom Lens.snd (noting note q))) post st ↔
      B.out q st ∧ ∀ a st', B.back q st (some a) st' → post a (st'.1, note q a st'.2) := by
  have hzoom : Contract.zoom l.beside (Contract.zoom Lens.snd (noting note q)) =
      Contract.zoom Lens.snd (noting note q) := by
    funext st
    have h := Proc.zoom_zoom l.beside Lens.snd st (noting note q st.2)
    rw [Lens.beside_comp_snd] at h
    exact h
  rw [hzoom]
  exact wp_noting

/-- The same for a question whose failure is reported, which leaves no note. -/
theorem wp_noting_tryCall {note : Q → R → L → L} {q : Q} {post : Option R → S × L → Prop}
    {s : S} {l : L} :
    wp Boundary.still (Contract.link (noting note) (Contract.tryCall q)) post (s, l) ↔
      post none (s, l) ∧ ∀ a, post (some a) (s, note q a l) := by
  refine ⟨fun h => ⟨h.2 none (s, l) rfl, fun a => h.2 (some a) (s, l) rfl⟩, fun h => ?_⟩
  refine ⟨trivial, fun r st' hst' => ?_⟩
  cases hst'
  cases r with
  | none => exact h.1
  | some a => exact h.2 a

/-! ## The code without the notes -/

/-- The first behaviour is the second, with notes. -/
def Proc.Erases : Proc (S × L) Q R α → Proc S Q R α → Prop
  | .ret a st, .ret b s => a = b ∧ st.1 = s
  | .throw, .throw => True
  | .call q st k, .call q' s k' => q = q' ∧ st.1 = s ∧ ∀ r st', (k r st').Erases (k' r st'.1)
  | _, _ => False

theorem Proc.erases_noted (note : Q → R → L → L) (p : Proc S Q R α) (l : L) :
    (p.link (noting note) l).Erases p := by
  induction p generalizing l with
  | ret a s => exact ⟨rfl, rfl⟩
  | throw => trivial
  | call q s k ih =>
    refine ⟨rfl, rfl, fun r st' => ?_⟩
    cases r with
    | none => exact ih none st'.1 l
    | some a => exact ih (some a) st'.1 (note q a st'.2)

/-- The same boundary, whatever the notes are. -/
def Boundary.noted (L : Type) (B : Boundary S Q R) : Boundary (S × L) Q R :=
  ⟨fun q st => B.out q st.1, fun q st r st' => B.back q st.1 r st'.1⟩

theorem Proc.Erases.ensures {B : Boundary S Q R} {post : α → S → Prop} {p : Proc (S × L) Q R α}
    {p' : Proc S Q R α} (h : p.Erases p')
    (hp : p.Ensures (B.noted L) fun a st => post a st.1) : p'.Ensures B post := by
  induction p generalizing p' with
  | ret a st =>
    cases p' with
    | ret b s =>
      obtain ⟨rfl, rfl⟩ := h
      exact hp
    | throw => trivial
    | call q s k => exact h.elim
  | throw =>
    cases p' with
    | ret b s => exact h.elim
    | throw => trivial
    | call q s k => exact h.elim
  | call q st k ih =>
    cases p' with
    | ret b s => exact h.elim
    | throw => trivial
    | call q' s k' =>
      obtain ⟨rfl, rfl, hresume⟩ := h
      exact ⟨hp.1, fun r s' hback => ih r (s', st.2) (hresume r (s', st.2)) (hp.2 r _ hback)⟩

/-- What holds of code with notes holds without. -/
theorem wp_of_noted {B : Boundary S Q R} {note : Q → R → L → L} {m : Contract S Q R α}
    {post : α → S → Prop} {s : S} (l : L)
    (h : wp (B.noted L) (m.noted note) (fun a st => post a st.1) (s, l)) : wp B m post s :=
  (Proc.erases_noted note (m s) l).ensures h

/-! ## Runs without the notes -/

/-- The same for a waiting call. -/
structure Frame.Erases (F : Frame (S × L) Q R V) (G : Frame S Q R V) : Prop where
  query : F.query = G.query
  start : F.start.1 = G.start
  saved : F.saved.1 = G.saved
  resume : ∀ r st, (F.resume r st).Erases (G.resume r st.1)

/-- The same for a configuration. -/
structure Config.Erases (cfg : Config (S × L) Q R V) (cfg' : Config S Q R V) : Prop where
  cur : cfg.cur.1 = cfg'.cur
  stack : List.Forall₂ Frame.Erases cfg.stack cfg'.stack

theorem Proc.Erases.land {p : Proc (S × L) Q R V} {p' : Proc S Q R V} (h : p.Erases p')
    {start : S × L} {below : List (Frame (S × L) Q R V)} {below' : List (Frame S Q R V)}
    (hbelow : List.Forall₂ Frame.Erases below below') :
    (land start below p).Erases (land start.1 below' p') := by
  cases p with
  | ret a st =>
    cases p' with
    | ret b s => exact ⟨h.2, hbelow⟩
    | throw => exact h.elim
    | call q s k => exact h.elim
  | throw =>
    cases p' with
    | ret b s => exact h.elim
    | throw => exact ⟨rfl, hbelow⟩
    | call q s k => exact h.elim
  | call q st k =>
    cases p' with
    | ret b s => exact h.elim
    | throw => exact h.elim
    | call q' s k' =>
      obtain ⟨hquery, hsaved, hresume⟩ := h
      exact ⟨hsaved, .cons ⟨hquery, rfl, hsaved, hresume⟩ hbelow⟩

variable {entry : C → Contract S Q R V} {note : C → Q → R → L → L}

theorem Config.Erases.step {cfg : Config (S × L) Q R V} {cfg' : Config S Q R V}
    (h : cfg.Erases cfg') (m : Move C R) :
    (step (fun c => (entry c).noted (note c)) cfg m).Erases (step entry cfg' m) := by
  obtain ⟨cur, stack⟩ := cfg
  obtain ⟨cur', stack'⟩ := cfg'
  obtain ⟨rfl, hstack⟩ := h
  cases m with
  | enter c => exact (Proc.erases_noted (note c) (entry c cur.1) cur.2).land hstack
  | answer r =>
    cases hstack with
    | nil => exact ⟨rfl, .nil⟩
    | @cons F G below below' hframe hbelow =>
      have hfound : (F.found r cur).1 = G.found r cur.1 := by
        unfold Frame.found
        cases r with
        | none => exact hframe.saved
        | some a => rfl
      have hresume := hframe.resume r (F.found r cur)
      rw [hfound] at hresume
      have hland : Config.Erases (land F.start below (F.resume r (F.found r cur)))
          (land F.start.1 below' (G.resume r (G.found r cur.1))) := hresume.land hbelow
      rw [hframe.start] at hland
      exact hland

/-- The same queries wait. -/
theorem Config.Erases.queries {cfg : Config (S × L) Q R V} {cfg' : Config S Q R V}
    (h : cfg.Erases cfg') : cfg.stack.map Frame.query = cfg'.stack.map Frame.query := by
  rw [← List.forall₂_eq_eq_eq, List.forall₂_map_left_iff, List.forall₂_map_right_iff]
  exact h.stack.imp fun _ _ h => h.query

/-- **Notes change nothing.** -/
theorem exec_noted (moves : List (Move C R)) (s : S) (l : L) :
    (exec (fun c => (entry c).noted (note c)) ⟨(s, l), []⟩ moves).Erases
      (exec entry ⟨s, []⟩ moves) := by
  have hrun : ∀ (moves : List (Move C R)) (cfg : Config (S × L) Q R V) (cfg' : Config S Q R V),
      cfg.Erases cfg' →
        (exec (fun c => (entry c).noted (note c)) cfg moves).Erases (exec entry cfg' moves) := by
    intro moves
    induction moves with
    | nil => exact fun _ _ h => h
    | cons m moves ih => exact fun _ _ h => ih _ _ (h.step m)
  exact hrun moves ⟨(s, l), []⟩ ⟨s, []⟩ ⟨rfl, .nil⟩

/-! ## What a sequential run was answered -/

/-- The questions asked against the answers `rs` that were answered, with their answers. -/
def Proc.answered : Proc S Q R α → List (Option R) → List (Q × R)
  | .call q s k, some a :: rs => (q, a) :: (k (some a) s).answered rs
  | .call _ s k, none :: rs => (k none s).answered rs
  | _, _ => []

/-- All notes of a list of answered questions. -/
def noteAll (note : Q → R → L → L) (l : L) (answered : List (Q × R)) : L :=
  answered.foldl (fun l qa => note qa.1 qa.2 l) l

/-- The notes taken in a sequential call are those of its answered questions. -/
theorem Proc.play_noted (note : Q → R → L → L) (p : Proc S Q R α) (l : L)
    (rs : List (Option R)) :
    (p.link (noting note) l).play rs = (p.play rs).map fun r =>
      (r.1, r.2, noteAll note l (p.answered rs)) := by
  induction p generalizing l rs with
  | ret a s => cases rs <;> rfl
  | throw => cases rs <;> rfl
  | call q s k ih =>
    cases rs with
    | nil => rfl
    | cons r rs =>
      cases r with
      | none => exact ih none s l rs
      | some a => exact ih (some a) s (note q a l) rs

/-- What holds of code with notes holds without, where the storage is left alone. -/
theorem wp_still_of_noted {note : Q → R → L → L} {m : Contract S Q R α} {post : α → S → Prop}
    {s : S} (l : L) (h : wp Boundary.still (m.noted note) (fun a st => post a st.1) (s, l)) :
    wp Boundary.still m post s := by
  refine wp_still_iff.mpr fun rs a s' hplay => ?_
  have hnoted := Proc.play_noted note (m s) l rs
  rw [hplay, Option.map_some] at hnoted
  exact wp_still_iff.mp h rs a _ hnoted

section Sequential

variable (entry) in
/-- The answered questions of the calls of a run that complete. -/
def answeredSeq : S → List (C × List (Option R)) → List (Q × R)
  | _, [] => []
  | s, c :: cs =>
    (if completes entry s c.1 c.2 then (entry c.1 s).answered c.2 else []) ++
      answeredSeq (once entry s c.1 c.2) cs

/-- A call that completes ends as its code with notes ensures. -/
theorem completes_noted {c : C} {s : S} {rs : List (Option R)} {note : Q → R → L → L} {l : L}
    {post : V → S × L → Prop} (h : wp Boundary.still ((entry c).noted note) post (s, l))
    (hc : completes entry s c rs = true) :
    ∃ v, post v (once entry s c rs, noteAll note l ((entry c s).answered rs)) := by
  unfold completes at hc
  obtain ⟨⟨v, s'⟩, hplay⟩ := Option.isSome_iff_exists.mp hc
  have hnoted := Proc.play_noted note (entry c s) l rs
  rw [hplay, Option.map_some] at hnoted
  refine ⟨v, ?_⟩
  unfold once
  rw [hplay]
  exact wp_still_iff.mp h rs v _ hnoted

/-- **The rule for the notes of a sequential run**: what holds of the storage and the notes, and is
kept by every call, holds of what a run leaves and its answered questions. -/
theorem runSeq_noted {J : S → L → Prop} {note : Q → R → L → L}
    (h : ∀ c s l, J s l →
      wp Boundary.still ((entry c).noted note) (fun _ st => J st.1 st.2) (s, l)) :
    ∀ (calls : List (C × List (Option R))) (s : S) (l : L), J s l →
      J (runSeq entry s calls) (noteAll note l (answeredSeq entry s calls))
  | [], _, _, hs => hs
  | c :: cs, s, l, hs => by
    have hone : J (once entry s c.1 c.2) (noteAll note l
        (if completes entry s c.1 c.2 then (entry c.1 s).answered c.2 else [])) := by
      cases hc : completes entry s c.1 c.2 with
      | false =>
        rw [once_of_not_completes hc]
        exact hs
      | true =>
        obtain ⟨-, hnotes⟩ := completes_noted (h c.1 s l hs) hc
        exact hnotes
    have hrest := runSeq_noted h cs _ _ hone
    rw [answeredSeq, noteAll, List.foldl_append]
    exact hrest

/-- The answers are added up. -/
def adding (amount : Q → R → Nat) : Q → R → Nat → Nat := fun q a n => n + amount q a

theorem noteAll_adding (amount : Q → R → Nat) (l : List (Q × R)) (n : Nat) :
    noteAll (adding amount) n l = n + (l.map fun qa => amount qa.1 qa.2).sum := by
  induction l generalizing n with
  | nil => rfl
  | cons qa l ih =>
    rw [noteAll, List.foldl_cons, ← noteAll, ih, adding, List.map_cons, List.sum_cons,
      Nat.add_assoc]

variable (entry) in
/-- The sum of `amount` over the answered questions of the calls of a run that complete. -/
def sumAnswered (amount : Q → R → Nat) (s : S) (calls : List (C × List (Option R))) : Nat :=
  ((answeredSeq entry s calls).map fun qa => amount qa.1 qa.2).sum

/-- **The accounting rule with answers**: a measure that every completed call in `I` moves by what
comes in less what its answered questions took out is, after a run, off by the sums of both. -/
theorem runSeq_accounting {I : S → Prop} (measure : S → Nat) {comes : C → Nat}
    {amount : Q → R → Nat}
    (h : ∀ c s, I s → wp Boundary.still ((entry c).noted (adding amount))
      (fun _ st => I st.1 ∧ measure st.1 + st.2 = measure s + comes c) (s, 0)) :
    ∀ (calls : List (C × List (Option R))) (s : S), I s →
      I (runSeq entry s calls) ∧
        measure (runSeq entry s calls) + sumAnswered entry amount s calls =
          measure s + sumCompleted entry comes s calls
  | [], _, hs => ⟨hs, rfl⟩
  | c :: cs, s, hs => by
    simp only [runSeq, List.foldl_cons, sumCompleted, sumAnswered, answeredSeq, List.map_append,
      List.sum_append]
    cases hc : completes entry s c.1 c.2 with
    | false =>
      rw [once_of_not_completes hc]
      simp only [Bool.false_eq_true, if_false, List.map_nil, List.sum_nil, Nat.zero_add]
      exact runSeq_accounting measure h cs s hs
    | true =>
      obtain ⟨-, hI, hone⟩ := completes_noted (h c.1 s hs) hc
      rw [noteAll_adding] at hone
      obtain ⟨hrun, hrest⟩ := runSeq_accounting measure h cs _ hI
      rw [if_pos rfl, if_pos rfl]
      refine ⟨hrun, ?_⟩
      simp only [runSeq, sumAnswered] at hone hrest
      omega

end Sequential

end ChainX.Reentry
