import ChainX.Reentry.Proc
import Mathlib.Algebra.Ring.Nat

/-!
# Runs with re-entrancy

A `Config` is a storage together with the stack of the calls that wait for an answer from outside.
Control is always outside: the outside either enters the code again (`Move.enter`), from inside the
call it is serving if there is one, or answers the call it is serving (`Move.answer`). So a list
of moves is a run with nesting of any depth in which the outside is arbitrary code.

* A throw restores the storage the thrown call was entered with (`Frame.start`).
* A failed outside call (`answer none`) undoes what happened during it (`Frame.saved`).

Restrictions on a run are put on its single moves (`Rules`): `Runs` says every move respects them.

Results:
* **`exec_sound`**, the rely/guarantee rule, and its form for use, `exec_invariant`. Code entered in
  `I` that keeps `I` and only makes changes in `G`, granted that what happens during its own calls
  keeps `I`, stays in `G` and respects the rules, keeps `I` in every run; and `A` holds whenever it
  calls out. `exec_ruled` is the form without `G` and `A`.
* **`exec_waiting`**, the rule for an invariant that depends on the queries that wait for their
  answers, such as a balance that is off by what they carry, and `exec_keeping`, the rule for one
  that does not.
* **`exec_costs`**, the rule for a number that only entries can raise.
* `runs_once`: a call without nesting respects the rules.
-/

namespace ChainX.Reentry

variable {S Q R V C : Type}

/-- A call that waits for the answer to its query. -/
structure Frame (S Q R V : Type) where
  query : Q
  /-- The storage the interrupted code was entered with. -/
  start : S
  /-- The storage when `query` was asked. -/
  saved : S
  resume : Option R → S → Proc S Q R V

/-- The storage and the waiting calls, innermost first. -/
structure Config (S Q R V : Type) where
  cur : S
  stack : List (Frame S Q R V)

/-- What the outside does next. -/
inductive Move (C R : Type) where
  /-- Enters the code by `c`. -/
  | enter (c : C)
  /-- Answers the innermost waiting call, `none` for a failure. -/
  | answer (r : Option R)

/-- Where code entered with `start` over the waiting calls `below` leaves control. -/
def land (start : S) (below : List (Frame S Q R V)) : Proc S Q R V → Config S Q R V
  | .ret _ s => ⟨s, below⟩
  | .throw => ⟨start, below⟩
  | .call q s k => ⟨s, ⟨q, start, s, k⟩ :: below⟩

/-- The storage an interrupted call finds with the answer `r`. -/
def Frame.found (F : Frame S Q R V) (r : Option R) (cur : S) : S :=
  if r.isSome then cur else F.saved

section Runs

variable (entry : C → Contract S Q R V)

/-- One move. Answering when no call waits does nothing. -/
def step (cfg : Config S Q R V) : Move C R → Config S Q R V
  | .enter c => land cfg.cur cfg.stack (entry c cfg.cur)
  | .answer r =>
    match cfg.stack with
    | [] => cfg
    | F :: below => land F.start below (F.resume r (F.found r cfg.cur))

/-- A run. -/
def exec (cfg : Config S Q R V) (moves : List (Move C R)) : Config S Q R V :=
  moves.foldl (step entry) cfg

/-- Restrictions on the moves of a run. -/
structure Rules (S Q C : Type) where
  /-- The code may be entered by `c` at this storage. -/
  mayEnter : C → S → Prop
  /-- The query, asked at the first storage, may be answered at the second. -/
  mayAnswer : Q → S → S → Prop

/-- No restriction. -/
def Rules.free : Rules S Q C := ⟨fun _ _ => True, fun _ _ _ => True⟩

/-- The move respects the rules. A failing answer always does: it leaves no trace. -/
def Rules.Allows (rules : Rules S Q C) (cfg : Config S Q R V) : Move C R → Prop
  | .enter c => rules.mayEnter c cfg.cur
  | .answer none => True
  | .answer (some _) => ∀ F ∈ cfg.stack.head?, rules.mayAnswer F.query F.saved cfg.cur

/-- Every move of the run respects the rules. -/
def Runs (rules : Rules S Q C) : Config S Q R V → List (Move C R) → Prop
  | _, [] => True
  | cfg, m :: ms => rules.Allows cfg m ∧ Runs rules (step entry cfg m) ms

end Runs

theorem runs_free (entry : C → Contract S Q R V) :
    ∀ (moves : List (Move C R)) (cfg : Config S Q R V), Runs entry Rules.free cfg moves
  | [], _ => trivial
  | .enter _ :: ms, _ => ⟨trivial, runs_free entry ms _⟩
  | .answer none :: ms, _ => ⟨trivial, runs_free entry ms _⟩
  | .answer (some _) :: ms, _ => ⟨fun _ _ => trivial, runs_free entry ms _⟩

/-- The rules, for the calls entered in `moves` only. -/
def Rules.within (rules : Rules S Q C) (moves : List (Move C R)) : Rules S Q C where
  mayEnter c s := rules.mayEnter c s ∧ Move.enter c ∈ moves
  mayAnswer := rules.mayAnswer

/-- A run enters only the calls it enters. -/
theorem Runs.within {entry : C → Contract S Q R V} {rules : Rules S Q C}
    {all : List (Move C R)} : ∀ {moves : List (Move C R)} {cfg : Config S Q R V},
    Runs entry rules cfg moves → (∀ m ∈ moves, m ∈ all) → Runs entry (rules.within all) cfg moves
  | [], _, _, _ => trivial
  | m :: ms, cfg, h, hsub => by
    refine ⟨?_, h.2.within fun m' hm' => hsub m' (List.mem_cons_of_mem m hm')⟩
    cases m with
    | enter c => exact ⟨h.1, hsub _ List.mem_cons_self⟩
    | answer r => cases r <;> exact h.1

/-! ## Calls without nesting

A call whose answers come without any entry in between respects every rule that lets a query be
answered at the storage it was asked at. -/

section Flat

variable {entry : C → Contract S Q R V} {rules : Rules S Q C}

theorem Frame.found_saved (F : Frame S Q R V) (r : Option R) : F.found r F.saved = F.saved := by
  unfold Frame.found
  split <;> rfl

theorem runs_land (hstay : ∀ q s, rules.mayAnswer q s s) (start : S) :
    ∀ (rs : List (Option R)) (p : Proc S Q R V),
      Runs entry rules (land start [] p) (rs.map Move.answer)
  | [], _ => trivial
  | r :: rs, p => by
    refine ⟨?_, ?_⟩
    · cases r with
      | none => trivial
      | some a =>
        cases p with
        | ret _ _ => exact fun F hF => absurd hF (by simp [land])
        | throw => exact fun F hF => absurd hF (by simp [land])
        | call q s k =>
          intro F hF
          simp only [land, List.head?_cons, Option.mem_def, Option.some.injEq] at hF
          subst hF
          exact hstay q s
    · cases p with
      | ret v s => exact runs_land hstay start rs (.ret v s)
      | throw => exact runs_land hstay start rs .throw
      | call q s k =>
        have hfound := (⟨q, start, s, k⟩ : Frame S Q R V).found_saved r
        simp only [land, step, hfound]
        exact runs_land hstay start rs (k r s)

/-- The moves of the top-level call `c` under the answers `rs`. -/
def onceMoves (c : C) (rs : List (Option R)) : List (Move C R) := .enter c :: rs.map Move.answer

/-- A call without nesting respects the rules. -/
theorem runs_once (hstay : ∀ q s, rules.mayAnswer q s s) {c : C} {s : S}
    (hc : rules.mayEnter c s) (rs : List (Option R)) :
    Runs entry rules ⟨s, []⟩ (onceMoves c rs) :=
  ⟨hc, runs_land hstay s rs _⟩

end Flat

/-! ## The rely/guarantee rule -/

section Rule

variable (rules : Rules S Q C) (I : S → Prop) (G : S → S → Prop) (A : Q → S → Prop)

/-- The boundary of the rule: `I` and `A` at every call; on return `I` again, all changes in `G`,
and a respected rule or a failure without effect. -/
def boundary : Boundary S Q R where
  out q s := I s ∧ A q s
  back q s r s' := I s' ∧ G s s' ∧ ((r = none ∧ s' = s) ∨ rules.mayAnswer q s s')

/-- What the code has to do: keep `I` and stay in `G` at every entry the rules allow. -/
def Respects (entry : C → Contract S Q R V) : Prop :=
  ∀ c s, rules.mayEnter c s → I s →
    wp (boundary rules I G A) (entry c) (fun _ s' => I s' ∧ G s s') s

/-- The waiting calls are sound over the storage `cur`: each of them was made in `I` and `A`, has
seen only changes in `G` since, and will still do its part when it is answered. -/
def SoundStack : S → List (Frame S Q R V) → Prop
  | _, [] => True
  | cur, F :: below =>
    I F.start ∧ I F.saved ∧ A F.query F.saved ∧ G F.saved cur ∧
      (∀ r s', (boundary (R := R) rules I G A).back F.query F.saved r s' →
        (F.resume r s').Ensures (boundary rules I G A) fun _ s'' => I s'' ∧ G F.start s'') ∧
      SoundStack F.start below

/-- A sound configuration. -/
def Sound (cfg : Config S Q R V) : Prop :=
  I cfg.cur ∧ SoundStack rules I G A cfg.cur cfg.stack

variable {rules I G A} {entry : C → Contract S Q R V}

/-- Further changes in `G` keep the waiting calls sound. -/
theorem SoundStack.later (htrans : ∀ a b c, G a b → G b c → G a c) {cur cur' : S}
    {stack : List (Frame S Q R V)} (h : SoundStack rules I G A cur stack) (hG : G cur cur') :
    SoundStack rules I G A cur' stack := by
  cases stack with
  | nil => trivial
  | cons F below =>
    obtain ⟨h1, h2, h3, h4, h5⟩ := h
    exact ⟨h1, h2, h3, htrans _ _ _ h4 hG, h5⟩

/-- Code that does its part lands in a sound configuration. -/
theorem sound_land (hrefl : ∀ s, G s s) (htrans : ∀ a b c, G a b → G b c → G a c) {start : S}
    {below : List (Frame S Q R V)} {p : Proc S Q R V} (hI : I start)
    (hbelow : SoundStack rules I G A start below)
    (hp : p.Ensures (boundary rules I G A) fun _ s' => I s' ∧ G start s') :
    Sound rules I G A (land start below p) := by
  cases p with
  | ret a s => exact ⟨hp.1, hbelow.later htrans hp.2⟩
  | throw => exact ⟨hI, hbelow⟩
  | call q s k =>
    obtain ⟨⟨hs, hA⟩, hk⟩ := hp
    exact ⟨hs, hI, hs, hA, hrefl s, hk, hbelow⟩

/-- One move keeps a configuration sound. -/
theorem sound_step (hrefl : ∀ s, G s s) (htrans : ∀ a b c, G a b → G b c → G a c)
    (hentry : Respects rules I G A entry) {cfg : Config S Q R V} {m : Move C R}
    (h : Sound rules I G A cfg) (hm : rules.Allows cfg m) :
    Sound rules I G A (step entry cfg m) := by
  obtain ⟨hI, hst⟩ := h
  cases m with
  | enter c => exact sound_land hrefl htrans hI hst (hentry c _ hm hI)
  | answer r =>
    obtain ⟨cur, stack⟩ := cfg
    cases stack with
    | nil => exact ⟨hI, hst⟩
    | cons F below =>
      obtain ⟨h1, h2, h3, h4, h5, h6⟩ := hst
      refine sound_land hrefl htrans h1 h6 (h5 r _ ?_)
      cases r with
      | none => exact ⟨h2, hrefl _, Or.inl ⟨rfl, rfl⟩⟩
      | some a => exact ⟨hI, h4, Or.inr (hm F rfl)⟩

/-- **The rely/guarantee rule**: every configuration of a run that respects the rules is sound. -/
theorem exec_sound (hrefl : ∀ s, G s s) (htrans : ∀ a b c, G a b → G b c → G a c)
    (hentry : Respects rules I G A entry) :
    ∀ (moves : List (Move C R)) (cfg : Config S Q R V), Sound rules I G A cfg →
      Runs entry rules cfg moves → Sound rules I G A (exec entry cfg moves)
  | [], _, h, _ => h
  | m :: ms, cfg, h, hr =>
    exec_sound hrefl htrans hentry ms (step entry cfg m) (sound_step hrefl htrans hentry h hr.1)
      hr.2

/-- Every waiting call of a sound configuration was made in `I` and `A`. -/
theorem SoundStack.mem {cur : S} {stack : List (Frame S Q R V)}
    (h : SoundStack rules I G A cur stack) {F : Frame S Q R V} (hF : F ∈ stack) :
    I F.saved ∧ A F.query F.saved := by
  induction stack generalizing cur with
  | nil => exact absurd hF List.not_mem_nil
  | cons E below ih =>
    obtain ⟨-, h2, h3, -, -, h6⟩ := h
    rcases List.mem_cons.mp hF with rfl | hF
    · exact ⟨h2, h3⟩
    · exact ih h6 hF

/-- **The invariant rule**: in every run from a storage in `I`, the storage stays in `I`, and every
waiting call was made in `I` and `A`. -/
theorem exec_invariant (hrefl : ∀ s, G s s) (htrans : ∀ a b c, G a b → G b c → G a c)
    (hentry : Respects rules I G A entry) {s : S} (hs : I s) {moves : List (Move C R)}
    (hruns : Runs entry rules ⟨s, []⟩ moves) :
    I (exec entry ⟨s, []⟩ moves).cur ∧
      ∀ F ∈ (exec entry ⟨s, []⟩ moves).stack, I F.saved ∧ A F.query F.saved := by
  have h := exec_sound hrefl htrans hentry moves ⟨s, []⟩ ⟨hs, trivial⟩ hruns
  exact ⟨h.1, fun F hF => h.2.mem hF⟩

/-- The invariant rule where nothing is asked of the changes and of the calls. -/
theorem exec_ruled (hentry : ∀ c s, rules.mayEnter c s → I s →
      wp (boundary rules I (fun _ _ => True) fun _ _ => True) (entry c) (fun _ s' => I s') s)
    {s : S} (hs : I s) {moves : List (Move C R)} (hruns : Runs entry rules ⟨s, []⟩ moves) :
    I (exec entry ⟨s, []⟩ moves).cur :=
  (exec_invariant (fun _ => trivial) (fun _ _ _ _ _ => trivial)
    (fun c s hc hs => wp_mono (hentry c s hc hs) fun _ _ h => ⟨h, trivial⟩) hs hruns).1

end Rule

/-! ## Invariants about the waiting queries

Without rules and guarantees, an invariant may speak of the queries that wait. -/

section Waiting

/-- The boundary over the waiting queries `waiting`: with its own query on top of them, the outside
finds and leaves `I`, and leaves no trace when it fails. -/
def Boundary.waiting (I : List Q → S → Prop) (waiting : List Q) : Boundary S Q R where
  out q s := I (q :: waiting) s
  back q s r s' := I (q :: waiting) s' ∧ (r = none → s' = s)

/-- The waiting calls were entered and have called out in `I`, and do their part when they are
answered. -/
def WaitingStack (I : List Q → S → Prop) : List (Frame S Q R V) → Prop
  | [] => True
  | F :: below =>
    I (below.map Frame.query) F.start ∧ I (F.query :: below.map Frame.query) F.saved ∧
      (∀ r s', (Boundary.waiting (R := R) I (below.map Frame.query)).back F.query F.saved r s' →
        (F.resume r s').Ensures (Boundary.waiting I (below.map Frame.query)) fun _ s'' =>
          I (below.map Frame.query) s'') ∧
      WaitingStack I below

variable {I : List Q → S → Prop} {entry : C → Contract S Q R V}

/-- What holds of a configuration over its waiting queries. -/
def Config.InWaiting (I : List Q → S → Prop) (cfg : Config S Q R V) : Prop :=
  I (cfg.stack.map Frame.query) cfg.cur ∧ WaitingStack I cfg.stack

theorem waiting_land {start : S} {below : List (Frame S Q R V)} {p : Proc S Q R V}
    (hstart : I (below.map Frame.query) start) (hbelow : WaitingStack I below)
    (hp : p.Ensures (Boundary.waiting I (below.map Frame.query)) fun _ s' =>
      I (below.map Frame.query) s') : (land start below p).InWaiting I := by
  cases p with
  | ret a s => exact ⟨hp, hbelow⟩
  | throw => exact ⟨hstart, hbelow⟩
  | call q s k => exact ⟨hp.1, hstart, hp.1, hp.2, hbelow⟩

theorem waiting_step (hentry : ∀ waiting c s, I waiting s →
      wp (Boundary.waiting I waiting) (entry c) (fun _ s' => I waiting s') s)
    {cfg : Config S Q R V} (h : cfg.InWaiting I) (m : Move C R) :
    (step entry cfg m).InWaiting I := by
  obtain ⟨cur, stack⟩ := cfg
  obtain ⟨hcur, hstack⟩ := h
  cases m with
  | enter c => exact waiting_land hcur hstack (hentry _ c cur hcur)
  | answer r =>
    cases stack with
    | nil => exact ⟨hcur, hstack⟩
    | cons F below =>
      obtain ⟨hstart, hsaved, hresume, hbelow⟩ := hstack
      refine waiting_land hstart hbelow (hresume r _ ?_)
      cases r with
      | none => exact ⟨hsaved, fun _ => rfl⟩
      | some a => exact ⟨hcur, fun h => absurd h (by simp)⟩

/-- **The rule for waiting queries**: what holds at first and is kept by every call, whatever
queries wait below it, holds over the waiting queries at every moment of every run. -/
theorem exec_waiting (hentry : ∀ waiting c s, I waiting s →
      wp (Boundary.waiting I waiting) (entry c) (fun _ s' => I waiting s') s)
    {s : S} (hs : I [] s) (moves : List (Move C R)) :
    I ((exec entry ⟨s, []⟩ moves).stack.map Frame.query) (exec entry ⟨s, []⟩ moves).cur := by
  have hrun : ∀ (moves : List (Move C R)) (cfg : Config S Q R V), cfg.InWaiting I →
      (exec entry cfg moves).InWaiting I := by
    intro moves
    induction moves with
    | nil => exact fun _ h => h
    | cons m moves ih => exact fun _ h => ih _ (waiting_step hentry h m)
  exact (hrun moves ⟨s, []⟩ ⟨hs, trivial⟩).1

/-- The boundary at which the outside finds and leaves `K`. -/
abbrev Boundary.keeping (K : S → Prop) : Boundary S Q R := Boundary.waiting (fun _ => K) []

/-- The rule for an invariant of the storage alone. -/
theorem exec_keeping {K : S → Prop}
    (hentry : ∀ c s, K s → wp (Boundary.keeping K) (entry c) (fun _ s' => K s') s)
    {s : S} (hs : K s) (moves : List (Move C R)) : K (exec entry ⟨s, []⟩ moves).cur :=
  exec_waiting (I := fun _ => K) (fun _ => hentry) hs moves

end Waiting

/-! ## What grows with the entries -/

section Costs

/-- What a move may add. -/
def Move.cost (cost : C → Nat) : Move C R → Nat
  | .enter c => cost c
  | .answer _ => 0

/-- The waiting calls were entered and have called out with `f` at most `n`, and add nothing when
they are answered, then or later. -/
def CostStack (f : S → Nat) (n : Nat) : List (Frame S Q R V) → Prop
  | [] => True
  | F :: below =>
    f F.start ≤ n ∧ f F.saved ≤ n ∧
      (∀ m, n ≤ m → ∀ r s', (Boundary.keeping (R := R) (f · ≤ m)).back F.query F.saved r s' →
        (F.resume r s').Ensures (Boundary.keeping (f · ≤ m)) fun _ s'' => f s'' ≤ m) ∧
      CostStack f n below

/-- A configuration with `f` at most `n`. -/
def Config.AtMost (f : S → Nat) (n : Nat) (cfg : Config S Q R V) : Prop :=
  f cfg.cur ≤ n ∧ CostStack f n cfg.stack

variable {f : S → Nat} {cost : C → Nat} {n : Nat} {entry : C → Contract S Q R V}

theorem CostStack.mono {m : Nat} (hnm : n ≤ m) :
    ∀ {stack : List (Frame S Q R V)}, CostStack f n stack → CostStack f m stack
  | [], _ => trivial
  | _ :: _, ⟨hstart, hsaved, hresume, hbelow⟩ =>
    ⟨Nat.le_trans hstart hnm, Nat.le_trans hsaved hnm, fun _ hm => hresume _ (Nat.le_trans hnm hm),
      hbelow.mono hnm⟩

theorem atMost_land {start : S} {below : List (Frame S Q R V)} {p : Proc S Q R V}
    (hstart : f start ≤ n) (hbelow : CostStack f n below)
    (hp : ∀ m, n ≤ m → p.Ensures (Boundary.keeping (f · ≤ m)) fun _ s' => f s' ≤ m) :
    (land start below p).AtMost f n := by
  have hn := hp n (Nat.le_refl n)
  cases p with
  | ret a s => exact ⟨hn, hbelow⟩
  | throw => exact ⟨hstart, hbelow⟩
  | call q s k => exact ⟨hn.1, hstart, hn.1, fun m hm => (hp m hm).2, hbelow⟩

theorem atMost_step (hentry : ∀ n c s, f s + cost c ≤ n →
      wp (Boundary.keeping (f · ≤ n)) (entry c) (fun _ s' => f s' ≤ n) s)
    {cfg : Config S Q R V} (h : cfg.AtMost f n) (m : Move C R) :
    (step entry cfg m).AtMost f (n + m.cost cost) := by
  obtain ⟨cur, stack⟩ := cfg
  obtain ⟨hcur, hstack⟩ := h
  cases m with
  | enter c =>
    refine atMost_land (Nat.le_add_right_of_le hcur) (hstack.mono (Nat.le_add_right _ _)) ?_
    exact fun m hm => hentry m c cur (Nat.le_trans (Nat.add_le_add_right hcur _) hm)
  | answer r =>
    cases stack with
    | nil => exact ⟨hcur, hstack⟩
    | cons F below =>
      obtain ⟨hstart, hsaved, hresume, hbelow⟩ := hstack
      refine atMost_land hstart hbelow fun m hm => hresume m hm r _ ?_
      cases r with
      | none => exact ⟨Nat.le_trans hsaved hm, fun _ => rfl⟩
      | some a => exact ⟨Nat.le_trans hcur hm, fun h => absurd h (by simp)⟩

/-- **The rule for what grows with the entries**: if a call adds at most its cost, whatever the
calls inside of it add, a run adds at most the costs of the calls it enters. -/
theorem exec_costs (hentry : ∀ n c s, f s + cost c ≤ n →
      wp (Boundary.keeping (f · ≤ n)) (entry c) (fun _ s' => f s' ≤ n) s)
    (s : S) (moves : List (Move C R)) :
    f (exec entry ⟨s, []⟩ moves).cur ≤ f s + (moves.map (Move.cost cost)).sum := by
  have hrun : ∀ (moves : List (Move C R)) (cfg : Config S Q R V) (n : Nat), cfg.AtMost f n →
      (exec entry cfg moves).AtMost f (n + (moves.map (Move.cost cost)).sum) := by
    intro moves
    induction moves with
    | nil => exact fun _ _ h => h
    | cons m moves ih =>
      intro cfg n h
      rw [List.map_cons, List.sum_cons, ← Nat.add_assoc]
      exact ih _ _ (atMost_step hentry h m)
  exact (hrun moves ⟨s, []⟩ (f s) ⟨Nat.le_refl _, trivial⟩).1

end Costs

end ChainX.Reentry
