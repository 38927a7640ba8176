/-!
# Clients of an interface

Code that is handed an object and can only use it through calls: a tree that makes a call, gets the
reply and goes on as the reply says, as long as it wants, and ends with a result. `Client.run`
answers the calls by an implementation that may panic, `Client.respond` by one that may not, and
both keep the transcript of what the client was told.

* The calls are a type `Q`, and the reply to `q : Q` has the type `Reply q`, so that a call that
  reads and one that asks for a length are answered by different things.
* A client is handed the replies and never the state, so whatever it does to the object it does
  through the calls.

Results:
* **`run_of_refines`**: where every call of an implementation over states `S` does to the part
  `view s` of the state what the implementation over that part does, a client is told the same by
  both and ends the same, however often it calls. So it learns nothing of a state but its view.
* `bind_run`, `get_run`, `set_run`, `pure_run`, `lift_run`: a call that is written with `do` over a
  state, and may panic, one statement after the other.
-/

namespace ChainX.Lib

/-! ## Code over a state that may panic -/

section Run

variable {S α β : Type} {m : StateT S Option α} {k : α → StateT S Option β} {s s' : S} {a : α}

theorem bind_run (h : m s = some (a, s')) : (m >>= k) s = k a s' := by
  simp only [bind, StateT.bind, h]
  rfl

theorem get_run : (get : StateT S Option S) s = some (s, s) := rfl

theorem set_run : (set s' : StateT S Option PUnit) s = some (⟨⟩, s') := rfl

theorem pure_run : (pure a : StateT S Option α) s = some (a, s) := rfl

theorem lift_run {o : Option α} (h : o = some a) :
    (liftM o : StateT S Option α) s = some (a, s) := by
  subst h
  rfl

end Run

/-! ## Clients -/

/-- Code that makes calls `Q`, of which `q` is replied to in `Reply q`, and ends with an `α`. -/
inductive Client (Q : Type) (Reply : Q → Type) (α : Type)
  | done (a : α)
  | call (q : Q) (k : Reply q → Client Q Reply α)

namespace Client

variable {Q : Type} {Reply : Q → Type} {α S T : Type}

/-- The calls made, with their replies. -/
abbrev Transcript (Q : Type) (Reply : Q → Type) := List (Σ q : Q, Reply q)

/-- The calls answered by `serve`, which panics with `none`. -/
def run (serve : (q : Q) → StateT S Option (Reply q)) :
    Client Q Reply α → StateT S Option (Transcript Q Reply × α)
  | done a => return ([], a)
  | call q k => do
    let reply ← serve q
    let (seen, a) ← (k reply).run serve
    return (⟨q, reply⟩ :: seen, a)

/-- The calls answered by `serve`, from `t`: the transcript, the result and what is left of `t`. -/
def respond (serve : (q : Q) → T → Reply q × T) :
    Client Q Reply α → T → (Transcript Q Reply × α) × T
  | done a, t => (([], a), t)
  | call q k, t =>
    match (k (serve q t).1).respond serve (serve q t).2 with
    | ((seen, a), t') => ((⟨q, (serve q t).1⟩ :: seen, a), t')

/-- A client cannot tell an implementation from the one it refines, by induction on the client. -/
theorem run_of_refines {serve : (q : Q) → StateT S Option (Reply q)}
    {abstract : (q : Q) → T → Reply q × T} {view : S → T}
    (hserve : ∀ q s, ∃ s', serve q s = some ((abstract q (view s)).1, s') ∧
      view s' = (abstract q (view s)).2) (f : Client Q Reply α) :
    ∀ s, ∃ s', f.run serve s = some ((f.respond abstract (view s)).1, s') ∧
      view s' = (f.respond abstract (view s)).2 := by
  induction f with
  | done a => exact fun s => ⟨s, rfl, rfl⟩
  | call q k ih =>
    intro s
    obtain ⟨s1, h1, hs1⟩ := hserve q s
    obtain ⟨s2, h2, hs2⟩ := ih (abstract q (view s)).1 s1
    rw [hs1] at h2 hs2
    refine ⟨s2, ?_, hs2⟩
    rw [run, bind_run h1, bind_run h2]
    rfl

end Client

end ChainX.Lib
