import ChainX.Exchange.Books

/-!
# The exchange under re-entrancy

The tokens are arbitrary code: while they serve a `balanceOf`, an `allowance` or a `transferFrom`
they may enter the exchange again, by any entry point and to any depth (`ChainX.Reentry.exec`).

`fill` (`chainx.sol:81-188`) reads the remaining value, then lets the transfer check call the
tokens, and only then adds the amount to `filled`. So the amount can be out of date when it is
added, and the order is filled beyond `valueT` (`overfill`). `settle` updates `filled` before its
transfers and is safe.

* `apart` and `quiet` are rules on the moves of a run: which calls may enter, and in which storage a
  question may be answered. What a run under such rules keeps follows by `exec_ruled`, which asks
  for one call.

**`bound_of_quiet`**: the bound holds at every moment of every run in which no call nested in the
transfer check of a fill of the order fills or cancels a part of the same order.
-/

namespace ChainX.Exchange

open ChainX.Evm ChainX.Reentry

attribute [local irreducible] getOrderHash

variable {dep : Deployment} {o : OrderData} {s : Storage}

/-- `o` is filled and cancelled up to `valueT` at most. -/
def Bound (dep : Deployment) (o : OrderData) (s : Storage) : Prop :=
  (s.filled (getOrderHash dep o)).val + (s.cancelled (getOrderHash dep o)).val ≤ o.2.valueT.val

/-- No other order named in the run has the hash of `o`. -/
def apart (dep : Deployment) (o : OrderData) : Rules Storage Query Call where
  mayEnter c _ := ∀ o', c.Names o' → getOrderHash dep o' = getOrderHash dep o → o' = o
  mayAnswer _ _ _ := True

/-- Moreover, an answer to the transfer check of a fill of `o` finds what is filled and cancelled of
`o` as the check left it. -/
def quiet (dep : Deployment) (o : OrderData) : Rules Storage Query Call where
  mayEnter := (apart dep o).mayEnter
  mayAnswer q s s' := q.IsCheck (getOrderHash dep o) →
    s'.filled (getOrderHash dep o) = s.filled (getOrderHash dep o) ∧
      s'.cancelled (getOrderHash dep o) = s.cancelled (getOrderHash dep o)

/-- The boundary at which the outside keeps the bound and is quiet. -/
abbrev quietBoundary (dep : Deployment) (o : OrderData) : Boundary Storage Query Uint256 :=
  boundary (quiet dep o) (Bound dep o) (fun _ _ => True) (fun _ _ => True)

theorem quiet_back {q : Query} {s s' : Storage} {a : Uint256}
    (h : (quietBoundary dep o).back q s (some a) s') :
    Bound dep o s' ∧ (q.IsCheck (getOrderHash dep o) →
      s'.filled (getOrderHash dep o) = s.filled (getOrderHash dep o) ∧
        s'.cancelled (getOrderHash dep o) = s.cancelled (getOrderHash dep o)) := by
  obtain ⟨h1, -, ⟨h2, -⟩ | h3⟩ := h
  · exact absurd h2 (by simp)
  · exact ⟨h1, h3⟩

/-- The update of `settle` may be made from any storage in which the amount fits. -/
theorem bound_settle {msg : Msg} {o' : OrderData} {f : Uint256} (hb : Bound dep o s)
    (hroom : getOrderHash dep o' = getOrderHash dep o →
      (s.filled (getOrderHash dep o)).val + (s.cancelled (getOrderHash dep o)).val + f.val ≤
        o.2.valueT.val) :
    wp (quietBoundary dep o) (settle dep msg (dep.order o') f) (fun _ s' => Bound dep o s') s := by
  refine wp_settle (P := Bound dep o) (fun _ _ _ h => ⟨h, trivial⟩)
    (fun _ _ _ _ _ h => (quiet_back h).1) (fun _ _ h => h) (fun _ _ h => h) fun x hx => ?_
  replace hx : x.val = (s.filled (getOrderHash dep o')).val + f.val := hx
  have hoh : (dep.order o').orderHash = getOrderHash dep o' := rfl
  unfold Bound at hb ⊢
  rw [hoh]
  by_cases he : getOrderHash dep o' = getOrderHash dep o
  · have := hroom he
    rw [he] at hx ⊢
    simp only [Function.update_self]
    omega
  · simp only [Function.update_of_ne (Ne.symm he)]
    exact hb

theorem bound_fill {msg : Msg} {o' : OrderData} {n : Uint256} {check : Bool} {sig : Signature}
    (hcf : getOrderHash dep o' = getOrderHash dep o → o' = o) (hb : Bound dep o s) :
    wp (quietBoundary dep o) (fill dep msg o' n check sig) (fun _ s' => Bound dep o s') s := by
  by_cases he : getOrderHash dep o' = getOrderHash dep o
  · -- a fill of `o` itself: while its check lasts the two entries stay as they were read
    obtain rfl := hcf he
    refine wp_fill (P := fun s' => Bound dep o' s' ∧
        s'.filled (getOrderHash dep o') = s.filled (getOrderHash dep o') ∧
          s'.cancelled (getOrderHash dep o') = s.cancelled (getOrderHash dep o')) rfl
      (fun _ _ _ h => ⟨h.1, trivial⟩) (fun q s1 a s2 hq h1 hback => ?_) ⟨hb, rfl, rfl⟩
      (fun _ _ h => h.1) fun f s' h hf => bound_settle h.1 fun _ => ?_
    · obtain ⟨h2, h3⟩ := quiet_back hback
      exact ⟨h2, (h3 hq).1.trans h1.2.1, (h3 hq).2.trans h1.2.2⟩
    · rw [h.2.1, h.2.2]
      exact hf.fits.room
  · exact wp_fill (P := Bound dep o) rfl (fun _ _ _ h => ⟨h, trivial⟩)
      (fun _ _ _ _ _ _ h => (quiet_back h).1) hb (fun _ _ h => h)
      fun f s' h _ => bound_settle h fun h => absurd h he

theorem bound_cancel {B : Boundary Storage Query Uint256} {msg : Msg} {o' : OrderData}
    {n : Uint256} (hcf : getOrderHash dep o' = getOrderHash dep o → o' = o)
    (hb : Bound dep o s) : wp B (cancel dep msg o' n) (fun _ s' => Bound dep o s') s := by
  refine wp_cancel (fun _ => hb) fun f x e hf hx _ => ?_
  unfold Bound at hb ⊢
  by_cases he : getOrderHash dep o' = getOrderHash dep o
  · obtain rfl := hcf he
    have := hf.room
    simp only [Function.update_self]
    omega
  · simp only [Function.update_of_ne (Ne.symm he)]
    exact hb

/-- **The bound under re-entrancy**: at every moment of a run, and so whenever no call of the
exchange is on the stack, `filled + cancelled ≤ valueT`, if the answers to the transfer checks of
fills of the order are quiet. -/
theorem bound_of_quiet (dep : Deployment) (o : OrderData) (moves : List (Reentry.Move Call Uint256))
    (hquiet : Runs (entry dep) (quiet dep o) ⟨Storage.init, []⟩ moves) :
    ((exec (entry dep) ⟨Storage.init, []⟩ moves).cur.filled (getOrderHash dep o)).val +
      ((exec (entry dep) ⟨Storage.init, []⟩ moves).cur.cancelled (getOrderHash dep o)).val ≤
        o.2.valueT.val := by
  have hinit : Bound dep o Storage.init := Nat.zero_le _
  refine exec_ruled (fun c s hc hs => ?_) hinit hquiet
  refine wp_entry (B := quietBoundary dep o) c (fun o' n check sig s' h hb' => ?_)
    (fun o' n s' h hb' => ?_) hs
  · exact bound_fill (hc o' (.inl ⟨sig, h⟩)) hb'
  · exact bound_cancel (hc o' (.inr h)) hb'

theorem fill_sampleOrder_names (msg : Msg) (n : Uint256) (check : Bool) (o' : OrderData)
    (hname : (Call.fill msg sampleOrder n check sampleSig).Names o')
    (_ : getOrderHash sample o' = getOrderHash sample sampleOrder) : o' = sampleOrder :=
  hname.elim (fun ⟨_, h⟩ => h.1) fun h => h.elim

/-- While account `20` fills all of the order, token `30` answers the first question of the transfer
check after filling all of it itself. -/
def overfillRun : List (Reentry.Move Call Uint256) :=
  [.enter (.fill ⟨20, 50⟩ sampleOrder 10 true sampleSig),
    .enter (.fill ⟨30, 50⟩ sampleOrder 10 false sampleSig), .answer (some 1), .answer (some 1),
    .answer (some 5000), .answer (some 5000), .answer (some 50), .answer (some 50),
    .answer (some 1), .answer (some 1)]

/-- **A stale amount overfills**: at the end of `overfillRun` no call waits and 20 out of 10 are
filled. -/
theorem overfill :
    Runs (entry sample) (apart sample sampleOrder) ⟨Storage.init, []⟩ overfillRun ∧
      (exec (entry sample) ⟨Storage.init, []⟩ overfillRun).stack.length = 0 ∧
      sampleOrder.2.valueT.val = 10 ∧
      ((exec (entry sample) ⟨Storage.init, []⟩ overfillRun).cur.filled
        (getOrderHash sample sampleOrder)).val = 20 := by
  refine ⟨⟨fill_sampleOrder_names _ _ _, fill_sampleOrder_names _ _ _, ?_⟩, by decide +kernel,
    by decide, by decide +kernel⟩
  exact ⟨fun _ _ => trivial, fun _ _ => trivial, fun _ _ => trivial, fun _ _ => trivial,
    fun _ _ => trivial, fun _ _ => trivial, fun _ _ => trivial, fun _ _ => trivial, trivial⟩

instance (h : Bytes32) : DecidablePred (Query.IsCheck h)
  | .transferFrom .. => isFalse id
  | .balanceOf h' .. => inferInstanceAs (Decidable (h' = h))
  | .allowance h' .. => inferInstanceAs (Decidable (h' = h))

instance (cfg : Config Storage Query Uint256 Unit) (a : Uint256) :
    Decidable ((quiet dep o).Allows cfg (.answer (some a) : Reentry.Move Call Uint256)) :=
  inferInstanceAs (Decidable (∀ F ∈ cfg.stack.head?, F.query.IsCheck (getOrderHash dep o) →
    cfg.cur.filled (getOrderHash dep o) = F.saved.filled (getOrderHash dep o) ∧
      cfg.cur.cancelled (getOrderHash dep o) = F.saved.cancelled (getOrderHash dep o)))

/-- Account `20` fills 4 with the transfer check, and token `30` fills 9 more, which are cut to 6,
while it serves the first transfer. -/
def quietRun : List (Reentry.Move Call Uint256) :=
  [.enter (.fill ⟨20, 50⟩ sampleOrder 4 true sampleSig), .answer (some 5000), .answer (some 5000),
    .answer (some 50), .answer (some 50), .enter (.fill ⟨30, 50⟩ sampleOrder 9 false sampleSig),
    .answer (some 1), .answer (some 1), .answer (some 1), .answer (some 1)]

theorem quietRun_runs :
    Runs (entry sample) (quiet sample sampleOrder) ⟨Storage.init, []⟩ quietRun := by
  refine ⟨fill_sampleOrder_names _ _ _, ?_, ?_, ?_, ?_, fill_sampleOrder_names _ _ _, ?_, ?_, ?_,
    ?_, trivial⟩
  all_goals decide +kernel

/-- The two fills fit: at the end of `quietRun` no call waits and 10 out of 10 are filled. -/
theorem bound_of_quiet_sample :
    (exec (entry sample) ⟨Storage.init, []⟩ quietRun).stack.length = 0 ∧
      ((exec (entry sample) ⟨Storage.init, []⟩ quietRun).cur.filled
        (getOrderHash sample sampleOrder)).val = 10 ∧
      ((exec (entry sample) ⟨Storage.init, []⟩ quietRun).cur.filled
          (getOrderHash sample sampleOrder)).val +
        ((exec (entry sample) ⟨Storage.init, []⟩ quietRun).cur.cancelled
          (getOrderHash sample sampleOrder)).val ≤ 10 :=
  ⟨by decide +kernel, by decide +kernel, bound_of_quiet sample sampleOrder quietRun quietRun_runs⟩

end ChainX.Exchange
