import ChainX.Lib.Ring

/-!
# Rate checks, `Maternodes/ChainX-MN/governance.h:29-131`

`CRateCheckBuffer` keeps the last timestamps of a masternode in a ring of `RATE_BUFFER_SIZE` slots.
The two loops over it are one, `loop`, which answers `none` where the C++ reads past the vector or
goes round more than once. Of `GetRate` the model has the case that is taken and the numbers of the
quotient, not the `double`.

* `AddTimestamp` writes at the end and moves the start on when the ring is full; the three numbers
  of the source (`nDataStart`, `nDataEnd`, `fBufferEmpty`) are those of a `Lib.Ring`.
* Timestamps are `int64_t`, of any sign and in any order; the difference of two of them may wrap.
* The serialisation of the buffer is left out.

Results:
* **`keeps_last_five`**: of any sequence of timestamps the last five are kept, each seen once.
* **`spread_iff`**: the rate is of the true spread when a kept timestamp is not negative. The
  maximum is looked for from 0 up, the minimum from the largest number down.
-/

namespace ChainX.Governance

open ChainX.Lib

/-- How many timestamps are kept. -/
def RATE_BUFFER_SIZE : Nat := 5

/-- `class CRateCheckBuffer`: a ring of timestamps. -/
structure CRateCheckBuffer where
  vecTimestamps : Vector Int64 RATE_BUFFER_SIZE
  nDataStart : Nat
  nDataEnd : Nat
  fBufferEmpty : Bool

/-- The answers of `GetRate`. -/
inductive Rate where
  /-- `0.0`. -/
  | zero
  /-- `1.0e10`. -/
  | infinite
  /-- `double(nCount) / double(nMax - nMin)`. -/
  | quotient (nCount : Nat) (nMax nMin : Int64)
  deriving DecidableEq

namespace CRateCheckBuffer

/-! ## Functions -/

/-- The constructor. -/
def new : CRateCheckBuffer := ⟨Vector.replicate RATE_BUFFER_SIZE 0, 0, 0, true⟩

variable (b : CRateCheckBuffer)

/-- `AddTimestamp`: the oldest one makes room. -/
def addTimestamp (nTimestamp : Int64) : CRateCheckBuffer where
  -- the first element is discarded if the buffer is full
  nDataStart :=
    if b.nDataEnd = b.nDataStart ∧ b.fBufferEmpty = false then
      (b.nDataStart + 1) % RATE_BUFFER_SIZE
    else b.nDataStart
  vecTimestamps := b.vecTimestamps.setIfInBounds b.nDataEnd nTimestamp
  nDataEnd := (b.nDataEnd + 1) % RATE_BUFFER_SIZE
  fBufferEmpty := false

/-- The loop of `GetMinTimestamp` and `GetMaxTimestamp` over the indexes, and the test before it. -/
def loop {σ : Type} (body : σ → Nat → Option σ) (first : σ) : Option σ :=
  if b.fBufferEmpty = true then some first
  else around RATE_BUFFER_SIZE b.nDataEnd body RATE_BUFFER_SIZE b.nDataStart first

/-- The loop, of what it does with a timestamp. -/
def scan (visit : Int64 → Int64 → Int64) (first : Int64) : Option Int64 :=
  b.loop (fun value nIndex => (b.vecTimestamps[nIndex]?).map (visit value)) first

/-- The indexes that the loop goes through. -/
def visited : Option (List Nat) := b.loop (fun seen nIndex => some (seen ++ [nIndex])) []

/-- `GetMinTimestamp`, from the largest number down. -/
def getMinTimestamp : Option Int64 :=
  b.scan (fun nMin nTimestamp => if nTimestamp < nMin then nTimestamp else nMin) Int64.maxValue

/-- `GetMaxTimestamp`, from zero up. -/
def getMaxTimestamp : Option Int64 :=
  b.scan (fun nMax nTimestamp => if nTimestamp > nMax then nTimestamp else nMax) 0

/-- `GetCount`: from the start to the end, around the ring. -/
def getCount : Nat :=
  if b.fBufferEmpty = true then 0
  else if b.nDataStart < b.nDataEnd then b.nDataEnd - b.nDataStart
  else RATE_BUFFER_SIZE - b.nDataStart + b.nDataEnd

/-- `GetRate`, which is a quotient of a count and a span of time. -/
def getRate : Option Rate :=
  if b.getCount < 2 then some .zero
  else do
    let nMin ← b.getMinTimestamp
    let nMax ← b.getMaxTimestamp
    if nMin = nMax then return .infinite
    else return .quotient b.getCount nMax nMin

/-- A new buffer after these calls of `AddTimestamp`. -/
def after (ts : List Int64) : CRateCheckBuffer := ts.foldl addTimestamp new

/-! ## What is kept -/

/-- The buffer holds the last of these timestamps. -/
def Keeps (ts : List Int64) : Prop :=
  Ring b.vecTimestamps b.nDataStart b.nDataEnd b.fBufferEmpty ts

theorem size_pos : 0 < RATE_BUFFER_SIZE := by decide

variable {b} {ts : List Int64}

theorem keeps_addTimestamp (h : b.Keeps ts) (nTimestamp : Int64) :
    (b.addTimestamp nTimestamp).Keeps (ts ++ [nTimestamp]) :=
  Ring.add size_pos h nTimestamp

theorem keeps_foldl (h : b.Keeps ts) (ts' : List Int64) :
    (ts'.foldl addTimestamp b).Keeps (ts ++ ts') := by
  induction ts' generalizing b ts with
  | nil => rwa [List.append_nil]
  | cons t ts' ih =>
    have := ih (keeps_addTimestamp h t)
    rwa [List.append_assoc] at this

theorem keeps_new : new.Keeps [] := Ring.nil _

theorem keeps_after (ts : List Int64) : (after ts).Keeps ts := keeps_foldl keeps_new ts

theorem getCount_eq (h : b.Keeps ts) : b.getCount = min ts.length RATE_BUFFER_SIZE := by
  unfold getCount
  split
  · rename_i hempty
    rw [h.isEmpty_iff.mp hempty]
    rfl
  · rename_i hempty
    exact Ring.count size_pos h (Bool.eq_false_of_not_eq_true hempty)

theorem loop_eq (h : b.Keeps ts) {σ : Type} (body : σ → Nat → Option σ) (first : σ) :
    b.loop body first = (slotsOf RATE_BUFFER_SIZE ts.length).foldlM body first := by
  unfold loop
  split
  · rename_i hempty
    rw [h.isEmpty_iff.mp hempty]
    rfl
  · rename_i hempty
    exact Ring.around_eq_foldlM size_pos h (Bool.eq_false_of_not_eq_true hempty) body first

theorem scan_eq (h : b.Keeps ts) (visit : Int64 → Int64 → Int64) (first : Int64) :
    b.scan visit first = some ((ts.rtake RATE_BUFFER_SIZE).foldl visit first) :=
  (loop_eq h _ first).trans (foldlM_reads visit (Ring.reads h) first)

/-- The loop goes through the slots of the kept timestamps, through none twice. -/
theorem visited_eq (h : b.Keeps ts) : ∃ slots, b.visited = some slots ∧ slots.Nodup ∧
    slots.map (b.vecTimestamps[·]?) = (ts.rtake RATE_BUFFER_SIZE).map some :=
  ⟨slotsOf RATE_BUFFER_SIZE ts.length, (loop_eq h _ []).trans (foldlM_record _ []),
    nodup_slotsOf _ _, Ring.reads h⟩

/-! ## Extremes -/

/-- A scan for a value that no other precedes finds one, among the first value and the list. -/
theorem foldl_extreme {α : Type} (r : α → α → Prop) [DecidableRel r]
    (hasymm : ∀ a b, r a b → ¬ r b a) (htrans : ∀ a b c, ¬ r a b → ¬ r b c → ¬ r a c)
    (l : List α) (first : α) :
    l.foldl (fun m t => if r t m then t else m) first ∈ first :: l ∧
      ∀ t ∈ first :: l, ¬ r t (l.foldl (fun m t => if r t m then t else m) first) := by
  have hirrefl : ∀ a, ¬ r a a := fun a h => hasymm a a h h
  induction l generalizing first with
  | nil => exact ⟨List.mem_singleton_self first, by simpa using hirrefl first⟩
  | cons a l ih =>
    obtain ⟨hmem, hall⟩ := ih (if r a first then a else first)
    rw [List.foldl_cons]
    constructor
    · rcases List.mem_cons.mp hmem with heq | hmem
      · rw [heq]
        split
        · exact List.mem_cons_of_mem first List.mem_cons_self
        · exact List.mem_cons_self
      · exact List.mem_cons_of_mem first (List.mem_cons_of_mem a hmem)
    · -- neither of the first two precedes the one of them that is kept
      have hfirst : ¬ r first (if r a first then a else first) := by
        split
        · rename_i hlt
          exact hasymm a first hlt
        · exact hirrefl first
      have ha : ¬ r a (if r a first then a else first) := by
        split
        · exact hirrefl a
        · assumption
      intro t ht
      rcases List.mem_cons.mp ht with rfl | ht
      · exact htrans _ _ _ hfirst (hall _ List.mem_cons_self)
      · rcases List.mem_cons.mp ht with rfl | ht
        · exact htrans _ _ _ ha (hall _ List.mem_cons_self)
        · exact hall t (List.mem_cons_of_mem _ ht)

theorem rtake_ne_nil (hts : ts ≠ []) : ts.rtake RATE_BUFFER_SIZE ≠ [] := by
  have hlength := List.length_pos_iff.mpr hts
  have hsize := size_pos
  rw [← List.length_pos_iff, List.rtake, List.length_drop]
  omega

/-- The smallest of the kept timestamps, and the largest number without any. -/
theorem getMinTimestamp_eq (h : b.Keeps ts) : ∃ nMin, b.getMinTimestamp = some nMin ∧
    (ts = [] → nMin = Int64.maxValue) ∧
    (ts ≠ [] → nMin ∈ ts.rtake RATE_BUFFER_SIZE ∧ ∀ t ∈ ts.rtake RATE_BUFFER_SIZE, nMin ≤ t) := by
  obtain ⟨hmem, hall⟩ := foldl_extreme (α := Int64) (· < ·) (fun _ _ => Int64.lt_asymm)
    (fun a b c hab hbc => by rw [Int64.not_lt] at *; exact Int64.le_trans hbc hab)
    (ts.rtake RATE_BUFFER_SIZE) Int64.maxValue
  refine ⟨_, scan_eq h _ _, fun hts => by rw [hts]; rfl, fun hts => ⟨?_, fun t ht =>
    Int64.not_lt.mp (hall t (List.mem_cons_of_mem _ ht))⟩⟩
  rcases List.mem_cons.mp hmem with heq | hmem
  · -- the largest number is found only if it is kept
    obtain ⟨t, ht⟩ := List.exists_mem_of_ne_nil _ (rtake_ne_nil hts)
    have hle := Int64.not_lt.mp (hall t (List.mem_cons_of_mem _ ht))
    rw [heq] at hle ⊢
    exact Int64.le_antisymm hle (Int64.le_maxValue t) ▸ ht
  · exact hmem

/-- The largest of the kept timestamps and 0. -/
theorem getMaxTimestamp_eq (h : b.Keeps ts) : ∃ nMax, b.getMaxTimestamp = some nMax ∧
    nMax ∈ 0 :: ts.rtake RATE_BUFFER_SIZE ∧ ∀ t ∈ 0 :: ts.rtake RATE_BUFFER_SIZE, t ≤ nMax := by
  obtain ⟨hmem, hall⟩ := foldl_extreme (α := Int64) (· > ·) (fun _ _ => Int64.lt_asymm)
    (fun a b c hab hbc => by
      simp only [gt_iff_lt, Int64.not_lt] at hab hbc ⊢
      exact Int64.le_trans hab hbc)
    (ts.rtake RATE_BUFFER_SIZE) 0
  exact ⟨_, scan_eq h _ _, hmem, fun t ht => Int64.not_lt.mp (hall t ht)⟩

/-! ## Results -/

/-- **The last five timestamps are kept.** -/
theorem keeps_last_five (ts : List Int64) :
    (after ts).nDataStart < RATE_BUFFER_SIZE ∧ (after ts).nDataEnd < RATE_BUFFER_SIZE ∧
      (after ts).getCount = min ts.length 5 ∧
      (∃ nMin, (after ts).getMinTimestamp = some nMin ∧ (ts = [] → nMin = Int64.maxValue) ∧
        (ts ≠ [] → nMin ∈ ts.rtake 5 ∧ ∀ t ∈ ts.rtake 5, nMin ≤ t)) ∧
      ∃ slots, (after ts).visited = some slots ∧ slots.Nodup ∧
        slots.map ((after ts).vecTimestamps[·]?) = (ts.rtake 5).map some := by
  have hkeeps := keeps_after ts
  exact ⟨Ring.start_lt size_pos hkeeps, Ring.stop_lt size_pos hkeeps, getCount_eq hkeeps,
    getMinTimestamp_eq hkeeps, visited_eq hkeeps⟩

/-- The extremes that are found are those of the kept timestamps, and the rate is infinite when
they are all the same. -/
def TrueSpread (b : CRateCheckBuffer) (kept : List Int64) : Prop :=
  (∃ nMax, b.getMaxTimestamp = some nMax ∧ nMax ∈ kept ∧ ∀ t ∈ kept, t ≤ nMax) ∧
    (∃ nMin, b.getMinTimestamp = some nMin ∧ nMin ∈ kept ∧ ∀ t ∈ kept, nMin ≤ t) ∧
    (b.getRate = some .infinite ↔ ∀ t ∈ kept, ∀ t' ∈ kept, t = t')

theorem getRate_infinite_iff {nMin nMax : Int64} (hcount : 2 ≤ b.getCount)
    (hmin : b.getMinTimestamp = some nMin) (hmax : b.getMaxTimestamp = some nMax) :
    b.getRate = some .infinite ↔ nMin = nMax := by
  rw [getRate, if_neg (Nat.not_lt.mpr hcount), hmin, hmax]
  simp only [Option.bind_eq_bind, Option.bind_some]
  split
  · exact iff_of_true rfl ‹_›
  · exact iff_of_false (by simp [pure]) ‹_›

/-- **The rate is of the true spread if and only if a kept timestamp is not negative.** -/
theorem spread_iff (ts : List Int64) (htwo : 2 ≤ ts.length) :
    TrueSpread (after ts) (ts.rtake 5) ↔ ∃ t ∈ ts.rtake 5, 0 ≤ t := by
  have hkeeps := keeps_after ts
  have hne : ts ≠ [] := List.length_pos_iff.mp (Nat.zero_lt_of_lt htwo)
  obtain ⟨nMin, hmin, -, hleast⟩ := getMinTimestamp_eq hkeeps
  obtain ⟨nMax, hmax, hmem, hge⟩ := getMaxTimestamp_eq hkeeps
  obtain ⟨hminmem, hle⟩ := hleast hne
  have hcount : 2 ≤ (after ts).getCount := by
    rw [getCount_eq hkeeps]
    exact Nat.le_min.mpr ⟨htwo, by decide⟩
  have hzero := hge 0 List.mem_cons_self
  constructor
  · rintro ⟨⟨nMax', hmax', hmem', -⟩, -, -⟩
    obtain rfl := Option.some.inj (hmax.symm.trans hmax')
    exact ⟨nMax, hmem', hzero⟩
  · rintro ⟨t, ht, hnonneg⟩
    have hmaxmem : nMax ∈ ts.rtake 5 := by
      rcases List.mem_cons.mp hmem with rfl | hmem
      · -- 0 is the largest, so the timestamp is 0
        have heq := Int64.le_antisymm hnonneg (hge t (List.mem_cons_of_mem _ ht))
        exact heq ▸ ht
      · exact hmem
    refine ⟨⟨nMax, hmax, hmaxmem, fun t ht => hge t (List.mem_cons_of_mem _ ht)⟩,
      ⟨nMin, hmin, hminmem, hle⟩, ?_⟩
    rw [getRate_infinite_iff hcount hmin hmax]
    constructor
    · rintro rfl t ht t' ht'
      have heq : ∀ t ∈ ts.rtake 5, t = nMin := fun t ht =>
        Int64.le_antisymm (hge t (List.mem_cons_of_mem _ ht)) (hle t ht)
      rw [heq t ht, heq t' ht']
    · intro hall
      exact hall nMin hminmem nMax hmaxmem

theorem spread_iff_samples : TrueSpread (after [1500000000, 1500000600]) [1500000000, 1500000600] :=
  (spread_iff [1500000000, 1500000600] (by decide)).mpr ⟨1500000000, by decide, by decide⟩

/-- Of one negative timestamp twice the maximum is 0, and the rate is not infinite. -/
theorem maximum_of_negatives :
    (after [-5, -5]).getMaxTimestamp = some 0 ∧
      (after [-5, -5]).getRate = some (.quotient 2 0 (-5)) ∧
      ¬ TrueSpread (after [-5, -5]) [-5, -5] := by
  have hmax : (after [-5, -5]).getMaxTimestamp = some 0 := by decide
  refine ⟨hmax, by decide, ?_⟩
  rintro ⟨⟨nMax, hmax', hmem, -⟩, -, -⟩
  obtain rfl := Option.some.inj (hmax.symm.trans hmax')
  exact absurd hmem (by decide)

end CRateCheckBuffer

end ChainX.Governance
