import Mathlib.Data.List.DropRight
import Mathlib.Data.List.Nodup
import Mathlib.Data.Nat.ModEq

/-!
# Ring buffers

Values are written into `n` slots round and round: `stop` is the next slot to write and `start` the
oldest that is kept. When the two meet, the ring is empty or full, and a flag says which. `around`
is a `do … while` loop from one slot until it meets another.

* `slotsOf n k` are the slots of the last values out of `k`, the oldest first: those of the numbers
  from `k - n` (or 0) up to `k`, modulo `n`. The whole development is arithmetic about this list.
* `Ring` ties the slots, the two ends and the flag, which is set where nothing was written yet, to
  the list of all values that were ever written.

Results:
* **`Ring.add`**: what is kept after another value is the last `n` values.
* `Ring.ends`, `Ring.full_iff`: where the two ends are and when the ring is full, from how many
  values there have been.
* `Ring.count`: how many are kept, from `start` and `stop`.
* **`Ring.around_eq_foldlM`**, `Ring.reads`: a loop from `start` until it meets `stop` goes through
  the kept slots, the oldest first, and they hold the last values. `nodup_slotsOf`: each once.
-/

namespace ChainX.Lib

variable {α σ : Type} {n : Nat}

/-- The slots of the last values out of `k`, the oldest first. -/
def slotsOf (n k : Nat) : List Nat := (List.range' (k - n) (min k n)).map (· % n)

/-- The ring holds the last of the values. -/
structure Ring (slots : Vector α n) (start stop : Nat) (isEmpty : Bool) (values : List α) :
    Prop where
  isEmpty_iff : isEmpty = true ↔ values = []
  start_eq : start = (values.length - n) % n
  stop_eq : stop = values.length % n
  slot : ∀ i (h : i < values.length), values.length - n ≤ i → slots[i % n]? = some values[i]

/-- The loop `do body; i = (i + 1) % n; while (i != stop)`, for so many rounds. -/
def around (n stop : Nat) (body : σ → Nat → Option σ) : Nat → Nat → σ → Option σ
  | 0, _, _ => none
  | rounds + 1, i, s => do
    let s ← body s i
    if (i + 1) % n ≠ stop then around n stop body rounds ((i + 1) % n) s else return s

/-! ## Slots -/

theorem mod_injOn {k i j : Nat} (hi : k ≤ i) (hi' : i < k + n) (hj : k ≤ j) (hj' : j < k + n)
    (h : i % n = j % n) : i = j := by
  have hi₀ : i - k < n := by omega
  have hj₀ : j - k < n := by omega
  have hmod : (k + (i - k)) % n = (k + (j - k)) % n := by
    rw [Nat.add_sub_cancel' hi, Nat.add_sub_cancel' hj]
    exact h
  have hmod' : (i - k) % n = (j - k) % n := Nat.ModEq.add_left_cancel' k hmod
  rw [Nat.mod_eq_of_lt hi₀, Nat.mod_eq_of_lt hj₀] at hmod'
  omega

theorem nodup_slotsOf (n k : Nat) : (slotsOf n k).Nodup := by
  refine List.Nodup.map_on (fun i hi j hj h => ?_) List.nodup_range'
  rw [List.mem_range'_1] at hi hj
  exact mod_injOn hi.1 (by omega) hj.1 (by omega) h

/-- A loop that has `m` slots to go sees these slots. -/
theorem around_eq {stop : Nat} (body : σ → Nat → Option σ) {m rounds k : Nat}
    (hpos : 0 < m) (hle : m ≤ n) (hrounds : m ≤ rounds) (hstop : (k + m) % n = stop) (s : σ) :
    around n stop body rounds (k % n) s =
      ((List.range' k m).map (· % n)).foldlM body s := by
  induction m generalizing rounds k s with
  | zero => exact absurd hpos (Nat.lt_irrefl 0)
  | succ m ih =>
    obtain ⟨rounds, rfl⟩ : ∃ r, rounds = r + 1 := ⟨rounds - 1, by omega⟩
    rw [around, Nat.mod_add_mod, List.range'_succ, List.map_cons, List.foldlM_cons]
    congr 1
    funext s'
    cases m with
    | zero =>
      rw [if_neg (by simpa using hstop)]
      rfl
    | succ m =>
      have hne : (k + 1) % n ≠ stop := fun heq => by
        have := mod_injOn (n := n) (k := k + 1) (by omega) (by omega) (by omega) (by omega)
          (heq.trans hstop.symm)
        omega
      rw [if_pos hne]
      exact ih (by omega) (by omega) (by omega) (by rw [← hstop]; congr 1; omega) s'

/-- A loop over slots that reads what they hold. -/
theorem foldlM_reads {slots : Vector α n} (visit : σ → α → σ) {is : List Nat} {values : List α}
    (h : is.map (slots[·]?) = values.map some) (s : σ) :
    is.foldlM (fun s i => (slots[i]?).map (visit s)) s = some (values.foldl visit s) := by
  induction is generalizing values s with
  | nil =>
    obtain rfl := List.map_eq_nil_iff.mp h.symm
    rfl
  | cons i is ih =>
    obtain ⟨value, values, rfl, hvalue, hvalues⟩ := List.map_eq_cons_iff.mp h.symm
    have hslot : slots[i]? = some value := hvalue.symm
    rw [List.foldlM_cons, hslot, List.foldl_cons]
    exact ih hvalues.symm (visit s value)

theorem foldlM_record (is seen : List Nat) :
    is.foldlM (fun seen i => some (seen ++ [i])) seen = some (seen ++ is) := by
  induction is generalizing seen with
  | nil => rw [List.append_nil]; rfl
  | cons i is ih =>
    rw [List.foldlM_cons]
    exact (ih (seen ++ [i])).trans (by rw [List.append_assoc]; rfl)

namespace Ring

variable {slots : Vector α n} {start stop : Nat} {isEmpty : Bool} {values : List α}

theorem nil (slots : Vector α n) : Ring slots 0 0 true [] where
  isEmpty_iff := by simp
  start_eq := by simp
  stop_eq := by simp
  slot i h := absurd h (Nat.not_lt_zero i)

theorem start_lt (hn : 0 < n) (h : Ring slots start stop isEmpty values) : start < n :=
  h.start_eq ▸ Nat.mod_lt _ hn

theorem stop_lt (hn : 0 < n) (h : Ring slots start stop isEmpty values) : stop < n :=
  h.stop_eq ▸ Nat.mod_lt _ hn

theorem ne_nil_iff (h : Ring slots start stop isEmpty values) : isEmpty = false ↔ values ≠ [] := by
  rw [← Bool.not_eq_true, h.isEmpty_iff]

/-- The two ends, from how many values there are: below `n` the oldest is in slot 0. -/
theorem ends (h : Ring slots start stop isEmpty values) :
    (values.length < n → start = 0 ∧ stop = values.length) ∧
      (n ≤ values.length → start = stop) := by
  refine ⟨fun hlt => ?_, fun hle => ?_⟩
  · rw [h.start_eq, h.stop_eq, Nat.mod_eq_of_lt hlt, Nat.sub_eq_zero_of_le hlt.le, Nat.zero_mod]
    exact ⟨rfl, rfl⟩
  · rw [h.start_eq, h.stop_eq, ← Nat.mod_eq_sub_mod hle]

theorem full_iff (hn : 0 < n) (h : Ring slots start stop isEmpty values) :
    stop = start ∧ isEmpty = false ↔ n ≤ values.length := by
  obtain ⟨hlow, hhigh⟩ := h.ends
  rw [h.ne_nil_iff, ← List.length_pos_iff]
  rcases Nat.lt_or_ge values.length n with hlt | hle
  · obtain ⟨hstart, hstop⟩ := hlow hlt
    omega
  · have := hhigh hle
    omega

theorem count (hn : 0 < n) (h : Ring slots start stop isEmpty values) (hne : isEmpty = false) :
    (if start < stop then stop - start else n - start + stop) = min values.length n := by
  obtain ⟨hlow, hhigh⟩ := h.ends
  have hlength := List.length_pos_iff.mpr (h.ne_nil_iff.mp hne)
  have hstart := h.start_lt hn
  rcases Nat.lt_or_ge values.length n with hlt | hle
  · obtain ⟨rfl, rfl⟩ := hlow hlt
    rw [if_pos hlength]
    omega
  · obtain rfl := hhigh hle
    rw [if_neg (Nat.lt_irrefl _)]
    omega

/-- **Another value takes the place of the oldest, if the ring is full.** -/
theorem add (hn : 0 < n) (h : Ring slots start stop isEmpty values) (value : α) :
    Ring (slots.setIfInBounds stop value)
      (if stop = start ∧ isEmpty = false then (start + 1) % n else start) ((stop + 1) % n) false
      (values ++ [value]) where
  isEmpty_iff := by simp
  start_eq := by
    rw [List.length_append, List.length_singleton]
    by_cases hfull : n ≤ values.length
    · rw [if_pos ((h.full_iff hn).mpr hfull), h.start_eq, Nat.mod_add_mod]
      congr 1
      omega
    · rw [if_neg (mt (h.full_iff hn).mp hfull), h.start_eq]
      congr 1
      omega
  stop_eq := by rw [List.length_append, List.length_singleton, h.stop_eq, Nat.mod_add_mod]
  slot i hi hkept := by
    rw [List.length_append, List.length_singleton] at hi hkept
    rw [Vector.getElem?_setIfInBounds, h.stop_eq, if_pos (Nat.mod_lt _ hn)]
    rcases Nat.lt_or_ge i values.length with hold | hnew
    · have hne : values.length % n ≠ i % n := fun heq => by
        have := mod_injOn (n := n) (k := i) (by omega) (by omega) (by omega) (by omega) heq
        omega
      rw [if_neg hne, List.getElem_append_left hold]
      exact h.slot i hold (by omega)
    · obtain rfl : i = values.length := by omega
      rw [if_pos rfl, List.getElem_concat_length rfl]

/-- The kept slots hold the last values. -/
theorem reads (h : Ring slots start stop isEmpty values) :
    (slotsOf n values.length).map (slots[·]?) = (values.rtake n).map some := by
  refine List.ext_getElem (by simp [slotsOf, List.rtake]; omega) fun j hj hj' => ?_
  simp only [slotsOf, List.length_map, List.length_range'] at hj
  simp only [slotsOf, List.getElem_map, List.getElem_range', List.rtake, List.getElem_drop,
    Nat.one_mul]
  exact h.slot (values.length - n + j) (by omega) (by omega)

/-- **The loop goes through the kept slots.** -/
theorem around_eq_foldlM (hn : 0 < n) (h : Ring slots start stop isEmpty values)
    (hne : isEmpty = false) (body : σ → Nat → Option σ) (s : σ) :
    around n stop body n start s = (slotsOf n values.length).foldlM body s := by
  have hlength := List.length_pos_iff.mpr (h.ne_nil_iff.mp hne)
  rw [h.start_eq]
  refine around_eq body (by omega) (by omega) (by omega) ?_ s
  rw [h.stop_eq]
  rcases Nat.lt_or_ge values.length n with hlt | hle
  · congr 1
    omega
  · rw [Nat.min_eq_right hle, Nat.sub_add_cancel hle]

end Ring

end ChainX.Lib
