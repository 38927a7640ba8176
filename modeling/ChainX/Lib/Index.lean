import Mathlib.Logic.Function.Basic

/-!
# A secondary index beside a table

A table gives some of its entries `A` a key (`keyOf`); the index has one slot a key, which names an
entry or is null. Keys need not be unique, so one slot may be wanted by several entries.

`Step` lists the ways to keep the index up: an entry gets a key and the slot of it, an entry goes
and the slot of its key with it, or an entry changes its key, with the old slot emptied and the new
one written; null may be written into a slot, too. All of them write without a look at who holds the
slot.

* `Sound`: a slot names an entry with that key, or none. Every step keeps this (**`Step.sound`**).
* `Complete`: every entry is found under its key. A step keeps this where the key it writes is not
  that of another entry, which is `Free` (**`Step.complete`**).

So a table in which two entries share a key is sound, and not complete: one of the two is not found,
and when the other one goes its slot is emptied. A user shows of each of its operations which step
it is, and gets both invariants for its runs.
-/

namespace ChainX.Lib.Index

variable {A K : Type}

/-! ## The index and its upkeep -/

/-- What a slot names has its key. -/
def Sound [Zero A] (keyOf : A → Option K) (index : K → A) : Prop :=
  ∀ k, index k ≠ 0 → keyOf (index k) = some k

/-- Every entry with a key is what the slot of that key names. -/
def Complete (keyOf : A → Option K) (index : K → A) : Prop :=
  ∀ a k, keyOf a = some k → index k = a

/-- No other entry has the key that is to be written, if one is. -/
def Free (keyOf : A → Option K) (written : Option (A × K)) : Prop :=
  ∀ a k, written = some (a, k) → ∀ b, b ≠ a → keyOf b ≠ some k

theorem free_none {keyOf : A → Option K} : Free keyOf none := fun _ _ h => absurd h (by simp)

/-- The table and the index change together, `written` being the entry and the slot it is put in. -/
inductive Step [Zero A] [DecidableEq A] [DecidableEq K] (keyOf : A → Option K) (index : K → A) :
    Option (A × K) → (A → Option K) → (K → A) → Prop
  | same : Step keyOf index none keyOf index
  /-- A new entry. -/
  | put (a : A) (k : K) (hzero : a ≠ 0) (hnone : keyOf a = none) :
      Step keyOf index (some (a, k)) (Function.update keyOf a (some k)) (Function.update index k a)
  /-- The null entry, which has no key, is written into a slot all the same. -/
  | clear (k : K) (hnone : keyOf 0 = none) :
      Step keyOf index (some (0, k)) keyOf (Function.update index k 0)
  /-- An entry goes, and the slot of its key is emptied, whoever held it. -/
  | erase (a : A) (k : K) (ha : keyOf a = some k) :
      Step keyOf index none (Function.update keyOf a none) (Function.update index k 0)
  /-- An entry changes its key, leaving the slot of the old one empty. -/
  | rename (a : A) (k k' : K) (hzero : a ≠ 0) (ha : keyOf a = some k) :
      Step keyOf index (some (a, k')) (Function.update keyOf a (some k'))
        (Function.update (Function.update index k 0) k' a)

variable {keyOf : A → Option K} {index : K → A}

/-! ## Soundness -/

section Soundness

variable [Zero A]

/-- An entry without a key is in no slot. -/
theorem Sound.ne (h : Sound keyOf index) {a : A} (ha : a ≠ 0) (hnone : keyOf a = none) (k : K) :
    index k ≠ a := by
  rintro rfl
  have := h k ha
  rw [hnone] at this
  exact absurd this (by simp)

variable [DecidableEq K]

/-- A slot is emptied. -/
theorem Sound.clear (h : Sound keyOf index) (k : K) : Sound keyOf (Function.update index k 0) := by
  intro k' hk'
  by_cases he : k' = k
  · subst he
    rw [Function.update_self] at hk'
    exact absurd rfl hk'
  · rw [Function.update_of_ne he] at hk' ⊢
    exact h k' hk'

variable [DecidableEq A]

/-- A slot is given to an entry that is in no other. -/
theorem Sound.put (h : Sound keyOf index) {a : A} (hnot : ∀ k, index k ≠ a) (k : K) :
    Sound (Function.update keyOf a (some k)) (Function.update index k a) := by
  intro k' hk'
  by_cases he : k' = k
  · subst he
    rw [Function.update_self, Function.update_self]
  · rw [Function.update_of_ne he] at hk' ⊢
    rw [Function.update_of_ne (hnot k')]
    exact h k' hk'

/-- An entry goes, and the slot of its key is emptied, whoever held it. -/
theorem Sound.erase (h : Sound keyOf index) {a : A} {k : K} (ha : keyOf a = some k) :
    Sound (Function.update keyOf a none) (Function.update index k 0) := by
  intro k' hk'
  have hne : k' ≠ k := by
    rintro rfl
    exact hk' (Function.update_self ..)
  rw [Function.update_of_ne hne] at hk' ⊢
  have hkey := h k' hk'
  have hother : index k' ≠ a := by
    rintro rfl
    rw [ha] at hkey
    exact hne (Option.some.inj hkey).symm
  rw [Function.update_of_ne hother]
  exact hkey

/-- An entry changes its key from `k` to `k'`, in the table and in the index. -/
theorem Sound.rename (h : Sound keyOf index) {a : A} (hzero : a ≠ 0) {k : K}
    (ha : keyOf a = some k) (k' : K) :
    Sound (Function.update keyOf a (some k'))
      (Function.update (Function.update index k 0) k' a) := by
  have herase := h.erase ha
  have hput := herase.put (herase.ne hzero (Function.update_self ..)) k'
  rwa [Function.update_idem] at hput

/-- **Every step keeps the index sound.** -/
theorem Step.sound {written : Option (A × K)} {keyOf' : A → Option K} {index' : K → A}
    (h : Step keyOf index written keyOf' index') (hs : Sound keyOf index) :
    Sound keyOf' index' := by
  cases h with
  | same => exact hs
  | put a k hzero hnone => exact hs.put (hs.ne hzero hnone) k
  | clear k hnone => exact hs.clear k
  | erase a k ha => exact hs.erase ha
  | rename a k k' hzero ha => exact hs.rename hzero ha k'

end Soundness

/-! ## Completeness -/

section Completeness

variable [DecidableEq K]

/-- A slot that nobody wants is overwritten. -/
theorem Complete.write (h : Complete keyOf index) {k : K} (hfree : ∀ b, keyOf b ≠ some k) (a : A) :
    Complete keyOf (Function.update index k a) := by
  intro b k' hb
  have hne : k' ≠ k := by
    rintro rfl
    exact hfree b hb
  rw [Function.update_of_ne hne]
  exact h b k' hb

variable [DecidableEq A]

/-- An entry is given a slot that no other wants. -/
theorem Complete.put (h : Complete keyOf index) {a : A} {k : K}
    (hfree : ∀ b, b ≠ a → keyOf b ≠ some k) :
    Complete (Function.update keyOf a (some k)) (Function.update index k a) := by
  intro b k' hb
  by_cases he : b = a
  · subst he
    rw [Function.update_self, Option.some.injEq] at hb
    rw [hb, Function.update_self]
  · rw [Function.update_of_ne he] at hb
    have hne : k' ≠ k := by
      rintro rfl
      exact hfree b he hb
    rw [Function.update_of_ne hne]
    exact h b k' hb

variable [Zero A]

/-- An entry goes, and its slot is emptied. -/
theorem Complete.erase (h : Complete keyOf index) {a : A} {k : K} (ha : keyOf a = some k) :
    Complete (Function.update keyOf a none) (Function.update index k 0) := by
  intro b k' hb
  by_cases he : b = a
  · subst he
    rw [Function.update_self] at hb
    exact absurd hb (by simp)
  · rw [Function.update_of_ne he] at hb
    have hne : k' ≠ k := by
      rintro rfl
      exact he ((h b k' hb).symm.trans (h a k' ha))
    rw [Function.update_of_ne hne]
    exact h b k' hb

/-- An entry changes its key to one that no other has. -/
theorem Complete.rename (h : Complete keyOf index) {a : A} {k k' : K} (ha : keyOf a = some k)
    (hfree : ∀ b, b ≠ a → keyOf b ≠ some k') :
    Complete (Function.update keyOf a (some k'))
      (Function.update (Function.update index k 0) k' a) := by
  have hput := (h.erase ha).put (a := a) (k := k') fun b hb => by
    rw [Function.update_of_ne hb]
    exact hfree b hb
  rwa [Function.update_idem] at hput

/-- **A step that writes a free key keeps the index complete.** -/
theorem Step.complete {written : Option (A × K)} {keyOf' : A → Option K} {index' : K → A}
    (h : Step keyOf index written keyOf' index') (hfree : Free keyOf written)
    (hs : Complete keyOf index) : Complete keyOf' index' := by
  cases h with
  | same => exact hs
  | put a k hzero hnone => exact hs.put (hfree a k rfl)
  | clear k hnone =>
    refine hs.write (fun b hb => ?_) 0
    by_cases he : b = 0
    · rw [he, hnone] at hb
      exact absurd hb (by simp)
    · exact hfree 0 k rfl b he hb
  | erase a k ha => exact hs.erase ha
  | rename a k k' hzero ha => exact hs.rename ha (hfree a k' rfl)

end Completeness

end ChainX.Lib.Index
