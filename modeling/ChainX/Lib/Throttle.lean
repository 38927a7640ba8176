/-!
# Throttled senders

A sender keeps a record of what was sent, and sends nothing that is too close to it. `Recorded s a`
says that the record in the state `s` accounts for `a`, and `Apart a b` that `b` may come after `a`.

* `Heeds Recorded Apart s sent s'` is a way from `s` to `s'` on which `sent` was sent: what was
  recorded stays so, what is sent gets recorded, it is apart from all that was recorded before, and
  from all that was sent with it.
* The record need not name what was sent, as long as it accounts for it: the time of the last
  sending is a record of all that came before.

Results:
* `Heeds.silent`, `Heeds.single`: the steps, which send nothing or one thing.
* `Heeds.trans`: a run of such steps is one, so what it sends is pairwise apart.
-/

namespace ChainX.Lib

variable {S A : Type}

/-- A way from one state to another on which the record is looked at and kept up. -/
structure Heeds (Recorded : S → A → Prop) (Apart : A → A → Prop) (s : S) (sent : List A) (s' : S) :
    Prop where
  kept : ∀ a, Recorded s a → Recorded s' a
  recorded : ∀ a ∈ sent, Recorded s' a
  apart : ∀ a, Recorded s a → ∀ b ∈ sent, Apart a b
  pairwise : sent.Pairwise Apart

namespace Heeds

variable {Recorded : S → A → Prop} {Apart : A → A → Prop} {s s₁ s' : S} {a : A} {as bs : List A}

/-- Nothing is sent, and nothing is forgotten. -/
theorem silent (h : ∀ a, Recorded s a → Recorded s' a) : Heeds Recorded Apart s [] s' where
  kept := h
  recorded _ hmem := absurd hmem List.not_mem_nil
  apart _ _ _ hmem := absurd hmem List.not_mem_nil
  pairwise := .nil

/-- One sending that agrees with the record. -/
theorem single (hkept : ∀ b, Recorded s b → Recorded s' b) (hrecorded : Recorded s' a)
    (hapart : ∀ b, Recorded s b → Apart b a) : Heeds Recorded Apart s [a] s' where
  kept := hkept
  recorded b hmem := by
    obtain rfl := List.mem_singleton.mp hmem
    exact hrecorded
  apart b hb c hmem := by
    obtain rfl := List.mem_singleton.mp hmem
    exact hapart b hb
  pairwise := List.pairwise_singleton _ a

theorem trans (h : Heeds Recorded Apart s as s₁) (h' : Heeds Recorded Apart s₁ bs s') :
    Heeds Recorded Apart s (as ++ bs) s' where
  kept a ha := h'.kept a (h.kept a ha)
  recorded a hmem := by
    rcases List.mem_append.mp hmem with hmem | hmem
    · exact h'.kept a (h.recorded a hmem)
    · exact h'.recorded a hmem
  apart a ha b hmem := by
    rcases List.mem_append.mp hmem with hmem | hmem
    · exact h.apart a ha b hmem
    · exact h'.apart a (h.kept a ha) b hmem
  pairwise := by
    -- what was sent on the first part of the way is on the record on the second
    refine List.pairwise_append.mpr ⟨h.pairwise, h'.pairwise, fun a ha b hb => ?_⟩
    exact h'.apart a (h.recorded a ha) b hb

end Heeds

end ChainX.Lib
