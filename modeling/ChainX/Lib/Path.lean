/-!
# Paths into trees

A tree is whatever has numbered children that can be exchanged (`Branching`). A path is the list of
numbers from the root. A pointer into a tree that is built in place is such a path: it stays good
while what lies above it is only exchanged, and it is lost when a child that it leads through moves.

* `Branching` asks three things of a type: the exchanged child is found where it was put, the second
  of two exchanges wins, and a child exchanged for itself changes nothing. Only a child that is
  there can be exchanged.
* `get?` is the subtree at a path, `set` the tree with it exchanged; where there is none, the tree
  stays as it is.

Results, all by induction on the path:
* `get?_set_append`, `set_set_append`: below an exchanged subtree is the new one.
* `set_self`, `set_set`: the laws of a child, for a path.
* `Branching.set_snoc`: exchanging a child is exchanging its parent.
-/

namespace ChainX.Lib

variable {T : Type}

/-- Trees with numbered children. -/
structure Branching (T : Type) where
  child? : T → Nat → Option T
  setChild : T → Nat → T → T
  child?_setChild : ∀ {t i c} d, child? t i = some c → child? (setChild t i d) i = some d
  setChild_setChild : ∀ t i c d, setChild (setChild t i c) i d = setChild t i d
  setChild_self : ∀ {t i c}, child? t i = some c → setChild t i c = t

namespace Branching

variable (B : Branching T)

/-- The subtree at a path. -/
def get? : T → List Nat → Option T
  | t, [] => some t
  | t, i :: p => (B.child? t i).bind fun c => get? c p

/-- The tree with the subtree at a path exchanged, if there is one. -/
def set : T → List Nat → T → T
  | _, [], d => d
  | t, i :: p, d =>
    match B.child? t i with
    | some c => B.setChild t i (set c p d)
    | none => t

variable {B} {t c d e : T} {p q : List Nat} {i : Nat}

@[simp] theorem get?_nil : B.get? t [] = some t := rfl

@[simp] theorem set_nil : B.set t [] d = d := rfl

theorem get?_cons (h : B.child? t i = some c) : B.get? t (i :: p) = B.get? c p := by
  rw [get?, h, Option.bind_some]

theorem set_cons (h : B.child? t i = some c) :
    B.set t (i :: p) d = B.setChild t i (B.set c p d) := by
  rw [set, h]

/-- Below an exchanged subtree is the new one. -/
theorem get?_set_append (h : B.get? t p = some c) (q : List Nat) :
    B.get? (B.set t p d) (p ++ q) = B.get? d q := by
  induction p generalizing t with
  | nil => rfl
  | cons i p ih =>
    obtain ⟨t', hchild, ht'⟩ := Option.bind_eq_some_iff.mp h
    rw [set_cons hchild, List.cons_append, get?_cons (B.child?_setChild _ hchild), ih ht']

theorem get?_set (h : B.get? t p = some c) : B.get? (B.set t p d) p = some d := by
  have h' := get?_set_append (d := d) h []
  rwa [List.append_nil] at h'

/-- A subtree exchanged for itself. -/
theorem set_self (h : B.get? t p = some c) : B.set t p c = t := by
  induction p generalizing t with
  | nil => exact (Option.some.inj h).symm
  | cons i p ih =>
    obtain ⟨t', hchild, ht'⟩ := Option.bind_eq_some_iff.mp h
    rw [set_cons hchild, ih ht', B.setChild_self hchild]

/-- Exchanging below an exchanged subtree. -/
theorem set_set_append (h : B.get? t p = some c) (q : List Nat) :
    B.set (B.set t p d) (p ++ q) e = B.set t p (B.set d q e) := by
  induction p generalizing t with
  | nil => rfl
  | cons i p ih =>
    obtain ⟨t', hchild, ht'⟩ := Option.bind_eq_some_iff.mp h
    rw [set_cons hchild, List.cons_append, set_cons (B.child?_setChild _ hchild), ih ht',
      B.setChild_setChild, set_cons hchild]

theorem set_set (h : B.get? t p = some c) : B.set (B.set t p d) p e = B.set t p e := by
  have h' := set_set_append (d := d) (e := e) h []
  rwa [List.append_nil] at h'

/-- Exchanging a child is exchanging its parent. -/
theorem set_snoc (h : B.get? t p = some c) (hchild : B.child? d i = some e) (e' : T) :
    B.set (B.set t p d) (p ++ [i]) e' = B.set t p (B.setChild d i e') := by
  rw [set_set_append h, set_cons hchild, set_nil]

end Branching

end ChainX.Lib
