import ChainX.Json.Escapes
import ChainX.Lib.Path

/-!
# Building a JSON value, `Utility/json_spirit/json_spirit_reader_template.h`

`Semantic_actions`: what the parser calls for the tokens it has recognised. The value that is built
is reached through pointers into it, and what grows is a vector. So a pointer is a path, and adding
to an object or an array ends the pointers to all that lies below it.

* `none` is an assertion that fails, a call of `back` on an empty stack, or the use of a pointer
  that was ended.
* `json_spirit_value.h` is not part of the repository. What `Config_type::add` does is a parameter
  with what is relied on (`Config`): the child it adds is at a place that does not depend on the
  child. `Config.vector` and `Config.map` are the two kinds of objects.
* The grammar is not part of the repository either: the file ends with the actions. `Literal` is
  what it recognises, and `Literal.actions` the calls that it is assumed to make, token after token.

**`read_literal`**: the calls for a document build the value of the document.
-/

namespace ChainX.Json

open ChainX.Lib

/-- Values without children. -/
inductive Scalar (k : CharType) (Real : Type) where
  | str (s : List k.Char)
  | bool (b : Bool)
  | int (i : Int64)
  | uint64 (ui : UInt64)
  | real (d : Real)
  | null

/-- `Value_type`. -/
inductive Value (k : CharType) (Real : Type) where
  | obj (members : List (List k.Char × Value k Real))
  | array (elements : List (Value k Real))
  | scalar (s : Scalar k Real)

variable {k : CharType} {Real : Type}

/-- `Object_type`, with the members in the order in which their names came. -/
abbrev Object (k : CharType) (Real : Type) : Type := List (List k.Char × Value k Real)

namespace Value

/-- The value at a place of a container. -/
def child? : Value k Real → Nat → Option (Value k Real)
  | .obj members, i => members[i]?.map Prod.snd
  | .array elements, i => elements[i]?
  | .scalar _, _ => none

/-- The container with another value at a place. -/
def setChild : Value k Real → Nat → Value k Real → Value k Real
  | .obj members, i, v => .obj (members.modify i fun m => (m.1, v))
  | .array elements, i, v => .array (elements.set i v)
  | .scalar s, _, _ => .scalar s

/-- A value is a tree. -/
def tree : Branching (Value k Real) where
  child? := child?
  setChild := setChild
  child?_setChild {t i c} d h := by
    cases t with
    | obj members =>
      obtain ⟨m, hm, -⟩ := Option.map_eq_some_iff.mp h
      simp only [child?, setChild, List.getElem?_modify_eq, hm]
      rfl
    | array elements =>
      obtain ⟨hlt, -⟩ := List.getElem?_eq_some_iff.mp h
      exact List.getElem?_set_self hlt
    | scalar s => exact absurd h (by simp [child?])
  setChild_setChild t i c d := by
    cases t with
    | obj members =>
      simp only [setChild, Value.obj.injEq]
      refine List.ext_getElem? fun j => ?_
      simp only [List.getElem?_modify]
      cases members[j]? with
      | none => rfl
      | some m => by_cases hj : i = j <;> simp [hj]
    | array elements => exact congrArg array (List.set_set c)
    | scalar s => rfl
  setChild_self {t i c} h := by
    cases t with
    | obj members =>
      obtain ⟨m, hm, rfl⟩ := Option.map_eq_some_iff.mp h
      simp only [setChild, Value.obj.injEq]
      refine List.ext_getElem? fun j => ?_
      rw [List.getElem?_modify]
      by_cases hj : i = j
      · subst hj
        simp [hm]
      · simp [hj]
    | array elements =>
      obtain ⟨hlt, rfl⟩ := List.getElem?_eq_some_iff.mp h
      exact congrArg array (List.set_getElem_self hlt)
    | scalar s => rfl

end Value

/-- `Config_type::add`: the object with the new member, and where it is. -/
structure Config (k : CharType) (Real : Type) where
  add : Object k Real → List k.Char → Value k Real → Object k Real × Nat
  /-- The place does not depend on the value. -/
  add_place : ∀ obj name v w, (add obj name v).2 = (add obj name w).2
  add_member : ∀ obj name v, (add obj name v).1[(add obj name v).2]? = some (name, v)
  add_modify : ∀ obj name v w,
    (add obj name v).1.modify (add obj name v).2 (fun m => (m.1, w)) = (add obj name w).1

/-- `obj.push_back( Pair( name, value ) )`. -/
def pushBack (obj : Object k Real) (name : List k.Char) (value : Value k Real) :
    Object k Real × Nat :=
  (obj ++ [(name, value)], obj.length)

theorem modify_pushBack (obj : Object k Real) (name : List k.Char) (v w : Value k Real) :
    (obj ++ [(name, v)]).modify obj.length (fun m => (m.1, w)) = obj ++ [(name, w)] := by
  induction obj with
  | nil => rfl
  | cons m obj ih => exact congrArg (m :: ·) ih

/-- `Config_vector`: a member is added behind the others. -/
def Config.vector (k : CharType) (Real : Type) : Config k Real where
  add := pushBack
  add_place _ _ _ _ := rfl
  add_member _ _ _ := List.getElem?_concat_length
  add_modify := modify_pushBack

/-- `obj[ name ] = value`. -/
def assign (obj : Object k Real) (name : List k.Char) (value : Value k Real) :
    Object k Real × Nat :=
  match obj.findIdx? fun m => m.1 == name with
  | some i => (obj.set i (name, value), i)
  | none => pushBack obj name value

/-- `Config_map`: a member takes the place of the one with its name. -/
def Config.map (k : CharType) (Real : Type) : Config k Real where
  add := assign
  add_place obj name v w := by
    unfold assign
    split <;> rfl
  add_member obj name v := by
    unfold assign
    split
    · rename_i i hi
      exact List.getElem?_set_self (List.findIdx?_eq_some_iff_getElem.mp hi).1
    · exact List.getElem?_concat_length
  add_modify obj name v w := by
    unfold assign
    split
    · rename_i i hi
      have hlt := (List.findIdx?_eq_some_iff_getElem.mp hi).1
      refine List.ext_getElem? fun j => ?_
      by_cases hj : i = j
      · subst hj
        simp [List.getElem?_set_self hlt]
      · simp [List.getElem?_set_ne hj, hj]
    · exact modify_pushBack obj name v w

/-! ## The actions -/

/-- A `Value_type*` that is not null. -/
inductive Pointer where
  /-- To the value at a path in `value_`. -/
  | live (path : List Nat)
  /-- To a value that is gone. -/
  | dangling
  deriving DecidableEq

/-- `Semantic_actions`, between two calls of the parser. -/
structure SemanticActions (k : CharType) (Real : Type) where
  value_ : Value k Real
  current_p_ : Option Pointer
  /-- The back comes first. -/
  stack_ : List Pointer
  name_ : List k.Char

namespace SemanticActions

/-- `*p`. -/
def deref (st : SemanticActions k Real) : Pointer → Option (Value k Real)
  | .live path => Value.tree.get? st.value_ path
  | .dangling => none

/-- What becomes of a pointer when something is added at `path`. -/
def afterGrowth (path : List Nat) : Pointer → Pointer
  | .live q => if path <+: q ∧ path ≠ q then .dangling else .live q
  | .dangling => .dangling

/-- The value at `path` exchanged for one that has grown. -/
def grow (st : SemanticActions k Real) (path : List Nat) (v : Value k Real) :
    SemanticActions k Real where
  value_ := Value.tree.set st.value_ path v
  current_p_ := st.current_p_.map (afterGrowth path)
  stack_ := st.stack_.map (afterGrowth path)
  name_ := st.name_

/-- `add_first`, which asserts that there is no current value. -/
def addFirst (st : SemanticActions k Real) (value : Value k Real) :
    Option (SemanticActions k Real × Pointer) :=
  if st.current_p_ = none then
    some ({ st.grow [] value with current_p_ := some (.live []) }, .live [])
  else none

variable (cfg : Config k Real)

/-- The container with one more child, and where that is. -/
def added (name : List k.Char) (value : Value k Real) : Value k Real → Option (Value k Real × Nat)
  | .array elements => some (.array (elements ++ [value]), elements.length)
  | .obj members => some (.obj (cfg.add members name value).1, (cfg.add members name value).2)
  -- the assertion
  | .scalar _ => none

/-- `add_to_current`: to the array or the object that is being filled. -/
def addToCurrent (st : SemanticActions k Real) (value : Value k Real) :
    Option (SemanticActions k Real × Pointer) :=
  match st.current_p_ with
  | none => st.addFirst value
  | some .dangling => none
  | some (.live path) => do
    let container ← st.deref (.live path)
    let (container, i) ← added cfg st.name_ value container
    return (st.grow path container, .live (path ++ [i]))

/-- `begin_compound`: the new container is the current one from now on. -/
def beginCompound (st : SemanticActions k Real) (newArrayOrObj : Value k Real) :
    Option (SemanticActions k Real) :=
  match st.current_p_ with
  | none => (st.addFirst newArrayOrObj).map Prod.fst
  | some p => do
    let (st, q) ← addToCurrent cfg { st with stack_ := p :: st.stack_ } newArrayOrObj
    return { st with current_p_ := some q }

/-- `end_compound`: back to the container around it. -/
def endCompound (st : SemanticActions k Real) : Option (SemanticActions k Real) :=
  if st.current_p_ = some .dangling then none
  else if st.current_p_ ≠ some (.live []) then
    match st.stack_ with
    | [] => none
    | p :: stack => some { st with current_p_ := some p, stack_ := stack }
  else some st

end SemanticActions

/-- The range is a beginning of the constant. -/
def isEq : List k.Char → List Nat → Bool
  | [], _ => true
  | _ :: _, [] => false
  | c :: rest, code :: codes => if c ≠ chr code then false else isEq rest codes

/-- A call of the parser, with the characters that it passes. -/
inductive Action (k : CharType) (Real : Type) where
  | beginObj (c : k.Char)
  | endObj (c : k.Char)
  | beginArray (c : k.Char)
  | endArray (c : k.Char)
  | newName (range : List k.Char)
  | newStr (range : List k.Char)
  | newTrue (range : List k.Char)
  | newFalse (range : List k.Char)
  | newNull (range : List k.Char)
  | newInt (i : Int64)
  | newUint64 (ui : UInt64)
  | newReal (d : Real)

/-- `true`, `false` and `null`. -/
def trueCodes : List Nat := [116, 114, 117, 101]

/-- `false`, as the parser compares it. -/
def falseCodes : List Nat := [102, 97, 108, 115, 101]

/-- `null`, as the parser compares it. -/
def nullCodes : List Nat := [110, 117, 108, 108]

namespace SemanticActions

variable (cfg : Config k Real)

/-- A value without children is added. -/
def addScalar (st : SemanticActions k Real) (s : Scalar k Real) : Option (SemanticActions k Real) :=
  (addToCurrent cfg st (.scalar s)).map Prod.fst

/-- What the parser has recognised is acted on; the assertions are about its first character. -/
def perform (st : SemanticActions k Real) : Action k Real → Option (SemanticActions k Real)
  | .beginObj c => if c = chr 123 then beginCompound cfg st (.obj []) else none
  | .endObj c => if c = chr 125 then endCompound st else none
  | .beginArray c => if c = chr 91 then beginCompound cfg st (.array []) else none
  | .endArray c => if c = chr 93 then endCompound st else none
  | .newName range => do
    match ← st.deref (← st.current_p_) with
    | .obj _ => return { st with name_ := ← getStr range }
    | .array _ | .scalar _ => none
  | .newStr range => do addScalar cfg st (.str (← getStr range))
  | .newTrue range => if isEq range trueCodes then addScalar cfg st (.bool true) else none
  | .newFalse range => if isEq range falseCodes then addScalar cfg st (.bool false) else none
  | .newNull range => if isEq range nullCodes then addScalar cfg st .null else none
  | .newInt i => addScalar cfg st (.int i)
  | .newUint64 ui => addScalar cfg st (.uint64 ui)
  | .newReal d => addScalar cfg st (.real d)

/-- One call after the other. -/
def run (st : SemanticActions k Real) : List (Action k Real) → Option (SemanticActions k Real)
  | [] => some st
  | a :: as => do run (← st.perform cfg a) as

end SemanticActions

/-! ## Documents -/

/-- What the grammar recognises. Of a string it has what stands between the quotes. -/
inductive Literal (k : CharType) (Real : Type) where
  | obj (members : List (List k.Char × Literal k Real))
  | array (elements : List (Literal k Real))
  | str (s : List k.Char)
  | true
  | false
  | null
  | int (i : Int64)
  | uint64 (ui : UInt64)
  | real (d : Real)

/-- A string in quotes. -/
def quoted (s : List k.Char) : List k.Char := chr 34 :: (s ++ [chr 34])

mutual

/-- The calls for a document, in the order of its tokens. The grammar that makes them is not part of
the repository: that it makes these is assumed. -/
def Literal.actions : Literal k Real → List (Action k Real)
  | .obj members => .beginObj (chr 123) :: (memberActions members ++ [.endObj (chr 125)])
  | .array elements => .beginArray (chr 91) :: (elementActions elements ++ [.endArray (chr 93)])
  | .str s => [.newStr (quoted s)]
  | .true => [.newTrue (trueCodes.map chr)]
  | .false => [.newFalse (falseCodes.map chr)]
  | .null => [.newNull (nullCodes.map chr)]
  | .int i => [.newInt i]
  | .uint64 ui => [.newUint64 ui]
  | .real d => [.newReal d]

/-- The calls for the members of an object: the name, and then the value. -/
def memberActions : List (List k.Char × Literal k Real) → List (Action k Real)
  | [] => []
  | (name, d) :: members => .newName (quoted name) :: (d.actions ++ memberActions members)

/-- The calls for the elements of an array. -/
def elementActions : List (Literal k Real) → List (Action k Real)
  | [] => []
  | d :: elements => d.actions ++ elementActions elements

end

mutual

/-- The value of a document: objects are put together by `Config_type::add`. -/
def Literal.value (cfg : Config k Real) : Literal k Real → Value k Real
  | .obj members => .obj (memberValues cfg [] members)
  | .array elements => .array (elementValues cfg elements)
  | .str s => .scalar (.str (unescape s))
  | .true => .scalar (.bool Bool.true)
  | .false => .scalar (.bool Bool.false)
  | .null => .scalar .null
  | .int i => .scalar (.int i)
  | .uint64 ui => .scalar (.uint64 ui)
  | .real d => .scalar (.real d)

/-- The members of an object, added to those that are there. -/
def memberValues (cfg : Config k Real) (obj : Object k Real) :
    List (List k.Char × Literal k Real) → Object k Real
  | [] => obj
  | (name, d) :: members =>
    memberValues cfg (cfg.add obj (unescape name) (d.value cfg)).1 members

/-- The values of the elements of an array. -/
def elementValues (cfg : Config k Real) : List (Literal k Real) → List (Value k Real)
  | [] => []
  | d :: elements => d.value cfg :: elementValues cfg elements

end

/-! ## One container -/

theorem getStr_quoted (s : List k.Char) : getStr (quoted s) = some (unescape s) := by
  rw [getStr, if_pos (by simp [quoted]), ← substituteEscChars_eq]
  simp [quoted]

variable {cfg : Config k Real}

namespace SemanticActions

/-- The child is where it was added, and any other would be there too. -/
theorem added_eq {name : List k.Char} {v c c' : Value k Real} {i : Nat}
    (h : added cfg name v c = some (c', i)) :
    c'.child? i = some v ∧ ∀ w, added cfg name w c = some (c'.setChild i w, i) := by
  cases c with
  | obj members =>
    obtain ⟨rfl, rfl⟩ := Prod.ext_iff.mp (Option.some.inj h)
    refine ⟨congrArg (Option.map Prod.snd) (cfg.add_member members name v), fun w => ?_⟩
    simp only [added, Value.setChild]
    rw [cfg.add_modify, cfg.add_place members name v w]
  | array elements =>
    obtain ⟨rfl, rfl⟩ := Prod.ext_iff.mp (Option.some.inj h)
    refine ⟨List.getElem?_concat_length, fun w => ?_⟩
    simp [added, Value.setChild]
  | scalar s => exact absurd h (by simp [added])

/-- `current_p_` is at `path`, with `c` there, and the stack holds pointers on the way. -/
structure At (st : SemanticActions k Real) (path : List Nat) (c : Value k Real) : Prop where
  current : st.current_p_ = some (.live path)
  container : Value.tree.get? st.value_ path = some c
  stack : ∀ q ∈ st.stack_, ∃ above, q = .live above ∧ above <+: path

/-- What is at `path` exchanged, and the name. -/
def filled (st : SemanticActions k Real) (path : List Nat) (c : Value k Real)
    (name : List k.Char) : SemanticActions k Real where
  value_ := Value.tree.set st.value_ path c
  current_p_ := st.current_p_
  stack_ := st.stack_
  name_ := name

variable {st : SemanticActions k Real} {path : List Nat} {c c' v : Value k Real} {i : Nat}

theorem At.filled (h : At st path c) (name : List k.Char) : At (st.filled path c' name) path c' :=
  ⟨h.current, Branching.get?_set h.container, h.stack⟩

theorem At.filled_self (h : At st path c) : st.filled path c st.name_ = st := by
  simp only [SemanticActions.filled, Branching.set_self h.container]

theorem At.filled_filled (h : At st path c) (name name' : List k.Char) :
    (st.filled path c' name).filled path v name' = st.filled path v name' := by
  simp only [SemanticActions.filled, Branching.set_set h.container]

/-- No pointer ends that is still there. -/
theorem At.grow_eq (h : At st path c) : st.grow path c' = st.filled path c' st.name_ := by
  have hkept : ∀ {above : List Nat}, above <+: path →
      afterGrowth path (.live above) = .live above := fun habove =>
    if_neg fun hbelow => hbelow.2 (List.IsPrefix.eq_of_length_le hbelow.1 habove.length_le)
  have hstack : st.stack_.map (afterGrowth path) = st.stack_ := by
    refine List.map_congr_left (fun q hq => ?_) |>.trans (List.map_id _)
    obtain ⟨above, rfl, habove⟩ := h.stack q hq
    exact hkept habove
  simp only [grow, SemanticActions.filled, h.current, hstack, Option.map_some,
    hkept (List.prefix_refl path)]

theorem At.addToCurrent_eq (h : At st path c)
    (hadd : added cfg st.name_ v c = some (c', i)) :
    addToCurrent cfg st v = some (st.filled path c' st.name_, .live (path ++ [i])) := by
  simp only [addToCurrent, h.current, deref, h.container, Option.bind_eq_bind, Option.bind_some,
    hadd, h.grow_eq]
  rfl

theorem At.addScalar_eq {s : Scalar k Real} (h : At st path c)
    (hadd : added cfg st.name_ (.scalar s) c = some (c', i)) :
    addScalar cfg st s = some (st.filled path c' st.name_) := by
  rw [addScalar, h.addToCurrent_eq hadd]
  rfl

theorem run_append (as bs : List (Action k Real)) (st : SemanticActions k Real) :
    run cfg st (as ++ bs) = (run cfg st as).bind fun st => run cfg st bs := by
  induction as generalizing st with
  | nil => rfl
  | cons a as ih =>
    simp only [List.cons_append, run, Option.bind_eq_bind, Option.bind_assoc, ih]

/-- What fills an empty container, wherever it is. -/
def Fills (cfg : Config k Real) (as : List (Action k Real)) (e e' : Value k Real) : Prop :=
  ∀ {st : SemanticActions k Real} {path : List Nat}, At st path e →
    ∃ name, run cfg st as = some (st.filled path e' name)

/-- **The rule for objects and arrays**: the stack is as it was, and so is `current_p_`. -/
theorem At.compound {as : List (Action k Real)} {e e' : Value k Real} (h : At st path c)
    (hfills : Fills cfg as e e') (hadd : added cfg st.name_ e' c = some (c', i)) :
    ∃ name, ((beginCompound cfg st e).bind fun st => (run cfg st as).bind endCompound) =
      some (st.filled path c' name) := by
  obtain ⟨-, hany⟩ := added_eq hadd
  have hadd' : added cfg st.name_ e c = some (c'.setChild i e, i) := hany e
  have hself : c'.setChild i e' = c' := (Prod.ext_iff.mp (Option.some.inj
    ((hany e').symm.trans hadd))).1
  -- the pointer to the container is pushed first
  have hpushed : At ⟨st.value_, st.current_p_, .live path :: st.stack_, st.name_⟩ path c :=
    ⟨h.current, h.container, fun q hq => by
      rcases List.mem_cons.mp hq with rfl | hq
      · exact ⟨path, rfl, List.prefix_refl path⟩
      · exact h.stack q hq⟩
  have hbegin : beginCompound cfg st e = some
      ⟨Value.tree.set st.value_ path (c'.setChild i e), some (.live (path ++ [i])),
        .live path :: st.stack_, st.name_⟩ := by
    unfold beginCompound
    split
    · rename_i hnull
      exact absurd (h.current.symm.trans hnull) (by simp)
    · rename_i p hp
      obtain rfl : p = .live path := Option.some.inj (hp.symm.trans h.current)
      rw [hpushed.addToCurrent_eq hadd']
      rfl
  have hchild : (c'.setChild i e).child? i = some e := (added_eq hadd').1
  have hat : At ⟨Value.tree.set st.value_ path (c'.setChild i e), some (.live (path ++ [i])),
      .live path :: st.stack_, st.name_⟩ (path ++ [i]) e := by
    refine ⟨rfl, ?_, fun q hq => ?_⟩
    · rw [Branching.get?_set_append h.container, Branching.get?_cons hchild, Branching.get?_nil]
    · obtain ⟨above, rfl, habove⟩ := hpushed.stack q hq
      exact ⟨above, rfl, habove.trans (List.prefix_append _ _)⟩
  obtain ⟨name, hrun⟩ := hfills hat
  refine ⟨name, ?_⟩
  have hvalue : Value.tree.set (Value.tree.set st.value_ path (c'.setChild i e)) (path ++ [i]) e' =
      Value.tree.set st.value_ path c' := by
    rw [Branching.set_snoc h.container hchild]
    exact congrArg _ ((Value.tree.setChild_setChild c' i e e').trans hself)
  have hne : (some (.live (path ++ [i])) : Option Pointer) ≠ some (.live []) := by simp
  simp only [hbegin, Option.bind_some, hrun, endCompound, SemanticActions.filled, hvalue,
    if_pos hne, h.current]
  simp

/-! ## Documents are built -/

theorem run_obj (as : List (Action k Real)) (st : SemanticActions k Real) :
    run cfg st (.beginObj (chr 123) :: (as ++ [.endObj (chr 125)])) =
      (beginCompound cfg st (.obj [])).bind fun st => (run cfg st as).bind endCompound := by
  simp only [run, run_append, perform, if_true, Option.bind_eq_bind, Option.bind_fun_some]

theorem run_array (as : List (Action k Real)) (st : SemanticActions k Real) :
    run cfg st (.beginArray (chr 91) :: (as ++ [.endArray (chr 93)])) =
      (beginCompound cfg st (.array [])).bind fun st => (run cfg st as).bind endCompound := by
  simp only [run, run_append, perform, if_true, Option.bind_eq_bind, Option.bind_fun_some]

/-- The name of a member is taken. -/
theorem At.newName_eq {st : SemanticActions k Real} {path : List Nat} {obj : Object k Real}
    (h : At st path (.obj obj)) (name : List k.Char) :
    perform cfg st (.newName (quoted name)) =
      some (st.filled path (.obj obj) (unescape name)) := by
  simp only [perform, h.current, deref, h.container, getStr_quoted, Option.bind_eq_bind,
    Option.bind_some, SemanticActions.filled, Branching.set_self h.container]
  rfl

theorem isEq_self (codes : List Nat) : isEq (codes.map (chr : Nat → k.Char)) codes = true := by
  induction codes with
  | nil => rfl
  | cons code codes ih => simpa [isEq] using ih

mutual

/-- In a container, a document becomes its next child. -/
theorem At.run_actions (d : Literal k Real) {st : SemanticActions k Real} {path : List Nat}
    {c c' : Value k Real} {i : Nat} (h : At st path c)
    (hadd : added cfg st.name_ (d.value cfg) c = some (c', i)) :
    ∃ name, run cfg st d.actions = some (st.filled path c' name) := by
  cases d with
  | obj members =>
    obtain ⟨name, hname⟩ := h.compound (run_memberActions members []) hadd
    exact ⟨name, (run_obj _ _).trans hname⟩
  | array elements =>
    obtain ⟨name, hname⟩ := h.compound (run_elementActions elements []) hadd
    exact ⟨name, (run_array _ _).trans hname⟩
  | str s =>
    refine ⟨st.name_, ?_⟩
    simp only [Literal.actions, run, perform, getStr_quoted, Option.bind_eq_bind, Option.bind_some]
    rw [h.addScalar_eq hadd, Option.bind_some]
  | true =>
    refine ⟨st.name_, ?_⟩
    simp only [Literal.actions, run, perform, isEq_self, if_true, h.addScalar_eq hadd,
      Option.bind_eq_bind, Option.bind_some]
  | false =>
    refine ⟨st.name_, ?_⟩
    simp only [Literal.actions, run, perform, isEq_self, if_true, h.addScalar_eq hadd,
      Option.bind_eq_bind, Option.bind_some]
  | null =>
    refine ⟨st.name_, ?_⟩
    simp only [Literal.actions, run, perform, isEq_self, if_true, h.addScalar_eq hadd,
      Option.bind_eq_bind, Option.bind_some]
  | int i => exact ⟨st.name_, congrArg (·.bind some) (h.addScalar_eq hadd)⟩
  | uint64 ui => exact ⟨st.name_, congrArg (·.bind some) (h.addScalar_eq hadd)⟩
  | real d => exact ⟨st.name_, congrArg (·.bind some) (h.addScalar_eq hadd)⟩

theorem run_memberActions (members : List (List k.Char × Literal k Real)) (obj : Object k Real) :
    Fills cfg (memberActions members) (.obj obj) (.obj (memberValues cfg obj members)) := by
  intro st path h
  cases members with
  | nil => exact ⟨st.name_, congrArg some (h.filled_self).symm⟩
  | cons m members =>
    obtain ⟨name, d⟩ := m
    have hname : At (st.filled path (.obj obj) (unescape name)) path (.obj obj) := h.filled _
    obtain ⟨name', hd⟩ := hname.run_actions d
      (show added cfg _ (d.value cfg) _ = _ from rfl)
    rw [h.filled_filled] at hd
    obtain ⟨name'', hmembers⟩ := run_memberActions members _ (h.filled name')
    rw [h.filled_filled] at hmembers
    refine ⟨name'', ?_⟩
    simp only [memberActions, run, h.newName_eq, run_append, hd, Option.bind_eq_bind,
      Option.bind_some]
    exact hmembers

theorem run_elementActions (elements : List (Literal k Real)) (es : List (Value k Real)) :
    Fills cfg (elementActions elements) (.array es)
      (.array (es ++ elementValues cfg elements)) := by
  intro st path h
  cases elements with
  | nil =>
    rw [elementValues, List.append_nil]
    exact ⟨st.name_, congrArg some (h.filled_self).symm⟩
  | cons d elements =>
    obtain ⟨name, hd⟩ := h.run_actions d (show added cfg st.name_ (d.value cfg) _ = _ from rfl)
    obtain ⟨name', helements⟩ := run_elementActions elements (es ++ [d.value cfg])
      (h.filled name)
    rw [h.filled_filled, List.append_assoc] at helements
    refine ⟨name', ?_⟩
    simp only [elementActions, run_append, hd, Option.bind_some]
    exact helements

end

/-- **The calls for a document build its value**: no assertion fails and no pointer is used that has
ended, whatever was in `value_` before. In the end `current_p_` is at the root and the stack is
empty. -/
theorem read_literal (cfg : Config k Real) (d : Literal k Real) (value : Value k Real)
    (name : List k.Char) :
    ∃ last, run cfg ⟨value, none, [], name⟩ d.actions =
      some ⟨d.value cfg, some (.live []), [], last⟩ := by
  -- a scalar is the first value, and so is an empty container
  have hscalar : ∀ s, addScalar cfg ⟨value, none, [], name⟩ s =
      some ⟨.scalar s, some (.live []), [], name⟩ := fun _ => rfl
  have hat : ∀ e : Value k Real, At ⟨e, some (.live []), [], name⟩ [] e := fun e =>
    ⟨rfl, rfl, fun q hq => absurd hq List.not_mem_nil⟩
  cases d with
  | obj members =>
    have hmembers : Fills cfg (memberActions members) (.obj [])
        (.obj (memberValues cfg [] members)) := run_memberActions members []
    obtain ⟨last, hlast⟩ := hmembers (hat (.obj []))
    exact ⟨last, (run_obj _ _).trans (congrArg (·.bind endCompound) hlast)⟩
  | array elements =>
    have helements : Fills cfg (elementActions elements) (.array [])
        (.array (elementValues cfg elements)) := run_elementActions elements []
    obtain ⟨last, hlast⟩ := helements (hat (.array []))
    exact ⟨last, (run_array _ _).trans (congrArg (·.bind endCompound) hlast)⟩
  | str s =>
    refine ⟨name, ?_⟩
    simp only [Literal.actions, run, perform, getStr_quoted, hscalar, Option.bind_eq_bind,
      Option.bind_some, Literal.value]
  | true | false | null =>
    refine ⟨name, ?_⟩
    simp only [Literal.actions, run, perform, isEq_self, if_true, hscalar, Option.bind_eq_bind,
      Option.bind_some, Literal.value]
  | int i => exact ⟨name, rfl⟩
  | uint64 ui => exact ⟨name, rfl⟩
  | real d => exact ⟨name, rfl⟩

end SemanticActions

end ChainX.Json
