import ChainX.Json.Reader
import ChainX.Lib.Decimal
import Mathlib.Data.List.Nodup
import Std.Data.ExtTreeMap.Lemmas

/-!
# Objects and maps, `Utility/json_spirit_utils.h`

`obj_to_map` (`json_spirit_utils.h:23-41`), `map_to_obj` (`json_spirit_utils.h:45-63`) and
`find_value` (`json_spirit_utils.h:79-103`). The templates are for any names and values; the map is
ordered by the names.

* An object is the vector of its members, in which a name may come more than once. `find_value` goes
  through it from the front, and gives null for a name that is not there.
* `std::map` is a tree map with the order of the names; its traversal is in that order, which is the
  object that `map_to_obj` makes. Both functions clear what they fill, so nothing is read of it.
* `obj_to_map` writes the members one after the other, and a later one over an earlier one: the last
  member of a name remains where `find_value` finds the first.

**`object_map_round_trip`**: a map goes through an object unchanged, an object goes through a map
unchanged exactly when its names are in order, and otherwise the last member of every name remains.
-/

namespace ChainX.Json

open Std ChainX.Lib

section

variable {String_type Value_type : Type} [BEq String_type]

/-- `Value_type::null` stands for what is not there. -/
def findValue (null : Value_type) : List (String_type × Value_type) → String_type → Value_type
  | [], _ => null
  | i :: obj, name => if i.1 == name then i.2 else findValue null obj name

theorem lookup_cons (m : String_type × Value_type)
    (obj : List (String_type × Value_type)) (name : String_type) :
    (m :: obj).lookup name = if name == m.1 then some m.2 else obj.lookup name := by
  obtain ⟨key, value⟩ := m
  rw [List.lookup_cons]
  cases name == key <;> rfl

variable [LawfulBEq String_type]

theorem findValue_eq (null : Value_type) (obj : List (String_type × Value_type))
    (name : String_type) : findValue null obj name = (obj.lookup name).getD null := by
  induction obj with
  | nil => rfl
  | cons i obj ih =>
    rw [findValue, lookup_cons, ih, apply_ite (Option.getD · null)]
    simp only [BEq.comm (a := name), Option.getD_some]

theorem mem_of_lookup {obj : List (String_type × Value_type)} {name : String_type}
    {v : Value_type} (h : obj.lookup name = some v) : (name, v) ∈ obj := by
  obtain ⟨before, behind, rfl, -⟩ := List.lookup_eq_some_iff.mp h
  exact List.mem_append_right _ List.mem_cons_self

theorem lookup_of_mem {obj : List (String_type × Value_type)} (hnames : (obj.map Prod.fst).Nodup)
    {name : String_type} {v : Value_type} (h : (name, v) ∈ obj) : obj.lookup name = some v := by
  induction obj with
  | nil => exact absurd h List.not_mem_nil
  | cons m obj ih =>
    obtain ⟨hnot, hnames⟩ := List.nodup_cons.mp hnames
    rw [lookup_cons]
    rcases List.mem_cons.mp h with rfl | h
    · exact if_pos (beq_self_eq_true _)
    · rw [if_neg fun he => hnot (by
        rw [← beq_iff_eq.mp he]
        exact List.mem_map_of_mem h), ih hnames h]

/-- Where no name comes twice, the first member is the last. -/
theorem lookup_reverse {obj : List (String_type × Value_type)}
    (hnames : (obj.map Prod.fst).Nodup) (name : String_type) :
    obj.reverse.lookup name = obj.lookup name := by
  have hreverse : (obj.reverse.map Prod.fst).Nodup := by
    rwa [List.map_reverse, List.nodup_reverse]
  refine Option.ext fun v => ⟨fun h => ?_, fun h => ?_⟩
  · exact lookup_of_mem hnames (List.mem_reverse.mp (mem_of_lookup h))
  · exact lookup_of_mem hreverse (List.mem_reverse.mpr (mem_of_lookup h))

end

section

variable {String_type Value_type : Type} [Ord String_type] [TransOrd String_type]

/-- `std::map< String_type, Value_type >`. -/
abbrev MappedObj (String_type Value_type : Type) [Ord String_type] : Type :=
  ExtTreeMap String_type Value_type compare

/-- The map is cleared first: nothing depends on what it held. -/
def objToMap (obj : List (String_type × Value_type)) : MappedObj String_type Value_type :=
  obj.foldl (fun mp_obj i => mp_obj.insert i.1 i.2) ∅

/-- In the order of the map. -/
def mapToObj (mp_obj : MappedObj String_type Value_type) : List (String_type × Value_type) :=
  mp_obj.foldl (fun obj name value => obj ++ [(name, value)]) []

theorem mapToObj_eq (mp_obj : MappedObj String_type Value_type) :
    mapToObj mp_obj = mp_obj.toList := by
  have hfold : ∀ l acc : List (String_type × Value_type),
      l.foldl (fun obj b => obj ++ [(b.1, b.2)]) acc = acc ++ l := by
    intro l
    induction l with
    | nil => exact fun acc => (List.append_nil acc).symm
    | cons m l ih => exact fun acc => (ih _).trans (List.append_assoc acc [m] l)
  rw [mapToObj, ExtTreeMap.foldl_eq_foldl_toList, hfold, List.nil_append]

theorem sorted_mapToObj (mp_obj : MappedObj String_type Value_type) :
    (mapToObj mp_obj).Pairwise fun a b => compare a.1 b.1 = .lt := by
  rw [mapToObj_eq]
  exact mp_obj.ordered_keys_toList

theorem nodup_of_sorted {obj : List (String_type × Value_type)}
    (h : obj.Pairwise fun a b => compare a.1 b.1 = .lt) : (obj.map Prod.fst).Nodup := by
  rw [List.nodup_iff_pairwise_ne, List.pairwise_map]
  refine h.imp fun {a b} hlt he => ?_
  rw [he] at hlt
  exact absurd (ReflCmp.compare_self.symm.trans hlt) (by decide)

variable [LawfulEqOrd String_type] [BEq String_type] [LawfulBEq String_type]

theorem lookup_mapToObj (mp_obj : MappedObj String_type Value_type) (name : String_type) :
    (mapToObj mp_obj).lookup name = mp_obj[name]? := by
  refine Option.ext fun v => ⟨fun h => ?_, fun h => ?_⟩
  · have hmem := mem_of_lookup h
    rw [mapToObj_eq] at hmem
    exact ExtTreeMap.mem_toList_iff_getElem?_eq_some.mp hmem
  · refine lookup_of_mem (nodup_of_sorted (sorted_mapToObj mp_obj)) ?_
    rw [mapToObj_eq]
    exact ExtTreeMap.mem_toList_iff_getElem?_eq_some.mpr h

/-- In the map is the last member of every name. -/
theorem getElem?_objToMap (obj : List (String_type × Value_type)) (name : String_type) :
    (objToMap obj)[name]? = obj.reverse.lookup name := by
  have hfold : ∀ mp_obj : MappedObj String_type Value_type,
      (obj.foldl (fun mp_obj i => mp_obj.insert i.1 i.2) mp_obj)[name]? =
        (obj.reverse.lookup name).or mp_obj[name]? := by
    induction obj with
    | nil => exact fun _ => rfl
    | cons i obj ih =>
      intro mp_obj
      rw [List.foldl_cons, ih, List.reverse_cons, List.lookup_append, Option.or_assoc,
        ExtTreeMap.getElem?_insert, lookup_cons]
      refine congrArg _ ?_
      by_cases h : name = i.1
      · rw [if_pos (h ▸ ReflCmp.compare_self), if_pos (beq_iff_eq.mpr h)]
        rfl
      · rw [if_neg fun h' => h (LawfulEqCmp.eq_of_compare h').symm,
          if_neg fun h' => h (beq_iff_eq.mp h')]
        rfl
  rw [objToMap, hfold, ExtTreeMap.getElem?_empty, Option.or_none]

theorem objToMap_mapToObj (mp_obj : MappedObj String_type Value_type) :
    objToMap (mapToObj mp_obj) = mp_obj := by
  refine ExtTreeMap.ext_getElem? fun name => ?_
  rw [getElem?_objToMap, lookup_reverse (nodup_of_sorted (sorted_mapToObj mp_obj)),
    lookup_mapToObj]

theorem mapToObj_objToMap {obj : List (String_type × Value_type)}
    (h : obj.Pairwise fun a b => compare a.1 b.1 = .lt) : mapToObj (objToMap obj) = obj := by
  have hmap := sorted_mapToObj (objToMap obj)
  have hperm := List.perm_ext_iff_of_nodup ((nodup_of_sorted hmap).of_map _)
    ((nodup_of_sorted h).of_map _)
  refine List.Perm.eq_of_pairwise (fun a b _ _ hab hba => ?_) hmap h
    (hperm.mpr fun i => ⟨fun hi => ?_, fun hi => ?_⟩)
  · have hswap : compare a.1 b.1 = (compare b.1 a.1).swap := OrientedCmp.eq_swap
    rw [hswap, hba] at hab
    exact absurd hab (by decide)
  · have hi' := lookup_of_mem (nodup_of_sorted hmap) (show (i.1, i.2) ∈ _ from hi)
    rw [lookup_mapToObj, getElem?_objToMap, lookup_reverse (nodup_of_sorted h)] at hi'
    exact mem_of_lookup hi'
  · have hi' := lookup_of_mem (nodup_of_sorted h) (show (i.1, i.2) ∈ _ from hi)
    rw [← lookup_reverse (nodup_of_sorted h), ← getElem?_objToMap, ← lookup_mapToObj] at hi'
    exact mem_of_lookup hi'

/-- **Objects and maps.** A map goes through an object unchanged. An object goes through a map
unchanged exactly when its names are in order; in general what `findValue` finds is then the last
member of the name instead of the first. -/
theorem object_map_round_trip (null : Value_type) :
    (∀ mp_obj : MappedObj String_type Value_type, objToMap (mapToObj mp_obj) = mp_obj) ∧
      (∀ obj : List (String_type × Value_type), mapToObj (objToMap obj) = obj ↔
        obj.Pairwise fun a b => compare a.1 b.1 = .lt) ∧
      ∀ (obj : List (String_type × Value_type)) (name : String_type),
        findValue null (mapToObj (objToMap obj)) name = findValue null obj.reverse name := by
  refine ⟨objToMap_mapToObj, fun obj => ⟨fun h => ?_, mapToObj_objToMap⟩, fun obj name => ?_⟩
  · rw [← h]
    exact sorted_mapToObj _
  · rw [findValue_eq, findValue_eq, lookup_mapToObj, getElem?_objToMap]

end

/-- The names `b`, `a` and `b` again. -/
theorem object_map_round_trip_twice :
    let obj : List (Text × Nat) := [(ascii "b", 1), (ascii "a", 2), (ascii "b", 3)]
    mapToObj (objToMap obj) ≠ obj ∧ findValue 0 obj (ascii "b") = 1 ∧
      findValue 0 (mapToObj (objToMap obj)) (ascii "b") = 3 := by
  intro obj
  obtain ⟨-, hsorted, hfind⟩ := (object_map_round_trip 0 : (∀ m : MappedObj Text Nat, _) ∧ _)
  refine ⟨fun h => absurd ((hsorted obj).mp h) (by decide), by decide, ?_⟩
  rw [hfind]
  decide

end ChainX.Json
