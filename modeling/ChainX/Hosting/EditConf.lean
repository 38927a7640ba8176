import ChainX.Lib.StringStream
import Mathlib.Data.List.Basic

/-!
# `chainx_editConf`, `Maternodes/SRC/ChainTest:16-29`

The function takes the lines of a configuration apart at the equals signs and puts two of the parts
together again. A line is `empty` in PHP if it is `0`, too.

* `explode` follows PHP: the parts of a line are all that stand between equals signs, of which the
  function uses the first two, and a line without one has a single part. The second one is then
  undefined, which is an empty string when it is put into a text.
* A line whose first part is `masternodeprivkey` is written with the new key; all others are put
  together from their parts. What stood after a second equals sign is dropped.
* Reading and writing the file are left out: the model goes from the one text to the other.

Results:
* `appended_of_key`, `appended_of_other`: what becomes of a line.
* `appended_of_restored`, `flatMap_ne`: which lines come back as they should.
* **`onlyKeyEdited_iff`**: nothing but the key is changed if and only if every other line has
  exactly one equals sign.
-/

namespace ChainX.Hosting

open ChainX.Lib

/-! ## The function -/

/-- `empty($v)`. -/
def empty (v : Text) : Bool := v == [] || v == ascii "0"

/-- `$param[1] = $pkey`. -/
def setValue (param : List Text) (pkey : Text) : List Text := param.take 1 ++ pkey :: param.drop 2

/-- The body of the loop. A part that is not there is an empty string. -/
def confLine (pkey conf v : Text) : Text :=
  if empty v = true then conf
  else
    let param := v.splitOn 61
    let param := if param.getD 0 [] = ascii "masternodeprivkey" then setValue param pkey else param
    conf ++ param.getD 0 [] ++ [61] ++ param.getD 1 [] ++ [10]

/-- The file that is written for the file that is read. -/
def editConf (pkey text : Text) : Text := (text.splitOn 10).foldl (confLine pkey) []

/-! ## The lines as they should be -/

/-- What is in front of the first equals sign. -/
def name (v : Text) : Text := v.takeWhile (· != 61)

/-- What becomes of a line. -/
def edited (pkey v : Text) : Text :=
  if name v = ascii "masternodeprivkey" then ascii "masternodeprivkey=" ++ pkey else v

/-- The lines that are not empty are kept, in order, but for the key. -/
def OnlyKeyEdited (pkey text : Text) : Prop :=
  editConf pkey text = ofLines (((text.splitOn 10).filter (· ≠ [])).map (edited pkey))

/-! ## One line -/

theorem empty_iff {v : Text} : empty v = true ↔ v = [] ∨ v = ascii "0" := by
  simp [empty]

theorem not_mem_of_mem_splitOn {b : UInt8} {l : Text} : ∀ w ∈ l.splitOn b, b ∉ w := by
  induction l with
  | nil => simp
  | cons c l ih =>
    rw [List.splitOn_cons_eq_if_modifyHead]
    by_cases hc : c = b
    · intro w hw
      rw [if_pos (by simpa using hc)] at hw
      rcases List.mem_cons.mp hw with rfl | hw
      · exact List.not_mem_nil
      · exact ih w hw
    · rw [if_neg (by simpa using hc)]
      cases hsplit : l.splitOn b with
      | nil => exact absurd hsplit (List.splitOn_ne_nil b l)
      | cons u us =>
        rw [hsplit] at ih
        intro w hw
        rcases List.mem_cons.mp hw with rfl | hw
        · rintro (_ | ⟨_, hu⟩)
          · exact hc rfl
          · exact ih u List.mem_cons_self hu
        · exact ih w (List.mem_cons_of_mem _ hw)

/-- What is between the first and the second equals sign. -/
def value (v : Text) : Text := name (v.drop ((name v).length + 1))

theorem not_mem_name (v : Text) : 61 ∉ name v := fun h => by
  simpa using List.mem_takeWhile_imp h

theorem name_of_not_mem {v : Text} (h : 61 ∉ v) : name v = v :=
  List.takeWhile_eq_self_iff.mpr fun _ hb => bne_iff_ne.mpr fun heq => h (heq ▸ hb)

theorem name_append {k : Text} (h : 61 ∉ k) (w : Text) : name (k ++ 61 :: w) = k := by
  have hk : ∀ b ∈ k, (b != 61) = true := fun b hb => bne_iff_ne.mpr fun heq => h (heq ▸ hb)
  rw [name, List.takeWhile_append_of_pos hk]
  exact List.append_nil k

theorem value_append {k : Text} (h : 61 ∉ k) (w : Text) : value (k ++ 61 :: w) = name w := by
  rw [value, name_append h, List.drop_length_add_append]
  rfl

theorem value_of_not_mem {v : Text} (h : 61 ∉ v) : value v = [] := by
  rw [value, name_of_not_mem h, List.drop_of_length_le (Nat.le_succ _)]
  rfl

/-- The first two parts of a line. -/
theorem splitOn_getD (v : Text) :
    (v.splitOn 61).getD 0 [] = name v ∧ (v.splitOn 61).getD 1 [] = value v := by
  by_cases h : 61 ∈ v
  · obtain ⟨k, w, rfl, hk⟩ := List.eq_append_cons_of_mem h
    rw [List.splitOn_append_cons_self_of_not_mem hk, name_append hk, value_append hk]
    refine ⟨rfl, ?_⟩
    by_cases hw : 61 ∈ w
    · obtain ⟨k', w', rfl, hk'⟩ := List.eq_append_cons_of_mem hw
      rw [List.splitOn_append_cons_self_of_not_mem hk', name_append hk']
      rfl
    · rw [List.splitOn_eq_singleton hw, name_of_not_mem hw]
      rfl
  · rw [List.splitOn_eq_singleton h, name_of_not_mem h, value_of_not_mem h]
    exact ⟨rfl, rfl⟩

theorem setValue_getD {param : List Text} (h : param ≠ []) (pkey : Text) :
    (setValue param pkey).getD 0 [] = param.getD 0 [] ∧ (setValue param pkey).getD 1 [] = pkey := by
  cases param with
  | nil => exact absurd rfl h
  | cons k param => exact ⟨rfl, rfl⟩

theorem confLine_eq (pkey conf v : Text) :
    confLine pkey conf v = conf ++ if empty v = true then [] else
      name v ++ 61 :: ((if name v = ascii "masternodeprivkey" then pkey else value v) ++ [10]) := by
  obtain ⟨hname, hvalue⟩ := splitOn_getD v
  obtain ⟨hset, hset'⟩ := setValue_getD (List.splitOn_ne_nil 61 v) pkey
  unfold confLine
  by_cases hempty : empty v = true
  · rw [if_pos hempty, if_pos hempty, List.append_nil]
  · simp only [if_neg hempty, hname]
    by_cases hkey : name v = ascii "masternodeprivkey"
    · simp only [if_pos hkey, hset, hset', hname]
      simp
    · simp only [if_neg hkey, hname, hvalue]
      simp

/-- The text that is appended for a line. -/
def appended (pkey v : Text) : Text := confLine pkey [] v

theorem editConf_eq (pkey text : Text) :
    editConf pkey text = (text.splitOn 10).flatMap (appended pkey) := by
  have hfold : ∀ (lines : List Text) (conf : Text),
      lines.foldl (confLine pkey) conf = conf ++ lines.flatMap (appended pkey) := by
    intro lines
    induction lines with
    | nil => exact fun conf => (List.append_nil conf).symm
    | cons v lines ih =>
      intro conf
      rw [List.foldl_cons, ih, List.flatMap_cons, appended, confLine_eq pkey conf,
        confLine_eq pkey [], List.nil_append, List.append_assoc]
  exact hfold _ []

theorem appended_of_empty {pkey v : Text} (h : empty v = true) : appended pkey v = [] := by
  rw [appended, confLine_eq, if_pos h]
  rfl

theorem appended_of_key {pkey v : Text} (h : name v = ascii "masternodeprivkey") :
    appended pkey v = ascii "masternodeprivkey=" ++ pkey ++ [10] := by
  have hempty : ¬ empty v = true := fun hempty => by
    rcases empty_iff.mp hempty with rfl | rfl
    · exact absurd h (by decide)
    · exact absurd h (by decide)
  rw [appended, confLine_eq, if_neg hempty, if_pos h, h]
  rfl

theorem appended_of_other {pkey v : Text} (hempty : ¬ empty v = true)
    (h : name v ≠ ascii "masternodeprivkey") :
    appended pkey v = name v ++ 61 :: (value v ++ [10]) := by
  rw [appended, confLine_eq, if_neg hempty, if_neg h]
  rfl

/-! ## All lines -/

/-- The lines that come back as they should. -/
def Restored (v : Text) : Prop :=
  v ≠ [] → name v ≠ ascii "masternodeprivkey" → v.count 61 = 1

/-- Whatever is written begins with a line that has an equals sign: by induction on the lines, of
which the first that is not empty is written. -/
theorem first_line {lines : List Text} (hlines : ∀ v ∈ lines, 10 ∉ v) (pkey : Text) :
    lines.flatMap (appended pkey) = [] ∨
      ∃ w rest, 10 ∉ w ∧ lines.flatMap (appended pkey) = w ++ 61 :: rest := by
  induction lines with
  | nil => exact .inl rfl
  | cons v lines ih =>
    rw [List.flatMap_cons]
    by_cases hempty : empty v = true
    · rw [appended_of_empty hempty]
      exact ih fun u hu => hlines u (List.mem_cons_of_mem _ hu)
    refine .inr ?_
    by_cases hkey : name v = ascii "masternodeprivkey"
    · refine ⟨ascii "masternodeprivkey", pkey ++ [10] ++ lines.flatMap (appended pkey),
        by decide, ?_⟩
      rw [appended_of_key hkey, show ascii "masternodeprivkey=" =
        ascii "masternodeprivkey" ++ [61] by rfl]
      simp
    · refine ⟨name v, value v ++ [10] ++ lines.flatMap (appended pkey), fun h => ?_, ?_⟩
      · exact hlines v List.mem_cons_self ((List.takeWhile_prefix _).subset h)
      · rw [appended_of_other hempty hkey]
        simp

theorem not_empty_of_mem {v : Text} (h : 61 ∈ v) : ¬ empty v = true := fun hempty => by
  rcases empty_iff.mp hempty with rfl | rfl
  · exact absurd h (by decide)
  · exact absurd h (by decide)

theorem appended_of_restored {v : Text} (hne : v ≠ []) (h : Restored v) (pkey : Text) :
    appended pkey v = edited pkey v ++ [10] := by
  by_cases hkey : name v = ascii "masternodeprivkey"
  · rw [appended_of_key hkey, edited, if_pos hkey]
  · have hcount := h hne hkey
    have hmem : 61 ∈ v := List.count_pos_iff.mp (by omega)
    rw [appended_of_other (not_empty_of_mem hmem) hkey, edited, if_neg hkey]
    obtain ⟨k, w, rfl, hk⟩ := List.eq_append_cons_of_mem hmem
    rw [List.count_append, List.count_cons_self, List.count_eq_zero.mpr hk] at hcount
    have hw : 61 ∉ w := List.count_eq_zero.mp (by omega)
    rw [name_append hk, value_append hk, name_of_not_mem hw, List.append_assoc, List.cons_append]

/-- A line with a second equals sign is cut there. -/
theorem flatMap_ne_of_mem {v : Text} {lines : List Text} (hv : 10 ∉ v) (hmem : 61 ∈ v)
    (hkey : name v ≠ ascii "masternodeprivkey") (hcount : v.count 61 ≠ 1) (pkey rest : Text) :
    (v :: lines).flatMap (appended pkey) ≠ v ++ 10 :: rest := by
  intro heq
  obtain ⟨k, w, rfl, hk⟩ := List.eq_append_cons_of_mem hmem
  rw [List.flatMap_cons, appended_of_other (not_empty_of_mem hmem) hkey, name_append hk,
    value_append hk, List.append_assoc, List.append_assoc, List.append_cancel_left_eq,
    List.cons_append, List.cons_append, List.append_assoc] at heq
  have hw : 10 ∉ w := fun h => hv (by simp [h])
  have hname : 10 ∉ name w := fun h => hw ((List.takeWhile_prefix _).subset h)
  have hline : name w = w := (line_inj hname hw (List.cons.inj heq).2).1
  have hcut : 61 ∉ w := hline ▸ not_mem_name w
  rw [List.count_append, List.count_cons_self, List.count_eq_zero.mpr hk,
    List.count_eq_zero.mpr hcut] at hcount
  exact hcount rfl

/-- Any other line comes back with a sign too many, or without its last part, or not at all. -/
theorem flatMap_ne {v : Text} {lines : List Text} (hlines : ∀ u ∈ v :: lines, 10 ∉ u)
    (h : ¬ Restored v) (pkey rest : Text) :
    (v :: lines).flatMap (appended pkey) ≠ edited pkey v ++ 10 :: rest := by
  unfold Restored at h
  push Not at h
  obtain ⟨hne, hkey, hcount⟩ := h
  rw [edited, if_neg hkey]
  by_cases hmem : 61 ∈ v
  · exact flatMap_ne_of_mem (hlines v List.mem_cons_self) hmem hkey hcount pkey rest
  · intro heq
    rcases first_line hlines pkey with hnil | ⟨w, rest', hw, hfirst⟩
    · rw [hnil] at heq
      exact absurd heq (by simp)
    · exact hmem (mem_line hw (by decide) (hfirst.symm.trans heq))

theorem flatMap_eq_iff (pkey : Text) {lines : List Text} (hlines : ∀ v ∈ lines, 10 ∉ v) :
    lines.flatMap (appended pkey) = ofLines ((lines.filter (· ≠ [])).map (edited pkey)) ↔
      ∀ v ∈ lines, Restored v := by
  induction lines with
  | nil => simp
  | cons v lines ih =>
    have ih := ih fun u hu => hlines u (List.mem_cons_of_mem _ hu)
    rw [List.forall_mem_cons]
    by_cases hne : v = []
    · have hrestored : Restored v := fun h => absurd hne h
      rw [List.flatMap_cons, appended_of_empty (by simp [hne, empty]),
        List.filter_cons_of_neg (by simp [hne]), List.nil_append, ih]
      exact (and_iff_right hrestored).symm
    · rw [List.filter_cons_of_pos (by simpa using hne), List.map_cons, ofLines_cons]
      by_cases h : Restored v
      · rw [List.flatMap_cons, appended_of_restored hne h, List.append_assoc, List.cons_append,
          List.append_cancel_left_eq, List.nil_append, List.cons.injEq, ih]
        exact ⟨fun heq => ⟨h, heq.2⟩, fun hall => ⟨rfl, hall.2⟩⟩
      · exact iff_of_false (flatMap_ne hlines h pkey _) fun hall => h hall.1

/-- **Nothing but the key is changed** if and only if every other line that is not empty has exactly
one equals sign. -/
theorem onlyKeyEdited_iff (pkey text : Text) :
    OnlyKeyEdited pkey text ↔ ∀ v ∈ text.splitOn 10, v ≠ [] →
      name v ≠ ascii "masternodeprivkey" → v.count 61 = 1 := by
  unfold OnlyKeyEdited
  rw [editConf_eq]
  exact flatMap_eq_iff pkey not_mem_of_mem_splitOn

/-- A password is cut at its second equals sign, a comment gets one, and a zero is dropped. -/
theorem editConf_password :
    editConf (ascii "7qz") (ascii "rpcpassword=a=b\n# node\n0\nmasternodeprivkey=7xy\n") =
        ascii "rpcpassword=a\n# node=\nmasternodeprivkey=7qz\n" ∧
      ¬ OnlyKeyEdited (ascii "7qz") (ascii "rpcpassword=a=b\n") := by
  refine ⟨by decide, ?_⟩
  unfold OnlyKeyEdited
  decide

end ChainX.Hosting
