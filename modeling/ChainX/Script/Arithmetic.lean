import ChainX.Script.Minimal
import Mathlib.Tactic.FinCases

/-!
# The arithmetic of script numbers, `chainx-ui.id/script.h`

The operators of `CScriptNum` (`script.h:243-292`), `getint` (`script.h:294-301`), and the small
integers of `EncodeOP_N` and `DecodeOP_N` (`script.h:545-557`). An assertion that fails is `none`,
and so is a sum that C++ leaves undefined.

* `operator+` and `operator-` make a number of a sum that has to fit an `int64_t` (`fitting`);
  `operator+=` and `operator-=` assert that it does, by comparisons that cannot overflow
  (`sign_check`), and the negation asserts that the number is not the minimum.
* `calculate` is a list of operations from a first number on, each with an operand given as bytes
  that the constructor reads with the default limit of four. A vector that is refused ends it.
* The comparisons and `operator&` are left out.

Results:
* `Operator.apply_eq_some`, `neg_eq_some`: an operator is defined exactly if the result fits.
* **`calculate_exact`**: the comment of the class. Operands have four bytes at most; results are
  exact whatever their size, come out as bytes, and are refused as operands when they are too long.
-/

namespace ChainX.Script

open ChainX.Lib ChainX.Node

namespace CScriptNum

/-! ## Operators -/

/-- A sum or a difference, which has to fit into an `int64_t`. -/
def fitting (value : Int) : Option Int64 :=
  if (Int64.ofInt value).toInt = value then some (Int64.ofInt value) else none

/-- `operator+`, whose assertions exclude an overflow. -/
def add (m_value rhs : Int64) : Option Int64 := fitting (m_value.toInt + rhs.toInt)

/-- `operator-`, whose assertions exclude an overflow. -/
def sub (m_value rhs : Int64) : Option Int64 := fitting (m_value.toInt - rhs.toInt)

/-- `operator-` of one number. -/
def neg (m_value : Int64) : Option Int64 :=
  if m_value ≠ Int64.minValue then some (-m_value) else none

/-- `operator+=`. -/
def addAssign (m_value rhs : Int64) : Option Int64 :=
  if rhs = 0 ∨ (0 < rhs ∧ m_value ≤ Int64.maxValue - rhs) ∨
      (rhs < 0 ∧ m_value ≥ Int64.minValue - rhs) then
    some (m_value + rhs)
  else none

/-- `operator-=`. -/
def subAssign (m_value rhs : Int64) : Option Int64 :=
  if rhs = 0 ∨ (0 < rhs ∧ m_value ≥ Int64.minValue + rhs) ∨
      (rhs < 0 ∧ m_value ≤ Int64.maxValue + rhs) then
    some (m_value - rhs)
  else none

/-- `getint`: the number, or the nearest `int`. -/
def getint (m_value : Int64) : Int32 :=
  if m_value > Int32.maxValue.toInt64 then Int32.maxValue
  else if m_value < Int32.minValue.toInt64 then Int32.minValue
  else m_value.toInt32

/-- The operators of two script numbers. -/
inductive Operator
  | add
  | sub
  | addAssign
  | subAssign

/-- The operator, or `none` where an assertion fails. -/
def Operator.apply : Operator → Int64 → Int64 → Option Int64
  | .add => CScriptNum.add
  | .sub => CScriptNum.sub
  | .addAssign => CScriptNum.addAssign
  | .subAssign => CScriptNum.subAssign

/-- What an operator stands for. -/
def Operator.exact : Operator → Int → Int → Int
  | .add, m, n => m + n
  | .sub, m, n => m - n
  | .addAssign, m, n => m + n
  | .subAssign, m, n => m - n

/-! ## Calculations -/

/-- An operation on a number. The other operand is read from bytes. -/
inductive Operation
  | binary (operator : Operator) (vch : Bytes)
  | neg

/-- How a calculation may end early. -/
inductive Failure
  | scriptnumError (what : String)
  /-- An assertion, or what C++ leaves undefined. -/
  | undefined

/-- One step: what is read is a script number of the default size. -/
def Operation.perform (fRequireMinimal : Bool) (m_value : Int64) :
    Operation → Except Failure Int64
  | .binary operator vch =>
    match ofVch vch fRequireMinimal nDefaultMaxNumSize with
    | .error what => .error (.scriptnumError what)
    | .ok rhs => (operator.apply m_value rhs).elim (.error .undefined) .ok
  | .neg => (CScriptNum.neg m_value).elim (.error .undefined) .ok

/-- One operation after the other. -/
def calculate (fRequireMinimal : Bool) (m_value : Int64) (ops : List Operation) :
    Except Failure Int64 :=
  ops.foldlM (Operation.perform fRequireMinimal) m_value

/-- The constructor takes the operand. -/
def Operation.Taken (fRequireMinimal : Bool) : Operation → Prop
  | .binary _ vch => ∃ n, ofVch vch fRequireMinimal nDefaultMaxNumSize = .ok n
  | .neg => True

/-- The same step, on the integers. -/
def Operation.exact (n : Int) : Operation → Int
  | .binary operator vch => operator.exact n (setVch vch).toInt
  | .neg => -n

/-! ## Where operators are defined -/

variable {m n r : Int64}

theorem fitting_eq_some {value : Int} : fitting value = some n ↔ n.toInt = value := by
  unfold fitting
  constructor
  · intro h
    split at h
    · rename_i hfits
      rw [← Option.some.inj h]
      exact hfits
    · exact absurd h (by simp)
  · rintro rfl
    rw [Int64.ofInt_toInt, if_pos rfl]

/-- A check that is as strict as it has to be lets the result through exactly if it fits. -/
theorem checked_eq_some {value : Int} {p : Prop} [Decidable p]
    (hp : p ↔ -2 ^ 63 ≤ value ∧ value < 2 ^ 63) (hm : m = Int64.ofInt value) :
    (if p then some m else none) = some n ↔ n.toInt = value := by
  by_cases h : p
  · obtain ⟨hle, hlt⟩ := hp.mp h
    have hvalue := Int64.toInt_ofInt_of_le hle hlt
    rw [if_pos h, hm, Option.some.injEq, ← Int64.toInt_inj, hvalue]
    exact eq_comm
  · rw [if_neg h]
    refine iff_of_false (by simp) ?_
    rintro rfl
    exact h (hp.mpr ⟨n.le_toInt, n.toInt_lt⟩)

/-- The assertions have a case for each sign of the operand. -/
theorem sign_check {p q fits : Prop} (hzero : n.toInt = 0 → fits) (hpos : 0 < n.toInt → (p ↔ fits))
    (hneg : n.toInt < 0 → (q ↔ fits)) : (n = 0 ∨ (0 < n ∧ p) ∨ (n < 0 ∧ q)) ↔ fits := by
  have h0 : (0 : Int64).toInt = 0 := by decide
  rw [← Int64.toInt_inj, Int64.lt_iff_toInt_lt, Int64.lt_iff_toInt_lt, h0]
  rcases lt_trichotomy n.toInt 0 with h | h | h
  · simp only [h, h.ne, h.not_gt, false_and, true_and, false_or, hneg h]
  · simp only [h, true_or, hzero h]
  · simp only [h, h.ne', h.not_gt, false_and, true_and, false_or, or_false, hpos h]

theorem addAssign_eq_some : addAssign m n = some r ↔ r.toInt = m.toInt + n.toInt := by
  refine checked_eq_some (sign_check ?_ ?_ ?_)
    (by rw [Int64.ofInt_add, Int64.ofInt_toInt, Int64.ofInt_toInt])
  all_goals
    intro h
    have hm := m.le_toInt
    have hm' := m.toInt_lt
    have hn := n.le_toInt
    have hn' := n.toInt_lt
  · omega
  · have hmax : (Int64.maxValue - n).toInt = 2 ^ 63 - 1 - n.toInt := by
      rw [Int64.toInt_sub, Int64.toInt_maxValue]
      exact Int.bmod_eq_of_le (by omega) (by omega)
    rw [Int64.le_iff_toInt_le, hmax]
    omega
  · have hmin : (Int64.minValue - n).toInt = -2 ^ 63 - n.toInt := by
      rw [Int64.toInt_sub, Int64.toInt_minValue]
      exact Int.bmod_eq_of_le (by omega) (by omega)
    rw [ge_iff_le, Int64.le_iff_toInt_le, hmin]
    omega

theorem subAssign_eq_some : subAssign m n = some r ↔ r.toInt = m.toInt - n.toInt := by
  refine checked_eq_some (sign_check ?_ ?_ ?_)
    (by rw [Int64.ofInt_sub, Int64.ofInt_toInt, Int64.ofInt_toInt])
  all_goals
    intro h
    have hm := m.le_toInt
    have hm' := m.toInt_lt
    have hn := n.le_toInt
    have hn' := n.toInt_lt
  · omega
  · have hmin : (Int64.minValue + n).toInt = -2 ^ 63 + n.toInt := by
      rw [Int64.toInt_add, Int64.toInt_minValue]
      exact Int.bmod_eq_of_le (by omega) (by omega)
    rw [ge_iff_le, Int64.le_iff_toInt_le, hmin]
    omega
  · have hmax : (Int64.maxValue + n).toInt = 2 ^ 63 - 1 + n.toInt := by
      rw [Int64.toInt_add, Int64.toInt_maxValue]
      exact Int.bmod_eq_of_le (by omega) (by omega)
    rw [Int64.le_iff_toInt_le, hmax]
    omega

theorem neg_eq_some : neg m = some r ↔ r.toInt = -m.toInt := by
  refine checked_eq_some ?_ (by rw [Int64.ofInt_neg, Int64.ofInt_toInt])
  have hm := m.le_toInt
  have hm' := m.toInt_lt
  rw [ne_eq, ← Int64.toInt_inj, Int64.toInt_minValue]
  omega

theorem Operator.apply_eq_some (operator : Operator) :
    operator.apply m n = some r ↔ r.toInt = operator.exact m.toInt n.toInt := by
  cases operator with
  | add => exact fitting_eq_some
  | sub => exact fitting_eq_some
  | addAssign => exact addAssign_eq_some
  | subAssign => exact subAssign_eq_some

theorem toInt_getint : (getint n).toInt = max (-2 ^ 31) (min n.toInt (2 ^ 31 - 1)) := by
  have hmax : n > Int32.maxValue.toInt64 ↔ 2 ^ 31 - 1 < n.toInt := Int64.lt_iff_toInt_lt
  have hmin : n < Int32.minValue.toInt64 ↔ n.toInt < -2 ^ 31 := Int64.lt_iff_toInt_lt
  unfold getint
  by_cases habove : n > Int32.maxValue.toInt64
  · have hlt := hmax.mp habove
    rw [if_pos habove, Int32.toInt_maxValue]
    omega
  have hle := mt hmax.mpr habove
  by_cases hbelow : n < Int32.minValue.toInt64
  · have hlt := hmin.mp hbelow
    rw [if_neg habove, if_pos hbelow, Int32.toInt_minValue]
    omega
  · have hge := mt hmin.mpr hbelow
    rw [if_neg habove, if_neg hbelow, Int64.toInt_toInt32,
      Int.bmod_eq_of_le (by omega) (by omega)]
    omega

/-! ## Calculations are exact -/

/-- The constructor gives the value of the bytes, which takes 31 bits and a sign. -/
theorem ofVch_taken {vch : Bytes} {req : Bool} (h : ofVch vch req nDefaultMaxNumSize = .ok n) :
    n = setVch vch ∧ n.toInt.natAbs < 2 ^ 31 := by
  have hlt : n.toInt.natAbs < 256 ^ 3 * 128 := natAbs_ofVch (by norm_num) h
  refine ⟨?_, by omega⟩
  unfold ofVch at h
  split at h
  · exact absurd h (by simp)
  split at h
  · exact absurd h (by simp)
  · exact (Except.ok.inj h).symm

/-- An operation adds 31 bits to the magnitude at most. -/
theorem natAbs_exact {op : Operation} {req : Bool} (h : op.Taken req) (v : Int) :
    (op.exact v).natAbs ≤ v.natAbs + (2 ^ 31 - 1) := by
  cases op with
  | binary operator vch =>
    obtain ⟨rhs, hread⟩ := h
    obtain ⟨rfl, hlt⟩ := ofVch_taken hread
    cases operator <;> simp only [Operation.exact, Operator.exact] <;> omega
  | neg =>
    simp only [Operation.exact]
    omega

/-- **One operation** is exact if its result fits. -/
theorem perform_exact {op : Operation} {req : Bool} (h : op.Taken req)
    (hfits : (op.exact m.toInt).natAbs < 2 ^ 63) :
    ∃ r, op.perform req m = .ok r ∧ r.toInt = op.exact m.toInt := by
  have hvalue : (Int64.ofInt (op.exact m.toInt)).toInt = op.exact m.toInt :=
    Int64.toInt_ofInt_of_le (by omega) (by omega)
  refine ⟨_, ?_, hvalue⟩
  cases op with
  | binary operator vch =>
    obtain ⟨rhs, hread⟩ := h
    obtain ⟨rfl, -⟩ := ofVch_taken hread
    rw [Operation.perform, hread]
    simp only [(operator.apply_eq_some).mpr hvalue, Option.elim_some]
  | neg =>
    rw [Operation.perform, neg_eq_some.mpr hvalue, Option.elim_some]

/-- A calculation whose results fit. -/
theorem calculate_eq {req : Bool} {ops : List Operation} (hops : ∀ op ∈ ops, op.Taken req)
    (hfits : m.toInt.natAbs + ops.length * (2 ^ 31 - 1) < 2 ^ 63) :
    ∃ r, calculate req m ops = .ok r ∧ r.toInt = ops.foldl Operation.exact m.toInt ∧
      r.toInt.natAbs ≤ m.toInt.natAbs + ops.length * (2 ^ 31 - 1) := by
  induction ops generalizing m with
  | nil => exact ⟨m, rfl, rfl, Nat.le_add_right _ _⟩
  | cons op ops ih =>
    have htaken := hops op List.mem_cons_self
    have hgrown := natAbs_exact htaken m.toInt
    rw [List.length_cons] at hfits
    obtain ⟨r, hr, hexact⟩ := perform_exact (m := m) htaken (by omega)
    rw [← hexact] at hgrown
    obtain ⟨r', hr', hexact', hle⟩ := ih (m := r)
      (fun o ho => hops o (List.mem_cons_of_mem op ho)) (by omega)
    refine ⟨r', ?_, ?_, ?_⟩
    · rw [calculate, List.foldlM_cons, hr]
      exact hr'
    · rw [hexact', hexact, List.foldl_cons]
    · rw [List.length_cons]
      omega

/-- **Script numbers calculate like integers.** From a number of four bytes, with fewer than
`2 ^ 32` operations on operands of four bytes, no assertion fails and nothing overflows. The bytes
of the result are refused as an operand exactly if it is not between `-2 ^ 31` and `2 ^ 31`, and
`getint` gives the nearest `int`. An operand that is refused ends the calculation, with the text of
its error. -/
theorem calculate_exact (fRequireMinimal : Bool) (start : Int64) (hstart : InRange start)
    (ops : List Operation) (hops : ∀ op ∈ ops, op.Taken fRequireMinimal)
    (hlength : ops.length < 2 ^ 32) :
    (∃ r, calculate fRequireMinimal start ops = .ok r ∧
      r.toInt = ops.foldl Operation.exact start.toInt ∧
      ofVch (serialize r) fRequireMinimal nDefaultMaxNumSize =
        (if InRange r then .ok r else .error "script number overflow") ∧
      (getint r).toInt = max (-2 ^ 31) (min r.toInt (2 ^ 31 - 1))) ∧
    ∀ operator vch what rest, ofVch vch fRequireMinimal nDefaultMaxNumSize = .error what →
      calculate fRequireMinimal start (ops ++ .binary operator vch :: rest) =
        .error (.scriptnumError what) := by
  unfold InRange at hstart
  obtain ⟨r, hr, hexact, hle⟩ := calculate_eq hops (m := start) (by omega)
  have hmin : r ≠ Int64.minValue := by
    rintro rfl
    rw [Int64.toInt_minValue] at hle
    omega
  refine ⟨⟨r, hr, hexact, ofVch_serialize_default hmin _, toInt_getint⟩, ?_⟩
  intro operator vch what rest hrefused
  have hperform : (Operation.binary operator vch).perform fRequireMinimal r =
      .error (.scriptnumError what) := by
    rw [Operation.perform, hrefused]
  calc calculate fRequireMinimal start (ops ++ .binary operator vch :: rest)
      = calculate fRequireMinimal start ops >>= fun r =>
          calculate fRequireMinimal r (.binary operator vch :: rest) := List.foldlM_append
    _ = calculate fRequireMinimal r (.binary operator vch :: rest) := by rw [hr]; rfl
    _ = .error (.scriptnumError what) := by rw [calculate, List.foldlM_cons, hperform]; rfl

/-- The largest operand twice makes a fifth byte. -/
theorem calculate_exact_largest :
    ∃ r, calculate true 0x7fffffff [.binary .addAssign [0xff, 0xff, 0xff, 0x7f]] = .ok r ∧
      serialize r = [0xfe, 0xff, 0xff, 0xff, 0x00] ∧
      ofVch (serialize r) true nDefaultMaxNumSize = .error "script number overflow" ∧
      getint r = 0x7fffffff := by
  have hread : ofVch [0xff, 0xff, 0xff, 0x7f] true nDefaultMaxNumSize = .ok 0x7fffffff := by rfl
  obtain ⟨⟨r, hr, hexact, hrefused, hint⟩, -⟩ := calculate_exact true 0x7fffffff (by decide)
    [.binary .addAssign [0xff, 0xff, 0xff, 0x7f]]
    (fun op hop => List.mem_singleton.mp hop ▸ ⟨_, hread⟩) (by decide)
  have hvalue : r = 0xfffffffe := by
    rw [← Int64.toInt_inj, hexact]
    decide +kernel
  rw [hvalue] at hr hint hrefused
  exact ⟨_, hr, by decide +kernel, hrefused.trans (if_neg (by decide)), Int32.toInt_inj.mp hint⟩

end CScriptNum

/-! ## Small integers -/

namespace CScript

/-- The opcode that pushes `16`. -/
def OP_16 : opcodetype := 0x60

/-- `DecodeOP_N`. -/
def decodeOP_N (opcode : opcodetype) : Option Int32 :=
  if opcode = OP_0 then some 0
  else if OP_1 ≤ opcode ∧ opcode ≤ OP_16 then some (opcode.toInt32 - (OP_1 - 1).toInt32)
  else none

/-- `EncodeOP_N`. -/
def encodeOP_N (n : Int32) : Option opcodetype :=
  if 0 ≤ n ∧ n ≤ 16 then some (if n = 0 then OP_0 else OP_1 + n.toUInt32 - 1)
  else none

theorem small_of_encodeOP_N {n : Int32} {opcode : opcodetype} (h : encodeOP_N n = some opcode) :
    ∃ k : Fin 17, n = Int32.ofNat k := by
  unfold encodeOP_N at h
  split at h
  · rename_i hrange
    rw [Int32.le_iff_toInt_le, Int32.le_iff_toInt_le] at hrange
    have hzero : (0 : Int32).toInt = 0 := by decide
    have hsixteen : (16 : Int32).toInt = 16 := by decide
    obtain ⟨k, hk⟩ := Int.eq_ofNat_of_zero_le (hzero ▸ hrange.1)
    have hn : n = Int32.ofNat k := by
      rw [← Int32.ofInt_toInt n, hk]
      rfl
    exact ⟨⟨k, by omega⟩, hn⟩
  · exact absurd h (by simp)

/-- What was encoded is decoded. -/
theorem decodeOP_N_encodeOP_N {n : Int32} {opcode : opcodetype}
    (h : encodeOP_N n = some opcode) : decodeOP_N opcode = some n := by
  obtain ⟨k, rfl⟩ := small_of_encodeOP_N h
  have hall : ∀ k : Fin 17, (encodeOP_N (Int32.ofNat k)).bind decodeOP_N =
      some (Int32.ofNat k) := by
    decide
  simpa only [h, Option.bind_some] using hall k

/-- A small integer is pushed as its opcode. -/
theorem pushInt64_encodeOP_N (common : Common) (script : CScript) {n : Int32}
    {opcode : opcodetype} (h : encodeOP_N n = some opcode) :
    appendOpcode script opcode = .ok (pushInt64 common script n.toInt64) := by
  obtain ⟨k, rfl⟩ := small_of_encodeOP_N h
  have hall : ∀ k : Fin 17, (encodeOP_N (Int32.ofNat k)).map (appendOpcode script) =
      some (.ok (pushInt64 common script (Int32.ofNat k).toInt64)) := by
    intro k
    fin_cases k <;> rfl
  simpa only [h, Option.map_some, Option.some.injEq] using hall k

end CScript

end ChainX.Script
