import ChainX.Lib.Atomic
import ChainX.Lib.History
import ChainX.Lib.Serial
import ChainX.Script.Basic
import ChainX.Wallet.Db

/-!
# The records of a wallet database, `Wallet/db.h`

`Read`, `Write`, `Erase`, `Exists` (`db.h:110-216`) and the transactions of `CDB` (`db.h:267-294`),
and `CDBEnv::TxnBegin` (`db.h:75-82`). Berkeley DB is a parameter with what its calls are documented
to do to the contents (`Berkeley`); a call may fail at any time. Keys and values are bytes in a run;
`read` and `write` have their types. The calls to other databases of the environment, and cursors,
are left out.

* Writing to a database that was opened read-only fails an assertion, which is `none`.
* `Contents` are the records as a function of the key. With a transaction open there are two of
  them, what is committed and what is seen, which is a `Lib.Atomic` store.
* `TxnCommit` and `TxnAbort` forget the transaction whatever the call returns. One whose commit has
  failed is not in the contents.

Results:
* `step_events`: what a call that returns has done to the store.
* **`contents_run`**: after every run of calls the database holds the edits that returned `true`
  outside of transactions or in transactions whose commit returned `true`, and nothing else.
-/

namespace ChainX.Wallet.Database

open ChainX.Lib ChainX.Lib.Atomic
open ChainX.Node (Bytes)

/-- What the records hold, by their keys. -/
abbrev Contents := Bytes → Option Bytes

/-- Berkeley DB. An `Env` is the environment with the open database. Calls return zero if they
succeed. -/
structure Berkeley (Env Txn : Type) where
  DB_NOTFOUND : Int
  get : Env → Option Txn → Bytes → Int × Option Bytes
  /-- `exists`. -/
  has : Env → Option Txn → Bytes → Int
  /-- `put`, with the flag `DB_NOOVERWRITE` or without. -/
  put : Env → Option Txn → Bytes → Bytes → Bool → Int × Env
  del : Env → Option Txn → Bytes → Int × Env
  txnBegin : Env → Int × Option Txn × Env
  commit : Txn → Env → Int × Env
  abort : Txn → Env → Int × Env
  /-- What is committed, or what a transaction sees. -/
  contents : Env → Option Txn → Contents
  get_ok : ∀ env txn key data, (get env txn key).2 = some data → contents env txn key = some data
  put_ok : ∀ env txn key value new, (put env txn key value new).1 = 0 →
    contents (put env txn key value new).2 txn =
      Function.update (contents env txn) key (some value)
  put_error : ∀ env txn key value new, (put env txn key value new).1 ≠ 0 →
    contents (put env txn key value new).2 = contents env
  put_txn : ∀ env txn key value new,
    contents (put env (some txn) key value new).2 none = contents env none
  del_ok : ∀ env txn key, (del env txn key).1 = 0 →
    contents (del env txn key).2 txn = Function.update (contents env txn) key none
  del_error : ∀ env txn key, (del env txn key).1 ≠ 0 →
    contents (del env txn key).2 = contents env
  del_notFound : ∀ env txn key, (del env txn key).1 = DB_NOTFOUND → contents env txn key = none
  del_txn : ∀ env txn key, contents (del env (some txn) key).2 none = contents env none
  txnBegin_none : ∀ env, contents (txnBegin env).2.2 none = contents env none
  txnBegin_some : ∀ env txn, (txnBegin env).2.1 = some txn →
    contents (txnBegin env).2.2 (some txn) = contents env none
  commit_ok : ∀ txn env, (commit txn env).1 = 0 →
    contents (commit txn env).2 none = contents env (some txn)
  /-- A commit that fails aborts the transaction. -/
  commit_error : ∀ txn env, (commit txn env).1 ≠ 0 →
    contents (commit txn env).2 none = contents env none
  abort_none : ∀ txn env, contents (abort txn env).2 none = contents env none

/-- A `CDB` with its `activeTxn`. -/
structure TxnCDB (Handle Txn : Type) extends CDB Handle where
  activeTxn : Option Txn

variable {Handle Env Txn K T : Type} (db : Berkeley Env Txn)

/-! ## Functions -/

namespace TxnCDB

variable (c : TxnCDB Handle Txn) (env : Env)

/-- `CDB::Read` of a serialised key, with the value if it returns `true`. -/
def readBytes (key : Bytes) (unserialize : Bytes → Option T) : Option T :=
  if c.pdb.isNone = true then none
  else
    match db.get env c.activeTxn key with
    | (_, none) => none
    | (ret, some data) =>
      match unserialize data with
      | none => none
      | some v => if ret = 0 then some v else none

/-- `CDB::Read`. -/
def read (key : Codec K) (value : Codec T) (k : K) : Option T :=
  c.readBytes db env (key.write k) fun data => (value.read data).map (·.1)

/-- `CDB::Write` of what is serialised; without an outcome where the assertion fails. -/
def writeBytes (key value : Bytes) (fOverwrite : Bool) : Option (Bool × Env) :=
  if c.pdb.isNone = true then some (false, env)
  else if c.fReadOnly = true then none
  else
    let (ret, env) := db.put env c.activeTxn key value (!fOverwrite)
    some (ret == 0, env)

/-- `CDB::Write`. -/
def write (key : Codec K) (value : Codec T) (k : K) (v : T) (fOverwrite : Bool) :
    Option (Bool × Env) :=
  c.writeBytes db env (key.write k) (value.write v) fOverwrite

/-- `CDB::Erase`. -/
def eraseBytes (key : Bytes) : Option (Bool × Env) :=
  if c.pdb.isNone = true then some (false, env)
  else if c.fReadOnly = true then none
  else
    let (ret, env) := db.del env c.activeTxn key
    some (ret == 0 || ret == db.DB_NOTFOUND, env)

/-- `CDB::Exists`. -/
def existsBytes (key : Bytes) : Bool :=
  c.pdb.isSome && db.has env c.activeTxn key == 0

/-- `CDBEnv::TxnBegin`. -/
def envTxnBegin : Option Txn × Env :=
  let (ret, ptxn, env) := db.txnBegin env
  if ptxn.isNone = true ∨ ret ≠ 0 then (none, env) else (ptxn, env)

/-- `CDB::TxnBegin`. -/
def txnBegin : Bool × TxnCDB Handle Txn × Env :=
  if c.pdb.isNone = true ∨ c.activeTxn.isSome = true then (false, c, env)
  else
    match envTxnBegin db env with
    | (none, env) => (false, c, env)
    | (some ptxn, env) => (true, { c with activeTxn := some ptxn }, env)

/-- `CDB::TxnCommit` and `CDB::TxnAbort`, by the call that ends the transaction. -/
def txnEnd (finish : Txn → Env → Int × Env) : Bool × TxnCDB Handle Txn × Env :=
  match c.pdb, c.activeTxn with
  | some _, some txn =>
    let (ret, env) := finish txn env
    (ret == 0, { c with activeTxn := none }, env)
  | _, _ => (false, c, env)

/-- `TxnCommit`. -/
def txnCommit : Bool × TxnCDB Handle Txn × Env := c.txnEnd env db.commit

/-- `TxnAbort`. -/
def txnAbort : Bool × TxnCDB Handle Txn × Env := c.txnEnd env db.abort

end TxnCDB

/-! ## Runs -/

/-- A call. The type of a value that is read is what can be unserialised. -/
inductive Call where
  | read (key : Bytes) (unserialize : Bytes → Option Unit)
  | write (key value : Bytes) (fOverwrite : Bool)
  | erase (key : Bytes)
  | has (key : Bytes)
  | txnBegin
  | txnCommit
  | txnAbort

/-- The answer of a call, and what it leaves. -/
def step (call : Call) (s : TxnCDB Handle Txn × Env) : Option (Bool × TxnCDB Handle Txn × Env) :=
  match call with
  | .read key unserialize =>
    some ((s.1.readBytes db s.2 key unserialize).isSome, s)
  | .write key value fOverwrite =>
    (s.1.writeBytes db s.2 key value fOverwrite).map fun r => (r.1, s.1, r.2)
  | .erase key => (s.1.eraseBytes db s.2 key).map fun r => (r.1, s.1, r.2)
  | .has key => some (s.1.existsBytes db s.2 key, s)
  | .txnBegin => some (s.1.txnBegin db s.2)
  | .txnCommit => some (s.1.txnCommit db s.2)
  | .txnAbort => some (s.1.txnAbort db s.2)

/-! ## What is stored -/

/-- An edit of the contents. -/
inductive Edit where
  | put (key value : Bytes)
  | del (key : Bytes)

/-- What an edit makes of the records. -/
def Edit.apply : Edit → Contents → Contents
  | put key value, m => Function.update m key (some value)
  | del key, m => Function.update m key none

/-- What a call with its answer means for the store. -/
def events : Call × Bool → List (Event Edit)
  | (.write key value _, true) => [.edit (.put key value)]
  | (.erase key, true) => [.edit (.del key)]
  | (.txnBegin, true) => [.start]
  | (.txnCommit, true) => [.commit]
  | (.txnCommit, false) => [.rollback]
  | (.txnAbort, _) => [.rollback]
  | _ => []

/-- The environment holds what the store does. A transaction is that of an open database. -/
structure Holds (store : Store Contents) (s : TxnCDB Handle Txn × Env) : Prop where
  committed : db.contents s.2 none = store.committed
  pending : store.pending = s.1.activeTxn.map fun txn => db.contents s.2 (some txn)
  isOpen : s.1.activeTxn.isSome = true → s.1.pdb.isSome = true

/-- The database holds what the calls have made of the contents before. -/
def HoldsSince (before : Contents) (hist : List (Call × Bool)) (s : TxnCDB Handle Txn × Env) :
    Prop :=
  Holds db ((hist.flatMap events).foldl (Store.event Edit.apply) ⟨before, none⟩) s

section Steps

variable {db} {store : Store Contents} {c : TxnCDB Handle Txn} {env env' : Env}
  {s s' : TxnCDB Handle Txn × Env} {call : Call} {r : Bool}

theorem Holds.view (h : Holds db store s) : db.contents s.2 s.1.activeTxn = store.view := by
  rw [Store.view, h.pending]
  cases htxn : s.1.activeTxn with
  | none => exact h.committed
  | some txn => rfl

/-- The contents changed by an edit, in the transaction if one is open. -/
theorem Holds.edit (h : Holds db store (c, env)) (e : Edit)
    (hview : db.contents env' c.activeTxn = e.apply (db.contents env c.activeTxn))
    (hnone : ∀ txn, c.activeTxn = some txn → db.contents env' none = db.contents env none) :
    Holds db (store.event Edit.apply (.edit e)) (c, env') := by
  have hpending := h.pending
  cases htxn : c.activeTxn with
  | none =>
    rw [htxn] at hpending hview
    refine ⟨?_, ?_, h.isOpen⟩
    · simp only [Store.event, hpending, Option.map_none]
      rw [hview, h.committed]
    · simp only [Store.event, hpending, htxn, Option.map_none]
  | some txn =>
    rw [htxn] at hpending hview
    refine ⟨?_, ?_, h.isOpen⟩
    · simp only [Store.event, hpending, Option.map_some]
      rw [hnone txn htxn, h.committed]
    · simp only [Store.event, hpending, htxn, Option.map_some, hview]

/-- A call that leaves the contents. -/
theorem Holds.same (h : Holds db store (c, env)) (heq : db.contents env' = db.contents env) :
    Holds db store (c, env') :=
  ⟨(congrFun heq none).trans h.committed, by rw [h.pending, heq], h.isOpen⟩

theorem holds_write (h : Holds db store (c, env)) {key value : Bytes} {fOverwrite : Bool}
    (hwrite : c.writeBytes db env key value fOverwrite = some (r, env')) :
    Holds db ((events (.write key value fOverwrite, r)).foldl (Store.event Edit.apply) store)
      (c, env') := by
  unfold TxnCDB.writeBytes at hwrite
  split at hwrite
  · obtain ⟨rfl, rfl⟩ := Prod.mk.inj (Option.some.inj hwrite)
    exact h
  split at hwrite
  · simp at hwrite
  obtain ⟨rfl, rfl⟩ := Prod.mk.inj (Option.some.inj hwrite)
  by_cases hret : (db.put env c.activeTxn key value (!fOverwrite)).1 = 0
  · simp only [hret, BEq.rfl, events, List.foldl_cons, List.foldl_nil]
    refine h.edit (.put key value) (db.put_ok _ _ _ _ _ hret) fun txn htxn => ?_
    rw [htxn]
    exact db.put_txn _ _ _ _ _
  · rw [beq_eq_false_iff_ne.mpr hret]
    exact h.same (db.put_error _ _ _ _ _ hret)

theorem holds_erase (h : Holds db store (c, env)) {key : Bytes}
    (herase : c.eraseBytes db env key = some (r, env')) :
    Holds db ((events (.erase key, r)).foldl (Store.event Edit.apply) store) (c, env') := by
  unfold TxnCDB.eraseBytes at herase
  split at herase
  · obtain ⟨rfl, rfl⟩ := Prod.mk.inj (Option.some.inj herase)
    exact h
  split at herase
  · simp at herase
  obtain ⟨rfl, rfl⟩ := Prod.mk.inj (Option.some.inj herase)
  have hnone : ∀ txn, c.activeTxn = some txn →
      db.contents (db.del env c.activeTxn key).2 none = db.contents env none := by
    intro txn htxn
    rw [htxn]
    exact db.del_txn _ _ _
  by_cases hret : (db.del env c.activeTxn key).1 = 0
  · simp only [hret, BEq.rfl, Bool.true_or, events, List.foldl_cons, List.foldl_nil]
    exact h.edit (.del key) (db.del_ok _ _ _ hret) hnone
  · have hsame := db.del_error _ _ _ hret
    by_cases hfound : (db.del env c.activeTxn key).1 = db.DB_NOTFOUND
    · -- there was nothing to erase
      have habsent := db.del_notFound _ _ _ hfound
      simp only [hfound, BEq.rfl, Bool.or_true, events, List.foldl_cons, List.foldl_nil]
      refine h.edit (.del key) ?_ hnone
      rw [hsame]
      exact (Function.update_eq_self_iff.mpr habsent.symm).symm
    · rw [beq_eq_false_iff_ne.mpr hret, beq_eq_false_iff_ne.mpr hfound]
      exact h.same hsame

theorem holds_txnBegin (h : Holds db store s) (hbegin : s.1.txnBegin db s.2 = (r, s')) :
    Holds db ((events (.txnBegin, r)).foldl (Store.event Edit.apply) store) s' := by
  unfold TxnCDB.txnBegin TxnCDB.envTxnBegin at hbegin
  split at hbegin
  · obtain ⟨rfl, rfl⟩ := Prod.mk.inj hbegin
    exact h
  rename_i hidle
  rw [not_or, Bool.not_eq_true, Bool.not_eq_true, Option.isNone_eq_false_iff,
    Option.isSome_eq_false_iff, Option.isNone_iff_eq_none] at hidle
  have hbegun := db.txnBegin_none s.2
  have hpending := h.pending
  rw [hidle.2, Option.map_none] at hpending
  rcases hres : db.txnBegin s.2 with ⟨ret, ptxn, env⟩
  rw [hres] at hbegin hbegun
  simp only at hbegin hbegun
  split at hbegin
  · rename_i hnull
    split at hnull
    · obtain ⟨rfl, rfl⟩ := Prod.mk.inj hbegin
      obtain ⟨-, rfl⟩ := Prod.mk.inj hnull
      exact ⟨hbegun.trans h.committed, by simp [events, hpending, hidle.2], h.isOpen⟩
    · rename_i hptxn
      obtain ⟨rfl, -⟩ := Prod.mk.inj hnull
      simp at hptxn
  · rename_i hsome
    split at hsome
    · simp at hsome
    obtain ⟨rfl, rfl⟩ := Prod.mk.inj hsome
    obtain ⟨rfl, rfl⟩ := Prod.mk.inj hbegin
    have hview := db.txnBegin_some s.2 _ (by rw [hres])
    rw [hres] at hview
    refine ⟨hbegun.trans h.committed, ?_, fun _ => hidle.1⟩
    simp only [events, List.foldl_cons, List.foldl_nil, Store.event, Option.map_some, hview,
      h.committed]

/-- There is no transaction to end, or it is ended whatever the call returns. -/
theorem txnEnd_cases (h : Holds db store s) (finish : Txn → Env → Int × Env) :
    (s.1.activeTxn = none ∧ s.1.txnEnd s.2 finish = (false, s)) ∨
      ∃ txn, s.1.activeTxn = some txn ∧ s.1.txnEnd s.2 finish =
        ((finish txn s.2).1 == 0, { s.1 with activeTxn := none }, (finish txn s.2).2) := by
  unfold TxnCDB.txnEnd
  cases htxn : s.1.activeTxn with
  | none =>
    refine .inl ⟨rfl, ?_⟩
    split
    · rename_i hsome
      simp at hsome
    · rfl
  | some txn =>
    have hopen := h.isOpen (by rw [htxn]; rfl)
    obtain ⟨pdb, hpdb⟩ := Option.isSome_iff_exists.mp hopen
    exact .inr ⟨txn, rfl, by rw [hpdb]⟩

theorem Holds.rollback (h : Holds db store s) (htxn : s.1.activeTxn = none) :
    Holds db (store.event Edit.apply .rollback) s :=
  ⟨h.committed, by rw [htxn]; rfl, h.isOpen⟩

theorem holds_txnCommit (h : Holds db store s) (hcommit : s.1.txnCommit db s.2 = (r, s')) :
    Holds db ((events (.txnCommit, r)).foldl (Store.event Edit.apply) store) s' := by
  rcases txnEnd_cases h db.commit with ⟨htxn, hnone⟩ | ⟨txn, htxn, hended⟩
  · obtain ⟨rfl, rfl⟩ := Prod.mk.inj (hnone.symm.trans hcommit)
    exact h.rollback htxn
  · obtain ⟨rfl, rfl⟩ := Prod.mk.inj (hended.symm.trans hcommit)
    have hview := h.view
    rw [htxn] at hview
    by_cases hret : (db.commit txn s.2).1 = 0
    · rw [hret]
      exact ⟨(db.commit_ok txn s.2 hret).trans hview, rfl, nofun⟩
    · rw [beq_eq_false_iff_ne.mpr hret]
      exact ⟨(db.commit_error txn s.2 hret).trans h.committed, rfl, nofun⟩

theorem holds_txnAbort (h : Holds db store s) (habort : s.1.txnAbort db s.2 = (r, s')) :
    Holds db ((events (.txnAbort, r)).foldl (Store.event Edit.apply) store) s' := by
  rcases txnEnd_cases h db.abort with ⟨htxn, hnone⟩ | ⟨txn, htxn, hended⟩
  · obtain ⟨rfl, rfl⟩ := Prod.mk.inj (hnone.symm.trans habort)
    exact h.rollback htxn
  · obtain ⟨rfl, rfl⟩ := Prod.mk.inj (hended.symm.trans habort)
    exact ⟨(db.abort_none txn s.2).trans h.committed, rfl, nofun⟩

/-- What a call that returns has done to the store. -/
theorem step_events (h : Holds db store s) (hstep : step db call s = some (r, s')) :
    Holds db ((events (call, r)).foldl (Store.event Edit.apply) store) s' := by
  cases call with
  | read key unserialize =>
    obtain ⟨-, rfl⟩ := Prod.mk.inj (Option.some.inj hstep)
    exact h
  | write key value fOverwrite =>
    obtain ⟨⟨r', env⟩, hwrite, heq⟩ := Option.map_eq_some_iff.mp hstep
    obtain ⟨rfl, rfl⟩ := Prod.mk.inj heq
    exact holds_write h hwrite
  | erase key =>
    obtain ⟨⟨r', env⟩, herase, heq⟩ := Option.map_eq_some_iff.mp hstep
    obtain ⟨rfl, rfl⟩ := Prod.mk.inj heq
    exact holds_erase h herase
  | has key =>
    obtain ⟨-, rfl⟩ := Prod.mk.inj (Option.some.inj hstep)
    exact h
  | txnBegin => exact holds_txnBegin h (Option.some.inj hstep)
  | txnCommit => exact holds_txnCommit h (Option.some.inj hstep)
  | txnAbort => exact holds_txnAbort h (Option.some.inj hstep)

theorem holdsSince_step {before : Contents} {hist : List (Call × Bool)}
    (h : HoldsSince db before hist s) (hstep : step db call s = some (r, s')) :
    HoldsSince db before (hist ++ [(call, r)]) s' := by
  rw [HoldsSince, List.flatMap_append, List.foldl_append, List.flatMap_singleton]
  exact step_events h hstep

theorem holdsSince_run {calls : List Call} {hist : List (Call × Bool)}
    (htxn : s.1.activeTxn = none) (h : run (step db) calls s = some (hist, s')) :
    HoldsSince db (db.contents s.2 none) hist s' := by
  have hstart : HoldsSince db (db.contents s.2 none) [] s :=
    ⟨rfl, by rw [htxn]; rfl, fun hsome => by rw [htxn] at hsome; simp at hsome⟩
  exact run_invariant holdsSince_step hstart h

/-- What `Read` returns is in the contents that are seen. -/
theorem read_eq {key : Codec K} {value : Codec T} {k : K} {v : T}
    (h : c.read db env key value k = some v) : ∃ data rest,
      db.contents env c.activeTxn (key.write k) = some data ∧ value.read data = some (v, rest) := by
  unfold TxnCDB.read TxnCDB.readBytes at h
  split at h
  · simp at h
  split at h
  · simp at h
  rename_i ret data hget
  split at h
  · simp at h
  rename_i v' hvalue
  split at h
  · obtain rfl := Option.some.inj h
    obtain ⟨⟨_, rest⟩, hread, rfl⟩ := Option.map_eq_some_iff.mp hvalue
    exact ⟨data, rest, db.get_ok _ _ _ _ (by rw [hget]), hread⟩
  · simp at h

end Steps

/-! ## Result -/

/-- **The database holds what was written and erased, with the answer `true`, outside of
transactions and in those whose commit answered `true`; and what `Read` returns was written in the
open transaction, or is held.** -/
theorem contents_run (c : TxnCDB Handle Txn) (env : Env) (htxn : c.activeTxn = none)
    {calls : List Call} {hist : List (Call × Bool)} {s : TxnCDB Handle Txn × Env}
    (h : run (step db) calls (c, env) = some (hist, s)) :
    db.contents s.2 none = (surviving (hist.flatMap events)).foldl (fun m e => e.apply m)
        (db.contents env none) ∧
      ∀ (K T : Type) (key : Codec K) (value : Codec T) (k : K) (v : T),
        s.1.read db s.2 key value k = some v → ∃ data rest,
          (visible (hist.flatMap events)).foldl (fun m e => e.apply m) (db.contents env none)
            (key.write k) = some data ∧ value.read data = some (v, rest) := by
  have hholds : HoldsSince db (db.contents env none) hist s := holdsSince_run htxn h
  refine ⟨hholds.committed.trans (committed_eq _ _), fun K T key value k v hread => ?_⟩
  obtain ⟨data, rest, hdata, hvalue⟩ := read_eq hread
  rw [hholds.view, view_eq] at hdata
  exact ⟨data, rest, hdata, hvalue⟩

/-- What is seen of a database in memory: what is committed, and what its transaction has made of
it. -/
def memoryView (env : Contents × Option Contents) : Option Unit → Contents
  | none => env.1
  | some () => env.2.getD env.1

/-- A handle that keeps the open transaction in memory. -/
def memorySet (env : Contents × Option Contents) (m : Contents) :
    Option Unit → Contents × Option Contents
  | none => (m, env.2)
  | some () => (env.1, some m)

theorem memoryView_memorySet (env : Contents × Option Contents) (m : Contents)
    (txn : Option Unit) : memoryView (memorySet env m txn) txn = m := by cases txn <;> rfl

/-- A database in memory. Nothing is found, or a key exists, by the numbers of Berkeley DB. -/
def memoryDb : Berkeley (Contents × Option Contents) Unit where
  DB_NOTFOUND := -30988
  get env txn key := ((if (memoryView env txn key).isSome then 0 else -30988),
    memoryView env txn key)
  has env txn key := if (memoryView env txn key).isSome then 0 else -30988
  put env txn key value new :=
    if new ∧ (memoryView env txn key).isSome then (-30995, env)
    else (0, memorySet env (Function.update (memoryView env txn) key (some value)) txn)
  del env txn key :=
    if (memoryView env txn key).isSome then
      (0, memorySet env (Function.update (memoryView env txn) key none) txn)
    else (-30988, env)
  txnBegin env := (0, some (), (env.1, some env.1))
  commit _ env := (0, (memoryView env (some ()), none))
  abort _ env := (0, (env.1, none))
  contents := memoryView
  get_ok _ _ _ _ h := h
  put_ok env txn key value new h := by
    split at h
    · simp at h
    · rename_i hnew
      rw [if_neg hnew, memoryView_memorySet]
  put_error env txn key value new h := by
    split at h
    · rename_i hnew
      rw [if_pos hnew]
    · simp at h
  put_txn env txn key value new := by split <;> rfl
  del_ok env txn key h := by
    split at h
    · rename_i hsome
      rw [if_pos hsome, memoryView_memorySet]
    · simp at h
  del_error env txn key h := by
    split at h
    · simp at h
    · rename_i hnone
      rw [if_neg hnone]
  del_notFound env txn key h := by
    split at h
    · simp at h
    · rename_i hnone
      simpa using hnone
  del_txn env txn key := by split <;> rfl
  txnBegin_none _ := rfl
  txnBegin_some _ _ _ := rfl
  commit_ok _ _ _ := rfl
  commit_error _ _ h := absurd rfl h
  abort_none _ _ := rfl

/-- An open database with no transaction. -/
def openCDB : TxnCDB Unit Unit := ⟨⟨some ⟨(), true⟩, ascii "wallet.dat", false, true⟩, none⟩

/-- A transaction that is committed, and one that is aborted. -/
def sampleCalls : List Call :=
  [.txnBegin, .write [1] [10] true, .txnCommit, .txnBegin, .write [1] [20] true, .txnAbort]

/-- What the first one has written. -/
def keptContents : Contents := Function.update (fun _ => none) [1] (some [10])

theorem contents_run_sample :
    run (step memoryDb) sampleCalls (openCDB, (fun _ => none, none)) =
        some (sampleCalls.map (·, true), openCDB, (keptContents, none)) ∧
      memoryDb.contents (keptContents, none) none =
        (surviving ((sampleCalls.map (·, true)).flatMap events)).foldl (fun m e => e.apply m)
          (memoryDb.contents (fun _ => none, none) none) :=
  have hrun : run (step memoryDb) sampleCalls (openCDB, (fun _ => none, none)) =
      some (sampleCalls.map (·, true), openCDB, (keptContents, none)) := rfl
  ⟨hrun, (contents_run memoryDb openCDB (fun _ => none, none) rfl hrun).1⟩

end ChainX.Wallet.Database
