import ChainX.Lib.Decimal
import Mathlib.Logic.Function.Basic

/-!
# Opening a wallet database, `Wallet/db.cpp`

`CDBEnv::Open` (`db.cpp:69-112`) and the constructor of `CDB` (`db.cpp:222-279`). Each call to the
system and to Berkeley DB is made once at most; what it returns is a parameter (`Results`). An entry
of `mapDb` is NULL or a database that has been opened, by its type. The records of a database are
left out, and with them all that `Exists` and `Write` do but return.

* The constructor counts the use before it opens the file. In each of its failures it takes the use
  back, but for one: `set_flags`, which is only called in a mock environment.
* An exception is the left of the result (`Exn`), with the environment as it is then.
* The file ends with the constructor. The other functions of `CDBEnv` that it has (`EnvShutdown`,
  `Reset`, `MakeMock`, `Verify`, `CheckpointLSN`) are left out; `Salvage` is in a module of its own.

Results:
* `openDatabase_cases`: what opening a file that is not open leaves.
* **`accounts_iff`**: a constructor that throws leaves the use counts as they were, unless it is
  `set_flags` that fails, in a mock environment. The use is then never taken back.
-/

namespace ChainX.Wallet.Database

open ChainX.Lib

/-! ## Data types -/

/-- A `Db`, and whether it has been opened. -/
structure Db (Handle : Type) where
  handle : Handle
  isOpen : Bool

/-- A handle of an open file. -/
abbrev OpenDb (Handle : Type) := { db : Db Handle // db.isOpen = true }

/-- `CDBEnv`: the files that are open, and how often they are used. -/
structure CDBEnv (Handle : Type) where
  fDbEnvInit : Bool
  fMockDb : Bool
  strPath : Text
  mapFileUseCount : Text → Option Int
  /-- The inner `none` is NULL. -/
  mapDb : Text → Option (Option (OpenDb Handle))

/-- `CDB`: one use of a file. -/
structure CDB (Handle : Type) where
  pdb : Option (Db Handle)
  strFile : Text
  fReadOnly : Bool
  fFlushOnClose : Bool

/-- What is thrown. -/
inductive Exn
  | interrupted
  | filesystem
  | runtime (what : Text)
  | assertion

/-- What the calls return, zero for a success. -/
structure Results (Handle : Type) where
  /-- `GetDataDir()`, without a path where it throws. -/
  getDataDir : Option Text
  /-- `interruption_point()` throws. -/
  interrupted : Bool
  /-- `TryCreateDirectory` throws. -/
  createDirectoryThrows : Bool
  /-- `dbenv->open`. -/
  dbenvOpen : Int
  /-- `new Db`. -/
  newDb : Handle
  /-- `mpf->set_flags`. -/
  setFlags : Int
  /-- `pdb->open`, of a file and a logical name, with `DB_CREATE` or without. -/
  pdbOpen : Option Text → Text → Bool → Int
  /-- `pdb->exists`. -/
  pdbExists : Int
  /-- `pdb->put`. -/
  pdbPut : Int

variable {Handle : Type} (results : Results Handle)

/-! ## `CDBEnv` -/

namespace CDBEnv

variable (bitdb : CDBEnv Handle)

/-- `IsMock`. -/
def isMock : Bool := bitdb.fMockDb

/-- `CDBEnv::Open`. -/
def openEnv (pathIn : Text) : CDBEnv Handle × Except Exn Bool :=
  if bitdb.fDbEnvInit = true then (bitdb, .ok true)
  else if results.interrupted = true then (bitdb, .error .interrupted)
  else
    let bitdb := { bitdb with strPath := pathIn }
    if results.createDirectoryThrows = true then (bitdb, .error .filesystem)
    else if results.dbenvOpen ≠ 0 then (bitdb, .ok false)
    else ({ bitdb with fDbEnvInit := true, fMockDb := false }, .ok true)

/-- The number that `mapFileUseCount[strFile]` is. -/
def useCount (strFile : Text) : Int := (bitdb.mapFileUseCount strFile).getD 0

/-- The database that `mapDb[strFile]` points to. -/
def opened (strFile : Text) : Option (OpenDb Handle) := (bitdb.mapDb strFile).join

/-- `mapFileUseCount[strFile] += n`. -/
def addUse (strFile : Text) (n : Int) : CDBEnv Handle :=
  { bitdb with mapFileUseCount :=
      Function.update bitdb.mapFileUseCount strFile (some (bitdb.useCount strFile + n)) }

/-- `mapDb[strFile] = pdb`. -/
def setDb (strFile : Text) (pdb : Option (OpenDb Handle)) : CDBEnv Handle :=
  { bitdb with mapDb := Function.update bitdb.mapDb strFile (some pdb) }

@[simp] theorem isMock_addUse (strFile : Text) (n : Int) :
    (bitdb.addUse strFile n).isMock = bitdb.isMock := rfl

@[simp] theorem opened_addUse (strFile : Text) (n : Int) :
    (bitdb.addUse strFile n).opened = bitdb.opened := rfl

@[simp] theorem useCount_setDb (strFile : Text) (pdb : Option (OpenDb Handle)) :
    (bitdb.setDb strFile pdb).useCount = bitdb.useCount := rfl

@[simp] theorem isMock_setDb (strFile : Text) (pdb : Option (OpenDb Handle)) :
    (bitdb.setDb strFile pdb).isMock = bitdb.isMock := rfl

@[simp] theorem useCount_addUse (strFile : Text) (n : Int) :
    (bitdb.addUse strFile n).useCount =
      Function.update bitdb.useCount strFile (bitdb.useCount strFile + n) := by
  funext file
  by_cases h : file = strFile
  · subst h
    simp [addUse, useCount]
  · simp [addUse, useCount, h]

@[simp] theorem opened_setDb (strFile : Text) (pdb : Option (OpenDb Handle)) :
    (bitdb.setDb strFile pdb).opened = Function.update bitdb.opened strFile pdb := by
  funext file
  by_cases h : file = strFile
  · subst h
    simp [setDb, opened]
  · simp [setDb, opened, h]

end CDBEnv

/-! ## `CDB` -/

/-- `open`, by what it returns. -/
def Db.openFile (db : Db Handle) (ret : Int) : Db Handle := { db with isOpen := ret == 0 }

namespace CDB

/-- `Exists("version")`. -/
def existsVersion (c : CDB Handle) : Bool := c.pdb.isSome && results.pdbExists == 0

/-- `WriteVersion(CLIENT_VERSION)`. -/
def writeVersion (c : CDB Handle) : Except Exn Bool :=
  if c.pdb.isNone = true then .ok false
  else if c.fReadOnly = true then .error .assertion
  else .ok (results.pdbPut == 0)

/-- The version is written to a new database, whatever the mode. -/
def createVersion (c : CDB Handle) (fCreate : Bool) : Except Exn (CDB Handle) :=
  if fCreate && !c.existsVersion results then
    let fTmp := c.fReadOnly
    match writeVersion results { c with fReadOnly := false } with
    | .error e => .error e
    | .ok _ => .ok { c with fReadOnly := fTmp }
  else .ok c

/-- What `pdb->open` returns: a mock database has no file. -/
def openRet (c : CDB Handle) (fMockDb fCreate : Bool) : Int :=
  if fMockDb = true then results.pdbOpen none c.strFile fCreate
  else results.pdbOpen (some c.strFile) (ascii "main") fCreate

/-- The constructor from `pdb = new Db` on. -/
def openDatabase (c : CDB Handle) (bitdb : CDBEnv Handle) (fCreate : Bool) :
    CDBEnv Handle × Except Exn (CDB Handle) :=
  let pdb : Db Handle := ⟨results.newDb, false⟩
  let fMockDb := bitdb.isMock
  if fMockDb = true ∧ results.setFlags ≠ 0 then
    (bitdb, .error (.runtime
      (ascii "CDB: Failed to configure for no temp file backing for database " ++ c.strFile)))
  else
    let ret := c.openRet results fMockDb fCreate
    if h : ret = 0 then
      let pdb : OpenDb Handle := ⟨pdb.openFile ret, by simp [Db.openFile, h]⟩
      match createVersion results { c with pdb := some pdb } fCreate with
      | .error e => (bitdb, .error e)
      | .ok c => (bitdb.setDb c.strFile (some pdb), .ok c)
    else
      (bitdb.addUse c.strFile (-1), .error (.runtime
        (ascii "CDB: Error " ++ decimalInt ret ++ ascii ", can't open database " ++ c.strFile)))

/-- The constructor from `++bitdb.mapFileUseCount[strFile]` on. -/
def useFile (c : CDB Handle) (bitdb : CDBEnv Handle) (fCreate : Bool) :
    CDBEnv Handle × Except Exn (CDB Handle) :=
  let bitdb := bitdb.addUse c.strFile 1
  match bitdb.opened c.strFile with
  | some pdb => (bitdb, .ok { c with pdb := some pdb })
  -- the look-up has left a NULL in `mapDb`
  | none => c.openDatabase results (bitdb.setDb c.strFile none) fCreate

/-- `CDB::CDB`. -/
def construct (bitdb : CDBEnv Handle) (strFilename pszMode : Text) (fFlushOnCloseIn : Bool) :
    CDBEnv Handle × Except Exn (CDB Handle) :=
  let c : CDB Handle :=
    { pdb := none
      strFile := []
      fReadOnly := !pszMode.contains 43 && !pszMode.contains 119
      fFlushOnClose := fFlushOnCloseIn }
  if strFilename = [] then (bitdb, .ok c)
  else
    let fCreate := pszMode.contains 99
    match results.getDataDir with
    | none => (bitdb, .error .filesystem)
    | some path =>
      match bitdb.openEnv results path with
      | (bitdb, .error e) => (bitdb, .error e)
      | (bitdb, .ok false) =>
        (bitdb, .error (.runtime (ascii "CDB: Failed to open database environment.")))
      | (bitdb, .ok true) =>
        useFile results { c with strFile := strFilename } bitdb fCreate

end CDB

/-! ## Use counts -/

/-- A constructor that throws leaves the use counts and the open databases as they were. One that
returns, of a file with a name, has counted one use more of it and nothing else, and the file is
open. -/
def Accounts (bitdb : CDBEnv Handle) (strFilename : Text) :
    CDBEnv Handle × Except Exn (CDB Handle) → Prop
  | (bitdb', .error _) => bitdb'.useCount = bitdb.useCount ∧ bitdb'.opened = bitdb.opened
  | (bitdb', .ok _) => strFilename ≠ [] →
    bitdb'.useCount =
        Function.update bitdb.useCount strFilename (bitdb.useCount strFilename + 1) ∧
      (bitdb'.opened strFilename).isSome = true

variable {bitdb bitdb' : CDBEnv Handle}

theorem accounts_congr {strFilename : Text} (huse : bitdb'.useCount = bitdb.useCount)
    (hopened : bitdb'.opened = bitdb.opened) {r : CDBEnv Handle × Except Exn (CDB Handle)} :
    Accounts bitdb' strFilename r ↔ Accounts bitdb strFilename r := by
  obtain ⟨bitdb'', e | c⟩ := r
  · simp only [Accounts, huse, hopened]
  · simp only [Accounts, huse]

theorem openEnv_of_init (h : bitdb.fDbEnvInit = true) (path : Text) :
    bitdb.openEnv results path = (bitdb, .ok true) := if_pos h

/-- An environment that `Open` has to set up keeps its files, and is no mock then. -/
theorem openEnv_of_not_init (h : ¬ bitdb.fDbEnvInit = true) (path : Text) :
    ∃ bitdb' opens, bitdb.openEnv results path = (bitdb', opens) ∧
      bitdb'.useCount = bitdb.useCount ∧ bitdb'.opened = bitdb.opened ∧
        (opens = .ok true → bitdb'.isMock = false) := by
  unfold CDBEnv.openEnv
  rw [if_neg h]
  split
  · exact ⟨_, _, rfl, rfl, rfl, by simp⟩
  simp only
  split
  · exact ⟨_, _, rfl, rfl, rfl, by simp⟩
  split
  · exact ⟨_, _, rfl, rfl, rfl, by simp⟩
  · exact ⟨_, _, rfl, rfl, rfl, fun _ => rfl⟩

/-- The assertion in `Write` holds: the flag is off when the version is written. -/
theorem createVersion_eq (c : CDB Handle) (fCreate : Bool) :
    c.createVersion results fCreate = .ok c := by
  unfold CDB.createVersion CDB.writeVersion
  split
  · cases c with
    | mk pdb strFile fReadOnly fFlushOnClose => cases pdb <;> rfl
  · rfl

/-- A file that is not open stays so, with its use taken back or, in a mock environment, not; or it
is open. -/
theorem openDatabase_cases (c : CDB Handle) (bitdb : CDBEnv Handle) (fCreate : Bool) :
    ((bitdb.isMock = true ∧ results.setFlags ≠ 0) ∧
        ∃ e, c.openDatabase results bitdb fCreate = (bitdb, .error e)) ∨
      (¬ (bitdb.isMock = true ∧ results.setFlags ≠ 0) ∧
        ((∃ e, c.openDatabase results bitdb fCreate = (bitdb.addUse c.strFile (-1), .error e)) ∨
          ∃ pdb c', c.openDatabase results bitdb fCreate =
            (bitdb.setDb c.strFile (some pdb), .ok c'))) := by
  unfold CDB.openDatabase
  by_cases hflags : bitdb.isMock = true ∧ results.setFlags ≠ 0
  · simp only [if_pos hflags]
    exact .inl ⟨hflags, _, rfl⟩
  · simp only [if_neg hflags, createVersion_eq]
    refine .inr ⟨hflags, ?_⟩
    by_cases hret : c.openRet results bitdb.isMock fCreate = 0
    · simp only [dif_pos hret]
      exact .inr ⟨_, _, rfl⟩
    · simp only [dif_neg hret]
      exact .inl ⟨_, rfl⟩

/-- With the environment open. -/
theorem accounts_useFile (c : CDB Handle) (bitdb : CDBEnv Handle) (fCreate : Bool) :
    Accounts bitdb c.strFile (c.useFile results bitdb fCreate) ↔
      (bitdb.isMock = true → bitdb.opened c.strFile = none → results.setFlags = 0) := by
  unfold CDB.useFile
  simp only [CDBEnv.opened_addUse]
  cases hdb : bitdb.opened c.strFile with
  | some pdb =>
    refine iff_of_true (fun _ => ⟨CDBEnv.useCount_addUse bitdb _ _, ?_⟩) (fun _ h => nomatch h)
    simp [hdb]
  | none =>
    have hopened : ((bitdb.addUse c.strFile 1).setDb c.strFile none).opened = bitdb.opened := by
      rw [CDBEnv.opened_setDb, CDBEnv.opened_addUse, ← hdb, Function.update_eq_self]
    rcases openDatabase_cases results c
        ((bitdb.addUse c.strFile 1).setDb c.strFile none) fCreate with
      ⟨⟨hmock, hflags⟩, e, heq⟩ | ⟨hflags, h⟩
    · -- the use that nothing takes back
      refine iff_of_false (fun h => ?_) (fun h => hflags (h hmock rfl))
      simp only [heq] at h
      have huse := congrFun h.1 c.strFile
      simp at huse
    · refine iff_of_true ?_ (fun hmock _ => not_not.mp fun h => hflags ⟨hmock, h⟩)
      rcases h with ⟨e, heq⟩ | ⟨pdb, c', heq⟩
      · simp only [heq]
        refine ⟨?_, hopened⟩
        simp
      · simp only [heq]
        refine fun _ => ⟨?_, ?_⟩
        · simp
        · simp

/-- **A constructor that throws has counted no use**, unless `set_flags` is what fails. -/
theorem accounts_iff (results : Results Handle) (bitdb : CDBEnv Handle)
    (strFilename pszMode : Text) (fFlushOnCloseIn : Bool) :
    Accounts bitdb strFilename
        (CDB.construct results bitdb strFilename pszMode fFlushOnCloseIn) ↔
      (strFilename ≠ [] → results.getDataDir ≠ none → bitdb.fDbEnvInit = true →
        bitdb.fMockDb = true → bitdb.opened strFilename = none → results.setFlags = 0) := by
  unfold CDB.construct
  by_cases hname : strFilename = []
  · simp only [if_pos hname]
    exact iff_of_true (fun h => absurd hname h) (fun h => absurd hname h)
  simp only [if_neg hname]
  cases hdir : results.getDataDir with
  | none => exact iff_of_true ⟨rfl, rfl⟩ (fun _ h => absurd rfl h)
  | some path =>
    by_cases hinit : bitdb.fDbEnvInit = true
    · simp only [openEnv_of_init results hinit]
      refine (accounts_useFile results _ _ _).trans ?_
      exact ⟨fun h _ _ _ => h, fun h => h hname (by simp) hinit⟩
    · obtain ⟨bitdb', opens, hopen, huse, hopened, hmock⟩ :=
        openEnv_of_not_init results hinit path
      refine iff_of_true ?_ (fun _ _ h => absurd h hinit)
      simp only [hopen]
      match opens with
      | .error e => exact ⟨huse, hopened⟩
      | .ok false => exact ⟨huse, hopened⟩
      | .ok true =>
        refine (accounts_congr huse hopened).mp ((accounts_useFile results _ _ _).mpr fun h => ?_)
        rw [hmock rfl] at h
        exact absurd h (by simp)

/-- A mock environment with no files. -/
def mockEnv : CDBEnv Unit := ⟨true, true, [], fun _ => none, fun _ => none⟩

/-- Calls of which `set_flags` fails. -/
def flagsFail : Results Unit :=
  { getDataDir := some []
    interrupted := false
    createDirectoryThrows := false
    dbenvOpen := 0
    newDb := ()
    setFlags := 22
    pdbOpen := fun _ _ _ => 0
    pdbExists := 0
    pdbPut := 0 }

/-- A file counts as in use that could not be opened. -/
theorem construct_flagsFail :
    (CDB.construct flagsFail mockEnv (ascii "wallet.dat") (ascii "cr+") true).2 =
        .error (.runtime
          (ascii "CDB: Failed to configure for no temp file backing for database " ++
            ascii "wallet.dat")) ∧
      (CDB.construct flagsFail mockEnv (ascii "wallet.dat") (ascii "cr+") true).1.useCount
        (ascii "wallet.dat") = 1 ∧
      ¬ Accounts mockEnv (ascii "wallet.dat")
        (CDB.construct flagsFail mockEnv (ascii "wallet.dat") (ascii "cr+") true) := by
  refine ⟨by rfl, by rfl, fun h => ?_⟩
  have huse : (1 : Int) = 0 := congrFun h.1 (ascii "wallet.dat")
  exact absurd huse (by decide)

end ChainX.Wallet.Database
