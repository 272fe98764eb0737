import RnLeveldb.HostFunctions
import RnLeveldb.Lib.Machine

/-!
# The wrappers of `index.ts`

The JavaScript side: the classes `LevelDB`, `LevelDBIterator` and `LevelDBWriteBatch`, the
map `openRefs` kept on `globalThis`, and the module's evaluation, which installs the host
functions. A `Process` is both sides together with every wrapper the application was ever
handed; `Process.step` is one call of the application.

Wrappers are numbered in the order of their construction, within their class. What a wrapper
was constructed for (`obj`), and between which two clearings of the registries (`gen`), is
recorded for the statements below; the classes only store `ref`.
-/

namespace RnLeveldb

/-! ## State -/

/-- What the three classes have in common: the field `ref`. -/
structure Handle where
  ref : JsValue
  /-- The identity of the object in the slot `ref` named at construction. -/
  obj : Option ℕ
  /-- The generation of the registries at construction. -/
  gen : ℕ
deriving DecidableEq

structure LevelDB extends Handle where
  /-- The argument of the constructor. -/
  name : JsString
deriving DecidableEq

structure LevelDBIterator extends Handle where
  /-- The identity of the database the iterator was created on. -/
  dbId : Option ℕ
deriving DecidableEq

structure LevelDBWriteBatch extends Handle
deriving DecidableEq

structure Process where
  native : World
  /-- `globalThis.__rn_leveldb_openPathRefs`. -/
  openRefs : List (JsString × JsValue)
  nativeModuleInitError : Option Bytes
  dbs : List LevelDB
  iterators : List LevelDBIterator
  batches : List LevelDBWriteBatch

/-- `openRefs[name]`. -/
def openRef (openRefs : List (JsString × JsValue)) (name : JsString) : Option JsValue :=
  (openRefs.find? fun e => e.1 = name).map Prod.snd

/-! ## Calls -/

inductive IteratorMethod where
  | seekToFirst
  | seekLast
  | seek (target : JsValue)
  | valid
  | next
  | prev
  | close
  | keyStr
  | keyBuf
  | valueStr
  | valueBuf
  | compareKey (target : JsValue)
deriving DecidableEq

/-- A call of the application; wrappers are given by their number. -/
inductive Call where
  | newLevelDB (name : JsString) (createIfMissing errorIfExists : Bool)
  | close (db : ℕ)
  | closed (db : ℕ)
  | put (db : ℕ) (k v : JsValue)
  | delete (db : ℕ) (k : JsValue)
  | getStr (db : ℕ) (k : JsValue)
  | getBuf (db : ℕ) (k : JsValue)
  | newIterator (db : ℕ)
  | write (db batch : ℕ)
  | merge (db src : ℕ) (batchMerge : Bool)
  | destroyDB (name : JsString) (force : Bool)
  | iterator (it : ℕ) (method : IteratorMethod)
  | newWriteBatch
  | batchPut (batch : ℕ) (k v : JsValue)
  | batchDelete (batch : ℕ) (k : JsValue)
  | batchClose (batch : ℕ)
deriving DecidableEq

/-- The wrappers whose reference a call hands to a host function, with their classes.
`closed` only compares its reference with those in `openRefs`. -/
def Call.uses (s : Process) : Call → List (Kind × Handle)
  | .newLevelDB _ _ _ | .destroyDB _ _ | .newWriteBatch | .closed _ => []
  | .close i | .put i _ _ | .delete i _ | .getStr i _ | .getBuf i _ | .newIterator i =>
    (s.dbs[i]?.map fun h => (Kind.db, h.toHandle)).toList
  | .write i j =>
    (s.dbs[i]?.map fun h => (Kind.db, h.toHandle)).toList
      ++ (s.batches[j]?.map fun h => (Kind.batch, h.toHandle)).toList
  | .merge i j _ =>
    (s.dbs[i]?.map fun h => (Kind.db, h.toHandle)).toList
      ++ (s.dbs[j]?.map fun h => (Kind.db, h.toHandle)).toList
  | .iterator i _ => (s.iterators[i]?.map fun h => (Kind.iterator, h.toHandle)).toList
  | .batchPut i _ _ | .batchDelete i _ | .batchClose i =>
    (s.batches[i]?.map fun h => (Kind.batch, h.toHandle)).toList

/-- The method returns `v` of its own, whatever the host function returned. -/
def Outcome.returning (v : JsValue) : Outcome → Outcome
  | .ret _ on => .ret v on
  | o => o

namespace Process

/-- A method that returns what the host function returns. -/
def forward (s : Process) (r : Outcome × World) : Outcome × Process :=
  (r.1, { s with native := r.2 })

/-- A method that calls a host function and then returns `v`. -/
def forwardAs (s : Process) (v : JsValue) (r : Outcome × World) : Outcome × Process :=
  (r.1.returning v, { s with native := r.2 })

/-- The database `ref` names, if there is one. -/
def dbAt (w : World) (ref : JsValue) : Option Db := (refIdx ref).bind w.dbs.get

/-! ## `LevelDB` -/

/-- The constructor of `LevelDB`; an empty `nativeModuleInitError` is not truthy. -/
def newLevelDB (s : Process) (faults : Faults) (name : JsString)
    (createIfMissing errorIfExists : Bool) : Outcome × Process :=
  match s.nativeModuleInitError.filter (· ≠ []) with
  | some e => (.throw (.error e), s)
  | none =>
    match openRef s.openRefs name with
    -- the index is taken as it is, without asking the native side whether it is still open
    | some ref =>
      (.ret .object [],
        { s with dbs := s.dbs ++
            [{ ref := ref, obj := (dbAt s.native ref).map Db.id, gen := s.native.gen,
               name := name }] })
    | none =>
      match leveldbOpen s.native faults (.string name) (.bool createIfMissing)
          (.bool errorIfExists) with
      | (.ret ref on, w) =>
        (.ret .object on,
          { s with
            native := w
            openRefs := (name, ref) :: s.openRefs
            dbs := s.dbs ++
              [{ ref := ref, obj := (dbAt w ref).map Db.id, gen := w.gen, name := name }] })
      | (out, w) => (out, { s with native := w })

/-- `LevelDB.close`: every name bound to the index is forgotten. -/
def close (s : Process) (i : ℕ) (db : LevelDB) : Outcome × Process :=
  match leveldbClose s.native db.ref with
  -- other wrappers of the same index keep it, and are told closed by `openRefs`
  | (.ret _ on, w) =>
    (.ret .undefined on,
      { s with
        native := w
        openRefs := s.openRefs.filter fun e => e.2 ≠ db.ref
        dbs := s.dbs.set i { db with ref := .undefined } })
  | (out, w) => (out, { s with native := w })

/-- `LevelDB.closed`. -/
def closed (s : Process) (db : LevelDB) : Bool :=
  if db.ref = .undefined then true
  else !((s.openRefs.map Prod.snd).contains db.ref)

def newIterator (s : Process) (db : LevelDB) : Outcome × Process :=
  if db.ref = .undefined then
    (.throw (.error
      (ascii "LevelDB.newIterator: could not create iterator, the DB was closed!")), s)
  else
    match leveldbNewIterator s.native db.ref with
    | (.ret ref on, w) =>
      (.ret .object on,
        { s with
          native := w
          iterators := s.iterators ++
            [{ ref := ref, obj := ((refIdx ref).bind w.iterators.get).map Iterator.id,
               gen := w.gen, dbId := (dbAt w db.ref).map Db.id }] })
    | (out, w) => (out, { s with native := w })

def merge (s : Process) (faults : Faults) (db src : LevelDB) (batchMerge : Bool) :
    Outcome × Process :=
  if db.ref = .undefined then
    (.throw (.error
      (ascii "LevelDB.merge: could not merge, the dest DB (this) was closed!")), s)
  else if src.ref = .undefined then
    (.throw (.error
      (ascii "LevelDB.merge: could not merge, the source DB was closed!")), s)
  else
    s.forwardAs .undefined
      (leveldbMerge s.native faults db.ref src.ref (.bool batchMerge))

/-- `LevelDB.destroyDB`. -/
def destroyDB (s : Process) (faults : Faults) (name : JsString) (force : Bool) :
    Outcome × Process :=
  match openRef s.openRefs name with
  | none => s.forwardAs .undefined (leveldbDestroy s.native faults (.string name))
  | some ref =>
    if force then
      match leveldbClose s.native ref with
      -- here only the name is forgotten, not every name bound to the index
      | (.ret _ _, w) =>
        forwardAs { s with native := w, openRefs := s.openRefs.filter fun e => e.1 ≠ name }
          .undefined (leveldbDestroy w faults (.string name))
      | (out, w) => (out, { s with native := w })
    else (.throw (.error (ascii "DB is open! Cannot destroy")), s)

/-! ## `LevelDBIterator` and `LevelDBWriteBatch` -/

/-- The methods of `LevelDBIterator`. -/
def iteratorCall (s : Process) (faults : Faults) (i : ℕ) (it : LevelDBIterator) :
    IteratorMethod → Outcome × Process
  | .seekToFirst =>
    s.forwardAs .object (leveldbIteratorSeekToFirst s.native faults it.ref)
  | .seekLast =>
    s.forwardAs .object (leveldbIteratorSeekToLast s.native faults it.ref)
  | .seek target =>
    s.forwardAs .object (leveldbIteratorSeek s.native faults it.ref target)
  | .valid => s.forward (leveldbIteratorValid s.native it.ref)
  | .next =>
    s.forwardAs .undefined (leveldbIteratorNext s.native faults it.ref)
  | .prev =>
    s.forwardAs .undefined (leveldbIteratorPrev s.native faults it.ref)
  | .close =>
    match leveldbIteratorDelete s.native it.ref with
    | (.ret _ on, w) =>
      (.ret .undefined on,
        { s with native := w, iterators := s.iterators.set i { it with ref := .number (-1) } })
    | (out, w) => (out, { s with native := w })
  | .keyStr => s.forward (leveldbIteratorKeyStr s.native it.ref)
  | .keyBuf => s.forward (leveldbIteratorKeyBuf s.native it.ref)
  | .valueStr => s.forward (leveldbIteratorValueStr s.native it.ref)
  | .valueBuf => s.forward (leveldbIteratorValueBuf s.native it.ref)
  | .compareKey target => s.forward (leveldbIteratorKeyCompare s.native it.ref target)

def newWriteBatch (s : Process) : Outcome × Process :=
  match leveldbNewWriteBatch s.native with
  | (.ret ref on, w) =>
    (.ret .object on,
      { s with
        native := w
        batches := s.batches ++
          [{ ref := ref, obj := ((refIdx ref).bind w.batches.get).map WriteBatch.id,
             gen := w.gen }] })
  | (out, w) => (out, { s with native := w })

def batchClose (s : Process) (i : ℕ) (b : LevelDBWriteBatch) : Outcome × Process :=
  match leveldbWriteBatchClose s.native b.ref with
  | (.ret _ on, w) =>
    (.ret .undefined on,
      { s with native := w, batches := s.batches.set i { b with ref := .number (-1) } })
  | (out, w) => (out, { s with native := w })

/-! ## Steps -/

/-- A method called on wrapper number `i` of a class. -/
def on {α : Type} (s : Process) (wrappers : List α) (i : ℕ)
    (method : α → Outcome × Process) : Outcome × Process :=
  match wrappers[i]? with
  | none => (.throw .typeError, s)
  | some a => method a

/-- One call of the application. -/
def step (s : Process) : Call × Faults → Outcome × Process
  | (.newLevelDB name c e, f) => s.newLevelDB f name c e
  | (.close i, _) => s.on s.dbs i fun db => s.close i db
  | (.closed i, _) => s.on s.dbs i fun db => (.ret (.bool (s.closed db)) [], s)
  | (.put i k v, f) => s.on s.dbs i fun db =>
      s.forwardAs .undefined (leveldbPut s.native f db.ref k v)
  | (.delete i k, f) => s.on s.dbs i fun db =>
      s.forwardAs .undefined (leveldbDelete s.native f db.ref k)
  | (.getStr i k, f) => s.on s.dbs i fun db => s.forward (leveldbGetStr s.native f db.ref k)
  | (.getBuf i k, f) => s.on s.dbs i fun db => s.forward (leveldbGetBuf s.native f db.ref k)
  | (.newIterator i, _) => s.on s.dbs i fun db => s.newIterator db
  | (.write i j, f) => s.on s.dbs i fun db => s.on s.batches j fun b =>
      s.forwardAs .undefined (leveldbWriteWriteBatch s.native f db.ref b.ref)
  | (.merge i j batchMerge, f) => s.on s.dbs i fun db => s.on s.dbs j fun src =>
      s.merge f db src batchMerge
  | (.destroyDB name force, f) => s.destroyDB f name force
  | (.iterator i m, f) => s.on s.iterators i fun it => s.iteratorCall f i it m
  | (.newWriteBatch, _) => s.newWriteBatch
  | (.batchPut i k v, _) => s.on s.batches i fun b =>
      s.forwardAs .undefined (leveldbWriteBatchPut s.native b.ref k v)
  | (.batchDelete i k, _) => s.on s.batches i fun b =>
      s.forwardAs .undefined (leveldbWriteBatchDelete s.native b.ref k)
  | (.batchClose i, _) => s.on s.batches i fun b => s.batchClose i b

/-! ## Evaluation of the module -/

/-- What `LeveldbModule.install()` does when `index.ts` is evaluated. -/
inductive InstallResult where
  | installed
  | returnedFalse
  | threw (message : Bytes)
deriving DecidableEq

/-- Evaluating `index.ts`; `openRefs` and the wrappers survive on an old runtime. -/
def evalModule (s : Process) (documentDir : Bytes) : InstallResult → Process
  | .installed =>
    { s with native := installLeveldb s.native documentDir, nativeModuleInitError := none }
  -- the registries are left as they are, and so is what the old host functions refer to
  | .returnedFalse =>
    { s with
      nativeModuleInitError :=
        some (ascii "The native Leveldb JSI bindings could not be installed!") }
  | .threw message => { s with nativeModuleInitError := some message }

/-- A JavaScript runtime on which nothing has been evaluated yet. -/
def fresh (w : World) : Process :=
  { native := w, openRefs := [], nativeModuleInitError := none, dbs := [], iterators := [],
    batches := [] }

/-- The state in which an application starts: a fresh runtime with the bindings installed. -/
def start (disk : Dir → Option Content) (documentDir : Bytes) : Process :=
  (fresh (World.initial disk)).evalModule documentDir .installed

/-- The state after `calls`, made by an application on an empty disk with nothing failing. -/
def afterCalls (calls : List Call) : Process :=
  Machine.run step (start (fun _ => none) (ascii "/d")) (calls.map fun c => (c, {}))

end Process

end RnLeveldb
