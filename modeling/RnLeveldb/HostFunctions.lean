import RnLeveldb.LevelDb
import RnLeveldb.Lib.SlotTable

/-!
# The host functions of `react-native-leveldb.cpp`

The native side of the binding: the three process-wide registries `dbs`, `iterators` and
`batches`, and one definition for each host function `installLeveldb` puts on the global
object. A host function maps the native state, what LevelDB reports during the call and its
arguments to an outcome and the next native state.

Two things are recorded that the C++ code does not store. Objects have an identity, drawn
from `nextId`, so that two objects that occupy one slot at different times can be told
apart; and an outcome `ret` lists the objects the call acted on.
-/

namespace RnLeveldb

/-! ## Outcomes -/

/-- The host functions. -/
inductive HostFn where
  | leveldbOpen
  | leveldbDestroy
  | leveldbClose
  | leveldbPut
  | leveldbDelete
  | leveldbNewIterator
  | leveldbIteratorSeekToFirst
  | leveldbIteratorSeekToLast
  | leveldbIteratorSeek
  | leveldbIteratorValid
  | leveldbIteratorPrev
  | leveldbIteratorNext
  | leveldbIteratorDelete
  | leveldbIteratorKeyStr
  | leveldbIteratorKeyCompare
  | leveldbIteratorValueStr
  | leveldbWriteWriteBatch
  | leveldbWriteBatchPut
  | leveldbWriteBatchDelete
  | leveldbWriteBatchClose
  | leveldbGetStr
  | leveldbIteratorKeyBuf
  | leveldbIteratorValueBuf
  | leveldbGetBuf
  | leveldbMerge
deriving DecidableEq

def HostFn.text : HostFn → String
  | .leveldbOpen => "leveldbOpen"
  | .leveldbDestroy => "leveldbDestroy"
  | .leveldbClose => "leveldbClose"
  | .leveldbPut => "leveldbPut"
  | .leveldbDelete => "leveldbDelete"
  | .leveldbNewIterator => "leveldbNewIterator"
  | .leveldbIteratorSeekToFirst => "leveldbIteratorSeekToFirst"
  | .leveldbIteratorSeekToLast => "leveldbIteratorSeekToLast"
  | .leveldbIteratorSeek => "leveldbIteratorSeek"
  | .leveldbIteratorValid => "leveldbIteratorValid"
  | .leveldbIteratorPrev => "leveldbIteratorPrev"
  | .leveldbIteratorNext => "leveldbIteratorNext"
  | .leveldbIteratorDelete => "leveldbIteratorDelete"
  | .leveldbIteratorKeyStr => "leveldbIteratorKeyStr"
  | .leveldbIteratorKeyCompare => "leveldbIteratorKeyCompare"
  | .leveldbIteratorValueStr => "leveldbIteratorValueStr"
  | .leveldbWriteWriteBatch => "leveldbWriteWriteBatch"
  | .leveldbWriteBatchPut => "leveldbWriteBatchPut"
  | .leveldbWriteBatchDelete => "leveldbWriteBatchDelete"
  | .leveldbWriteBatchClose => "leveldbWriteBatchClose"
  | .leveldbGetStr => "leveldbGetStr"
  | .leveldbIteratorKeyBuf => "leveldbIteratorKeyBuf"
  | .leveldbIteratorValueBuf => "leveldbIteratorValueBuf"
  | .leveldbGetBuf => "leveldbGetBuf"
  | .leveldbMerge => "leveldbMerge"

/-- Why a reference names no object. -/
inductive LookupErr where
  | notANumber
  | outOfRange
  | emptySlot
deriving DecidableEq

/-- The texts of `valueToDb`. -/
def LookupErr.dbText : LookupErr → String
  | .notANumber => "valueToDb/param-not-a-number"
  | .outOfRange => "valueToDb/idx-out-of-range"
  | .emptySlot => "valueToDb/db-closed"

/-- The texts of `valueToWriteBatch`. -/
def LookupErr.batchText : LookupErr → String
  | .notANumber => "valueToWriteBatch/param-not-a-number"
  | .outOfRange => "valueToWriteBatch/idx-out-of-range"
  | .emptySlot => "valueToWriteBatch/null"

/-- What follows the function name in the message of a `jsi::JSError`. -/
inductive Reason where
  | invalidParams
  | db (e : LookupErr)
  | batch (e : LookupErr)
  | mergeDst (e : LookupErr)
  | mergeSrc (e : LookupErr)
  | batchMergeNotABoolean
  | dbIdxOutOfBounds
  | idxOutOfBounds
  | status (f : Failure)
deriving DecidableEq

def Reason.text : Reason → Bytes
  | .invalidParams => ascii "invalid-params"
  | .db e => ascii e.dbText
  | .batch e => ascii e.batchText
  | .mergeDst e => ascii "dst/" ++ ascii e.dbText
  | .mergeSrc e => ascii "src/" ++ ascii e.dbText
  | .batchMergeNotABoolean => ascii "batchMerge-param-not-a-boolean"
  | .dbIdxOutOfBounds => ascii "db-idx-out-of-bounds"
  | .idxOutOfBounds => ascii "idx-out-of-bounds"
  | .status f => f.toString

/-- A JavaScript exception: raised by a host function, by `index.ts` itself, or by the
engine when a method is called on something that is not an object. -/
inductive JsError where
  | host (fn : HostFn) (reason : Reason)
  | error (message : Bytes)
  | typeError
deriving DecidableEq

/-- The `message` of the exception. -/
def JsError.message : JsError → Bytes
  | .host fn r => ascii fn.text ++ ascii "/" ++ r.text
  | .error m => m
  | .typeError => ascii "undefined is not an object"

/-- The exceptions that report a failing storage call. -/
def JsError.IsStorage : JsError → Prop
  | .host _ (.status _) => True
  | _ => False

/-- Undefined behaviour the C++ code can run into. -/
inductive Crash where
  /-- A method is called through the null pointer of an empty slot. -/
  | nullPointer
  /-- A `REQUIRES: Valid()` of `leveldb::Iterator` does not hold. -/
  | notValid
  /-- An iterator is used whose `leveldb::DB` has been deleted. -/
  | danglingDb
deriving DecidableEq

/-- The registries. -/
inductive Kind where
  | db
  | iterator
  | batch
deriving DecidableEq

/-- An object of one of the registries. -/
structure Obj where
  kind : Kind
  id : ℕ
deriving DecidableEq

/-- How a call ends: it returns a value, having acted on the objects `on`; it throws; or the
process is lost. -/
inductive Outcome where
  | ret (v : JsValue) (on : List Obj)
  | throw (e : JsError)
  | crash (c : Crash)
deriving DecidableEq

/-! ## The native state -/

structure World where
  /-- As the closures of the host functions captured it, with its final slash. -/
  documentDir : Bytes
  dbs : SlotTable Db
  iterators : SlotTable Iterator
  batches : SlotTable WriteBatch
  /-- The database in each directory. -/
  disk : Dir → Option Content
  /-- `PosixLockTable::locked_files_`. -/
  locks : List Bytes
  nextId : ℕ
  /-- How often the registries have been cleared. -/
  gen : ℕ

namespace World

/-! ## LevelDB on this state -/

def content (w : World) (d : Dir) : Content := (w.disk d).getD SortedMap.empty

/-- `DB::Write`; `DB::Put` and `DB::Delete` are batches of one record. -/
def write (w : World) (db : Db) (ops : List BatchOp) : WriteOutcome → Status × World
  | .ok => (.ok, { w with
      disk := Function.update w.disk db.dir (some (applyBatch (w.content db.dir) ops)) })
  | .fail f true => (.fail f, { w with
      disk := Function.update w.disk db.dir (some (applyBatch (w.content db.dir) ops)) })
  | .fail f false => (.fail f, w)

/-- `DB::Get`. -/
def read (w : World) (db : Db) (key : Bytes) : Option Failure → Except Failure Bytes
  | some f => .error f
  | none =>
    match (w.content db.dir).get key with
    | some v => .ok v
    | none => .error { code := .notFound, msg := [] }

/-- The status of a second `LockFile` on a path. -/
def lockHeld (path : Bytes) : Failure :=
  { code := .ioError, msg := ascii "lock " ++ lockFileName path,
    msg2 := ascii "already held by process" }

/-- A database opened on `path` with content `c`, holding its lock. -/
def opened (w : World) (name : JsString) (path : Bytes) (c : Content) : Db × World :=
  ({ id := w.nextId, name := name, path := path },
    { w with
      disk := Function.update w.disk (resolve path) (some c)
      locks := lockFileName path :: w.locks
      nextId := w.nextId + 1 })

/-- `DB::Open`: the lock first, then whether the database exists. -/
def openDb (w : World) (faults : Faults) (name : JsString) (path : Bytes)
    (createIfMissing errorIfExists : Bool) : Except Failure (Db × World) :=
  if lockFileName path ∈ w.locks then .error (lockHeld path)
  else
    match faults.opening with
    | some f => .error f
    | none =>
      match w.disk (resolve path) with
      | none =>
        if createIfMissing then .ok (w.opened name path SortedMap.empty)
        else .error { code := .invalidArgument, msg := path,
                      msg2 := ascii "does not exist (create_if_missing is false)" }
      | some c =>
        if errorIfExists then .error { code := .invalidArgument, msg := path,
                                       msg2 := ascii "exists (error_if_exists is true)" }
        else .ok (w.opened name path c)

/-- `DestroyDB`: no error in case the directory does not exist. -/
def destroyDb (w : World) (faults : Faults) (path : Bytes) : Status × World :=
  match w.disk (resolve path) with
  -- `GetChildren` fails before any lock is asked for
  | none => (.ok, w)
  | some _ =>
    if lockFileName path ∈ w.locks then (.fail (lockHeld path), w)
    else
      match faults.destroying with
      | none => (.ok, { w with disk := Function.update w.disk (resolve path) none })
      -- the files are deleted one by one, and the first error does not stop the others
      | some (f, rest) =>
        (.fail f, { w with disk := Function.update w.disk (resolve path) rest })

/-- Slot `i` of `dbs` is reset: the `DB` is deleted and its lock released. -/
def closeSlot (w : World) (i : ℕ) (db : Db) : World :=
  { w with
    dbs := w.dbs.reset i
    locks := w.locks.filter (· ≠ lockFileName db.path) }

/-- The database an iterator was created from is still open. -/
def hasDb (w : World) (it : Iterator) : Bool :=
  match w.dbs.get it.slot with
  | some db => db.id = it.dbId
  | none => false

end World

/-! ## References -/

/-- The lookup shared by `valueToDb`, `valueToIterator` and `valueToWriteBatch`. -/
def valueToSlot {α : Type} (t : SlotTable α) : JsValue → Except LookupErr α
  | .number idx =>
    if idx < 0 ∨ (t.size : ℤ) ≤ idx then .error .outOfRange
    else
      match t.get idx.toNat with
      | none => .error .emptySlot
      | some a => .ok a
  | _ => .error .notANumber

def valueToDb (w : World) (value : JsValue) : Except LookupErr Db := valueToSlot w.dbs value

/-- The null pointer stands for every reason. -/
def valueToIterator (w : World) (value : JsValue) : Option Iterator :=
  (valueToSlot w.iterators value).toOption

def valueToWriteBatch (w : World) (value : JsValue) : Except LookupErr WriteBatch :=
  valueToSlot w.batches value

/-- `(int)value.getNumber()`, once the lookup has succeeded. -/
def slotOf (value : JsValue) : ℕ := (refIdx value).getD 0

/-- The identity of the object a reference finds in a registry. -/
def World.objAt (w : World) (kind : Kind) (ref : JsValue) : Option ℕ :=
  match kind with
  | .db => ((refIdx ref).bind w.dbs.get).map Db.id
  | .iterator => ((refIdx ref).bind w.iterators.get).map Iterator.id
  | .batch => ((refIdx ref).bind w.batches.get).map WriteBatch.id

/-! ## Databases -/

section

variable (w : World) (faults : Faults)

/-- A failing open leaves an empty slot behind. -/
def leveldbOpen (name createIfMissing errorIfExists : JsValue) : Outcome × World :=
  match name, createIfMissing, errorIfExists with
  | .string name, .bool createIfMissing, .bool errorIfExists =>
    match w.openDb faults name (w.documentDir ++ utf8 name) createIfMissing errorIfExists with
    | .error f => (.throw (.host .leveldbOpen (.status f)), { w with dbs := w.dbs.push none })
    | .ok (db, w') =>
      (.ret (.number w'.dbs.size) [⟨.db, db.id⟩], { w' with dbs := w'.dbs.push (some db) })
  | _, _, _ => (.throw (.host .leveldbOpen .invalidParams), w)

def leveldbDestroy (name : JsValue) : Outcome × World :=
  match name with
  | .string name =>
    match w.destroyDb faults (w.documentDir ++ utf8 name) with
    | (.ok, w') => (.ret .null [], w')
    | (.fail f, w') => (.throw (.host .leveldbDestroy (.status f)), w')
  | _ => (.throw (.host .leveldbDestroy .invalidParams), w)

def leveldbClose (ref : JsValue) : Outcome × World :=
  match ref with
  | .number idx =>
    match valueToSlot w.dbs (.number idx) with
    -- one text for an index out of range and for an empty slot
    | .error _ => (.throw (.host .leveldbClose .dbIdxOutOfBounds), w)
    | .ok db => (.ret .null [⟨.db, db.id⟩], w.closeSlot idx.toNat db)
  | _ => (.throw (.host .leveldbClose .invalidParams), w)

/-- Every data operation starts with the lookup of its database. -/
def withDb (fn : HostFn) (ref : JsValue) (act : Db → Outcome × World) : Outcome × World :=
  match valueToDb w ref with
  | .error e => (.throw (.host fn (.db e)), w)
  | .ok db => act db

/-- A storage call whose status is reported. -/
def reportStatus (fn : HostFn) (on : List Obj) : Status × World → Outcome × World
  | (.ok, w') => (.ret .null on, w')
  | (.fail f, w') => (.throw (.host fn (.status f)), w')

def leveldbPut (ref k v : JsValue) : Outcome × World :=
  withDb w .leveldbPut ref fun db =>
    match valueToString k, valueToString v with
    | some key, some value =>
      reportStatus .leveldbPut [⟨.db, db.id⟩] (w.write db [.put key value] (faults.writes 0))
    | _, _ => (.throw (.host .leveldbPut .invalidParams), w)

/-- A status that is NotFound counts as success. -/
def leveldbDelete (ref k : JsValue) : Outcome × World :=
  withDb w .leveldbDelete ref fun db =>
    match valueToString k with
    | none => (.throw (.host .leveldbDelete .invalidParams), w)
    | some key =>
      match w.write db [.delete key] (faults.writes 0) with
      | (.ok, w') => (.ret .null [⟨.db, db.id⟩], w')
      | (.fail f, w') =>
        if f.code = .notFound then (.ret .null [⟨.db, db.id⟩], w')
        else (.throw (.host .leveldbDelete (.status f)), w')

/-- `leveldbGetStr` and `leveldbGetBuf` differ in how they hand out the value. -/
def getValue (fn : HostFn) (make : Bytes → JsValue) (ref k : JsValue) : Outcome × World :=
  withDb w fn ref fun db =>
    match valueToString k with
    | none => (.throw (.host fn .invalidParams), w)
    | some key =>
      match w.read db key faults.reading with
      | .ok value => (.ret (make value) [⟨.db, db.id⟩], w)
      | .error f =>
        if f.code = .notFound then (.ret .null [⟨.db, db.id⟩], w)
        else (.throw (.host fn (.status f)), w)

def leveldbGetStr (ref k : JsValue) : Outcome × World :=
  getValue w faults .leveldbGetStr (fun b => .string (fromUtf8 b)) ref k

def leveldbGetBuf (ref k : JsValue) : Outcome × World :=
  getValue w faults .leveldbGetBuf .arrayBuffer ref k

/-! ## Iterators -/

def leveldbNewIterator (ref : JsValue) : Outcome × World :=
  withDb w .leveldbNewIterator ref fun db =>
    (.ret (.number w.iterators.size) [⟨.db, db.id⟩],
      { w with
        iterators := w.iterators.push (some
          { id := w.nextId, slot := slotOf ref, dbId := db.id, snapshot := w.content db.dir })
        nextId := w.nextId + 1 })

def withIterator (fn : HostFn) (ref : JsValue) (act : Iterator → Outcome × World) :
    Outcome × World :=
  match valueToIterator w ref with
  | none => (.throw (.host fn .invalidParams), w)
  | some it => act it

/-- The iterator behind `ref` is moved; only a valid one can be moved by `Next` and `Prev`. -/
def moveIterator (ref : JsValue) (it : Iterator) (moved : Option Iterator) : Outcome × World :=
  if w.hasDb it then
    match moved with
    | none => (.crash .notValid, w)
    | some it' =>
      (.ret .null [⟨.iterator, it.id⟩],
        { w with iterators := w.iterators.update (slotOf ref) it' })
  else (.crash .danglingDb, w)

def leveldbIteratorSeekToFirst (ref : JsValue) : Outcome × World :=
  withIterator w .leveldbIteratorSeekToFirst ref fun it =>
    moveIterator w ref it (some (it.seekToFirst (faults.moves 0)))

def leveldbIteratorSeekToLast (ref : JsValue) : Outcome × World :=
  withIterator w .leveldbIteratorSeekToLast ref fun it =>
    moveIterator w ref it (some (it.seekToLast (faults.moves 0)))

def leveldbIteratorSeek (ref target : JsValue) : Outcome × World :=
  withIterator w .leveldbIteratorSeek ref fun it =>
    match valueToString target with
    | none => (.throw (.host .leveldbIteratorSeek .invalidParams), w)
    | some t => moveIterator w ref it (some (it.seek t (faults.moves 0)))

def leveldbIteratorPrev (ref : JsValue) : Outcome × World :=
  withIterator w .leveldbIteratorPrev ref fun it =>
    moveIterator w ref it (it.prev (faults.moves 0))

def leveldbIteratorNext (ref : JsValue) : Outcome × World :=
  withIterator w .leveldbIteratorNext ref fun it =>
    moveIterator w ref it (it.next (faults.moves 0))

/-- `Valid()` reads a member of the iterator only; the status is not looked at. -/
def leveldbIteratorValid (ref : JsValue) : Outcome × World :=
  withIterator w .leveldbIteratorValid ref fun it =>
    (.ret (.bool it.valid) [⟨.iterator, it.id⟩], w)

def leveldbIteratorDelete (ref : JsValue) : Outcome × World :=
  withIterator w .leveldbIteratorDelete ref fun it =>
    if w.hasDb it then
      (.ret .null [⟨.iterator, it.id⟩], { w with iterators := w.iterators.reset (slotOf ref) })
    else (.crash .danglingDb, w)

/-- What is read from the current entry: its key or its value, as a string or as a buffer. -/
def readEntry (it : Iterator) (read : Bytes × Bytes → JsValue) : Outcome × World :=
  if w.hasDb it then
    match it.entry with
    | none => (.crash .notValid, w)
    | some e => (.ret (read e) [⟨.iterator, it.id⟩], w)
  else (.crash .danglingDb, w)

def leveldbIteratorKeyStr (ref : JsValue) : Outcome × World :=
  withIterator w .leveldbIteratorKeyStr ref fun it =>
    readEntry w it fun e => .string (fromUtf8 e.1)

def leveldbIteratorValueStr (ref : JsValue) : Outcome × World :=
  withIterator w .leveldbIteratorValueStr ref fun it =>
    readEntry w it fun e => .string (fromUtf8 e.2)

def leveldbIteratorKeyBuf (ref : JsValue) : Outcome × World :=
  withIterator w .leveldbIteratorKeyBuf ref fun it =>
    readEntry w it fun e => .arrayBuffer e.1

def leveldbIteratorValueBuf (ref : JsValue) : Outcome × World :=
  withIterator w .leveldbIteratorValueBuf ref fun it =>
    readEntry w it fun e => .arrayBuffer e.2

/-- `memcmp` of the first `n` bytes, as a sign. -/
def memcmp : Bytes → Bytes → ℕ → ℤ
  | a :: as, b :: bs, n + 1 => if a < b then -1 else if b < a then 1 else memcmp as bs n
  | _, _, _ => 0

/-- `Slice::compare`. -/
def sliceCompare (a b : Bytes) : ℤ :=
  let minLen := if a.length < b.length then a.length else b.length
  let r := memcmp a b minLen
  if r = 0 then
    if a.length < b.length then -1 else if b.length < a.length then 1 else r
  else r

/-- Unlike its siblings this function tests the pointer only after it has used it. -/
def leveldbIteratorKeyCompare (ref target : JsValue) : Outcome × World :=
  match valueToString target with
  | none => (.throw (.host .leveldbIteratorKeyCompare .invalidParams), w)
  | some t =>
    match valueToIterator w ref with
    -- `iterator->key()` comes before the test that would have thrown
    | none => (.crash .nullPointer, w)
    | some it => readEntry w it fun e => .number (sliceCompare e.1 t)

/-! ## Write batches -/

/-- Reuse cleared slots to avoid unbounded growth. -/
def leveldbNewWriteBatch : Outcome × World :=
  let (i, batches) := w.batches.alloc { id := w.nextId, ops := [] }
  (.ret (.number i) [⟨.batch, w.nextId⟩], { w with batches := batches, nextId := w.nextId + 1 })

def withBatch (fn : HostFn) (ref : JsValue) (act : WriteBatch → Outcome × World) :
    Outcome × World :=
  match valueToWriteBatch w ref with
  | .error e => (.throw (.host fn (.batch e)), w)
  | .ok b => act b

def leveldbWriteWriteBatch (ref batchRef : JsValue) : Outcome × World :=
  withDb w .leveldbWriteWriteBatch ref fun db =>
    withBatch w .leveldbWriteWriteBatch batchRef fun b =>
      reportStatus .leveldbWriteWriteBatch [⟨.db, db.id⟩, ⟨.batch, b.id⟩]
        (w.write db b.ops (faults.writes 0))

/-- A record is appended to the batch behind `ref`. -/
def appendOp (ref : JsValue) (b : WriteBatch) (op : BatchOp) : Outcome × World :=
  (.ret .null [⟨.batch, b.id⟩],
    { w with batches := w.batches.update (slotOf ref) { b with ops := b.ops ++ [op] } })

def leveldbWriteBatchPut (ref k v : JsValue) : Outcome × World :=
  withBatch w .leveldbWriteBatchPut ref fun b =>
    match valueToString k, valueToString v with
    | some key, some value => appendOp w ref b (.put key value)
    | _, _ => (.throw (.host .leveldbWriteBatchPut .invalidParams), w)

def leveldbWriteBatchDelete (ref k : JsValue) : Outcome × World :=
  withBatch w .leveldbWriteBatchDelete ref fun b =>
    match valueToString k with
    | some key => appendOp w ref b (.delete key)
    | none => (.throw (.host .leveldbWriteBatchDelete .invalidParams), w)

/-- The slot is tested a second time before it is reset. -/
def leveldbWriteBatchClose (ref : JsValue) : Outcome × World :=
  withBatch w .leveldbWriteBatchClose ref fun b =>
    match w.batches.get (slotOf ref) with
    | none => (.throw (.host .leveldbWriteBatchClose .idxOutOfBounds), w)
    | some _ =>
      (.ret .null [⟨.batch, b.id⟩], { w with batches := w.batches.reset (slotOf ref) })

/-! ## Merge -/

/-- The loop `for (itSrc->SeekToFirst(); itSrc->Valid(); itSrc->Next())` from its `n`-th
iteration on. The status of `dbDst->Put` is dropped. -/
def mergeLoop (dst : Db) (batchMerge : Bool) :
    ℕ → ℕ → Iterator → World → List BatchOp → Iterator × World × List BatchOp
  -- not reached: the fuel exceeds the number of entries, and each turn passes one
  | 0, _, it, w, batch => (it, w, batch)
  | fuel + 1, n, it, w, batch =>
    match it.entry, it.next (faults.moves (n + 1)) with
    | some (k, v), some it' =>
      if batchMerge then mergeLoop dst batchMerge fuel (n + 1) it' w (batch ++ [.put k v])
      else
        mergeLoop dst batchMerge fuel (n + 1) it'
          (w.write dst [.put k v] (faults.writes n)).2 batch
    | _, _ => (it, w, batch)

/-- The status of the final `dbDst->Write` is dropped too. -/
def leveldbMerge (dstRef srcRef batchMerge : JsValue) : Outcome × World :=
  match valueToDb w dstRef with
  | .error e => (.throw (.host .leveldbMerge (.mergeDst e)), w)
  | .ok dst =>
    match valueToDb w srcRef with
    | .error e => (.throw (.host .leveldbMerge (.mergeSrc e)), w)
    | .ok src =>
      match batchMerge with
      | .bool batchMerge =>
        -- owned by the call, so it takes no slot of `iterators`
        let itSrc : Iterator :=
          { id := w.nextId, slot := slotOf srcRef, dbId := src.id, snapshot := w.content src.dir }
        let (it, w', batch) := mergeLoop faults dst batchMerge (itSrc.entries.length + 1) 0
          (itSrc.seekToFirst (faults.moves 0)) w []
        match it.status with
        -- what was put one by one stays
        | .fail f => (.throw (.host .leveldbMerge (.status f)), w')
        | .ok =>
          (.ret .null [⟨.db, dst.id⟩, ⟨.db, src.id⟩],
            if batchMerge then (w'.write dst batch (faults.writes 0)).2 else w')
      | _ => (.throw (.host .leveldbMerge .batchMergeNotABoolean), w)

end

/-! ## Installation -/

/-- The iterators go first, then the databases, which releases their locks. -/
def cleanupLeveldb (w : World) : World :=
  { w with
    iterators := SlotTable.empty
    dbs := SlotTable.empty
    batches := SlotTable.empty
    locks := w.locks.filter fun l =>
      !(w.dbs.slots.any fun slot => slot.any fun db => lockFileName db.path = l)
    gen := w.gen + 1 }

/-- What `iterators.clear()` runs into when the database of one of them was closed before:
deleting an iterator uses its database. -/
def cleanupCrash (w : World) : Option Crash :=
  if w.iterators.slots.all fun slot => slot.all w.hasDb then none else some .danglingDb

def installLeveldb (w : World) (documentDir : Bytes) : World :=
  { cleanupLeveldb w with
    documentDir := if documentDir.getLast? = some slash then documentDir
      else documentDir ++ [slash] }

/-- A process in which the library has been loaded and nothing installed yet. -/
def World.initial (disk : Dir → Option Content) : World :=
  { documentDir := [], dbs := SlotTable.empty, iterators := SlotTable.empty,
    batches := SlotTable.empty, disk := disk, locks := [], nextId := 0, gen := 0 }

end RnLeveldb
