import RnLeveldb.Js
import RnLeveldb.Lib.SortedMap

/-!
# LevelDB as the binding sees it

The storage engine below the host functions: statuses, batches, iterators, and the paths
under which a database directory and its lock file are known. Its failures are inputs: a
`Faults` value says what LevelDB reports during one call, so a statement over all `Faults`
is a statement over every failure pattern.

Nothing is assumed of a storage call that fails, except that it is applied whole or not at
all (`WriteOutcome.fail`).
-/

namespace RnLeveldb

/-! ## Statuses -/

inductive Code where
  | notFound
  | corruption
  | notSupported
  | invalidArgument
  | ioError
deriving DecidableEq

/-- A status that is not OK. `Status` keeps the two parts of the message it was built from
joined by a colon. -/
structure Failure where
  code : Code
  msg : Bytes
  msg2 : Bytes := []
deriving DecidableEq

inductive Status where
  | ok
  | fail (f : Failure)
deriving DecidableEq

def Code.type : Code → String
  | .notFound => "NotFound: "
  | .corruption => "Corruption: "
  | .notSupported => "Not implemented: "
  | .invalidArgument => "Invalid argument: "
  | .ioError => "IO error: "

/-- `Status::ToString` of a status that is not OK. -/
def Failure.toString (f : Failure) : Bytes :=
  ascii f.code.type ++ f.msg ++ if f.msg2.isEmpty then [] else ascii ": " ++ f.msg2

/-! ## Contents and batches -/

/-- What a database holds, in key order. -/
abbrev Content := SortedMap Bytes Bytes

/-- A record of a `WriteBatch`. -/
inductive BatchOp where
  | put (key value : Bytes)
  | delete (key : Bytes)
deriving DecidableEq

def BatchOp.apply (c : Content) : BatchOp → Content
  | .put k v => c.insert k v
  | .delete k => c.erase k

/-- The records of a batch take effect in the order in which they were added. -/
def applyBatch (c : Content) (ops : List BatchOp) : Content := ops.foldl BatchOp.apply c

/-- What the value of `key` is after a record, if it was `old` before. -/
def BatchOp.on (key : Bytes) (old : Option Bytes) : BatchOp → Option Bytes
  | .put k v => if k = key then some v else old
  | .delete k => if k = key then none else old

/-- The last record on a key decides. -/
lemma get_applyBatch (c : Content) (ops : List BatchOp) (key : Bytes) :
    (applyBatch c ops).get key = ops.foldl (BatchOp.on key) (c.get key) := by
  induction ops generalizing c with
  | nil => rfl
  | cons op ops ih =>
    have hop : (op.apply c).get key = op.on key (c.get key) := by
      cases op with
      | put k v =>
        rw [BatchOp.apply, SortedMap.get_insert, BatchOp.on]
        congr
      | delete k =>
        rw [BatchOp.apply, SortedMap.get_erase, BatchOp.on]
        congr
    show (applyBatch (op.apply c) ops).get key = _
    rw [ih, hop]
    rfl

/-- A `leveldb::WriteBatch`; `id` is the identity of the C++ object. -/
structure WriteBatch where
  id : ℕ
  ops : List BatchOp
deriving DecidableEq

/-! ## Directories and lock files -/

/-- The byte `/`. -/
def slash : UInt8 := 0x2F

/-- A directory, as the segments of its absolute path. -/
abbrev Dir := List Bytes

/-- One segment of a path, resolved against the directory reached so far. -/
def resolveSegment (d : Dir) (seg : Bytes) : Dir :=
  if seg = [] ∨ seg = ascii "." then d
  else if seg = ascii ".." then d.dropLast
  else d ++ [seg]

/-- The directory an absolute path leads to when there are no symbolic links. -/
def resolve (path : Bytes) : Dir := (path.splitOn slash).foldl resolveSegment []

/-- `LockFileName`. -/
def lockFileName (dbname : Bytes) : Bytes := dbname ++ ascii "/LOCK"

lemma lockFileName_inj {p q : Bytes} : lockFileName p = lockFileName q ↔ p = q :=
  List.append_left_inj _

/-- A `leveldb::DB`: `id` is the identity of the object, `name` the argument of
`leveldbOpen` it was opened with and `path` its `dbname_`. -/
structure Db where
  id : ℕ
  name : JsString
  path : Bytes
deriving DecidableEq

def Db.dir (db : Db) : Dir := resolve db.path

/-! ## Failures -/

/-- How a `DB::Put`, `DB::Delete` or `DB::Write` ends. A failing one may still have been
applied. -/
inductive WriteOutcome where
  | ok
  | fail (f : Failure) (applied : Bool)
deriving DecidableEq

/-- What LevelDB reports during one call of a host function. -/
structure Faults where
  /-- `DB::Open` fails for a reason of its own. -/
  opening : Option Failure := none
  /-- `DestroyDB` ends with an error, with this left on disk. -/
  destroying : Option (Failure × Option Content) := none
  /-- The outcome of the `n`-th write the call makes. -/
  writes : ℕ → WriteOutcome := fun _ => .ok
  /-- `DB::Get` fails. -/
  reading : Option Failure := none
  /-- The `n`-th positioning of an iterator during the call fails. -/
  moves : ℕ → Option Failure := fun _ => none

/-! ## Iterators -/

/-- A `leveldb::Iterator` over the entries its database held when it was created. `slot` is
the index in `dbs` of that database and `dbId` its identity; `pos` is the current entry, if
the iterator is valid. -/
structure Iterator where
  id : ℕ
  slot : ℕ
  dbId : ℕ
  snapshot : Content
  pos : Option ℕ := none
  status : Status := .ok

namespace Iterator

def entries (it : Iterator) : List (Bytes × Bytes) := it.snapshot.entries

def valid (it : Iterator) : Bool := it.pos.isSome

/-- The entry the iterator stands on. -/
def entry (it : Iterator) : Option (Bytes × Bytes) := it.pos.bind fun p => it.entries[p]?

/-- Move to position `p`, past the end when there is no such entry. A failing read leaves
the iterator not valid, with the error in `status`. -/
def place (it : Iterator) (p : ℕ) : Option Failure → Iterator
  | some f => { it with pos := none, status := .fail f }
  | none => { it with pos := if p < it.entries.length then some p else none }

def seekToFirst (it : Iterator) (fault : Option Failure) : Iterator := it.place 0 fault

def seekToLast (it : Iterator) (fault : Option Failure) : Iterator :=
  it.place (it.entries.length - 1) fault

def seek (it : Iterator) (target : Bytes) (fault : Option Failure) : Iterator :=
  it.place (SortedMap.lowerBound it.entries target) fault

/-- `Next` and `Prev` have no meaning on an iterator that is not valid. -/
def next (it : Iterator) (fault : Option Failure) : Option Iterator :=
  it.pos.map fun p => it.place (p + 1) fault

def prev (it : Iterator) (fault : Option Failure) : Option Iterator :=
  it.pos.map fun p =>
    if p = 0 then { it with pos := none, status := fault.elim it.status .fail }
    else it.place (p - 1) fault

/-- The entries from position `p` on, one by one. -/
lemma of_drop_eq_cons {it : Iterator} {p : ℕ} {e : Bytes × Bytes} {rest : List (Bytes × Bytes)}
    (h : it.entries.drop p = e :: rest) :
    p < it.entries.length ∧ it.entries[p]? = some e ∧ it.entries.drop (p + 1) = rest := by
  refine ⟨?_, ?_, ?_⟩
  · by_contra hge
    rw [List.drop_eq_nil_of_le (by omega)] at h
    cases h
  · rw [← List.head?_drop, h, List.head?_cons]
  · rw [← List.tail_drop, h, List.tail_cons]

@[simp] lemma place_id (it : Iterator) (p : ℕ) (f : Option Failure) : (it.place p f).id = it.id := by
  cases f <;> rfl

@[simp] lemma place_slot (it : Iterator) (p : ℕ) (f : Option Failure) :
    (it.place p f).slot = it.slot := by
  cases f <;> rfl

@[simp] lemma place_dbId (it : Iterator) (p : ℕ) (f : Option Failure) :
    (it.place p f).dbId = it.dbId := by
  cases f <;> rfl

end Iterator

end RnLeveldb
