import RnLeveldb.Fake.Search
import RnLeveldb.Lib.Machine

/-!
# The in-memory store of `fake.ts`

`FakeLevelDB` keeps its entries in an array of pairs of buffers. Buffers and pairs are
objects with an identity, shared by reference: a store holds on to the very buffers it was
given, and overwriting a value changes a pair in place. They therefore live on a `Heap`, and
the store refers to them by number.

The buffer that `toArraybuf` makes of a string is new. Where such a buffer is only compared,
as in `getIdx`, its bytes are all that matters and no object is modelled for it.
-/

namespace RnLeveldb

/-! ## Buffers and pairs -/

structure Heap where
  /-- The bytes of each `ArrayBuffer`. -/
  buffers : List Bytes
  /-- The two buffers of each entry. -/
  pairs : List (ℕ × ℕ)
deriving DecidableEq

/-- An argument of type `ArrayBuffer | string`. -/
inductive Data where
  | string (s : JsString)
  | buffer (b : ℕ)
deriving DecidableEq

namespace Heap

/-- The bytes of a buffer. -/
def bytes (h : Heap) (b : ℕ) : Bytes := h.buffers.getD b []

/-- A pair, as its two buffers. -/
def pair (h : Heap) (p : ℕ) : ℕ × ℕ := h.pairs.getD p (0, 0)

def key (h : Heap) (p : ℕ) : Bytes := h.bytes (h.pair p).1

/-- A pair, as the bytes of its two buffers. -/
def entry (h : Heap) (p : ℕ) : Bytes × Bytes := (h.bytes (h.pair p).1, h.bytes (h.pair p).2)

/-- What an array of pairs shows. -/
def view (h : Heap) (kv : List ℕ) : List (Bytes × Bytes) := kv.map h.entry

/-- The argument exists. -/
def Has (h : Heap) : Data → Prop
  | .string _ => True
  | .buffer b => b < h.buffers.length

instance (h : Heap) : DecidablePred h.Has
  | .string _ => isTrue trivial
  | .buffer b => inferInstanceAs (Decidable (b < h.buffers.length))

/-- The bytes of `toArraybuf` of an argument. -/
def bytesOf (h : Heap) : Data → Bytes
  | .string s => utf8 s
  | .buffer b => h.bytes b

def newBuffer (h : Heap) (b : Bytes) : ℕ × Heap :=
  (h.buffers.length, { h with buffers := h.buffers ++ [b] })

/-- An `ArrayBuffer` is returned as it is. -/
def toArraybuf (h : Heap) : Data → ℕ × Heap
  | .string s => h.newBuffer (utf8 s)
  | .buffer b => (b, h)

/-- `[toArraybuf(k), toArraybuf(v)]`. -/
def newPair (h : Heap) (k v : Data) : ℕ × Heap :=
  let (key, h) := h.toArraybuf k
  let (value, h) := h.toArraybuf v
  (h.pairs.length, { h with pairs := h.pairs ++ [(key, value)] })

/-- The second component of a pair is assigned. -/
def setValue (h : Heap) (p value : ℕ) : Heap :=
  { h with pairs := h.pairs.set p ((h.pair p).1, value) }

end Heap

/-- `decoder.decode`: a byte order mark at the beginning is dropped. -/
def textDecode (b : Bytes) : JsString :=
  let cs := decodeScalars {} b
  (if cs.head? = some 0xFEFF then cs.tail else cs).flatMap encodeUtf16

/-! ## `FakeLevelDB` -/

/-- A `FakeLevelDB` with the heap it lives on. -/
structure FakeLevelDB where
  heap : Heap
  /-- `null`, or the pairs in the order of the array. -/
  kv : Option (List ℕ)
deriving DecidableEq

/-- What a method returns. -/
inductive FakeValue where
  | undefined
  | null
  | bool (b : Bool)
  | string (s : JsString)
  | buffer (b : ℕ)
deriving DecidableEq

/-- A call of the application; `newBuffer` creates an `ArrayBuffer` of its own. -/
inductive FakeCall where
  | newBuffer (b : Bytes)
  | put (k v : Data)
  | delete (k : Data)
  | getStr (k : Data)
  | getBuf (k : Data)
  | close
  | closed
deriving DecidableEq

namespace FakeLevelDB

abbrev Result := Except JsError FakeValue

/-- `getIdx(this.kv, k)`. -/
def idx (s : FakeLevelDB) (k : Bytes) : Except JsError ℕ :=
  getIdx (s.kv.map fun kv => kv.map s.heap.key) k

def put (s : FakeLevelDB) (k v : Data) : Result × FakeLevelDB :=
  match s.idx (s.heap.bytesOf k), s.kv with
  | .error e, _ => (.error e, s)
  -- not reached: `getIdx` has thrown on a null array
  | .ok _, none => (.error .typeError, s)
  | .ok curIdx, some kv =>
    if curIdx = kv.length then
      let (p, h) := s.heap.newPair k v
      (.ok .undefined, { heap := h, kv := some (kv ++ [p]) })
    else
      match kv[curIdx]? with
      | none => (.error .typeError, s)
      | some q =>
        if arraybufGt (s.heap.key q) (s.heap.bytesOf k) then
          let (p, h) := s.heap.newPair k v
          (.ok .undefined, { heap := h, kv := some (kv.insertIdx curIdx p) })
        else
          -- the key buffer of the entry stays
          let (value, h) := s.heap.toArraybuf v
          (.ok .undefined, { s with heap := h.setValue q value })

def delete (s : FakeLevelDB) (k : Data) : Result × FakeLevelDB :=
  match s.idx (s.heap.bytesOf k), s.kv with
  | .error e, _ => (.error e, s)
  | .ok _, none => (.error .typeError, s)
  | .ok curIdx, some kv =>
    if kv[curIdx]?.any fun q => !arraybufGt (s.heap.key q) (s.heap.bytesOf k)
        && !arraybufGt (s.heap.bytesOf k) (s.heap.key q) then
      (.ok .undefined, { s with kv := some (kv.eraseIdx curIdx) })
    else (.ok .undefined, s)

/-- `getBuf`; the buffer of the entry itself is handed out. -/
def getBuf (s : FakeLevelDB) (k : Data) : Result :=
  match s.idx (s.heap.bytesOf k), s.kv with
  | .error e, _ => .error e
  | .ok _, none => .error .typeError
  | .ok curIdx, some kv =>
    match kv[curIdx]? with
    | none => .ok .null
    | some q =>
      if arraybufGt (s.heap.key q) (s.heap.bytesOf k)
          || arraybufGt (s.heap.bytesOf k) (s.heap.key q) then .ok .null
      else .ok (.buffer (s.heap.pair q).2)

/-- `buf && toString(buf)`. -/
def getStr (s : FakeLevelDB) (k : Data) : Result :=
  match s.getBuf k with
  | .ok (.buffer b) => .ok (.string (textDecode (s.heap.bytes b)))
  | r => r

/-- One call of the application. It can only pass buffers that exist. -/
def step (s : FakeLevelDB) : FakeCall → Result × FakeLevelDB
  | .newBuffer b => (.ok (.buffer (s.heap.newBuffer b).1), { s with heap := (s.heap.newBuffer b).2 })
  | .put k v => if s.heap.Has k ∧ s.heap.Has v then s.put k v else (.error .typeError, s)
  | .delete k => if s.heap.Has k then s.delete k else (.error .typeError, s)
  | .getStr k => if s.heap.Has k then (s.getStr k, s) else (.error .typeError, s)
  | .getBuf k => if s.heap.Has k then (s.getBuf k, s) else (.error .typeError, s)
  | .close => (.ok .undefined, { s with kv := none })
  | .closed => (.ok (.bool s.kv.isNone), s)

/-- The constructor, on a heap with whatever is there already. -/
def new (h : Heap) : FakeLevelDB := { heap := h, kv := some [] }

end FakeLevelDB

end RnLeveldb
