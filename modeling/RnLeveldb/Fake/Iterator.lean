import RnLeveldb.Fake.Refinement
import RnLeveldb.ToIndex

/-!
# The iterators of `fake.ts`

A `FakeLevelDBIterator` copies the array of the store when it is made, but the pairs in the
array are those of the store. It walks its copy by a position that nothing keeps inside the
array, and `close` sets the position back to `undefined`.

What an iterator reports depends on its heap only through the entries its array shows. While
these are the entries of a finite map, it behaves as the `MapIterator` over that map.
-/

namespace RnLeveldb

/-! ## Positions -/

/-- `this.pos`; `++` and `--` turn `undefined` into NaN. -/
inductive Pos where
  | undefined
  | nan
  | index (i : ℤ)
deriving DecidableEq

namespace Pos

def next : Pos → Pos
  | .index i => .index (i + 1)
  | .undefined | .nan => .nan

def prev : Pos → Pos
  | .index i => .index (i - 1)
  | .undefined | .nan => .nan

/-- The element of an array at a position; `none` is `undefined`. -/
def get {α : Type*} (xs : List α) : Pos → Option α
  | .index (.ofNat i) => xs[i]?
  | .index (.negSucc _) | .undefined | .nan => none

lemma get_map {α β : Type*} (f : α → β) (xs : List α) (pos : Pos) :
    pos.get (xs.map f) = (pos.get xs).map f := by
  cases pos with
  | undefined | nan => rfl
  | index i =>
    cases i with
    | ofNat i => exact List.getElem?_map
    | negSucc i => rfl

end Pos

/-! ## `FakeLevelDBIterator` -/

structure FakeLevelDBIterator where
  /-- The pairs of its own array. -/
  kv : List ℕ
  pos : Pos
deriving DecidableEq

/-- An exception: one of those of the store, or a `RangeError` of `new Uint8Array`. -/
inductive FakeError where
  | thrown (e : JsError)
  | rangeError
deriving DecidableEq

/-- What a call returns, its buffers given as `β`. -/
inductive AppValue (β : Type) where
  | undefined
  | null
  | bool (b : Bool)
  | string (s : JsString)
  | buffer (b : β)
  | number (n : ℤ)
  | this
  | iterator (i : ℕ)
deriving DecidableEq

abbrev AppResult (β : Type) := Except FakeError (AppValue β)

/-- A call on an iterator, its target given as `δ`. -/
inductive IteratorCall (δ : Type) where
  | seekToFirst
  | seekLast
  | seek (target : δ)
  | valid
  | next
  | prev
  | close
  | keyStr
  | keyBuf
  | valueStr
  | valueBuf
  | compareKey (target : δ)
deriving DecidableEq

/-- `new Uint8Array(target)`; `none` is a `RangeError`. -/
def Heap.uint8Array (h : Heap) : Data → Option Bytes
  | .string s => (toIndex s).map fun n => List.replicate n 0
  | .buffer b => some (h.bytes b)

namespace FakeLevelDBIterator

def new (db : FakeLevelDB) : Except JsError FakeLevelDBIterator :=
  match db.kv with
  | none => .error (.error (ascii "Could't make FakeLevelDBIterator: DB was closed!"))
  | some kv => .ok { kv := kv, pos := .undefined }

variable (h : Heap) (it : FakeLevelDBIterator)

def seekToFirst : FakeLevelDBIterator := { it with pos := .index 0 }

def seekLast : FakeLevelDBIterator := { it with pos := .index ((it.kv.length : ℤ) - 1) }

def seek (target : Data) : Except JsError FakeLevelDBIterator :=
  (getIdx (some (it.kv.map h.key)) (h.bytesOf target)).map fun i => { it with pos := .index i }

def valid : Bool :=
  match it.pos with
  | .undefined => false
  -- NaN is not `>= 0`
  | .nan => false
  | .index i => 0 ≤ i && i < it.kv.length

def next : FakeLevelDBIterator := { it with pos := it.pos.next }

def prev : FakeLevelDBIterator := { it with pos := it.pos.prev }

def close : FakeLevelDBIterator := { it with pos := .undefined }

/-- A property of `this.kv[this.pos!]!`, which throws where there is no entry. -/
def ofEntry {α : Type} (f : ℕ → Except FakeError α) : Except FakeError α :=
  match it.pos.get it.kv with
  | none => .error (.thrown .typeError)
  | some p => f p

def keyStr : AppResult ℕ := it.ofEntry fun p => .ok (.string (textDecode (h.bytes (h.pair p).1)))

/-- `keyBuf`; as `toArraybuf` returns a buffer as it is, the one of the entry is handed out. -/
def keyBuf : AppResult ℕ := it.ofEntry fun p => .ok (.buffer (h.pair p).1)

def valueStr : AppResult ℕ := it.ofEntry fun p => .ok (.string (textDecode (h.bytes (h.pair p).2)))

def valueBuf : AppResult ℕ := it.ofEntry fun p => .ok (.buffer (h.pair p).2)

/-- `compareKey`; `arraybufLt` is given the target itself, not the buffer made of it. -/
def compareKey (target : Data) : Except FakeError ℤ :=
  it.ofEntry fun p =>
    if arraybufGt (h.key p) (h.bytesOf target) then .ok 1
    else
      match h.uint8Array target with
      | none => .error .rangeError
      | some t => if arraybufLt (h.key p) t then .ok (-1) else .ok 0

def step : IteratorCall Data → AppResult ℕ × FakeLevelDBIterator
  | .seekToFirst => (.ok .this, it.seekToFirst)
  | .seekLast => (.ok .this, it.seekLast)
  | .seek target =>
    match it.seek h target with
    | .error e => (.error (.thrown e), it)
    | .ok it => (.ok .this, it)
  | .valid => (.ok (.bool it.valid), it)
  | .next => (.ok .undefined, it.next)
  | .prev => (.ok .undefined, it.prev)
  | .close => (.ok .undefined, it.close)
  | .keyStr => (it.keyStr h, it)
  | .keyBuf => (it.keyBuf h, it)
  | .valueStr => (it.valueStr h, it)
  | .valueBuf => (it.valueBuf h, it)
  | .compareKey target => ((it.compareKey h target).map .number, it)

end FakeLevelDBIterator

/-! ## Iterators over a map -/

/-- What a call can tell of a target: the bytes of `toArraybuf(target)` and those of
`new Uint8Array(target)`. -/
structure Target where
  bytes : Bytes
  array : Option Bytes

def Heap.target (h : Heap) (d : Data) : Target := ⟨h.bytesOf d, h.uint8Array d⟩

namespace IteratorCall

/-- The call, its target as the heap has it. -/
def resolve (h : Heap) : IteratorCall Data → IteratorCall Target
  | .seekToFirst => .seekToFirst
  | .seekLast => .seekLast
  | .seek d => .seek (h.target d)
  | .valid => .valid
  | .next => .next
  | .prev => .prev
  | .close => .close
  | .keyStr => .keyStr
  | .keyBuf => .keyBuf
  | .valueStr => .valueStr
  | .valueBuf => .valueBuf
  | .compareKey d => .compareKey (h.target d)

end IteratorCall

/-- An iterator over entries of its own, in ascending key order. -/
structure MapIterator where
  entries : List (Bytes × Bytes)
  pos : Pos

namespace MapIterator

variable (it : MapIterator)

/-- The entry it stands on. -/
def entry : Option (Bytes × Bytes) := it.pos.get it.entries

/-- A property of the entry it stands on, and an error where there is none. -/
def ofEntry {α : Type} (f : Bytes × Bytes → Except FakeError α) : Except FakeError α :=
  match it.entry with
  | none => .error (.thrown .typeError)
  | some e => f e

def compareKey (target : Target) : Except FakeError ℤ :=
  it.ofEntry fun e =>
    if target.bytes < e.1 then .ok 1
    else
      match target.array with
      | none => .error .rangeError
      | some t => if e.1 < t then .ok (-1) else .ok 0

/-- What a call reports. -/
def report : IteratorCall Target → AppResult Bytes
  | .seekToFirst | .seekLast | .seek _ => .ok .this
  | .next | .prev | .close => .ok .undefined
  | .valid => .ok (.bool it.entry.isSome)
  | .keyStr => it.ofEntry fun e => .ok (.string (textDecode e.1))
  | .keyBuf => it.ofEntry fun e => .ok (.buffer e.1)
  | .valueStr => it.ofEntry fun e => .ok (.string (textDecode e.2))
  | .valueBuf => it.ofEntry fun e => .ok (.buffer e.2)
  | .compareKey target => (it.compareKey target).map .number

/-- Where a call leaves the position. -/
def move : IteratorCall Target → Pos
  | .seekToFirst => .index 0
  | .seekLast => .index ((it.entries.length : ℤ) - 1)
  | .seek target => .index (SortedMap.lowerBound it.entries target.bytes)
  | .next => it.pos.next
  | .prev => it.pos.prev
  | .close => .undefined
  | .valid | .keyStr | .keyBuf | .valueStr | .valueBuf | .compareKey _ => it.pos

end MapIterator

/-! ## What an iterator shows -/

/-- A value as the application sees it, with the bytes of its buffers. -/
def AppValue.seen (h : Heap) : AppValue ℕ → AppValue Bytes
  | .undefined => .undefined
  | .null => .null
  | .bool b => .bool b
  | .string s => .string s
  | .buffer b => .buffer (h.bytes b)
  | .number n => .number n
  | .this => .this
  | .iterator i => .iterator i

/-- A result as the application sees it. -/
def AppResult.seen (h : Heap) (r : AppResult ℕ) : AppResult Bytes := r.map (AppValue.seen h)

/-- An entry is known from its two buffers. -/
lemma AppResult.eq_of_buffers {e e' : Bytes × Bytes}
    (hkey : (Except.ok (.buffer e.1) : AppResult Bytes) = .ok (.buffer e'.1))
    (hvalue : (Except.ok (.buffer e.2) : AppResult Bytes) = .ok (.buffer e'.2)) : e = e' := by
  injection hkey with hkey
  injection hkey with hkey
  injection hvalue with hvalue
  injection hvalue with hvalue
  exact Prod.ext hkey hvalue

namespace FakeLevelDBIterator

variable {h : Heap} {it : FakeLevelDBIterator} {c : Content}

/-- The array shows the entries of `c`. -/
def Shows (h : Heap) (it : FakeLevelDBIterator) (c : Content) : Prop := h.view it.kv = c.entries

/-- The iterator over the entries of `c` that stands where this one does. -/
def onMap (it : FakeLevelDBIterator) (c : Content) : MapIterator := ⟨c.entries, it.pos⟩

lemma Shows.entry (hs : it.Shows h c) : (it.onMap c).entry = (it.pos.get it.kv).map h.entry := by
  rw [MapIterator.entry, ← Pos.get_map]
  exact congrArg (fun es => it.pos.get es) hs.symm

lemma Shows.length (hs : it.Shows h c) : c.entries.length = it.kv.length := by
  rw [← hs, Heap.view, List.length_map]

/-- It is valid where there is an entry. -/
lemma valid_eq_isSome (it : FakeLevelDBIterator) : it.valid = (it.pos.get it.kv).isSome := by
  unfold valid
  cases it.pos with
  | undefined | nan => rfl
  | index i =>
    cases i with
    | ofNat i =>
      rw [Pos.get, Bool.eq_iff_iff]
      simp
    | negSucc i =>
      have hneg : ¬ 0 ≤ Int.negSucc i := Int.not_le.mpr (Int.negSucc_lt_zero i)
      simp [Pos.get, hneg]

lemma Shows.valid (hs : it.Shows h c) : it.valid = (it.onMap c).entry.isSome := by
  rw [valid_eq_isSome, hs.entry, Option.isSome_map]

lemma Shows.seek (hs : it.Shows h c) (d : Data) :
    it.seek h d = .ok { it with pos := .index (SortedMap.lowerBound c.entries (h.bytesOf d)) } := by
  have hkeys : it.kv.map h.key = c.entries.map Prod.fst := by
    rw [← hs, Heap.view, List.map_map]
    rfl
  rw [FakeLevelDBIterator.seek, hkeys, getIdx_eq_lowerBound c.ascending]
  rfl

/-- A property of the entry is seen as the same property of the entry of the map. -/
lemma Shows.ofEntry (hs : it.Shows h c) {α β : Type} {see : α → β} {f : ℕ → Except FakeError α}
    {g : Bytes × Bytes → Except FakeError β} (hf : ∀ p, (f p).map see = g (h.entry p)) :
    (it.ofEntry f).map see = (it.onMap c).ofEntry g := by
  unfold FakeLevelDBIterator.ofEntry MapIterator.ofEntry
  rw [hs.entry]
  cases it.pos.get it.kv with
  | none => rfl
  | some p => exact hf p

lemma Shows.compareKey (hs : it.Shows h c) (d : Data) :
    it.compareKey h d = (it.onMap c).compareKey (h.target d) := by
  have hmap : (it.compareKey h d).map id = (it.onMap c).compareKey (h.target d) := by
    refine hs.ofEntry fun p => ?_
    have hkey : (h.entry p).1 = h.key p := rfl
    show Except.map id (if _ then _ else _) = if h.bytesOf d < h.key p then _ else _
    by_cases hgt : h.bytesOf d < h.key p
    · rw [if_pos hgt, if_pos (arraybufGt_iff.mpr hgt)]
      rfl
    · rw [if_neg hgt, if_neg (mt arraybufGt_iff.mp hgt)]
      have harray : (h.target d).array = h.uint8Array d := rfl
      rw [harray]
      cases h.uint8Array d with
      | none => rfl
      | some t =>
        dsimp only
        rw [hkey]
        by_cases hlt : h.key p < t
        · rw [if_pos hlt, if_pos (arraybufLt_iff.mpr hlt)]
          rfl
        · rw [if_neg hlt, if_neg (mt arraybufLt_iff.mp hlt)]
          rfl
  rw [← hmap]
  cases it.compareKey h d <;> rfl

/-- **An iterator shows a map.** What it reports, and where it goes, is what the iterator over
the entries in its array reports, and where that one goes. -/
lemma Shows.step (hs : it.Shows h c) (m : IteratorCall Data) :
    AppResult.seen h (it.step h m).1 = (it.onMap c).report (m.resolve h) ∧
      (it.step h m).2 = { it with pos := (it.onMap c).move (m.resolve h) } := by
  cases m with
  | seekToFirst | next | prev | close => exact ⟨rfl, rfl⟩
  | seekLast =>
    refine ⟨rfl, ?_⟩
    dsimp only [FakeLevelDBIterator.step, FakeLevelDBIterator.seekLast]
    rw [← hs.length]
    rfl
  | seek d =>
    dsimp only [FakeLevelDBIterator.step]
    rw [hs.seek]
    exact ⟨rfl, rfl⟩
  | valid =>
    refine ⟨?_, rfl⟩
    dsimp only [FakeLevelDBIterator.step]
    rw [hs.valid]
    rfl
  | keyStr | keyBuf | valueStr | valueBuf => exact ⟨hs.ofEntry fun p => rfl, rfl⟩
  | compareKey d =>
    refine ⟨?_, rfl⟩
    dsimp only [FakeLevelDBIterator.step]
    rw [hs.compareKey]
    show AppResult.seen h _ = ((it.onMap c).compareKey (h.target d)).map .number
    cases (it.onMap c).compareKey (h.target d) <;> rfl

end FakeLevelDBIterator

end RnLeveldb
