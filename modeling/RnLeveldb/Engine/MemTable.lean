import RnLeveldb.Engine.InternalKey

/-!
# `db/memtable.cc`

The writes that are not yet in a table file. An entry is one string: an internal key and a value,
each preceded by its length; a skip list keeps the entries in the order of their internal keys.
Every write adds an entry, deletions too, and none is ever removed. A lookup goes to the place of
its key at its sequence number and looks at the first entry from there on.

Here the skip list is the list of its entries in order; `SkipList` has its nodes.
-/

namespace RnLeveldb

namespace Engine

open Versions

/-! ## Entries -/

/-- `GetLengthPrefixedSlice` of `memtable.cc`, which trusts the length. -/
def lengthPrefixed (data : Bytes) : Bytes :=
  match getVarint32 data with
  | some (len, p) => p.take len
  | none => []

/-- `KeyComparator::operator()`. -/
def compareEntries (a b : Bytes) : Ordering :=
  compareInternalKeys (lengthPrefixed a) (lengthPrefixed b)

/-- What `Add` writes into the arena. -/
def encodeEntry (seq : ℕ) (type : ValueType) (key value : Bytes) : Bytes :=
  encodeVarint32 (key.length + 8) ++ key ++ encodeFixed64 (packSequenceAndType seq type) ++
    encodeVarint32 value.length ++ value

/-- `LookupKey::memtable_key`. -/
def memtableKey (userKey : Bytes) (seq : ℕ) : Bytes :=
  encodeVarint32 (userKey.length + 8) ++ userKey ++
    encodeFixed64 (packSequenceAndType seq kValueTypeForSeek)

/-! ## The table -/

/-- `SkipList::Insert`. -/
def insertEntry (entry : Bytes) : List Bytes → List Bytes
  | [] => [entry]
  | e :: table => if compareEntries e entry = .lt then e :: insertEntry entry table
    else entry :: e :: table

/-- `SkipList::Iterator::Seek`. -/
def seekEntry (target : Bytes) (table : List Bytes) : Option Bytes :=
  table.find? fun e => compareEntries e target ≠ .lt

namespace MemTable

def add (table : List Bytes) (seq : ℕ) (type : ValueType) (key value : Bytes) : List Bytes :=
  insertEntry (encodeEntry seq type key value) table

/-- `Get`: `none` if the table says nothing of the key, else its value or that there is none. -/
def get (table : List Bytes) (userKey : Bytes) (seq : ℕ) : Option (Except Failure Bytes) :=
  match seekEntry (memtableKey userKey seq) table with
  | none => none
  | some entry =>
    match getVarint32 entry with
    | none => none
    | some (keyLength, keyPtr) =>
      if compareSlices (keyPtr.take (keyLength - 8)) userKey = .eq then
        match decodeFixed64 (keyPtr.drop (keyLength - 8)) &&& 0xff with
        | 1 => some (.ok (lengthPrefixed (keyPtr.drop keyLength)))
        | 0 => some (.error { code := .notFound, msg := [] })
        | _ => none
      else none

/-- `MemTableInserter`. -/
def insertOp (table : List Bytes) (seq : ℕ) : BatchOp → List Bytes
  | .put key value => add table seq .value key value
  | .delete key => add table seq .deletion key []

/-- The handler is called with one record after the other. -/
def insertOps : List Bytes → ℕ → List BatchOp → List Bytes
  | table, _, [] => table
  | table, seq, op :: ops => insertOps (insertOp table seq op) (seq + 1) ops

/-- `WriteBatchInternal::InsertInto`. -/
def insertInto (b : WriteBatch) (table : List Bytes) : List Bytes × Status :=
  (insertOps table b.sequence b.iterate.1, b.iterate.2)

end MemTable

/-! ## Versions -/

/-- The type of a version. -/
def versionType (v : Version Bytes Bytes) : ValueType :=
  if v.value.isSome then .value else .deletion

def encodeVersion (v : Version Bytes Bytes) : Bytes :=
  encodeEntry v.seq (versionType v) v.key (v.value.getD [])

/-- What can be encoded. -/
structure Encodable (v : Version Bytes Bytes) : Prop where
  seq : v.seq ≤ kMaxSequenceNumber
  key : v.key.length + 8 < 2 ^ 32
  value : (v.value.getD []).length < 2 ^ 32

lemma lengthPrefixed_append {n : ℕ} {p rest : Bytes} (hn : n < 2 ^ 32) (hp : p.length = n) :
    lengthPrefixed (encodeVarint32 n ++ (p ++ rest)) = p := by
  rw [lengthPrefixed, getVarint32_append hn]
  dsimp only
  rw [List.take_left' hp]

/-- An internal key that is preceded by its length, as entries and lookup keys have it. -/
lemma lengthPrefixed_internalKey {key : Bytes} (hkey : key.length + 8 < 2 ^ 32) (tag : ℕ)
    (rest : Bytes) :
    lengthPrefixed (encodeVarint32 (key.length + 8) ++ ((key ++ encodeFixed64 tag) ++ rest)) =
      key ++ encodeFixed64 tag :=
  lengthPrefixed_append hkey (by simp)

lemma encodeEntry_eq (seq : ℕ) (type : ValueType) (key value : Bytes) :
    encodeEntry seq type key value =
      encodeVarint32 (key.length + 8) ++ ((key ++ encodeFixed64 (packSequenceAndType seq type)) ++
        (encodeVarint32 value.length ++ value)) := by
  simp [encodeEntry]

lemma lengthPrefixed_encodeVersion {v : Version Bytes Bytes} (hv : Encodable v) :
    lengthPrefixed (encodeVersion v) =
      v.key ++ encodeFixed64 (packSequenceAndType v.seq (versionType v)) := by
  rw [encodeVersion, encodeEntry_eq, lengthPrefixed_internalKey hv.key]

lemma lengthPrefixed_memtableKey {key : Bytes} (hkey : key.length + 8 < 2 ^ 32) (seq : ℕ) :
    lengthPrefixed (memtableKey key seq) =
      key ++ encodeFixed64 (packSequenceAndType seq kValueTypeForSeek) := by
  have hprefixed := lengthPrefixed_internalKey hkey (packSequenceAndType seq kValueTypeForSeek) []
  rw [List.append_nil, ← List.append_assoc] at hprefixed
  exact hprefixed

/-- Internal keys that were put together are in the order of their parts. -/
lemma compareInternalKeys_append {a b : Bytes} {s t : ℕ} (hs : s < 2 ^ 64) (ht : t < 2 ^ 64) :
    compareInternalKeys (a ++ encodeFixed64 s) (b ++ encodeFixed64 t) = .lt ↔
      a < b ∨ a = b ∧ t < s := by
  rw [compareInternalKeys_eq_lt, internalPlace_lt, extractUserKey_append, extractUserKey_append,
    extractTag_append a hs, extractTag_append b ht]

lemma compareEntries_encodeVersion {v w : Version Bytes Bytes} (hv : Encodable v)
    (hw : Encodable w) (hne : v.place ≠ w.place) :
    compareEntries (encodeVersion v) (encodeVersion w) = .lt ↔ v.place < w.place := by
  have hcode : ∀ u : Version Bytes Bytes, (versionType u).code ≤ 1 := by
    intro u
    cases versionType u <;> decide
  have hcv := hcode v
  have hcw := hcode w
  rw [compareEntries, lengthPrefixed_encodeVersion hv, lengthPrefixed_encodeVersion hw,
    compareInternalKeys_append (packSequenceAndType_lt hv.seq _) (packSequenceAndType_lt hw.seq _),
    place_lt_iff, packSequenceAndType_eq, packSequenceAndType_eq]
  rw [Ne, place_eq_iff] at hne
  constructor
  · rintro (hlt | ⟨heq, hlt⟩)
    · exact Or.inl hlt
    · have : v.seq ≠ w.seq := fun h => hne ⟨heq, h⟩
      exact Or.inr ⟨heq, by omega⟩
  · rintro (hlt | ⟨heq, hlt⟩)
    · exact Or.inl hlt
    · exact Or.inr ⟨heq, by omega⟩

/-- A key to search for stands before the versions it may see. -/
lemma compareInternalKeys_seek {v : Version Bytes Bytes} (hv : v.seq ≤ kMaxSequenceNumber)
    (key : Bytes) {seq : ℕ} (hseq : seq ≤ kMaxSequenceNumber) :
    compareInternalKeys (v.key ++ encodeFixed64 (packSequenceAndType v.seq (versionType v)))
        (key ++ encodeFixed64 (packSequenceAndType seq kValueTypeForSeek)) = .lt ↔
      v.key < key ∨ v.key = key ∧ seq < v.seq := by
  have hcode : (versionType v).code ≤ 1 := by cases versionType v <;> decide
  have hseek : kValueTypeForSeek.code = 1 := rfl
  rw [compareInternalKeys_append (packSequenceAndType_lt hv _) (packSequenceAndType_lt hseq _),
    packSequenceAndType_eq, packSequenceAndType_eq, hseek]
  constructor
  · rintro (hlt | ⟨heq, hlt⟩)
    · exact Or.inl hlt
    · exact Or.inr ⟨heq, by omega⟩
  · rintro (hlt | ⟨heq, hlt⟩)
    · exact Or.inl hlt
    · exact Or.inr ⟨heq, by omega⟩

lemma compareEntries_memtableKey {v : Version Bytes Bytes} (hv : Encodable v) {key : Bytes}
    (hkey : key.length + 8 < 2 ^ 32) {seq : ℕ} (hseq : seq ≤ kMaxSequenceNumber) :
    compareEntries (encodeVersion v) (memtableKey key seq) = .lt ↔
      v.key < key ∨ v.key = key ∧ seq < v.seq := by
  rw [compareEntries, lengthPrefixed_encodeVersion hv, lengthPrefixed_memtableKey hkey,
    compareInternalKeys_seek hv.seq key hseq]

/-- A table that holds these versions. -/
structure Holds (table : List Bytes) (vs : List (Version Bytes Bytes)) : Prop where
  table_eq : table = vs.map encodeVersion
  sorted : Sorted vs
  encodable : ∀ v ∈ vs, Encodable v

lemma insertEntry_map {v : Version Bytes Bytes} (hv : Encodable v) {vs : List (Version Bytes Bytes)}
    (hvs : ∀ w ∈ vs, Encodable w) (hnew : ∀ w ∈ vs, w.place ≠ v.place) :
    insertEntry (encodeVersion v) (vs.map encodeVersion) =
      (Versions.insert v vs).map encodeVersion := by
  induction vs with
  | nil => rfl
  | cons w vs ih =>
    have hw := hvs w List.mem_cons_self
    have hcompare := compareEntries_encodeVersion hw hv (hnew w List.mem_cons_self)
    have hrest := ih (fun u hu => hvs u (List.mem_cons_of_mem _ hu))
      fun u hu => hnew u (List.mem_cons_of_mem _ hu)
    rw [List.map_cons, insertEntry, Versions.insert]
    by_cases hlt : w.place < v.place
    · rw [if_pos (hcompare.mpr hlt), if_pos hlt, List.map_cons, hrest]
    · rw [if_neg fun h => hlt (hcompare.mp h), if_neg hlt, List.map_cons, List.map_cons]

lemma Holds.insert {table : List Bytes} {vs : List (Version Bytes Bytes)} (h : Holds table vs)
    {v : Version Bytes Bytes} (hv : Encodable v) (hnew : ∀ w ∈ vs, w.seq < v.seq) :
    Holds (insertEntry (encodeVersion v) table) (Versions.insert v vs) where
  table_eq := by
    rw [h.table_eq]
    apply insertEntry_map hv h.encodable
    intro w hw heq
    exact absurd (place_eq_iff.mp heq).2 (ne_of_lt (hnew w hw))
  sorted := h.sorted.insert_newer hnew
  encodable := by
    intro w hw
    rcases mem_insert.mp hw with rfl | hw
    · exact hv
    · exact h.encodable w hw

/-- What `Get` says of a version. -/
def answer (v : Version Bytes Bytes) : Except Failure Bytes :=
  match v.value with
  | some value => .ok value
  | none => .error { code := .notFound, msg := [] }

lemma Holds.seekEntry_eq {table : List Bytes} {vs : List (Version Bytes Bytes)} (h : Holds table vs)
    {key : Bytes} (hkey : key.length + 8 < 2 ^ 32) {seq : ℕ} (hseq : seq ≤ kMaxSequenceNumber) :
    seekEntry (memtableKey key seq) table = (seek vs seq key).map encodeVersion := by
  have hpred : ∀ v ∈ vs, (compareEntries (encodeVersion v) (memtableKey key seq) ≠ .lt ↔
      key < v.key ∨ v.key = key ∧ v.seq ≤ seq) := by
    intro v hv
    rw [Ne, compareEntries_memtableKey (h.encodable v hv) hkey hseq]
    rcases lt_trichotomy v.key key with hlt | heq | hgt
    · simp [hlt, not_lt_of_gt hlt, ne_of_lt hlt]
    · simp [heq]
    · simp [hgt, not_lt_of_gt hgt, ne_of_gt hgt]
  rw [h.table_eq, seekEntry, List.find?_map, seek]
  congr 1
  apply List.find?_congr
  intro v hv
  rw [Function.comp_apply, decide_eq_decide]
  exact hpred v hv

/-- An entry is read back. -/
lemma Holds.get_eq {table : List Bytes} {vs : List (Version Bytes Bytes)} (h : Holds table vs)
    {key : Bytes} (hkey : key.length + 8 < 2 ^ 32) {seq : ℕ} (hseq : seq ≤ kMaxSequenceNumber) :
    MemTable.get table key seq = (newest vs seq key).map answer := by
  rw [h.sorted.newest_eq_seek, MemTable.get, h.seekEntry_eq hkey hseq]
  cases hv : seek vs seq key with
  | none => rfl
  | some v =>
    have henc : Encodable v := h.encodable v (List.mem_of_find?_eq_some hv)
    have hentry : getVarint32 (encodeVersion v) = some (v.key.length + 8,
        v.key ++ (encodeFixed64 (packSequenceAndType v.seq (versionType v)) ++
          (encodeVarint32 (v.value.getD []).length ++ ((v.value.getD []) ++ [])))) := by
      rw [encodeVersion, encodeEntry_eq, List.append_assoc, List.append_nil,
        getVarint32_append henc.key]
    have htag := packSequenceAndType_lt henc.seq (versionType v)
    rw [Option.map_some]
    dsimp only
    rw [hentry]
    dsimp only
    rw [Nat.add_sub_cancel, List.take_left' rfl, List.drop_left' rfl, decodeFixed64_append htag,
      ← List.drop_drop, List.drop_left' rfl, List.drop_left' (length_encodeFixed64 _),
      lengthPrefixed_append henc.value rfl]
    by_cases heq : v.key = key
    · rw [if_pos (compareSlices_eq_eq.mpr heq), Option.filter_some_pos (by simpa using heq),
        packSequenceAndType_and]
      cases hval : v.value <;> simp [versionType, answer, hval, ValueType.code]
    · rw [if_neg fun hc => heq (compareSlices_eq_eq.mp hc),
        Option.filter_some_neg (by simpa using heq)]
      rfl

/-! ## Histories -/

/-- A record as a write of the version library. -/
def opWrite : BatchOp → Bytes × Option Bytes
  | .put key value => (key, some value)
  | .delete key => (key, none)

/-- The lengths of an entry fit their varints. -/
def FitsEntry (op : BatchOp) : Prop :=
  (opWrite op).1.length + 8 < 2 ^ 32 ∧ ((opWrite op).2.getD []).length < 2 ^ 32

lemma insertOp_eq (table : List Bytes) (seq : ℕ) (op : BatchOp) :
    MemTable.insertOp table seq op =
      insertEntry (encodeVersion ⟨(opWrite op).1, seq, (opWrite op).2⟩) table := by
  cases op <;> rfl

/-- Entries are added as versions are recorded. -/
lemma Holds.insertOps {table : List Bytes} {vs : List (Version Bytes Bytes)} (h : Holds table vs)
    {n : ℕ} (hnew : ∀ v ∈ vs, v.seq < n) {ops : List BatchOp} (hops : ∀ op ∈ ops, FitsEntry op)
    (hlen : n + ops.length ≤ kMaxSequenceNumber + 1) :
    Holds (MemTable.insertOps table n ops) (record n vs (ops.map opWrite)) := by
  induction ops generalizing table vs n with
  | nil => exact h
  | cons op ops ih =>
    have hop := hops op List.mem_cons_self
    rw [List.length_cons] at hlen
    have hstep := h.insert (v := ⟨(opWrite op).1, n, (opWrite op).2⟩)
      ⟨by dsimp only; omega, hop.1, hop.2⟩ hnew
    rw [← insertOp_eq] at hstep
    refine ih hstep ?_ (fun o ho => hops o (List.mem_cons_of_mem _ ho)) (by omega)
    intro w hw
    rcases mem_insert.mp hw with rfl | hw
    · exact Nat.lt_succ_self n
    · exact Nat.lt_succ_of_lt (hnew w hw)

lemma holds_nil : Holds [] [] := ⟨rfl, List.Pairwise.nil, by simp⟩

lemma on_eq_lastWrite (key : Bytes) (old : Option Bytes) (op : BatchOp) :
    op.on key old = lastWrite key old (opWrite op) := by
  cases op with
  | put k v => by_cases hk : k = key <;> simp [BatchOp.on, lastWrite, opWrite, hk]
  | delete k => by_cases hk : k = key <;> simp [BatchOp.on, lastWrite, opWrite, hk]

/-- Recorded from the first number on, the versions say what the records do. -/
lemma readAt_record_opWrite (first : ℕ) (ops : List BatchOp) (seq : ℕ) (key : Bytes) :
    readAt (record first [] (ops.map opWrite)) seq key =
      (applyBatch .empty (ops.take (seq + 1 - first))).get key := by
  have hread : readAt (record first [] (ops.map opWrite)) seq key = _ :=
    Sorted.readAt_record List.Pairwise.nil (by simp) _
  have hon : BatchOp.on key = fun old op => lastWrite key old (opWrite op) := by
    funext old op
    exact on_eq_lastWrite key old op
  rw [hread, get_applyBatch, ← List.map_take, List.foldl_map, hon]
  rfl

/-- **Lookups.** After any sequence of writes, numbered from `first` on, a lookup at a sequence
number finds what the writes up to that number have left under the key: its value, or that it
was deleted; it finds nothing only if none of them was on the key. -/
theorem memtable_get_reads_snapshot (first : ℕ) (ops : List BatchOp)
    (hops : ∀ op ∈ ops, FitsEntry op) (hlen : first + ops.length ≤ kMaxSequenceNumber + 1)
    (key : Bytes) (hkey : key.length + 8 < 2 ^ 32) (seq : ℕ) (hseq : seq ≤ kMaxSequenceNumber) :
    (∀ value, MemTable.get (MemTable.insertOps [] first ops) key seq = some (.ok value) ↔
      (applyBatch .empty (ops.take (seq + 1 - first))).get key = some value) ∧
    (MemTable.get (MemTable.insertOps [] first ops) key seq = none ↔
      ∀ op ∈ ops.take (seq + 1 - first), (opWrite op).1 ≠ key) := by
  have hholds := holds_nil.insertOps (n := first) (by simp) hops hlen
  rw [hholds.get_eq hkey hseq]
  constructor
  · intro value
    rw [← readAt_record_opWrite, readAt]
    cases newest (record first [] (ops.map opWrite)) seq key with
    | none => simp
    | some v =>
      rw [Option.map_some, Option.bind_some, answer]
      cases v.value <;> simp
  · rw [Option.map_eq_none_iff, newest_eq_none_iff]
    constructor
    · intro hnone op hop hopkey
      obtain ⟨i, hi, rfl⟩ := List.mem_take_iff_getElem.mp hop
      have hmem : (⟨(opWrite ops[i]).1, first + i, (opWrite ops[i]).2⟩ : Version Bytes Bytes) ∈
          record first [] (ops.map opWrite) := by
        refine mem_record.mpr (Or.inr ⟨i, opWrite ops[i], ?_, rfl⟩)
        rw [List.getElem?_map, List.getElem?_eq_getElem]
        rfl
      have := hnone _ hmem hopkey
      dsimp only at this
      omega
    · intro hnone v hv hvkey
      rcases mem_record.mp hv with hv | ⟨i, w, hw, rfl⟩
      · cases hv
      · by_contra hle
        rw [List.getElem?_map, Option.map_eq_some_iff] at hw
        obtain ⟨op, hop, rfl⟩ := hw
        refine hnone op ?_ hvkey
        obtain ⟨hi, rfl⟩ := List.getElem?_eq_some_iff.mp hop
        apply List.mem_take_iff_getElem.mpr
        exact ⟨i, by dsimp only at hle; omega, rfl⟩

/-- A key that was written, written again and deleted, before the second write. -/
theorem memtable_get_older_value :
    MemTable.get (MemTable.insertOps [] 7 [.put [0x61] [1], .put [0x61] [2], .delete [0x61]])
      [0x61] 7 = some (.ok [1]) := by
  refine ((memtable_get_reads_snapshot 7 [.put [0x61] [1], .put [0x61] [2], .delete [0x61]] ?_ ?_
    [0x61] (by decide) 7 (by decide)).1 [1]).mpr ?_
  · intro op hop
    simp only [List.mem_cons, List.not_mem_nil, or_false] at hop
    rcases hop with rfl | rfl | rfl <;> exact ⟨by decide, by decide⟩
  · decide
  · decide

end Engine

end RnLeveldb
