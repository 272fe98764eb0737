import RnLeveldb.Engine.Batch
import RnLeveldb.Engine.Crc32c

/-!
# `db/log_writer.cc` and `db/log_reader.cc`

Every write goes to a log before it goes anywhere else. The log is a sequence of blocks of 32 KiB;
a record is cut into fragments so that none crosses the end of a block, and each fragment has a
header with a checksum, a length, and a type that says which part of the record it is. Seven bytes
are the least a fragment takes: what is shorter at the end of a block is filled with zeros.

The reader gets blocks, not records, and knows nothing of where the writer stopped. A log that the
writer did not finish is no corruption: the reader returns the records that are there as a whole.
-/

namespace RnLeveldb

namespace Engine

namespace Log

/-! ## Format -/

/-- Reserved for files whose blocks are allocated in advance. -/
def kZeroType : ℕ := 0

def kFullType : ℕ := 1

def kFirstType : ℕ := 2

def kMiddleType : ℕ := 3

def kLastType : ℕ := 4

/-- The reader's own types come after those of the format. -/
def kEof : ℕ := kLastType + 1

/-- What a reader returns for a fragment that it drops. -/
def kBadRecord : ℕ := kLastType + 2

/-- No fragment crosses a multiple of this. -/
def kBlockSize : ℕ := 32768

/-- Checksum, length, type. -/
def kHeaderSize : ℕ := 4 + 2 + 1

/-! ## The writer -/

/-- `EmitPhysicalRecord`. The checksum does not depend on where the payload lies in memory. -/
def emitPhysicalRecord (type : ℕ) (payload : Bytes) : Bytes :=
  encodeFixed32 (mask (extend 0 (crcValue 0 [UInt8.ofNat type]) payload)) ++
    [UInt8.ofNat (payload.length &&& 0xff), UInt8.ofNat (payload.length >>> 8), UInt8.ofNat type] ++
    payload

/-- A record in one piece is full; else its pieces are first, middle and last. -/
def recordType (isBegin isEnd : Bool) : ℕ :=
  if isBegin && isEnd then kFullType
  else if isBegin then kFirstType
  else if isEnd then kLastType
  else kMiddleType

/-- The zeros before a fragment. -/
def trailer (blockOffset : ℕ) : Bytes :=
  if kBlockSize - blockOffset < kHeaderSize then List.replicate (kBlockSize - blockOffset) 0 else []

/-- Where a fragment starts. -/
def startOffset (blockOffset : ℕ) : ℕ :=
  if kBlockSize - blockOffset < kHeaderSize then 0 else blockOffset

/-- As much as the block has room for behind the header. -/
def fragmentLength (blockOffset left : ℕ) : ℕ :=
  let avail := kBlockSize - startOffset blockOffset - kHeaderSize
  if left < avail then left else avail

lemma fragmentLength_le (blockOffset left : ℕ) : fragmentLength blockOffset left ≤ left := by
  unfold fragmentLength
  dsimp only
  split <;> omega

/-- The loop of `AddRecord`: what is appended to the file, and `block_offset_` after it. -/
def addRecordLoop (isBegin : Bool) (blockOffset : ℕ) (data : Bytes) : Bytes × ℕ :=
  let n := fragmentLength blockOffset data.length
  let fragment := trailer blockOffset ++
    emitPhysicalRecord (recordType isBegin (data.length = n)) (data.take n)
  let blockOffset' := startOffset blockOffset + kHeaderSize + n
  if 0 < data.length - n then
    let rest := addRecordLoop false blockOffset' (data.drop n)
    (fragment ++ rest.1, rest.2)
  else (fragment, blockOffset')
termination_by 2 * data.length + if blockOffset = kBlockSize - kHeaderSize then 1 else 0
decreasing_by
  -- a fragment that ends a block may be empty, but the next one then is not
  rw [List.length_drop]
  unfold fragmentLength startOffset kBlockSize kHeaderSize at *
  dsimp only at *
  split_ifs at * <;> omega

/-- The bytes that are written, and where in the block the next record begins. -/
def addRecord (blockOffset : ℕ) (data : Bytes) : Bytes × ℕ := addRecordLoop true blockOffset data

/-- One record after the other. -/
def addRecords (blockOffset : ℕ) : List Bytes → Bytes × ℕ
  | [] => ([], blockOffset)
  | data :: records =>
    let first := addRecord blockOffset data
    let rest := addRecords first.2 records
    (first.1 ++ rest.1, rest.2)

/-- A writer that is made for the end of a file. -/
def appendRecords (file : Bytes) (records : List Bytes) : Bytes :=
  file ++ (addRecords (file.length % kBlockSize) records).1

/-! ## The reader -/

/-- What a reader is made with, and which reads of the file fail. -/
structure Options where
  checksum : Bool
  initialOffset : ℕ
  fault : ℕ → Option Failure

/-- The file is what is left of it to read. -/
structure Reader where
  /-- What the file has after the last read. -/
  file : Bytes
  /-- The number of reads. -/
  reads : ℕ
  buffer : Bytes
  eof : Bool
  lastRecordOffset : ℕ
  endOfBufferOffset : ℕ
  resyncing : Bool
  /-- What the reporter was told. -/
  reports : List (ℕ × Failure)

def Reader.new (o : Options) (file : Bytes) : Reader where
  file := file
  reads := 0
  buffer := []
  eof := false
  lastRecordOffset := 0
  endOfBufferOffset := 0
  resyncing := 0 < o.initialOffset
  reports := []

/-- Subtraction of `uint64_t`. -/
def minus (a b : ℕ) : ℕ := (a + (2 ^ 64 - b % 2 ^ 64)) % 2 ^ 64

namespace Reader

variable (o : Options)

/-- Drops in front of the initial offset are not reported. -/
def reportDrop (r : Reader) (bytes : ℕ) (reason : Failure) : Reader :=
  if o.initialOffset ≤ minus (minus r.endOfBufferOffset r.buffer.length) bytes then
    { r with reports := r.reports ++ [(bytes, reason)] }
  else r

def reportCorruption (r : Reader) (bytes : ℕ) (reason : String) : Reader :=
  r.reportDrop o bytes (corruption reason)

/-- `Skip` of the file at its beginning. -/
def skip (r : Reader) (location : ℕ) : Reader :=
  { r with endOfBufferOffset := location, file := r.file.drop location }

/-- The blocks in front of the one with the initial offset are skipped. -/
def skipToInitialBlock (r : Reader) : Reader :=
  let offsetInBlock := o.initialOffset % kBlockSize
  let blockStartLocation := o.initialOffset - offsetInBlock
  -- a block is not searched from its trailer
  if kBlockSize - 6 < offsetInBlock then r.skip (blockStartLocation + kBlockSize)
  else r.skip blockStartLocation

/-- A physical record at the front of a buffer that has a header: its type, its payload and the
reader after it. -/
def parsePhysicalRecord (r : Reader) : ℕ × Bytes × Reader :=
  let header := r.buffer
  let a := (header.getD 4 0).toNat &&& 0xff
  let b := (header.getD 5 0).toNat &&& 0xff
  let type := (header.getD 6 0).toNat
  let length := a ||| b <<< 8
  if kHeaderSize + length > r.buffer.length then
    let dropped := { r with buffer := [] }
    if !r.eof then
      (kBadRecord, [], dropped.reportCorruption o r.buffer.length "bad record length")
    else (kEof, [], dropped)
  else if type = kZeroType ∧ length = 0 then (kBadRecord, [], { r with buffer := [] })
  else if o.checksum ∧
      crcValue 0 ((header.drop 6).take (1 + length)) ≠ unmask (decodeFixed32 header) then
    (kBadRecord, [],
      { r with buffer := [] }.reportCorruption o r.buffer.length "checksum mismatch")
  else
    let r := { r with buffer := r.buffer.drop (kHeaderSize + length) }
    if minus (minus (minus r.endOfBufferOffset r.buffer.length) kHeaderSize) length <
        o.initialOffset then (kBadRecord, [], r)
    else (type, (header.drop kHeaderSize).take length, r)

/-- A read of the file that succeeds. -/
def readBlock (r : Reader) : Reader where
  file := r.file.drop kBlockSize
  reads := r.reads + 1
  buffer := r.file.take kBlockSize
  eof := (r.file.take kBlockSize).length < kBlockSize
  lastRecordOffset := r.lastRecordOffset
  endOfBufferOffset := r.endOfBufferOffset + (r.file.take kBlockSize).length
  resyncing := r.resyncing
  reports := r.reports

/-- The type of the next fragment and its bytes; `kEof` and `kBadRecord` are types too. -/
def readPhysicalRecord (r : Reader) : ℕ × Bytes × Reader :=
  if r.buffer.length < kHeaderSize then
    if r.eof then (kEof, [], { r with buffer := [] })
    else
      match o.fault r.reads with
      | some status =>
        let failed := { r with reads := r.reads + 1, buffer := [] }
        (kEof, [], { failed.reportDrop o kBlockSize status with eof := true })
      | none => r.readBlock.readPhysicalRecord
  else r.parsePhysicalRecord o
termination_by if r.eof then 0 else r.file.length + 1
decreasing_by
  simp only [readBlock, List.length_take, List.length_drop, kBlockSize]
  split_ifs <;> simp_all
  omega

/-- What `ReadRecord` keeps from one physical record to the next. -/
structure Assembly where
  inFragmentedRecord : Bool
  scratch : Bytes
  prospectiveRecordOffset : ℕ

/-- What the loop of `ReadRecord` does with a fragment. -/
inductive Next where
  | done (record : Option Bytes)
  | more (assembly : Assembly)

def setLastRecordOffset (r : Reader) (offset : ℕ) : Reader :=
  { r with lastRecordOffset := offset }

def setResyncing (r : Reader) : Reader := { r with resyncing := false }

/-- A record that has begun and not ended. Earlier versions of the writer left empty ones. -/
def reportPartial (r : Reader) (a : Assembly) (reason : String) : Reader :=
  if a.inFragmentedRecord ∧ a.scratch ≠ [] then r.reportCorruption o a.scratch.length reason else r

/-- Where the physical record that was just read starts. -/
def physicalRecordOffset (r : Reader) (fragment : Bytes) : ℕ :=
  minus (minus (minus r.endOfBufferOffset r.buffer.length) kHeaderSize) fragment.length

/-- What is done with a physical record when the reader is not resynchronizing. -/
def dispatchType (r : Reader) (a : Assembly) (type : ℕ) (fragment : Bytes) : Next × Reader :=
  if type = kFullType then
    (.done (some fragment),
      (r.reportPartial o a "partial record without end(1)").setLastRecordOffset
      (r.physicalRecordOffset fragment))
  else if type = kFirstType then
    (.more ⟨true, fragment, r.physicalRecordOffset fragment⟩,
      r.reportPartial o a "partial record without end(2)")
  else if type = kMiddleType then
    if a.inFragmentedRecord then (.more { a with scratch := a.scratch ++ fragment }, r)
    else (.more a, r.reportCorruption o fragment.length "missing start of fragmented record(1)")
  else if type = kLastType then
    if a.inFragmentedRecord then
      (.done (some (a.scratch ++ fragment)), r.setLastRecordOffset a.prospectiveRecordOffset)
    else (.more a, r.reportCorruption o fragment.length "missing start of fragmented record(2)")
  else if type = kEof then (.done none, r)
  else if type = kBadRecord then
    if a.inFragmentedRecord then
      (.more { a with inFragmentedRecord := false, scratch := [] },
        r.reportCorruption o a.scratch.length "error in middle of record")
    else (.more a, r)
  else
    (.more { a with inFragmentedRecord := false, scratch := [] },
      r.reportCorruption o
        (fragment.length + if a.inFragmentedRecord then a.scratch.length else 0)
        ("unknown record type " ++ toString type))

/-- What is done with a physical record. After a seek, the rest of a record is skipped. -/
def dispatch (r : Reader) (a : Assembly) (type : ℕ) (fragment : Bytes) : Next × Reader :=
  if r.resyncing then
    if type = kMiddleType then (.more a, r)
    else if type = kLastType then (.more a, r.setResyncing)
    else r.setResyncing.dispatchType o a type fragment
  else r.dispatchType o a type fragment

/-- What a reader can still get. -/
def size (r : Reader) : ℕ := r.file.length + r.buffer.length

@[simp] lemma size_reportDrop (r : Reader) (bytes : ℕ) (reason : Failure) :
    (r.reportDrop o bytes reason).size = r.size := by
  unfold reportDrop
  split <;> rfl

@[simp] lemma size_reportCorruption (r : Reader) (bytes : ℕ) (reason : String) :
    (r.reportCorruption o bytes reason).size = r.size := size_reportDrop o r bytes _

lemma size_skip (r : Reader) (location : ℕ) : (r.skip location).size ≤ r.size :=
  Nat.add_le_add_right (List.drop_sublist location r.file).length_le r.buffer.length

/-- A fragment is taken off the buffer. -/
lemma size_parsePhysicalRecord {r : Reader} (h : kHeaderSize ≤ r.buffer.length) :
    (r.parsePhysicalRecord o).2.2.size < r.size := by
  have hcleared : { r with buffer := [] }.size < r.size := by
    simp only [size, kHeaderSize, List.length_nil] at *
    omega
  unfold parsePhysicalRecord
  dsimp only
  split
  · split
    · rw [size_reportCorruption]
      exact hcleared
    · exact hcleared
  split
  · exact hcleared
  split
  · rw [size_reportCorruption]
    exact hcleared
  · have htaken : ∀ n, { r with buffer := r.buffer.drop (kHeaderSize + n) }.size < r.size := by
      intro n
      simp only [size, kHeaderSize, List.length_drop] at *
      omega
    split
    · exact htaken _
    · exact htaken _

/-- Every physical record takes something, except the end. -/
lemma size_readPhysicalRecord (r : Reader) :
    (r.readPhysicalRecord o).1 = kEof ∨ (r.readPhysicalRecord o).2.2.size < r.size := by
  fun_induction readPhysicalRecord o r with
  | case1 r hshort heof => exact Or.inl rfl
  | case2 r hshort heof status hfault => exact Or.inl rfl
  | case3 r hshort heof hfault ih =>
    have hread : r.readBlock.size ≤ r.size := by
      simp only [size, readBlock, List.length_take, List.length_drop]
      omega
    rcases ih with ih | ih
    · exact Or.inl ih
    · exact Or.inr (lt_of_lt_of_le ih hread)
  | case4 r hlong => exact Or.inr (size_parsePhysicalRecord o (not_lt.mp hlong))

@[simp] lemma size_setLastRecordOffset (r : Reader) (offset : ℕ) :
    (r.setLastRecordOffset offset).size = r.size := rfl

@[simp] lemma size_setResyncing (r : Reader) : r.setResyncing.size = r.size := rfl

@[simp] lemma size_reportPartial (r : Reader) (a : Assembly) (reason : String) :
    (r.reportPartial o a reason).size = r.size := by
  unfold reportPartial
  split
  · rw [size_reportCorruption]
  · rfl

lemma size_dispatchType (r : Reader) (a : Assembly) (type : ℕ) (fragment : Bytes) :
    (r.dispatchType o a type fragment).2.size = r.size := by
  unfold dispatchType
  split_ifs
  · rw [size_setLastRecordOffset, size_reportPartial]
  · rw [size_reportPartial]
  · rfl
  · rw [size_reportCorruption]
  · rw [size_setLastRecordOffset]
  · rw [size_reportCorruption]
  · rfl
  · rw [size_reportCorruption]
  · rfl
  · rw [size_reportCorruption]
  · rw [size_reportCorruption]

lemma size_dispatch (r : Reader) (a : Assembly) (type : ℕ) (fragment : Bytes) :
    (r.dispatch o a type fragment).2.size = r.size := by
  unfold dispatch
  split_ifs
  · rfl
  · rw [size_setResyncing]
  · rw [size_dispatchType, size_setResyncing]
  · rw [size_dispatchType]

/-- The end is the end. -/
lemma dispatch_kEof (r : Reader) (a : Assembly) (fragment : Bytes) :
    (r.dispatch o a kEof fragment).1 = .done none := by
  have htype : ∀ r : Reader, (r.dispatchType o a kEof fragment).1 = .done none := by
    intro r
    simp [dispatchType, kEof, kFullType, kFirstType, kMiddleType, kLastType]
  unfold dispatch
  split
  · rw [if_neg (by decide), if_neg (by decide)]
    exact htype _
  · exact htype r

/-- One round of the loop of `ReadRecord`. -/
def round (a : Assembly) (r : Reader) : Next × Reader :=
  let physical := r.readPhysicalRecord o
  physical.2.2.dispatch o a physical.1 physical.2.1

/-- A round takes something, or it is the last. -/
lemma size_round (a : Assembly) (r : Reader) :
    (r.round o a).1 = .done none ∨ (r.round o a).2.size < r.size := by
  unfold round
  dsimp only
  rcases size_readPhysicalRecord o r with heof | hlt
  · left
    rw [heof, dispatch_kEof]
  · right
    rw [size_dispatch]
    exact hlt

/-- The loop of `ReadRecord`. -/
def readRecordLoop (a : Assembly) (r : Reader) : Option Bytes × Reader :=
  match _hround : r.round o a with
  | (.done record, r') => (record, r')
  | (.more a', r') => readRecordLoop a' r'
termination_by r.size
decreasing_by
  have hsize := size_round o a r
  rw [_hround] at hsize
  simpa using hsize

/-- `ReadRecord`; `none` is the end of the input. -/
def readRecord (r : Reader) : Option Bytes × Reader :=
  let r := if r.lastRecordOffset < o.initialOffset then r.skipToInitialBlock o else r
  r.readRecordLoop o ⟨false, [], 0⟩

/-- A record that is returned has used up something of the file, so reading all of them ends. -/
lemma size_readRecordLoop {a : Assembly} {r : Reader} {data : Bytes}
    (h : (r.readRecordLoop o a).1 = some data) : (r.readRecordLoop o a).2.size < r.size := by
  fun_induction readRecordLoop o a r with
  | case1 a r record r' hround =>
    have hsize := size_round o a r
    rw [hround] at hsize
    dsimp only at h hsize ⊢
    simpa [h] using hsize
  | case2 a r a' r' hround ih =>
    have hsize := size_round o a r
    rw [hround] at hsize
    have hlt : r'.size < r.size := by simpa using hsize
    exact lt_trans (ih h) hlt

lemma size_readRecord {r : Reader} {data : Bytes} (h : (r.readRecord o).1 = some data) :
    (r.readRecord o).2.size < r.size := by
  have hskip : (if r.lastRecordOffset < o.initialOffset then r.skipToInitialBlock o else r).size ≤
      r.size := by
    unfold skipToInitialBlock
    dsimp only
    split_ifs
    · exact size_skip r _
    · exact size_skip r _
    · exact le_refl _
  unfold readRecord at h ⊢
  dsimp only at h ⊢
  exact lt_of_lt_of_le (size_readRecordLoop o h) hskip

/-- All records, and the reader at the end of the input. -/
def readRecords (r : Reader) : List Bytes × Reader :=
  match _hrecord : (r.readRecord o).1 with
  | none => ([], (r.readRecord o).2)
  | some data =>
    (data :: (readRecords (r.readRecord o).2).1, (readRecords (r.readRecord o).2).2)
termination_by r.size
decreasing_by
  all_goals exact size_readRecord o _hrecord

end Reader

end Log

end Engine

end RnLeveldb
