import RnLeveldb.Engine.LogReading
import RnLeveldb.Engine.WriteQueue

/-!
# `DBImpl::RecoverLogFile`

When a database is opened, what its logs hold is added to memtables once more and written to
table files. A log may end in the middle of a record, and then the batch of that record never
happened.

A table is the list of its entries here.
-/

namespace RnLeveldb

namespace Engine

open Versions

/-! ## `RecoverLogFile` -/

/-- The number of the last record of a batch. The count is an `int` that is added to 64 bits. -/
def WriteBatch.lastSequence (b : WriteBatch) : ℕ :=
  let count := if b.count < 2 ^ 31 then b.count else 2 ^ 64 - 2 ^ 32 + b.count
  (b.sequence + count + (2 ^ 64 - 1)) % 2 ^ 64

structure RecoveryOptions where
  paranoidChecks : Bool
  /-- `ApproximateMemoryUsage` is above `write_buffer_size`. -/
  full : List Bytes → Bool
  /-- Which reads of a log fail. -/
  readFault : ℕ → Option Failure
  /-- Which tables cannot be written. -/
  tableFault : List Bytes → Option Failure

/-- The log reader checks checksums whatever the options say. -/
def RecoveryOptions.reader (o : RecoveryOptions) : Log.Options where
  checksum := true
  initialOffset := 0
  fault := o.readFault

structure Recovery where
  /-- The tables of level 0, the oldest first. -/
  tables : List (List Bytes)
  mem : Option (List Bytes)
  maxSequence : ℕ
  saveManifest : Bool
  status : Status

namespace Recovery

variable (o : RecoveryOptions)

/-- `LogReporter::Corruption`. -/
def corrupted (st : Recovery) (reason : Failure) : Recovery :=
  if o.paranoidChecks ∧ st.status = .ok then { st with status := .fail reason } else st

/-- What the reader has reported during a call. -/
def reported (st : Recovery) (before after : Log.Reader) : Recovery :=
  (after.reports.drop before.reports.length).foldl (fun st report => st.corrupted o report.2) st

/-- `MaybeIgnoreError`. -/
def maybeIgnoreError (status : Status) : Status :=
  if status = .ok ∨ o.paranoidChecks then status else .ok

/-- `WriteLevel0Table` of the memtable. No file is made of an empty one. -/
def writeLevel0Table (st : Recovery) (mem : List Bytes) : Recovery :=
  match o.tableFault mem with
  | some f => { st with mem := none, saveManifest := true, status := .fail f }
  | none =>
    { st with
      tables := if mem = [] then st.tables else st.tables ++ [mem]
      mem := none
      saveManifest := true }

/-- The body of the loop. -/
def addRecord (st : Recovery) (record : Bytes) : Recovery :=
  if h : record.length < kHeader then st.corrupted o (corruption "log record too small")
  else
    let batch := WriteBatch.setContents record (not_lt.mp h)
    let inserted := MemTable.insertInto batch (st.mem.getD [])
    let status := maybeIgnoreError o inserted.2
    if status = .ok then
      let lastSeq := batch.lastSequence
      let st := { st with
        mem := some inserted.1
        maxSequence := if st.maxSequence < lastSeq then lastSeq else st.maxSequence }
      if o.full inserted.1 then st.writeLevel0Table o inserted.1 else st
    else { st with mem := some inserted.1, status := status }

/-- The loop. -/
def recoverLoop (r : Log.Reader) (st : Recovery) : Recovery :=
  match _hrecord : (r.readRecord o.reader).1 with
  | none => st.reported o r (r.readRecord o.reader).2
  | some record =>
    let st := st.reported o r (r.readRecord o.reader).2
    if st.status = .ok then
      let next := st.addRecord o record
      -- a record that is too small is passed over, all other errors end the loop
      if next.status = .ok ∨ record.length < kHeader then
        recoverLoop (r.readRecord o.reader).2 next
      else next
    else st
termination_by r.size
decreasing_by
  exact Log.Reader.size_readRecord o.reader _hrecord

/-- A log that is not kept for new writes. -/
def recoverLogFile (st : Recovery) (log : Bytes) : Recovery :=
  let st := recoverLoop o (Log.Reader.new o.reader log) { st with mem := none, status := .ok }
  match st.mem with
  | none => st
  | some mem => if st.status = .ok then st.writeLevel0Table o mem else { st with mem := none }

/-- The loop of `DBImpl::Recover`, which takes the logs in the order of their numbers. -/
def recoverLogFiles (st : Recovery) : List Bytes → Recovery
  | [] => st
  | log :: logs =>
    let st := st.recoverLogFile o log
    if st.status = .ok then recoverLogFiles st logs else st

def new : Recovery where
  tables := []
  mem := none
  maxSequence := 0
  saveManifest := false
  status := .ok

/-- A read after the recovery: newer tables come first. -/
def get (st : Recovery) (key : Bytes) (snapshot : ℕ) : Option (Except Failure Bytes) :=
  st.tables.reverse.findSome? fun table => MemTable.get table key snapshot

end Recovery

/-! ## One record after the other -/

/-- The tables that come of these parts of a history. Each has the number it begins with. -/
def buildTables (parts : List (ℕ × List BatchOp)) : List (List Bytes) :=
  parts.map fun p => MemTable.insertOps [] p.1 p.2

/-- The records of some parts. -/
def opsOfParts (parts : List (ℕ × List BatchOp)) : List BatchOp := parts.flatMap Prod.snd

lemma opsOfParts_append (a b : List (ℕ × List BatchOp)) :
    opsOfParts (a ++ b) = opsOfParts a ++ opsOfParts b := List.flatMap_append

/-- No part is newer than `last`. -/
def UpTo (last : ℕ) (parts : List (ℕ × List BatchOp)) : Prop :=
  ∀ p ∈ parts, p.1 + p.2.length ≤ last + 1

lemma UpTo.mono {last last' : ℕ} {parts : List (ℕ × List BatchOp)} (h : UpTo last parts)
    (hle : last ≤ last') : UpTo last' parts :=
  fun p hp => le_trans (h p hp) (Nat.succ_le_succ hle)

lemma UpTo.append {last : ℕ} {a b : List (ℕ × List BatchOp)} (ha : UpTo last a)
    (hb : UpTo last b) : UpTo last (a ++ b) := by
  intro p hp
  rcases List.mem_append.mp hp with hp | hp
  · exact ha p hp
  · exact hb p hp

lemma insertOps_append (table : List Bytes) (n : ℕ) (a b : List BatchOp) :
    MemTable.insertOps table n (a ++ b) =
      MemTable.insertOps (MemTable.insertOps table n a) (n + a.length) b := by
  induction a generalizing table n with
  | nil => rfl
  | cons op a ih =>
    rw [List.cons_append, MemTable.insertOps, ih, MemTable.insertOps, List.length_cons,
      Nat.add_assoc, Nat.add_comm 1]

lemma length_insertEntry (entry : Bytes) (table : List Bytes) :
    (insertEntry entry table).length = table.length + 1 := by
  induction table with
  | nil => rfl
  | cons e table ih =>
    unfold insertEntry
    split
    · rw [List.length_cons, ih, List.length_cons]
    · rfl

lemma length_insertOps (table : List Bytes) (n : ℕ) (ops : List BatchOp) :
    (MemTable.insertOps table n ops).length = table.length + ops.length := by
  induction ops generalizing table n with
  | nil => rfl
  | cons op ops ih =>
    rw [MemTable.insertOps, ih, insertOp_eq, length_insertEntry, List.length_cons]
    omega

/-- What has been recovered of a log whose first number is `n`: the records `ops`. `start` is what
was there before. -/
structure Rebuilt (start : Recovery) (n : ℕ) (st : Recovery) (ops : List BatchOp) : Prop where
  status : st.status = .ok
  mono : start.maxSequence ≤ st.maxSequence
  lt_next : st.maxSequence < n + ops.length
  le_last : ops ≠ [] → n + ops.length ≤ st.maxSequence + 1
  split : ∃ parts part, ops = opsOfParts parts ++ part ∧
    UpTo st.maxSequence parts ∧
    st.tables = start.tables ++ buildTables parts ∧
    st.mem.getD [] = MemTable.insertOps [] (n + (opsOfParts parts).length) part ∧
    (st.mem = none → part = [])

/-- The groups of a log and its records. The groups are numbered from `n` on. -/
inductive Logged : ℕ → List (List BatchOp) → List Bytes → Prop
  | nil (n : ℕ) : Logged n [] []
  | cons {n : ℕ} {ops : List BatchOp} {groups : List (List BatchOp)} {records : List Bytes}
    (b : WriteBatch) (hb : b.Holds n ops) (hfits : ∀ op ∈ ops, FitsEntry op)
    (hshort : ops.length < 2 ^ 31) (hrest : Logged (n + ops.length) groups records) :
    Logged n (ops :: groups) (b.rep :: records)

section

variable {o : RecoveryOptions} {start : Recovery} {n : ℕ} {st : Recovery}
  {ops more : List BatchOp}

/-- The memtable becomes a table. -/
lemma Rebuilt.writeLevel0Table (h : Rebuilt start n st ops) (htable : ∀ t, o.tableFault t = none)
    {mem : List Bytes} (hmem : st.mem = some mem) :
    Rebuilt start n (st.writeLevel0Table o mem) ops ∧ (st.writeLevel0Table o mem).mem = none := by
  obtain ⟨parts, part, hops, hupto, htables, hpart, -⟩ := h.split
  rw [hmem, Option.getD_some] at hpart
  unfold Recovery.writeLevel0Table
  rw [htable]
  dsimp only
  refine ⟨⟨h.status, h.mono, h.lt_next, h.le_last, ?_⟩, rfl⟩
  have hlen := length_insertOps [] (n + (opsOfParts parts).length) part
  rw [← hpart, List.length_nil, Nat.zero_add] at hlen
  by_cases hempty : mem = []
  · have hnil : part = [] := by
      rw [hempty, List.length_nil] at hlen
      exact List.length_eq_zero_iff.mp hlen.symm
    rw [if_pos hempty]
    refine ⟨parts, [], ?_, hupto, htables, rfl, fun _ => rfl⟩
    rw [hops, hnil]
  · rw [if_neg hempty]
    have hsplit : ops = opsOfParts (parts ++ [(n + (opsOfParts parts).length, part)]) := by
      rw [hops, opsOfParts_append, opsOfParts, opsOfParts, List.flatMap_singleton]
    refine ⟨parts ++ [(n + (opsOfParts parts).length, part)], [], ?_, ?_, ?_, rfl, fun _ => rfl⟩
    · rw [List.append_nil]
      exact hsplit
    · apply hupto.append
      intro p hp
      have hpos : 0 < mem.length := List.length_pos_iff.mpr hempty
      have hne : ops ≠ [] := by
        intro hnil
        have hzero := congrArg List.length hops
        rw [hnil, List.length_append, List.length_nil] at hzero
        omega
      have hlast := h.le_last hne
      rw [hops, List.length_append] at hlast
      rw [List.mem_singleton.mp hp]
      dsimp only
      omega
    · rw [htables, hpart, List.append_assoc, buildTables, buildTables, List.map_append]
      rfl

/-- A record of the log adds its batch. -/
lemma Rebuilt.addRecord (h : Rebuilt start n st ops) (htable : ∀ t, o.tableFault t = none)
    {b : WriteBatch} (hb : b.Holds (n + ops.length) more) (hfits : ∀ op ∈ more, FitsEntry op)
    (hshort : more.length < 2 ^ 31) (hmax : n + ops.length + more.length ≤ kMaxSequenceNumber + 1) :
    Rebuilt start n (st.addRecord o b.rep) (ops ++ more) := by
  have h56 : kMaxSequenceNumber < 2 ^ 64 - 1 := by decide
  have hiter : b.iterate = (more, .ok) :=
    hb.iterate_eq (fun op hop => fits_of_fitsEntry (hfits op hop)) hshort
  have hseq : b.sequence = n + ops.length := hb.sequence_eq (by omega)
  have hcount : b.count = more.length := by
    rw [hb.count_eq]
    omega
  have hnext := h.lt_next
  have hlast : b.lastSequence + 1 = n + ops.length + more.length := by
    have hint : b.count < 2 ^ 31 := by rw [hcount]; exact hshort
    rw [WriteBatch.lastSequence, if_pos hint, hcount, hseq]
    generalize kMaxSequenceNumber = k at h56 hmax
    omega
  have hset : WriteBatch.setContents b.rep b.header = b := rfl
  obtain ⟨parts, part, hops, hupto, htables, hpart, -⟩ := h.split
  have hstart : n + ops.length = n + (opsOfParts parts).length + part.length := by
    rw [hops, List.length_append]
    omega
  have hinserted : MemTable.insertInto b (st.mem.getD []) =
      (MemTable.insertOps [] (n + (opsOfParts parts).length) (part ++ more), .ok) := by
    rw [MemTable.insertInto, hiter, hseq, hpart, hstart, insertOps_append]
  have hadded : Rebuilt start n
      { st with
        mem := some (MemTable.insertOps [] (n + (opsOfParts parts).length) (part ++ more))
        maxSequence := if st.maxSequence < b.lastSequence then b.lastSequence
          else st.maxSequence } (ops ++ more) := by
    have hmono : st.maxSequence ≤ if st.maxSequence < b.lastSequence then b.lastSequence
        else st.maxSequence := by
      split <;> omega
    refine ⟨h.status, ?_, ?_, fun _ => ?_, parts, part ++ more, ?_, ?_, htables, rfl, ?_⟩
    · dsimp only
      exact le_trans h.mono hmono
    · dsimp only
      rw [List.length_append]
      split <;> omega
    · dsimp only
      rw [List.length_append]
      split <;> omega
    · rw [hops, List.append_assoc]
    · dsimp only
      exact hupto.mono hmono
    · intro hnone
      cases hnone
  unfold Recovery.addRecord
  rw [dif_neg (not_lt.mpr b.header)]
  dsimp only
  rw [hset, hinserted]
  dsimp only
  rw [if_pos (by rw [Recovery.maybeIgnoreError, if_pos (Or.inl rfl)])]
  split
  · exact (hadded.writeLevel0Table htable rfl).1
  · exact hadded

/-- Nothing new was reported. -/
lemma reported_of_eq {r r' : Log.Reader} (h : r'.reports = r.reports) :
    st.reported o r r' = st := by
  rw [Recovery.reported, h, List.drop_length, List.foldl_nil]

lemma recoverLoop_of_none {r : Log.Reader} (hnone : (r.readRecord o.reader).1 = none)
    (hreports : (r.readRecord o.reader).2.reports = r.reports) : st.recoverLoop o r = st := by
  rw [Recovery.recoverLoop]
  split
  · exact reported_of_eq hreports
  · next hsome =>
    rw [hnone] at hsome
    cases hsome

lemma recoverLoop_of_some {r r' : Log.Reader} {record : Bytes}
    (hread : r.readRecord o.reader = (some record, r')) (hreports : r'.reports = r.reports)
    (hstatus : st.status = .ok) (hnext : (st.addRecord o record).status = .ok) :
    st.recoverLoop o r = (st.addRecord o record).recoverLoop o r' := by
  have hsnd : (r.readRecord o.reader).2 = r' := by rw [hread]
  rw [Recovery.recoverLoop]
  split
  · next hnone =>
    rw [hread] at hnone
    cases hnone
  · next record' hsome =>
    rw [hread] at hsome
    cases hsome
    dsimp only
    rw [hsnd, reported_of_eq hreports, if_pos hstatus, if_pos (Or.inl hnext)]

/-- Of a log that is not all there, the batches that are there as a whole are recovered. -/
lemma Rebuilt.recoverLoop (hread : ∀ i, o.readFault i = none) (htable : ∀ t, o.tableFault t = none)
    {groups : List (List BatchOp)} {records : List Bytes}
    (hlogged : Logged (n + ops.length) groups records) (h : Rebuilt start n st ops)
    (hmax : n + (ops ++ groups.flatten).length ≤ kMaxSequenceNumber + 1)
    {reports : List (ℕ × Failure)} {off len : ℕ} {r : Log.Reader}
    (hat : Log.At reports off ((Log.addRecords off records).1.take len) r)
    (hoff : off ≤ Log.kBlockSize) :
    ∃ m ≤ groups.length, Rebuilt start n (st.recoverLoop o r) (ops ++ (groups.take m).flatten) ∧
      (m < groups.length → len < (Log.addRecords off (records.take (m + 1))).1.length) := by
  induction records generalizing groups ops st off len r with
  | nil =>
    cases hlogged
    rw [Log.addRecords, List.take_nil] at hat
    obtain ⟨hnone, hreports⟩ := hat.readRecord_nil (o := o.reader) rfl hread
    rw [← hat.reports_eq] at hreports
    refine ⟨0, le_refl _, ?_, fun hlt => absurd hlt (lt_irrefl 0)⟩
    rw [recoverLoop_of_none hnone hreports]
    simpa using h
  | cons record records ih =>
    cases hlogged with
    | cons b hb hfits hshort hrest =>
      rename_i more groups
      by_cases hcut : len < (Log.addRecord off b.rep).1.length
      · obtain ⟨hnone, hreports⟩ := hat.readRecord_of_lt (o := o.reader) rfl hread hoff hcut
        rw [← hat.reports_eq] at hreports
        refine ⟨0, Nat.zero_le _, ?_, fun _ => ?_⟩
        · rw [recoverLoop_of_none hnone hreports]
          simpa using h
        · rw [List.take_succ_cons, Log.length_addRecords_cons]
          omega
      · obtain ⟨r', hrec, hat'⟩ := hat.readRecord_of_le (o := o.reader) rfl hread hoff
          (not_lt.mp hcut)
        rw [List.flatten_cons, List.length_append, List.length_append] at hmax
        have hadd := h.addRecord htable hb hfits hshort (by omega)
        rw [Nat.add_assoc n, ← List.length_append] at hrest
        obtain ⟨m, hm, hrebuilt, hlt⟩ := ih hrest hadd
          (by rw [List.append_assoc, List.length_append, List.length_append]; omega) hat'
          (Log.addRecordLoop_offset_le hoff)
        have hreports : r'.reports = r.reports := by rw [hat'.reports_eq, hat.reports_eq]
        refine ⟨m + 1, Nat.succ_le_succ hm, ?_, fun hm' => ?_⟩
        · rw [recoverLoop_of_some hrec hreports h.status hadd.status, List.take_succ_cons,
            List.flatten_cons, ← List.append_assoc]
          exact hrebuilt
        · have hlt' := hlt (Nat.lt_of_succ_lt_succ hm')
          rw [List.take_succ_cons, Log.length_addRecords_cons]
          omega

/-- The tables of a recovery were made of these parts. -/
structure Recovered (st : Recovery) (parts : List (ℕ × List BatchOp)) : Prop where
  status : st.status = .ok
  tables : st.tables = buildTables parts
  upTo : UpTo st.maxSequence parts
  fits : ∀ op ∈ opsOfParts parts, FitsEntry op

lemma Logged.fits {groups : List (List BatchOp)} {records : List Bytes}
    (h : Logged n groups records) : ∀ op ∈ groups.flatten, FitsEntry op := by
  induction h with
  | nil => simp
  | cons b hb hfits hshort hrest ih =>
    intro op hop
    rcases List.mem_append.mp hop with hop | hop
    · exact hfits op hop
    · exact ih op hop

/-- Of a log that is cut off anywhere, the groups that are there as a whole are recovered. -/
lemma Recovered.recoverLogFile (hread : ∀ i, o.readFault i = none)
    (htable : ∀ t, o.tableFault t = none) {groups : List (List BatchOp)} {records : List Bytes}
    (hlogged : Logged n groups records) {parts : List (ℕ × List BatchOp)} (h : Recovered st parts)
    (hnext : st.maxSequence < n) (hmax : n + groups.flatten.length ≤ kMaxSequenceNumber + 1)
    {file : Bytes} (hfile : file <+: (Log.addRecords 0 records).1) :
    ∃ m ≤ groups.length, ∃ parts', Recovered (st.recoverLogFile o file) parts' ∧
      opsOfParts parts' = opsOfParts parts ++ (groups.take m).flatten ∧
      (st.recoverLogFile o file).maxSequence < n + (groups.take m).flatten.length ∧
      (m < groups.length → file.length < (Log.addRecords 0 (records.take (m + 1))).1.length) := by
  have hat := Log.at_new (o := o.reader) rfl file
  have htake : file = (Log.addRecords Log.kBlockSize records).1.take file.length := by
    rw [Log.addRecords_kBlockSize]
    exact List.prefix_iff_eq_take.mp hfile
  rw [htake] at hat
  have hlogged' : Logged (n + ([] : List BatchOp).length) groups records := hlogged
  have hstart : Rebuilt st n { st with mem := none, status := .ok } [] :=
    ⟨rfl, le_refl _, hnext, fun hne => absurd rfl hne, [], [], rfl, by simp [UpTo],
      by simp [buildTables],
      rfl, fun _ => rfl⟩
  obtain ⟨m, hm, hrebuilt, hlt⟩ := hstart.recoverLoop hread htable hlogged'
    (by rw [List.nil_append]; exact hmax) hat (le_refl _)
  rw [Log.addRecords_kBlockSize] at hlt
  rw [List.nil_append, ← htake] at hrebuilt
  -- what is left in the memtable becomes the last table
  obtain ⟨hfinal, hnone⟩ :
      Rebuilt st n (st.recoverLogFile o file) (groups.take m).flatten ∧
        (st.recoverLogFile o file).mem = none := by
    unfold Recovery.recoverLogFile
    dsimp only
    split
    · next hmem => exact ⟨hrebuilt, hmem⟩
    · next mem hmem =>
      rw [if_pos hrebuilt.status]
      exact hrebuilt.writeLevel0Table htable hmem
  obtain ⟨parts', part, hops, hupto, htables, -, hpart⟩ := hfinal.split
  rw [hpart hnone, List.append_nil] at hops
  have hall : opsOfParts (parts ++ parts') = opsOfParts parts ++ (groups.take m).flatten := by
    rw [opsOfParts_append, hops]
  refine ⟨m, hm, parts ++ parts', ⟨hfinal.status, ?_, ?_, ?_⟩, hall, hfinal.lt_next, hlt⟩
  · rw [htables, h.tables, buildTables, buildTables, buildTables, List.map_append]
  · exact (h.upTo.mono hfinal.mono).append hupto
  · intro op hop
    rw [hall] at hop
    rcases List.mem_append.mp hop with hop | hop
    · exact h.fits op hop
    · apply hlogged.fits op
      rw [← List.take_append_drop m groups, List.flatten_append]
      exact List.mem_append_left _ hop

lemma recoverLogFiles_append {logs : List Bytes} (h : (st.recoverLogFiles o logs).status = .ok)
    (log : Bytes) :
    st.recoverLogFiles o (logs ++ [log]) = (st.recoverLogFiles o logs).recoverLogFile o log := by
  induction logs generalizing st with
  | nil =>
    rw [List.nil_append, Recovery.recoverLogFiles, Recovery.recoverLogFiles,
      Recovery.recoverLogFiles, ite_self]
  | cons first logs ih =>
    rw [List.cons_append, Recovery.recoverLogFiles, Recovery.recoverLogFiles]
    rw [Recovery.recoverLogFiles] at h
    by_cases hok : (st.recoverLogFile o first).status = .ok
    · rw [if_pos hok] at h ⊢
      rw [if_pos hok]
      exact ih h
    · rw [if_neg hok] at h
      exact absurd h hok

/-- What reads find in tables that were made of a history. -/
lemma Recovered.get_eq {parts : List (ℕ × List BatchOp)} (h : Recovered st parts)
    (hmax : st.maxSequence ≤ kMaxSequenceNumber) {key : Bytes} (hkey : key.length + 8 < 2 ^ 32)
    (value : Bytes) :
    st.get key st.maxSequence = some (.ok value) ↔
      (applyBatch .empty (opsOfParts parts)).get key = some value := by
  have hupto := h.upTo
  have hfits := h.fits
  generalize st.maxSequence = t at hmax hupto ⊢
  obtain ⟨gens, hget, hread⟩ : ∃ gens : List (List (Version Bytes Bytes)),
      st.get key t = (readGenerations gens t key).map answer ∧
      (readGenerations gens t key).bind Version.value =
        (applyBatch .empty (opsOfParts parts)).get key := by
    unfold Recovery.get
    rw [h.tables]
    clear h
    induction parts using List.reverseRecOn with
    | nil => exact ⟨[], rfl, rfl⟩
    | append_singleton parts p ih =>
      rw [opsOfParts_append] at hfits ⊢
      obtain ⟨gens, hget, hread⟩ := ih (fun op hop => hfits op (List.mem_append_left _ hop))
        fun q hq => hupto q (List.mem_append_left _ hq)
      have hlen := hupto p (List.mem_append_right _ (List.mem_singleton.mpr rfl))
      have hp : opsOfParts [p] = p.2 := by rw [opsOfParts, List.flatMap_singleton]
      rw [hp] at hfits ⊢
      have hpart : Holds (MemTable.insertOps [] p.1 p.2) (record p.1 [] (p.2.map opWrite)) :=
        holds_nil.insertOps (by simp) (fun op hop => hfits op (List.mem_append_right _ hop))
          (by omega)
      have hcons : readGenerations (record p.1 [] (p.2.map opWrite) :: gens) t key =
          (newest (record p.1 [] (p.2.map opWrite)) t key).or (readGenerations gens t key) := by
        rw [readGenerations, List.findSome?_cons]
        cases newest (record p.1 [] (p.2.map opWrite)) t key <;> rfl
      refine ⟨record p.1 [] (p.2.map opWrite) :: gens, ?_, ?_⟩
      · have hlast : (buildTables (parts ++ [p])).reverse =
            MemTable.insertOps [] p.1 p.2 :: (buildTables parts).reverse := by
          rw [buildTables, List.map_append, List.reverse_append]
          rfl
        rw [hlast, List.findSome?_cons, hget, hpart.get_eq hkey hmax, hcons]
        cases newest (record p.1 [] (p.2.map opWrite)) t key <;> rfl
      · have hnewest := @Sorted.newest_record _ _ _ _ t key p.1 List.Pairwise.nil (by simp)
          (p.2.map opWrite) ((readGenerations gens t key).bind Version.value)
        have hall : (p.2.map opWrite).take (t + 1 - p.1) = p.2.map opWrite := by
          apply List.take_of_length_le
          rw [List.length_map]
          omega
        have hon : BatchOp.on key = fun old op => lastWrite key old (opWrite op) := by
          funext old op
          exact on_eq_lastWrite key old op
        rw [hall, List.foldl_map, ← hon] at hnewest
        rw [get_applyBatch, List.foldl_append, ← get_applyBatch, ← hread]
        refine Eq.trans ?_ hnewest
        rw [hcons]
        cases newest (record p.1 [] (p.2.map opWrite)) t key <;> rfl
  rw [hget, ← hread]
  cases readGenerations gens t key with
  | none => simp
  | some v =>
    rw [Option.map_some, Option.bind_some, answer]
    cases v.value <;> simp

end

end Engine

end RnLeveldb
