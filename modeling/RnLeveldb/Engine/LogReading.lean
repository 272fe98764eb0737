import RnLeveldb.Engine.Log

/-!
# What a log reader returns

The reader is compared with the writer one fragment at a time. `At` says where a reader stands:
at an offset in a block, with what the rest of the file is, whatever part of it is in the buffer.
Reading one fragment moves it behind the fragment; a fragment that is not all there is the end.
-/

namespace RnLeveldb

namespace Engine

namespace Log

/-! ## Fragments -/

lemma emitPhysicalRecord_eq (type : ℕ) (payload : Bytes) :
    emitPhysicalRecord type payload =
      encodeFixed32 (mask (crcValue 0 (UInt8.ofNat type :: payload))) ++
        (UInt8.ofNat (payload.length &&& 0xff) :: UInt8.ofNat (payload.length >>> 8) ::
          UInt8.ofNat type :: payload) := by
  have hcrc : extend 0 (crcValue 0 [UInt8.ofNat type]) payload =
      crcValue 0 (UInt8.ofNat type :: payload) :=
    extend_append 0 0 0 (by decide) [UInt8.ofNat type] payload
  rw [emitPhysicalRecord, hcrc, List.append_assoc]
  rfl

@[simp] lemma length_emitPhysicalRecord (type : ℕ) (payload : Bytes) :
    (emitPhysicalRecord type payload).length = kHeaderSize + payload.length := by
  rw [emitPhysicalRecord_eq, List.length_append, length_encodeFixed32]
  simp only [List.length_cons, kHeaderSize]
  omega

/-- The two bytes of a length. -/
lemma length_bytes {n : ℕ} (hn : n < 2 ^ 16) :
    ((UInt8.ofNat (n &&& 0xff)).toNat &&& 0xff) |||
      ((UInt8.ofNat (n >>> 8)).toNat &&& 0xff) <<< 8 = n := by
  have hlow : (UInt8.ofNat (n &&& 0xff)).toNat &&& 0xff = n % 2 ^ 8 := by
    rw [and_0xff, and_0xff, UInt8.toNat_ofNat']
    omega
  have hhigh : (UInt8.ofNat (n >>> 8)).toNat &&& 0xff = n / 2 ^ 8 := by
    rw [and_0xff, UInt8.toNat_ofNat', Nat.shiftRight_eq_div_pow]
    omega
  have hor := Nat.shiftLeft_add_eq_or_of_lt (show n % 2 ^ 8 < 2 ^ 8 by omega) (n / 2 ^ 8)
  rw [hlow, hhigh, Nat.or_comm, ← hor, Nat.shiftLeft_eq]
  omega

/-- What the reader takes from a header, whatever follows it. -/
lemma header_fields (type : ℕ) (payload tail : Bytes) :
    let header := encodeFixed32 (mask (crcValue 0 (UInt8.ofNat type :: payload))) ++
        (UInt8.ofNat (payload.length &&& 0xff) :: UInt8.ofNat (payload.length >>> 8) ::
          UInt8.ofNat type :: tail)
    header.getD 4 0 = UInt8.ofNat (payload.length &&& 0xff) ∧
      header.getD 5 0 = UInt8.ofNat (payload.length >>> 8) ∧
      header.getD 6 0 = UInt8.ofNat type ∧
      header.drop 6 = UInt8.ofNat type :: tail ∧
      header.drop kHeaderSize = tail ∧
      unmask (decodeFixed32 header) = crcValue 0 (UInt8.ofNat type :: payload) := by
  intro header
  have hlen : ∀ v, (encodeFixed32 v).length = 4 := length_encodeFixed32
  have hdrop : ∀ n, header.drop (4 + n) = (UInt8.ofNat (payload.length &&& 0xff) ::
      UInt8.ofNat (payload.length >>> 8) :: UInt8.ofNat type :: tail).drop n := by
    intro n
    rw [← List.drop_drop, List.drop_left' (hlen _)]
  refine ⟨?_, ?_, ?_, hdrop 2, hdrop 3, ?_⟩
  · rw [List.getD_append_right _ _ _ _ (by rw [hlen]), hlen]
    rfl
  · rw [List.getD_append_right _ _ _ _ (by rw [hlen]; omega), hlen]
    rfl
  · rw [List.getD_append_right _ _ _ _ (by rw [hlen]; omega), hlen]
    rfl
  · have hcrc : crcValue 0 (UInt8.ofNat type :: payload) < 2 ^ 32 := extend_lt 0 (by decide) _
    rw [decodeFixed32_append (mask_lt _), unmask_mask hcrc]

/-- The types the writer gives. -/
def IsFragmentType (type : ℕ) : Prop := kFullType ≤ type ∧ type ≤ kLastType

lemma isFragmentType_recordType (isBegin isEnd : Bool) :
    IsFragmentType (recordType isBegin isEnd) := by
  revert isBegin isEnd
  unfold IsFragmentType
  decide

lemma toNat_ofNat_type {type : ℕ} (htype : IsFragmentType type) :
    (UInt8.ofNat type).toNat = type := by
  have hle := htype.2
  unfold kLastType at hle
  rw [UInt8.toNat_ofNat']
  omega

section

variable {o : Options} (hstart : o.initialOffset = 0) (hfault : ∀ n, o.fault n = none)

include hstart in
/-- A fragment in the buffer is taken off it. -/
lemma parsePhysicalRecord_emit {r : Reader} {type : ℕ} {payload rest : Bytes}
    (htype : IsFragmentType type) (hlen : payload.length < 2 ^ 16)
    (hbuffer : r.buffer = emitPhysicalRecord type payload ++ rest) :
    r.parsePhysicalRecord o = (type, payload, { r with buffer := rest }) := by
  have hheader : r.buffer = encodeFixed32 (mask (crcValue 0 (UInt8.ofNat type :: payload))) ++
      (UInt8.ofNat (payload.length &&& 0xff) :: UInt8.ofNat (payload.length >>> 8) ::
        UInt8.ofNat type :: (payload ++ rest)) := by
    rw [hbuffer, emitPhysicalRecord_eq]
    simp
  obtain ⟨h4, h5, h6, hdrop6, hdrop7, hcrc⟩ := header_fields type payload (payload ++ rest)
  rw [← hheader] at h4 h5 h6 hdrop6 hdrop7 hcrc
  have hsize : r.buffer.length = kHeaderSize + payload.length + rest.length := by
    rw [hbuffer, List.length_append, length_emitPhysicalRecord]
  have hzero : ¬ (type = kZeroType ∧ payload.length = 0) := by
    have := htype.1
    unfold kFullType at this
    unfold kZeroType
    omega
  have hsum : ¬ (o.checksum = true ∧ crcValue 0 ((r.buffer.drop 6).take (1 + payload.length)) ≠
      unmask (decodeFixed32 r.buffer)) := by
    rw [hdrop6, hcrc, Nat.add_comm 1, List.take_succ_cons, List.take_left' rfl]
    simp
  have hdrop : r.buffer.drop (kHeaderSize + payload.length) = rest := by
    rw [← List.drop_drop, hdrop7, List.drop_left' rfl]
  have hpayload : (r.buffer.drop kHeaderSize).take payload.length = payload := by
    rw [hdrop7, List.take_left' rfl]
  unfold Reader.parsePhysicalRecord
  dsimp only
  rw [h4, h5, h6, length_bytes hlen, toNat_ofNat_type htype, if_neg (by omega), if_neg hzero,
    if_neg hsum, hdrop, hpayload, if_neg (by omega)]

/-- A fragment that is not all there is the end of a file. -/
lemma parsePhysicalRecord_take {r : Reader} {type : ℕ} {payload : Bytes} {n : ℕ}
    (hlen : payload.length < 2 ^ 16) (hheader : kHeaderSize ≤ n)
    (hn : n < kHeaderSize + payload.length) (heof : r.eof = true)
    (hbuffer : r.buffer = (emitPhysicalRecord type payload).take n) :
    r.parsePhysicalRecord o = (kEof, [], { r with buffer := [] }) := by
  obtain ⟨m, rfl⟩ := Nat.exists_eq_add_of_le hheader
  have htake : r.buffer = encodeFixed32 (mask (crcValue 0 (UInt8.ofNat type :: payload))) ++
      (UInt8.ofNat (payload.length &&& 0xff) :: UInt8.ofNat (payload.length >>> 8) ::
        UInt8.ofNat type :: payload.take m) := by
    have hsplit : kHeaderSize + m = 4 + (m + 3) := by
      unfold kHeaderSize
      omega
    rw [hbuffer, emitPhysicalRecord_eq, hsplit, List.take_append, length_encodeFixed32,
      List.take_of_length_le (by simp), Nat.add_sub_cancel_left]
    rfl
  obtain ⟨h4, h5, -⟩ := header_fields type payload (payload.take m)
  rw [← htake] at h4 h5
  have hsize : r.buffer.length = kHeaderSize + m := by
    rw [hbuffer, List.length_take, length_emitPhysicalRecord]
    omega
  unfold Reader.parsePhysicalRecord
  dsimp only
  rw [h4, h5, length_bytes hlen, if_pos (by omega), heof]
  rfl

/-! ## Where a reader stands -/

/-- A reader that is `off` bytes into a block and has `rest` before it. Its last read was a full
one, or there is nothing left to read. -/
structure At (reports : List (ℕ × Failure)) (off : ℕ) (rest : Bytes) (r : Reader) : Prop where
  resyncing : r.resyncing = false
  reports_eq : r.reports = reports
  rest_eq : r.buffer ++ r.file = rest
  buffered : (r.eof = false ∧ off + r.buffer.length = kBlockSize) ∨
    (r.eof = true ∧ r.file = [] ∧ off + r.buffer.length < kBlockSize)

variable {reports : List (ℕ × Failure)} {off : ℕ} {rest : Bytes} {r : Reader}

lemma at_new (hstart : o.initialOffset = 0) (file : Bytes) :
    At [] kBlockSize file (Reader.new o file) where
  resyncing := by simp [Reader.new, hstart]
  reports_eq := rfl
  rest_eq := rfl
  buffered := Or.inl ⟨rfl, rfl⟩

/-- A full read, or the last one. -/
lemma At.readBlock (h : At reports off rest r) : At reports 0 r.file r.readBlock where
  resyncing := h.resyncing
  reports_eq := h.reports_eq
  rest_eq := List.take_append_drop kBlockSize r.file
  buffered := by
    have hlen : r.readBlock.buffer.length = min kBlockSize r.file.length := List.length_take
    have heof : r.readBlock.eof = decide (r.readBlock.buffer.length < kBlockSize) := rfl
    have hfile : r.readBlock.file = r.file.drop kBlockSize := rfl
    by_cases hshort : r.file.length < kBlockSize
    · refine Or.inr ⟨?_, ?_, by omega⟩
      · rw [heof]
        simp only [decide_eq_true_eq]
        omega
      · rw [hfile, List.drop_eq_nil_of_le (by omega)]
    · refine Or.inl ⟨?_, by omega⟩
      rw [heof]
      simp only [decide_eq_false_iff_not]
      omega

lemma At.readPhysicalRecord_of_le (h : At reports off rest r)
    (hoff : off + kHeaderSize ≤ kBlockSize) (hrest : kHeaderSize ≤ rest.length) :
    r.readPhysicalRecord o = r.parsePhysicalRecord o := by
  have hbuffer : kHeaderSize ≤ r.buffer.length := by
    rcases h.buffered with ⟨-, hfull⟩ | ⟨-, hfile, -⟩
    · omega
    · rw [← h.rest_eq, hfile, List.append_nil] at hrest
      exact hrest
  rw [Reader.readPhysicalRecord, if_neg (not_lt.mpr hbuffer)]

include hfault in
/-- The end of a block that is too short for a header is skipped. -/
lemma At.skip_trailer (h : At reports off (trailer off ++ rest) r)
    (hoff : kBlockSize - off < kHeaderSize) :
    At reports 0 rest r.readBlock ∧ r.readPhysicalRecord o = r.readBlock.readPhysicalRecord o := by
  have htrailer : (trailer off).length = kBlockSize - off := by
    rw [trailer, if_pos hoff, List.length_replicate]
  have hrest := congrArg List.length h.rest_eq
  rw [List.length_append, List.length_append, htrailer] at hrest
  rcases h.buffered with ⟨heof, hfull⟩ | ⟨-, hfile, hshort⟩
  · have hfile : r.file = rest :=
      (List.append_inj h.rest_eq (by rw [htrailer]; omega)).2
    refine ⟨hfile ▸ h.readBlock, ?_⟩
    rw [Reader.readPhysicalRecord, if_pos (by omega), if_neg (by simp [heof]), hfault]
  · rw [hfile, List.length_nil] at hrest
    omega

include hstart in
lemma At.parse {type : ℕ} {payload : Bytes} (htype : IsFragmentType type)
    (h : At reports off (emitPhysicalRecord type payload ++ rest) r)
    (hfits : off + kHeaderSize + payload.length ≤ kBlockSize) :
    ∃ r', r.readPhysicalRecord o = (type, payload, r') ∧
      At reports (off + kHeaderSize + payload.length) rest r' := by
  have hlen : (emitPhysicalRecord type payload).length = kHeaderSize + payload.length :=
    length_emitPhysicalRecord type payload
  have hrest := congrArg List.length h.rest_eq
  rw [List.length_append, List.length_append, hlen] at hrest
  have hbuffered : kHeaderSize + payload.length ≤ r.buffer.length := by
    rcases h.buffered with ⟨-, hfull⟩ | ⟨-, hfile, -⟩
    · omega
    · rw [hfile, List.length_nil] at hrest
      omega
  -- all of the fragment is in the buffer
  have hsplit : r.buffer = emitPhysicalRecord type payload ++
      r.buffer.drop (kHeaderSize + payload.length) := by
    have htake := congrArg (List.take (kHeaderSize + payload.length)) h.rest_eq
    rw [List.take_append_of_le_length hbuffered, List.take_left' hlen] at htake
    rw [← htake, List.take_append_drop]
  have h16 : payload.length < 2 ^ 16 := by
    unfold kBlockSize at hfits
    omega
  refine ⟨{ r with buffer := r.buffer.drop (kHeaderSize + payload.length) }, ?_, ?_⟩
  · rw [h.readPhysicalRecord_of_le (by omega) (by rw [List.length_append, hlen]; omega)]
    exact parsePhysicalRecord_emit hstart htype h16 hsplit
  · refine ⟨h.resyncing, h.reports_eq, ?_, ?_⟩
    · have hrest_eq := h.rest_eq
      rw [hsplit, List.append_assoc] at hrest_eq
      exact List.append_cancel_left hrest_eq
    · have hdrop : (r.buffer.drop (kHeaderSize + payload.length)).length =
          r.buffer.length - (kHeaderSize + payload.length) := List.length_drop
      rcases h.buffered with ⟨heof, hfull⟩ | ⟨heof, hfile, hshort⟩
      · exact Or.inl ⟨heof, by rw [hdrop]; omega⟩
      · exact Or.inr ⟨heof, hfile, by rw [hdrop]; omega⟩

/-- Where the next fragment may start. -/
lemma startOffset_add_le (hoff : off ≤ kBlockSize) :
    startOffset off + kHeaderSize ≤ kBlockSize := by
  unfold startOffset
  unfold kBlockSize kHeaderSize at *
  split <;> omega

include hstart hfault in
/-- A fragment is read, whatever follows it. -/
lemma At.fragment {type : ℕ} {payload : Bytes} (htype : IsFragmentType type)
    (h : At reports off (trailer off ++ (emitPhysicalRecord type payload ++ rest)) r)
    (hfits : startOffset off + kHeaderSize + payload.length ≤ kBlockSize) :
    ∃ r', r.readPhysicalRecord o = (type, payload, r') ∧
      At reports (startOffset off + kHeaderSize + payload.length) rest r' := by
  by_cases hoff : kBlockSize - off < kHeaderSize
  · obtain ⟨hblock, hread⟩ := h.skip_trailer hfault hoff
    rw [startOffset, if_pos hoff] at hfits ⊢
    rw [hread]
    exact hblock.parse hstart htype hfits
  · rw [trailer, if_neg hoff, List.nil_append] at h
    rw [startOffset, if_neg hoff] at hfits ⊢
    exact h.parse hstart htype hfits

/-- The end of the file. -/
def AtEof (o : Options) (r : Reader) (reports : List (ℕ × Failure)) : Prop :=
  ∃ r', r.readPhysicalRecord o = (kEof, [], r') ∧ r'.resyncing = false ∧ r'.reports = reports

lemma At.atEof_of_short (h : At reports off rest r) (heof : r.eof = true)
    (hshort : r.buffer.length < kHeaderSize) : AtEof o r reports := by
  refine ⟨{ r with buffer := [] }, ?_, h.resyncing, h.reports_eq⟩
  rw [Reader.readPhysicalRecord, if_pos hshort, if_pos heof]

/-- When less is left than the block would have. -/
lemma At.eof_of_lt (h : At reports off rest r) (hrest : off + rest.length < kBlockSize) :
    r.eof = true ∧ r.buffer = rest := by
  have hlen := congrArg List.length h.rest_eq
  rw [List.length_append] at hlen
  rcases h.buffered with ⟨-, hfull⟩ | ⟨heof, hfile, -⟩
  · omega
  · refine ⟨heof, ?_⟩
    rw [← h.rest_eq, hfile, List.append_nil]

lemma At.parse_take {type : ℕ} {payload : Bytes} {n : ℕ}
    (h : At reports off ((emitPhysicalRecord type payload).take n) r)
    (hfits : off + kHeaderSize + payload.length ≤ kBlockSize)
    (hn : n < kHeaderSize + payload.length) : AtEof o r reports := by
  have hlen : ((emitPhysicalRecord type payload).take n).length = n := by
    rw [List.length_take, length_emitPhysicalRecord]
    omega
  obtain ⟨heof, hbuffer⟩ := h.eof_of_lt (by omega)
  by_cases hheader : n < kHeaderSize
  · exact h.atEof_of_short heof (by rw [hbuffer, hlen]; exact hheader)
  · have h16 : payload.length < 2 ^ 16 := by
      unfold kBlockSize at hfits
      omega
    refine ⟨{ r with buffer := [] }, ?_, h.resyncing, h.reports_eq⟩
    rw [h.readPhysicalRecord_of_le (by omega) (by omega)]
    exact parsePhysicalRecord_take h16 (by omega) hn heof hbuffer

include hfault in
/-- A fragment that is not all there is the end, and nothing is reported. -/
lemma At.fragment_take {type : ℕ} {payload : Bytes} {n : ℕ}
    (h : At reports off ((trailer off ++ emitPhysicalRecord type payload).take n) r)
    (hfits : startOffset off + kHeaderSize + payload.length ≤ kBlockSize)
    (hn : n < (trailer off ++ emitPhysicalRecord type payload).length) : AtEof o r reports := by
  rw [List.length_append, length_emitPhysicalRecord] at hn
  by_cases hoff : kBlockSize - off < kHeaderSize
  · have htrailer : (trailer off).length = kBlockSize - off := by
      rw [trailer, if_pos hoff, List.length_replicate]
    rw [startOffset, if_pos hoff] at hfits
    by_cases hcut : n < (trailer off).length
    · -- not even the zeros are there
      have hlen : ((trailer off ++ emitPhysicalRecord type payload).take n).length = n := by
        rw [List.length_take, List.length_append]
        omega
      obtain ⟨heof, hbuffer⟩ := h.eof_of_lt (by omega)
      exact h.atEof_of_short heof (by rw [hbuffer, hlen]; omega)
    · rw [List.take_append, List.take_of_length_le (by omega)] at h
      obtain ⟨hblock, hread⟩ := h.skip_trailer hfault hoff
      have hend : AtEof o r.readBlock reports := hblock.parse_take hfits (by omega)
      unfold AtEof
      rw [hread]
      exact hend
  · rw [trailer, if_neg hoff, List.nil_append] at h
    rw [trailer, if_neg hoff, List.length_nil] at hn
    rw [startOffset, if_neg hoff] at hfits
    exact h.parse_take hfits (by omega)

/-! ## Records -/

lemma readRecordLoop_of_done {a : Reader.Assembly} {record : Option Bytes} {r' : Reader}
    (h : r.round o a = (.done record, r')) : r.readRecordLoop o a = (record, r') := by
  rw [Reader.readRecordLoop]
  split <;> simp_all

lemma readRecordLoop_of_more {a a' : Reader.Assembly} {r' : Reader}
    (h : r.round o a = (.more a', r')) : r.readRecordLoop o a = r'.readRecordLoop o a' := by
  rw [Reader.readRecordLoop]
  split <;> simp_all

lemma round_eq {a : Reader.Assembly} {type : ℕ} {fragment : Bytes} {r' : Reader}
    (h : r.readPhysicalRecord o = (type, fragment, r')) (hsync : r'.resyncing = false) :
    r.round o a = r'.dispatchType o a type fragment := by
  unfold Reader.round
  dsimp only
  rw [h, Reader.dispatch, if_neg (by simp [hsync])]

lemma AtEof.readRecordLoop_eq (h : AtEof o r reports) (a : Reader.Assembly) :
    (r.readRecordLoop o a).1 = none ∧ (r.readRecordLoop o a).2.reports = reports := by
  obtain ⟨r', hread, hsync, hreports⟩ := h
  have hround : r.round o a = (.done none, r') := by
    rw [round_eq hread hsync]
    rfl
  rw [readRecordLoop_of_done hround]
  exact ⟨rfl, hreports⟩

/-- What has been read of a record when its fragments from some point on are left. -/
def Partial (isBegin : Bool) (a : Reader.Assembly) : Prop :=
  if isBegin then a.inFragmentedRecord = false ∧ a.scratch = [] else a.inFragmentedRecord = true

/-- The last fragment. -/
lemma dispatchType_end {isBegin : Bool} {a : Reader.Assembly} (ha : Partial isBegin a)
    (fragment : Bytes) :
    ∃ offset, r.dispatchType o a (recordType isBegin true) fragment =
      (.done (some (a.scratch ++ fragment)), r.setLastRecordOffset offset) := by
  cases isBegin with
  | true =>
    obtain ⟨hfirst, hscratch⟩ := ha
    refine ⟨r.physicalRecordOffset fragment, ?_⟩
    rw [hscratch, List.nil_append]
    show (_, (r.reportPartial o a _).setLastRecordOffset _) = _
    rw [Reader.reportPartial, if_neg (by simp [hfirst])]
  | false =>
    have hmore : a.inFragmentedRecord = true := ha
    refine ⟨a.prospectiveRecordOffset, ?_⟩
    show (if a.inFragmentedRecord then _ else _) = _
    rw [if_pos hmore]

/-- A fragment that is not the last. -/
lemma dispatchType_more {isBegin : Bool} {a : Reader.Assembly} (ha : Partial isBegin a)
    (fragment : Bytes) :
    ∃ a', r.dispatchType o a (recordType isBegin false) fragment = (.more a', r) ∧
      Partial false a' ∧ a'.scratch = a.scratch ++ fragment := by
  cases isBegin with
  | true =>
    obtain ⟨hfirst, hscratch⟩ := ha
    refine ⟨⟨true, fragment, r.physicalRecordOffset fragment⟩, ?_, rfl,
      by rw [hscratch, List.nil_append]⟩
    show (_, r.reportPartial o a _) = _
    rw [Reader.reportPartial, if_neg (by simp [hfirst])]
  | false =>
    have hmore : a.inFragmentedRecord = true := ha
    refine ⟨{ a with scratch := a.scratch ++ fragment }, ?_, hmore, rfl⟩
    show (if a.inFragmentedRecord then _ else _) = _
    rw [if_pos hmore]

lemma At.setLastRecordOffset (h : At reports off rest r) (offset : ℕ) :
    At reports off rest (r.setLastRecordOffset offset) :=
  ⟨h.resyncing, h.reports_eq, h.rest_eq, h.buffered⟩

/-- The offsets a writer can be at. -/
lemma startOffset_add_fragmentLength_le (left : ℕ) (hoff : off ≤ kBlockSize) :
    startOffset off + kHeaderSize + fragmentLength off left ≤ kBlockSize := by
  have hle := startOffset_add_le hoff
  unfold fragmentLength
  dsimp only
  split <;> omega

lemma length_take_fragmentLength (data : Bytes) :
    (data.take (fragmentLength off data.length)).length = fragmentLength off data.length := by
  rw [List.length_take]
  exact min_eq_left (fragmentLength_le off data.length)

/-- A record that fits is one fragment. -/
lemma addRecordLoop_end {isBegin : Bool} {data : Bytes}
    (h : ¬ 0 < data.length - fragmentLength off data.length) :
    addRecordLoop isBegin off data =
      (trailer off ++ emitPhysicalRecord (recordType isBegin true) data,
        startOffset off + kHeaderSize + data.length) := by
  have hle := fragmentLength_le off data.length
  have hlen : fragmentLength off data.length = data.length := by omega
  rw [addRecordLoop]
  dsimp only
  rw [if_neg h, hlen, List.take_length]
  simp

/-- Of one that does not, as much as there is room for is written first. -/
lemma addRecordLoop_more {isBegin : Bool} {data : Bytes}
    (h : 0 < data.length - fragmentLength off data.length) :
    addRecordLoop isBegin off data =
      (trailer off ++ (emitPhysicalRecord (recordType isBegin false)
            (data.take (fragmentLength off data.length)) ++
          (addRecordLoop false (startOffset off + kHeaderSize + fragmentLength off data.length)
            (data.drop (fragmentLength off data.length))).1),
        (addRecordLoop false (startOffset off + kHeaderSize + fragmentLength off data.length)
            (data.drop (fragmentLength off data.length))).2) := by
  have hne : decide (data.length = fragmentLength off data.length) = false := by
    rw [decide_eq_false_iff_not]
    omega
  rw [addRecordLoop]
  dsimp only
  rw [if_pos h, hne, List.append_assoc]

/-- Induction on the fragments of a record. -/
lemma addRecordLoop_induction {motive : Bool → ℕ → Bytes → Prop}
    (more : ∀ isBegin off data, 0 < data.length - fragmentLength off data.length →
      motive false (startOffset off + kHeaderSize + fragmentLength off data.length)
        (data.drop (fragmentLength off data.length)) → motive isBegin off data)
    (last : ∀ isBegin off data, ¬ 0 < data.length - fragmentLength off data.length →
      motive isBegin off data) (isBegin : Bool) (off : ℕ) (data : Bytes) :
    motive isBegin off data := addRecordLoop.induct motive more last isBegin off data

include hstart hfault in
/-- The fragments of a record are put together, whatever follows them. -/
lemma At.readRecordLoop {isBegin : Bool} {data : Bytes} {a : Reader.Assembly}
    (h : At reports off ((addRecordLoop isBegin off data).1 ++ rest) r) (hoff : off ≤ kBlockSize)
    (ha : Partial isBegin a) :
    ∃ r', r.readRecordLoop o a = (some (a.scratch ++ data), r') ∧
      At reports (addRecordLoop isBegin off data).2 rest r' := by
  induction isBegin, off, data using addRecordLoop_induction generalizing a r with
  | more isBegin off data hmore ih =>
    have hfits := startOffset_add_fragmentLength_le data.length hoff
    have hlen : (data.take (fragmentLength off data.length)).length =
        fragmentLength off data.length := length_take_fragmentLength data
    rw [addRecordLoop_more hmore] at h ⊢
    rw [List.append_assoc, List.append_assoc] at h
    obtain ⟨r', hread, hat⟩ := h.fragment hstart hfault (isFragmentType_recordType isBegin false)
      (by rw [hlen]; exact hfits)
    rw [hlen] at hat
    obtain ⟨a', hdispatch, ha', hscratch⟩ :=
      dispatchType_more (o := o) (r := r') ha (data.take (fragmentLength off data.length))
    obtain ⟨r'', hloop, hat'⟩ := ih hat hfits ha'
    refine ⟨r'', ?_, hat'⟩
    rw [readRecordLoop_of_more ((round_eq hread hat.resyncing).trans hdispatch), hloop, hscratch,
      List.append_assoc, List.take_append_drop]
  | last isBegin off data hdone =>
    have hle := fragmentLength_le off data.length
    have hfits := startOffset_add_fragmentLength_le data.length hoff
    rw [addRecordLoop_end hdone] at h ⊢
    rw [List.append_assoc] at h
    obtain ⟨r', hread, hat⟩ := h.fragment hstart hfault (isFragmentType_recordType isBegin true)
      (by omega)
    obtain ⟨offset, hdispatch⟩ := dispatchType_end (o := o) (r := r') ha data
    refine ⟨r'.setLastRecordOffset offset, ?_, hat.setLastRecordOffset offset⟩
    rw [readRecordLoop_of_done ((round_eq hread hat.resyncing).trans hdispatch)]

include hstart hfault in
/-- A record that is not all there is not returned, and nothing is reported. -/
lemma At.readRecordLoop_take {isBegin : Bool} {data : Bytes} {a : Reader.Assembly} {n : ℕ}
    (h : At reports off ((addRecordLoop isBegin off data).1.take n) r) (hoff : off ≤ kBlockSize)
    (ha : Partial isBegin a) (hn : n < (addRecordLoop isBegin off data).1.length) :
    (r.readRecordLoop o a).1 = none ∧ (r.readRecordLoop o a).2.reports = reports := by
  induction isBegin, off, data using addRecordLoop_induction generalizing a r n with
  | more isBegin off data hmore ih =>
    have hfits := startOffset_add_fragmentLength_le data.length hoff
    have hlen : (data.take (fragmentLength off data.length)).length =
        fragmentLength off data.length := length_take_fragmentLength data
    rw [addRecordLoop_more hmore] at h hn
    rw [← List.append_assoc] at h hn
    by_cases hcut : n < (trailer off ++ emitPhysicalRecord (recordType isBegin false)
        (data.take (fragmentLength off data.length))).length
    · rw [List.take_append_of_le_length (by omega)] at h
      exact (h.fragment_take hfault (by rw [hlen]; exact hfits) hcut).readRecordLoop_eq a
    · rw [List.take_append, List.take_of_length_le (by omega), List.append_assoc] at h
      rw [List.length_append] at hn
      obtain ⟨r', hread, hat⟩ := h.fragment hstart hfault
        (isFragmentType_recordType isBegin false) (by rw [hlen]; exact hfits)
      rw [hlen] at hat
      obtain ⟨a', hdispatch, ha', -⟩ :=
        dispatchType_more (o := o) (r := r') ha (data.take (fragmentLength off data.length))
      rw [readRecordLoop_of_more ((round_eq hread hat.resyncing).trans hdispatch)]
      exact ih hat hfits ha' (by omega)
  | last isBegin off data hdone =>
    have hle := fragmentLength_le off data.length
    have hfits := startOffset_add_fragmentLength_le data.length hoff
    rw [addRecordLoop_end hdone] at h hn
    exact (h.fragment_take hfault (by omega) hn).readRecordLoop_eq a

lemma addRecordLoop_offset_le {isBegin : Bool} {data : Bytes} (hoff : off ≤ kBlockSize) :
    (addRecordLoop isBegin off data).2 ≤ kBlockSize := by
  induction isBegin, off, data using addRecordLoop_induction with
  | more isBegin off data hmore ih =>
    rw [addRecordLoop_more hmore]
    exact ih (startOffset_add_fragmentLength_le data.length hoff)
  | last isBegin off data hdone =>
    have hle := fragmentLength_le off data.length
    have hfits := startOffset_add_fragmentLength_le data.length hoff
    rw [addRecordLoop_end hdone]
    dsimp only
    omega

/-! ## Logs -/

include hstart in
lemma readRecord_eq (r : Reader) : r.readRecord o = r.readRecordLoop o ⟨false, [], 0⟩ := by
  unfold Reader.readRecord
  dsimp only
  rw [if_neg (by omega)]

lemma readRecords_of_none (h : (r.readRecord o).1 = none) :
    r.readRecords o = ([], (r.readRecord o).2) := by
  rw [Reader.readRecords]
  split
  · rfl
  · simp_all

lemma readRecords_of_some {data : Bytes} {r' : Reader} (h : r.readRecord o = (some data, r')) :
    r.readRecords o = (data :: (r'.readRecords o).1, (r'.readRecords o).2) := by
  rw [Reader.readRecords]
  split
  · simp_all
  · simp_all

include hfault in
lemma At.atEof_of_nil (h : At reports off [] r) : AtEof o r reports := by
  have hnil := List.append_eq_nil_iff.mp h.rest_eq
  have hshort : ∀ b : Bytes, b = [] → b.length < kHeaderSize := by
    intro b hb
    rw [hb]
    decide
  rcases h.buffered with ⟨heof, -⟩ | ⟨heof, -, -⟩
  · -- one more read finds nothing
    have hblock := h.readBlock
    rw [hnil.2] at hblock
    obtain ⟨heof', hbuffer⟩ := hblock.eof_of_lt (by decide)
    have hend : AtEof o r.readBlock reports := hblock.atEof_of_short heof' (hshort _ hbuffer)
    unfold AtEof
    rw [Reader.readPhysicalRecord, if_pos (hshort _ hnil.1), if_neg (by simp [heof]), hfault]
    exact hend
  · exact h.atEof_of_short heof (hshort _ hnil.1)

include hstart hfault in
lemma At.readRecord_nil (h : At reports off [] r) :
    (r.readRecord o).1 = none ∧ (r.readRecord o).2.reports = reports := by
  rw [readRecord_eq hstart]
  exact (h.atEof_of_nil hfault).readRecordLoop_eq ⟨false, [], 0⟩

include hstart hfault in
/-- The next record is not all there. -/
lemma At.readRecord_of_lt {data : Bytes} {records : List Bytes} {n : ℕ}
    (h : At reports off ((addRecords off (data :: records)).1.take n) r) (hoff : off ≤ kBlockSize)
    (hcut : n < (addRecord off data).1.length) :
    (r.readRecord o).1 = none ∧ (r.readRecord o).2.reports = reports := by
  rw [addRecords] at h
  dsimp only at h
  rw [List.take_append_of_le_length (by omega)] at h
  rw [readRecord_eq hstart]
  exact h.readRecordLoop_take hstart hfault hoff ⟨rfl, rfl⟩ hcut

include hstart hfault in
/-- The next record is there. -/
lemma At.readRecord_of_le {data : Bytes} {records : List Bytes} {n : ℕ}
    (h : At reports off ((addRecords off (data :: records)).1.take n) r) (hoff : off ≤ kBlockSize)
    (hcut : (addRecord off data).1.length ≤ n) :
    ∃ r', r.readRecord o = (some data, r') ∧
      At reports (addRecord off data).2
        ((addRecords (addRecord off data).2 records).1.take (n - (addRecord off data).1.length))
        r' := by
  rw [addRecords] at h
  dsimp only at h
  rw [List.take_append, List.take_of_length_le hcut] at h
  rw [readRecord_eq hstart]
  exact h.readRecordLoop hstart hfault hoff ⟨rfl, rfl⟩

lemma length_addRecords_cons (data : Bytes) (records : List Bytes) :
    (addRecords off (data :: records)).1.length =
      (addRecord off data).1.length + (addRecords (addRecord off data).2 records).1.length := by
  rw [addRecords, List.length_append]

include hstart hfault in
/-- Of a log that is not all there, the records that are there as a whole are returned. -/
lemma At.readRecords_take {records : List Bytes} {n : ℕ}
    (h : At reports off ((addRecords off records).1.take n) r) (hoff : off ≤ kBlockSize) :
    ∃ m ≤ records.length, (r.readRecords o).1 = records.take m ∧
      (r.readRecords o).2.reports = reports ∧
      (addRecords off (records.take m)).1.length ≤ n ∧
      (m < records.length → n < (addRecords off (records.take (m + 1))).1.length) := by
  induction records generalizing off r n with
  | nil =>
    rw [addRecords, List.take_nil] at h
    obtain ⟨hnone, hreports⟩ := h.readRecord_nil hstart hfault
    rw [readRecords_of_none hnone]
    exact ⟨0, le_refl _, rfl, hreports, Nat.zero_le n, fun hlt => absurd hlt (lt_irrefl 0)⟩
  | cons data records ih =>
    by_cases hcut : n < (addRecord off data).1.length
    · obtain ⟨hnone, hreports⟩ := h.readRecord_of_lt hstart hfault hoff hcut
      rw [readRecords_of_none hnone]
      refine ⟨0, Nat.zero_le _, rfl, hreports, Nat.zero_le n, fun _ => ?_⟩
      rw [List.take_succ_cons, length_addRecords_cons]
      omega
    · obtain ⟨r', hread, hat⟩ := h.readRecord_of_le hstart hfault hoff (not_lt.mp hcut)
      obtain ⟨m, hm, hrecords, hreports, hle, hlt⟩ := ih hat (addRecordLoop_offset_le hoff)
      rw [readRecords_of_some hread]
      refine ⟨m + 1, by simpa using hm, ?_, hreports, ?_, fun hm' => ?_⟩
      · rw [hrecords, List.take_succ_cons]
      · rw [List.take_succ_cons, length_addRecords_cons]
        omega
      · have hlt' := hlt (by simpa using hm')
        rw [List.take_succ_cons, length_addRecords_cons]
        omega

end

/-! ## Writers that go on with a log -/

section

variable {off : ℕ}

lemma trailer_kBlockSize : trailer kBlockSize = trailer 0 := by decide

lemma startOffset_kBlockSize : startOffset kBlockSize = startOffset 0 := by decide

/-- The end of a block is the beginning of the next. -/
lemma addRecordLoop_kBlockSize (isBegin : Bool) (data : Bytes) :
    addRecordLoop isBegin kBlockSize data = addRecordLoop isBegin 0 data := by
  have hlen : fragmentLength kBlockSize data.length = fragmentLength 0 data.length := by
    unfold fragmentLength
    rw [startOffset_kBlockSize]
  by_cases hmore : 0 < data.length - fragmentLength 0 data.length
  · rw [addRecordLoop_more hmore, addRecordLoop_more (hlen ▸ hmore), hlen, trailer_kBlockSize,
      startOffset_kBlockSize]
  · rw [addRecordLoop_end hmore, addRecordLoop_end (hlen ▸ hmore), trailer_kBlockSize,
      startOffset_kBlockSize]

lemma addRecords_kBlockSize (records : List Bytes) :
    (addRecords kBlockSize records).1 = (addRecords 0 records).1 := by
  cases records with
  | nil => rfl
  | cons data records =>
    have hrecord : addRecord kBlockSize data = addRecord 0 data :=
      addRecordLoop_kBlockSize true data
    rw [addRecords, addRecords, hrecord]

lemma addRecords_mod (hoff : off ≤ kBlockSize) (records : List Bytes) :
    (addRecords (off % kBlockSize) records).1 = (addRecords off records).1 := by
  rcases Nat.lt_or_eq_of_le hoff with hlt | rfl
  · rw [Nat.mod_eq_of_lt hlt]
  · rw [Nat.mod_self, addRecords_kBlockSize]

lemma addRecords_append (a b : List Bytes) :
    addRecords off (a ++ b) =
      ((addRecords off a).1 ++ (addRecords (addRecords off a).2 b).1,
        (addRecords (addRecords off a).2 b).2) := by
  induction a generalizing off with
  | nil => rfl
  | cons data a ih => simp [addRecords, ih, List.append_assoc]

lemma addRecords_offset_le (hoff : off ≤ kBlockSize) (records : List Bytes) :
    (addRecords off records).2 ≤ kBlockSize := by
  induction records generalizing off with
  | nil => exact hoff
  | cons data records ih => exact ih (addRecordLoop_offset_le hoff)

/-- The zeros lead to the start of the fragment. -/
lemma add_length_trailer (hoff : off ≤ kBlockSize) :
    (off + (trailer off).length) % kBlockSize = startOffset off % kBlockSize := by
  unfold trailer startOffset
  split
  · rw [List.length_replicate, Nat.add_sub_cancel' hoff, Nat.mod_self, Nat.zero_mod]
  · rfl

lemma addRecordLoop_mod {isBegin : Bool} {data : Bytes} (hoff : off ≤ kBlockSize) :
    (off + (addRecordLoop isBegin off data).1.length) % kBlockSize =
      (addRecordLoop isBegin off data).2 % kBlockSize := by
  have hstart : ∀ off n, off ≤ kBlockSize →
      (off + ((trailer off).length + n)) % kBlockSize = (startOffset off + n) % kBlockSize := by
    intro off n hoff
    rw [← Nat.add_assoc, Nat.add_mod, add_length_trailer hoff, ← Nat.add_mod]
  induction isBegin, off, data using addRecordLoop_induction with
  | more isBegin off data hmore ih =>
    rw [addRecordLoop_more hmore, List.length_append, List.length_append,
      length_emitPhysicalRecord, hstart off _ hoff, length_take_fragmentLength, ← Nat.add_assoc,
      ← Nat.add_assoc]
    exact ih (startOffset_add_fragmentLength_le data.length hoff)
  | last isBegin off data hdone =>
    rw [addRecordLoop_end hdone, List.length_append, length_emitPhysicalRecord, hstart off _ hoff,
      Nat.add_assoc]

lemma addRecords_length_mod (hoff : off ≤ kBlockSize) (records : List Bytes) :
    (off + (addRecords off records).1.length) % kBlockSize =
      (addRecords off records).2 % kBlockSize := by
  induction records generalizing off with
  | nil => rfl
  | cons data records ih =>
    have hrecord : (off + (addRecord off data).1.length) % kBlockSize =
        (addRecord off data).2 % kBlockSize := addRecordLoop_mod hoff
    rw [addRecords, List.length_append, ← Nat.add_assoc, Nat.add_mod, hrecord, ← Nat.add_mod]
    exact ih (addRecordLoop_offset_le hoff)

end

/-- It does not matter how often a log was closed. -/
lemma foldl_appendRecords (sessions : List (List Bytes)) :
    sessions.foldl appendRecords [] = (addRecords 0 sessions.flatten).1 := by
  induction sessions using List.reverseRecOn with
  | nil => rfl
  | append_singleton sessions records ih =>
    have hmod := addRecords_length_mod (Nat.zero_le kBlockSize) sessions.flatten
    rw [Nat.zero_add] at hmod
    rw [List.foldl_append, List.foldl_cons, List.foldl_nil, ih, appendRecords, hmod,
      addRecords_mod (addRecords_offset_le (Nat.zero_le _) _), List.flatten_append,
      List.flatten_singleton, addRecords_append]

/-- **Logs.** Of what any number of writers have appended to a log, cut off anywhere, the reader
returns the records that are there as a whole, and reports nothing. -/
theorem log_returns_whole_records (o : Options) (hstart : o.initialOffset = 0)
    (hfault : ∀ n, o.fault n = none) (sessions : List (List Bytes)) (n : ℕ) :
    ∃ m ≤ sessions.flatten.length,
      ((Reader.new o ((sessions.foldl appendRecords []).take n)).readRecords o).1 =
        sessions.flatten.take m ∧
      ((Reader.new o ((sessions.foldl appendRecords []).take n)).readRecords o).2.reports = [] ∧
      (addRecords 0 (sessions.flatten.take m)).1.length ≤ n ∧
      (m < sessions.flatten.length →
        n < (addRecords 0 (sessions.flatten.take (m + 1))).1.length) := by
  have hat := at_new hstart ((sessions.foldl appendRecords []).take n)
  rw [foldl_appendRecords, ← addRecords_kBlockSize] at hat ⊢
  simpa only [addRecords_kBlockSize] using hat.readRecords_take hstart hfault (le_refl _)

/-- Two writers, of whose second record half is missing. -/
theorem log_returns_whole_records_cut :
    ((Reader.new ⟨true, 0, fun _ => none⟩
        (([[[0x61]], [[0x62]]].foldl appendRecords []).take 12)).readRecords
      ⟨true, 0, fun _ => none⟩).1 = [[0x61]] := by
  obtain ⟨m, hm, hrecords, -, hle, hlt⟩ :=
    log_returns_whole_records ⟨true, 0, fun _ => none⟩ rfl (fun _ => rfl) [[[0x61]], [[0x62]]] 12
  have hfirst : addRecord 0 [0x61] = (emitPhysicalRecord kFullType [0x61], 8) :=
    addRecordLoop_end (by decide)
  have hsecond : addRecord 8 [0x62] = (emitPhysicalRecord kFullType [0x62], 16) :=
    addRecordLoop_end (by decide)
  have hone : (addRecords 0 [[0x61]]).1.length = 8 := by
    simp [addRecords, hfirst, kHeaderSize]
  have htwo : (addRecords 0 [[0x61], [0x62]]).1.length = 16 := by
    simp [addRecords, hfirst, hsecond, kHeaderSize]
  rw [hrecords]
  have htwoRecords : m ≤ 2 := hm
  obtain rfl | rfl | rfl : m = 0 ∨ m = 1 ∨ m = 2 := by omega
  · have hlong : 12 < (addRecords 0 [[0x61]]).1.length := hlt (by decide)
    omega
  · rfl
  · have hshort : (addRecords 0 [[0x61], [0x62]]).1.length ≤ 12 := hle
    omega

end Log

end Engine

end RnLeveldb
