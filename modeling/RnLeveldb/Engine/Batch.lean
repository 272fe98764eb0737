import RnLeveldb.Engine.Coding
import RnLeveldb.LevelDb

/-!
# `db/write_batch.cc`

To the binding a `WriteBatch` is a list of records. LevelDB keeps it as the bytes that go to the
log: a sequence number, the number of records, and the records. `Iterate` reads them back and
hands them to a handler, record by record, before it knows whether the rest is in order.

The bytes of a batch are an image of its records under every sequence of calls, and no batch that
has been cut off is accepted.
-/

namespace RnLeveldb

namespace Engine

/-! ## The representation -/

/-- An 8-byte sequence number followed by a 4-byte count. -/
def kHeader : ℕ := 12

/-- The values are part of the format on disk. -/
inductive ValueType where
  | deletion
  | value
deriving DecidableEq

/-- The number of a value type in stored data. -/
def ValueType.code : ValueType → ℕ
  | .deletion => 0
  | .value => 1

/-- The byte that starts a record of this type. -/
def ValueType.tag (t : ValueType) : UInt8 := UInt8.ofNat t.code

/-- `rep_`, which always has a header. -/
structure WriteBatch where
  rep : Bytes
  header : kHeader ≤ rep.length

namespace WriteBatch

/-- Twelve zeros: the sequence number and the count. -/
def clear : WriteBatch := ⟨List.replicate kHeader 0, by simp⟩

def count (b : WriteBatch) : ℕ := decodeFixed32 (b.rep.drop 8)

/-- The count is written over the bytes 8 to 11. -/
def setCount (b : WriteBatch) (n : ℕ) : WriteBatch where
  rep := b.rep.take 8 ++ encodeFixed32 n ++ b.rep.drop kHeader
  header := by
    have := b.header
    simp [kHeader] at *
    omega

def sequence (b : WriteBatch) : ℕ := decodeFixed64 b.rep

/-- The sequence number is written over the first eight bytes. -/
def setSequence (b : WriteBatch) (seq : ℕ) : WriteBatch where
  rep := encodeFixed64 seq ++ b.rep.drop 8
  header := by
    have := b.header
    simp [kHeader] at *
    omega

/-- Bytes are added at the end. -/
def extend (b : WriteBatch) (bytes : Bytes) : WriteBatch where
  rep := b.rep ++ bytes
  header := by
    have := b.header
    simp
    omega

/-- The count goes up by one and a record is appended. -/
def put (b : WriteBatch) (key value : Bytes) : WriteBatch :=
  (b.setCount (b.count + 1)).extend
    (ValueType.value.tag :: putLengthPrefixedSlice key ++ putLengthPrefixedSlice value)

/-- A record without a value. -/
def delete (b : WriteBatch) (key : Bytes) : WriteBatch :=
  (b.setCount (b.count + 1)).extend (ValueType.deletion.tag :: putLengthPrefixedSlice key)

/-- `WriteBatchInternal::Append`; a batch may be appended to itself. -/
def append (dst src : WriteBatch) : WriteBatch :=
  (dst.setCount (dst.count + src.count)).extend (src.rep.drop kHeader)

def setContents (contents : Bytes) (h : kHeader ≤ contents.length) : WriteBatch := ⟨contents, h⟩

end WriteBatch

/-! ## `Iterate` -/

def corruption (msg : String) : Failure := { code := .corruption, msg := ascii msg }

/-- The record after its tag. -/
def readRecord (tag : UInt8) (input : Bytes) : Except Failure (BatchOp × Bytes) :=
  if tag = ValueType.value.tag then
    match getLengthPrefixedSlice input with
    | none => .error (corruption "bad WriteBatch Put")
    | some (key, input) =>
      match getLengthPrefixedSlice input with
      | none => .error (corruption "bad WriteBatch Put")
      | some (value, input) => .ok (.put key value, input)
  else if tag = ValueType.deletion.tag then
    match getLengthPrefixedSlice input with
    | none => .error (corruption "bad WriteBatch Delete")
    | some (key, input) => .ok (.delete key, input)
  else .error (corruption "unknown WriteBatch tag")

/-- Each record uses up something of the input, so that the loop ends. -/
lemma length_lt_of_readRecord {tag : UInt8} {input rest : Bytes} {op : BatchOp}
    (h : readRecord tag input = .ok (op, rest)) : rest.length < input.length := by
  unfold readRecord at h
  split at h
  · split at h
    · cases h
    · next key input' hkey =>
      have hlt := length_lt_of_getLengthPrefixedSlice hkey
      split at h
      · cases h
      · next value input'' hvalue =>
        have hlt' := length_lt_of_getLengthPrefixedSlice hvalue
        cases h
        omega
  · split at h
    · split at h
      · cases h
      · next key input' hkey =>
        have hlt := length_lt_of_getLengthPrefixedSlice hkey
        cases h
        exact hlt
    · cases h

/-- The loop: what the handler is called with, and the error it ends with. -/
def readRecords (input : Bytes) : List BatchOp × Option Failure :=
  match input with
  | [] => ([], none)
  | tag :: rest =>
    match _h : readRecord tag rest with
    | .error f => ([], some f)
    | .ok (op, rest') => ((op :: (readRecords rest').1), (readRecords rest').2)
termination_by input.length
decreasing_by
  all_goals
    have := length_lt_of_readRecord _h
    simp
    omega

/-- What the handler is called with, and the status. -/
def WriteBatch.iterate (b : WriteBatch) : List BatchOp × Status :=
  if b.rep.length < kHeader then ([], .fail (corruption "malformed WriteBatch (too small)"))
  else
    match readRecords (b.rep.drop kHeader) with
    | (ops, some f) => (ops, .fail f)
    | (ops, none) =>
      if ops.length ≠ b.count then (ops, .fail (corruption "WriteBatch has wrong count"))
      else (ops, .ok)

/-! ## Records -/

/-- A record as `Put` and `Delete` write it. -/
def recordBytes : BatchOp → Bytes
  | .put key value =>
    ValueType.value.tag :: putLengthPrefixedSlice key ++ putLengthPrefixedSlice value
  | .delete key => ValueType.deletion.tag :: putLengthPrefixedSlice key

/-- The lengths fit their varints. -/
def Fits : BatchOp → Prop
  | .put key value => key.length < 2 ^ 32 ∧ value.length < 2 ^ 32
  | .delete key => key.length < 2 ^ 32

lemma tag_ne : ValueType.deletion.tag ≠ ValueType.value.tag := by decide

/-- The loop reads a record and goes on behind it. -/
lemma readRecords_cons (tag : UInt8) (rest : Bytes) :
    readRecords (tag :: rest) =
      match readRecord tag rest with
      | .error f => ([], some f)
      | .ok (op, rest') => ((op :: (readRecords rest').1), (readRecords rest').2) := by
  rw [readRecords]
  split <;> simp_all

/-- A record is read back, whatever follows it. -/
lemma readRecords_append {op : BatchOp} (hop : Fits op) (rest : Bytes) :
    readRecords (recordBytes op ++ rest) = (op :: (readRecords rest).1, (readRecords rest).2) := by
  cases op with
  | put key value =>
    rw [recordBytes, List.cons_append, List.cons_append, readRecords_cons, readRecord,
      if_pos rfl, List.append_assoc, getLengthPrefixedSlice_append hop.1]
    dsimp only
    rw [getLengthPrefixedSlice_append hop.2]
  | delete key =>
    rw [recordBytes, List.cons_append, readRecords_cons, readRecord, if_neg tag_ne, if_pos rfl,
      getLengthPrefixedSlice_append hop]

/-- Records that fit are read back one by one. -/
lemma readRecords_flatMap {ops : List BatchOp} (hops : ∀ op ∈ ops, Fits op) :
    readRecords (ops.flatMap recordBytes) = (ops, none) := by
  induction ops with
  | nil => simp [readRecords]
  | cons op ops ih =>
    rw [List.flatMap_cons, readRecords_append (hops op List.mem_cons_self),
      ih fun op' hop' => hops op' (List.mem_cons_of_mem _ hop')]

/-- A record that has been cut off is an error. -/
lemma readRecords_take_record {op : BatchOp} (hop : Fits op) {n : ℕ} (h0 : 0 < n)
    (hn : n < (recordBytes op).length) :
    ∃ f, readRecords ((recordBytes op).take n) = ([], some f) := by
  obtain ⟨n, rfl⟩ : ∃ m, n = m + 1 := ⟨n - 1, by omega⟩
  cases op with
  | put key value =>
    rw [recordBytes, List.cons_append] at hn ⊢
    rw [List.length_cons, List.length_append] at hn
    rw [List.take_succ_cons, readRecords_cons, readRecord, if_pos rfl]
    by_cases hkey : n < (putLengthPrefixedSlice key).length
    · rw [List.take_append_of_le_length (by omega), getLengthPrefixedSlice_take hop.1 hkey]
      exact ⟨_, rfl⟩
    · rw [List.take_append, List.take_of_length_le (by omega),
        getLengthPrefixedSlice_append hop.1]
      dsimp only
      rw [getLengthPrefixedSlice_take hop.2 (by omega)]
      exact ⟨_, rfl⟩
  | delete key =>
    rw [recordBytes] at hn ⊢
    rw [List.length_cons] at hn
    rw [List.take_succ_cons, readRecords_cons, readRecord, if_neg tag_ne, if_pos rfl,
      getLengthPrefixedSlice_take hop (by omega)]
    exact ⟨_, rfl⟩

/-- Of records that have been cut off, the whole ones at the front are read; the end is an
error, or there are fewer of them. -/
lemma readRecords_take {ops : List BatchOp} (hops : ∀ op ∈ ops, Fits op) {n : ℕ}
    (hn : n < (ops.flatMap recordBytes).length) :
    ∃ m < ops.length, (readRecords ((ops.flatMap recordBytes).take n)).1 = ops.take m := by
  induction ops generalizing n with
  | nil => simp at hn
  | cons op ops ih =>
    have hop := hops op List.mem_cons_self
    rw [List.flatMap_cons] at hn ⊢
    by_cases hlt : n < (recordBytes op).length
    · refine ⟨0, by simp, ?_⟩
      rw [List.take_append_of_le_length (by omega)]
      by_cases h0 : n = 0
      · simp [h0, readRecords]
      · obtain ⟨f, hf⟩ := readRecords_take_record hop (by omega) hlt
        simp [hf]
    · rw [List.length_append] at hn
      obtain ⟨m, hm, hread⟩ := ih (fun op' hop' => hops op' (List.mem_cons_of_mem _ hop'))
        (n := n - (recordBytes op).length) (by omega)
      refine ⟨m + 1, by simpa using hm, ?_⟩
      rw [List.take_append, List.take_of_length_le (by omega), readRecords_append hop]
      simp [hread]

/-! ## Batches -/

/-- The bytes of a batch are those of its records. -/
def WriteBatch.Holds (b : WriteBatch) (seq : ℕ) (ops : List BatchOp) : Prop :=
  b.rep = encodeFixed64 seq ++ encodeFixed32 ops.length ++ ops.flatMap recordBytes

/-- Only the bytes that are written matter. -/
lemma encodeFixed_mod (n v : ℕ) : encodeFixed n (v % 256 ^ n) = encodeFixed n v := by
  induction n generalizing v with
  | zero => rfl
  | succ n ih =>
    have hpow : 256 ^ (n + 1) = 256 * 256 ^ n := pow_succ' 256 n
    have hlow : UInt8.ofNat (v % 256 ^ (n + 1)) = UInt8.ofNat v := by
      apply UInt8.toNat_inj.mp
      rw [UInt8.toNat_ofNat', UInt8.toNat_ofNat', hpow]
      exact Nat.mod_mul_right_mod v 256 _
    have hhigh : (v % 256 ^ (n + 1)) >>> 8 = (v >>> 8) % 256 ^ n := by
      rw [Nat.shiftRight_eq_div_pow, Nat.shiftRight_eq_div_pow, hpow]
      exact Nat.mod_mul_right_div_self v 256 _
    rw [encodeFixed, encodeFixed, hlow, hhigh, ih]

lemma encodeFixed32_congr {a b : ℕ} (h : a % 2 ^ 32 = b % 2 ^ 32) :
    encodeFixed32 a = encodeFixed32 b := by
  have h' : a % 256 ^ 4 = b % 256 ^ 4 := h
  rw [encodeFixed32, encodeFixed32, ← encodeFixed_mod, h', encodeFixed_mod]

namespace WriteBatch

variable {b : WriteBatch} {seq : ℕ} {ops : List BatchOp}

/-- A cleared batch holds no records. -/
lemma holds_clear : clear.Holds 0 [] := by
  unfold Holds
  decide

lemma Holds.take (h : b.Holds seq ops) : b.rep.take 8 = encodeFixed64 seq := by
  rw [h, List.append_assoc, List.take_left' (length_encodeFixed64 seq)]

lemma Holds.drop (h : b.Holds seq ops) :
    b.rep.drop 8 = encodeFixed32 ops.length ++ ops.flatMap recordBytes := by
  rw [h, List.append_assoc, List.drop_left' (length_encodeFixed64 seq)]

/-- Behind the header are the records and nothing else. -/
lemma Holds.records (h : b.Holds seq ops) : b.rep.drop kHeader = ops.flatMap recordBytes := by
  have hsplit : kHeader = 8 + 4 := rfl
  rw [hsplit, ← List.drop_drop, h.drop, List.drop_left' (length_encodeFixed32 _)]

/-- The count wraps around. -/
lemma Holds.count_eq (h : b.Holds seq ops) : b.count = ops.length % 2 ^ 32 := by
  rw [count, h.drop, decodeFixed32, List.take_left' (length_encodeFixed32 _), encodeFixed32,
    decodeFixed_encodeFixed]
  rfl

/-- The sequence number that was set is read back. -/
lemma Holds.sequence_eq (h : b.Holds seq ops) (hseq : seq < 2 ^ 64) : b.sequence = seq := by
  rw [sequence, h, List.append_assoc, decodeFixed64_append hseq]

lemma Holds.setSequence (h : b.Holds seq ops) (seq' : ℕ) : (b.setSequence seq').Holds seq' ops := by
  unfold Holds
  rw [List.append_assoc, ← h.drop]
  rfl

/-- Records are added and counted. -/
lemma Holds.add (h : b.Holds seq ops) {n : ℕ} {more : List BatchOp}
    (hn : n % 2 ^ 32 = more.length % 2 ^ 32) :
    ((b.setCount (b.count + n)).extend (more.flatMap recordBytes)).Holds seq (ops ++ more) := by
  have hcount : (b.count + n) % 2 ^ 32 = (ops ++ more).length % 2 ^ 32 := by
    rw [h.count_eq, List.length_append]
    omega
  show b.rep.take 8 ++ encodeFixed32 (b.count + n) ++ b.rep.drop kHeader
    ++ more.flatMap recordBytes = _
  rw [h.take, h.records, encodeFixed32_congr hcount, List.flatMap_append]
  simp

/-- A put adds its record at the end. -/
lemma Holds.put (h : b.Holds seq ops) (key value : Bytes) :
    (b.put key value).Holds seq (ops ++ [.put key value]) := by
  have hadd : ((b.setCount (b.count + 1)).extend ([.put key value].flatMap recordBytes)).Holds
      seq (ops ++ [.put key value]) := h.add rfl
  rw [List.flatMap_singleton] at hadd
  exact hadd

/-- So does a delete. -/
lemma Holds.delete (h : b.Holds seq ops) (key : Bytes) :
    (b.delete key).Holds seq (ops ++ [.delete key]) := by
  have hadd : ((b.setCount (b.count + 1)).extend ([.delete key].flatMap recordBytes)).Holds
      seq (ops ++ [.delete key]) := h.add rfl
  rw [List.flatMap_singleton] at hadd
  exact hadd

/-- `Append` adds the records of the other batch, in their order. -/
lemma Holds.append (h : b.Holds seq ops) {src : WriteBatch} {seq' : ℕ} {more : List BatchOp}
    (hsrc : src.Holds seq' more) : (b.append src).Holds seq (ops ++ more) := by
  have hcount : src.count % 2 ^ 32 = more.length % 2 ^ 32 := by
    rw [hsrc.count_eq]
    omega
  rw [WriteBatch.append, hsrc.records]
  exact h.add hcount

/-- `Iterate` hands out the records in order. The count is an `int`. -/
lemma Holds.iterate_eq (h : b.Holds seq ops) (hops : ∀ op ∈ ops, Fits op)
    (hlen : ops.length < 2 ^ 31) : b.iterate = (ops, .ok) := by
  have hcount : b.count = ops.length := by
    rw [h.count_eq]
    omega
  rw [iterate, if_neg (not_lt.mpr b.header), h.records, readRecords_flatMap hops]
  dsimp only
  rw [hcount, if_neg (not_not.mpr rfl)]

/-- A batch that has been cut off is not accepted. -/
lemma Holds.iterate_take (h : b.Holds seq ops) (hops : ∀ op ∈ ops, Fits op)
    (hlen : ops.length < 2 ^ 31) {n : ℕ} (hheader : kHeader ≤ (b.rep.take n).length)
    (hn : n < b.rep.length) :
    ∃ m < ops.length, ∃ f,
      (setContents (b.rep.take n) hheader).iterate = (ops.take m, .fail f) := by
  have h12 : kHeader ≤ n := by
    rw [List.length_take] at hheader
    omega
  have hcut : n - kHeader < (ops.flatMap recordBytes).length := by
    rw [← h.records, List.length_drop]
    omega
  obtain ⟨m, hm, hread⟩ := readRecords_take hops hcut
  -- the count was not cut off
  have hcount : (setContents (b.rep.take n) hheader).count = ops.length := by
    have hdrop : (b.rep.take n).drop 8 =
        encodeFixed32 ops.length ++ (ops.flatMap recordBytes).take (n - kHeader) := by
      rw [List.drop_take, h.drop, List.take_append, length_encodeFixed32,
        List.take_of_length_le (by simp; unfold kHeader at h12; omega)]
      congr 2
    show decodeFixed32 ((b.rep.take n).drop 8) = _
    rw [hdrop]
    exact decodeFixed32_append (by omega) _
  have hrecords : (b.rep.take n).drop kHeader = (ops.flatMap recordBytes).take (n - kHeader) := by
    rw [List.drop_take, h.records]
  refine ⟨m, hm, ?_⟩
  have hrep : (setContents (b.rep.take n) hheader).rep = b.rep.take n := rfl
  rw [iterate, hrep, if_neg (not_lt.mpr hheader), hrecords, hcount]
  cases hpair : readRecords ((ops.flatMap recordBytes).take (n - kHeader)) with
  | mk ops' failure =>
    rw [hpair] at hread
    dsimp only at hread
    subst hread
    cases failure with
    | some f => exact ⟨f, rfl⟩
    | none =>
      dsimp only
      rw [if_pos (by rw [List.length_take]; omega)]
      exact ⟨_, rfl⟩

end WriteBatch

/-! ## Runs -/

/-- A call on one of several batches. -/
inductive BatchCall where
  | clear (i : ℕ)
  | put (i : ℕ) (key value : Bytes)
  | delete (i : ℕ) (key : Bytes)
  | append (i j : ℕ)
deriving DecidableEq

/-- Keys and values whose lengths have 32 bits. -/
def BatchCall.Fits : BatchCall → Prop
  | .put _ key value => Engine.Fits (.put key value)
  | .delete _ key => Engine.Fits (.delete key)
  | .clear _ | .append _ _ => True

def stepReps (reps : ℕ → WriteBatch) : BatchCall → ℕ → WriteBatch
  | .clear i => Function.update reps i .clear
  | .put i key value => Function.update reps i ((reps i).put key value)
  | .delete i key => Function.update reps i ((reps i).delete key)
  | .append i j => Function.update reps i ((reps i).append (reps j))

/-- The batches as the binding sees them. -/
def stepOps (ops : ℕ → List BatchOp) : BatchCall → ℕ → List BatchOp
  | .clear i => Function.update ops i []
  | .put i key value => Function.update ops i (ops i ++ [.put key value])
  | .delete i key => Function.update ops i (ops i ++ [.delete key])
  | .append i j => Function.update ops i (ops i ++ ops j)

/-- The bytes of each batch are those of its records, which can be encoded. -/
def AllHold (reps : ℕ → WriteBatch) (ops : ℕ → List BatchOp) : Prop :=
  ∀ i, (reps i).Holds 0 (ops i) ∧ ∀ op ∈ ops i, Fits op

lemma AllHold.update {reps : ℕ → WriteBatch} {ops : ℕ → List BatchOp} (h : AllHold reps ops)
    (i : ℕ) {b : WriteBatch} {more : List BatchOp} (hb : b.Holds 0 more)
    (hmore : ∀ op ∈ more, Fits op) :
    AllHold (Function.update reps i b) (Function.update ops i more) := by
  intro k
  by_cases hk : k = i
  · subst hk
    simp only [Function.update_self]
    exact ⟨hb, hmore⟩
  · simp only [Function.update_of_ne hk]
    exact h k

lemma forall_fits_append {ops more : List BatchOp} (h : ∀ op ∈ ops, Fits op)
    (hmore : ∀ op ∈ more, Fits op) : ∀ op ∈ ops ++ more, Fits op := by
  intro op hop
  rcases List.mem_append.mp hop with hop | hop
  · exact h op hop
  · exact hmore op hop

/-- Every call keeps what the batches hold. -/
lemma AllHold.step {reps : ℕ → WriteBatch} {ops : ℕ → List BatchOp} (h : AllHold reps ops)
    {c : BatchCall} (hc : c.Fits) : AllHold (stepReps reps c) (stepOps ops c) := by
  cases c with
  | clear i => exact h.update i WriteBatch.holds_clear (by simp)
  | put i key value =>
    apply h.update i ((h i).1.put key value)
    exact forall_fits_append (h i).2 (by simpa [BatchCall.Fits] using hc)
  | delete i key =>
    apply h.update i ((h i).1.delete key)
    exact forall_fits_append (h i).2 (by simpa [BatchCall.Fits] using hc)
  | append i j =>
    apply h.update i ((h i).1.append (h j).1)
    exact forall_fits_append (h i).2 (h j).2

/-- So does every run of calls. -/
lemma allHold_run {reps : ℕ → WriteBatch} {ops : ℕ → List BatchOp} (h : AllHold reps ops)
    {calls : List BatchCall} (hcalls : ∀ c ∈ calls, c.Fits) :
    AllHold (calls.foldl stepReps reps) (calls.foldl stepOps ops) := by
  induction calls generalizing reps ops with
  | nil => exact h
  | cons c calls ih =>
    exact ih (h.step (hcalls c List.mem_cons_self))
      fun c' hc' => hcalls c' (List.mem_cons_of_mem _ hc')

/-- **The bytes of a batch are its records.** After every run of calls on any number of batches,
`Iterate` accepts each of them and hands out its records in order; of a batch that has been cut
off it hands out a proper prefix and ends with an error. -/
theorem writeBatch_refines_records (calls : List BatchCall) (hcalls : ∀ c ∈ calls, c.Fits) (i : ℕ)
    (hlen : (calls.foldl stepOps (fun _ => []) i).length < 2 ^ 31) :
    (calls.foldl stepReps (fun _ => .clear) i).iterate =
        (calls.foldl stepOps (fun _ => []) i, .ok) ∧
      ∀ n (hheader : kHeader ≤ ((calls.foldl stepReps (fun _ => .clear) i).rep.take n).length),
        n < (calls.foldl stepReps (fun _ => .clear) i).rep.length →
        ∃ m < (calls.foldl stepOps (fun _ => []) i).length, ∃ f,
          (WriteBatch.setContents _ hheader).iterate =
            ((calls.foldl stepOps (fun _ => []) i).take m, .fail f) := by
  have hstart : AllHold (fun _ => .clear) (fun _ => []) :=
    fun _ => ⟨WriteBatch.holds_clear, by simp⟩
  obtain ⟨hholds, hfits⟩ := allHold_run hstart hcalls i
  refine ⟨hholds.iterate_eq hfits hlen, fun n hheader hn => ?_⟩
  exact hholds.iterate_take hfits hlen hheader hn

/-- A batch that was appended to itself. -/
theorem writeBatch_appended_to_itself :
    (stepReps (stepReps (fun _ => .clear) (.delete 0 [0x61])) (.append 0 0) 0).iterate =
      ([.delete [0x61], .delete [0x61]], .ok) := by
  refine (writeBatch_refines_records [.delete 0 [0x61], .append 0 0] ?_ 0 ?_).1
  · intro c hc
    simp only [List.mem_cons, List.not_mem_nil, or_false] at hc
    rcases hc with rfl | rfl
    · show 1 < 2 ^ 32
      omega
    · trivial
  · decide

end Engine

end RnLeveldb
