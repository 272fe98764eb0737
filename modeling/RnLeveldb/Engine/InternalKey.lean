import RnLeveldb.Engine.Batch
import RnLeveldb.Lib.Versions

/-!
# `db/dbformat.cc` and `util/comparator.cc`

An internal key is a user key followed by eight bytes: the sequence number of the write and its
type. Internal keys are ordered by user key, and those of a user key by descending numbers, so
that the first one from a place on is the newest that a reader may see.

The comparators also make keys up. An index block has a key between each data block and the next;
it need not be a key of the table, and shorter ones are better.
-/

namespace RnLeveldb

namespace Engine

/-! ## User keys -/

/-- `memcmp` of `n` bytes. -/
def memcmp : Bytes → Bytes → ℕ → Ordering
  | a :: as, b :: bs, n + 1 =>
    if a < b then .lt else if b < a then .gt else memcmp as bs n
  | _, _, _ => .eq

/-- `Slice::compare`, which is the `Compare` of the bytewise comparator. -/
def compareSlices (a b : Bytes) : Ordering :=
  match memcmp a b (if a.length < b.length then a.length else b.length) with
  | .eq => if a.length < b.length then .lt else if b.length < a.length then .gt else .eq
  | r => r

/-- The first byte that differs decides. -/
lemma compareSlices_cons (a b : UInt8) (as bs : Bytes) :
    compareSlices (a :: as) (b :: bs) =
      if a < b then .lt else if b < a then .gt else compareSlices as bs := by
  have hmin : (if (a :: as).length < (b :: bs).length then (a :: as).length
      else (b :: bs).length) = (if as.length < bs.length then as.length else bs.length) + 1 := by
    simp only [List.length_cons]
    split_ifs <;> omega
  unfold compareSlices
  rw [hmin, memcmp]
  simp only [List.length_cons, Nat.add_lt_add_iff_right]
  split_ifs <;> rfl

/-- Byte by byte is the order of the keys. -/
lemma compareSlices_eq (a b : Bytes) :
    compareSlices a b = if a < b then .lt else if b < a then .gt else .eq := by
  induction a generalizing b with
  | nil =>
    cases b with
    | nil => simp [compareSlices, memcmp]
    | cons b bs => simp [compareSlices, memcmp]
  | cons a as ih =>
    cases b with
    | nil => simp [compareSlices, memcmp]
    | cons b bs =>
      rw [compareSlices_cons, ih]
      rcases lt_trichotomy a b with hlt | rfl | hgt
      · simp [hlt, List.cons_lt_cons_iff]
      · simp
      · simp [hgt, not_lt_of_gt hgt, ne_of_gt hgt, List.cons_lt_cons_iff]

/-- The comparison is the lexicographic order of the bytes. -/
lemma compareSlices_eq_lt {a b : Bytes} : compareSlices a b = .lt ↔ a < b := by
  rw [compareSlices_eq]
  split_ifs <;> simp_all

lemma compareSlices_eq_gt {a b : Bytes} : compareSlices a b = .gt ↔ b < a := by
  rw [compareSlices_eq]
  rcases lt_trichotomy a b with hlt | rfl | hgt
  · simp [hlt, not_lt_of_gt hlt]
  · simp
  · simp [hgt, not_lt_of_gt hgt]

lemma compareSlices_eq_eq {a b : Bytes} : compareSlices a b = .eq ↔ a = b := by
  rw [compareSlices_eq]
  rcases lt_trichotomy a b with hlt | rfl | hgt
  · simp [hlt, ne_of_lt hlt]
  · simp
  · simp [hgt, not_lt_of_gt hgt, ne_of_gt hgt]

/-- The loop of `FindShortestSeparator`: the length of the common prefix. -/
def diffIndex : Bytes → Bytes → ℕ
  | a :: as, b :: bs => if a = b then diffIndex as bs + 1 else 0
  | _, _ => 0

/-- `FindShortestSeparator` of the bytewise comparator. -/
def findShortestSeparator (start limit : Bytes) : Bytes :=
  match start[diffIndex start limit]?, limit[diffIndex start limit]? with
  | some diffByte, some limitByte =>
    if diffByte.toNat < 0xff ∧ diffByte.toNat + 1 < limitByte.toNat then
      start.take (diffIndex start limit) ++ [diffByte + 1]
    else start
  -- one is a prefix of the other
  | _, _ => start

/-- `FindShortSuccessor` of the bytewise comparator. A run of `0xff` is left alone. -/
def findShortSuccessor : Bytes → Bytes
  | [] => []
  | byte :: key => if byte ≠ 0xff then [byte + 1] else byte :: findShortSuccessor key

/-- A byte that is not the last can be raised by one. -/
lemma toNat_add_one {byte : UInt8} (h : byte.toNat < 0xff) : (byte + 1).toNat = byte.toNat + 1 := by
  have hone : (1 : UInt8).toNat = 1 := rfl
  rw [UInt8.toNat_add, hone]
  omega

/-- Bytes in common are kept. -/
lemma findShortestSeparator_cons (byte : UInt8) (start limit : Bytes) :
    findShortestSeparator (byte :: start) (byte :: limit) =
      byte :: findShortestSeparator start limit := by
  have hdiff : diffIndex (byte :: start) (byte :: limit) = diffIndex start limit + 1 := by
    rw [diffIndex, if_pos rfl]
  unfold findShortestSeparator
  rw [hdiff, List.getElem?_cons_succ, List.getElem?_cons_succ, List.take_succ_cons]
  cases start[diffIndex start limit]? with
  | none => rfl
  | some diffByte =>
    cases limit[diffIndex start limit]? with
    | none => rfl
    | some limitByte =>
      dsimp only
      split <;> rfl

/-- The separator is the start, or it lies between both. -/
lemma findShortestSeparator_spec (start limit : Bytes) :
    findShortestSeparator start limit = start ∨
      start < findShortestSeparator start limit ∧ findShortestSeparator start limit < limit := by
  induction start generalizing limit with
  | nil => exact Or.inl rfl
  | cons a start ih =>
    cases limit with
    | nil => exact Or.inl rfl
    | cons b limit =>
      by_cases hab : a = b
      · subst hab
        rw [findShortestSeparator_cons]
        rcases ih limit with heq | ⟨hlo, hhi⟩
        · exact Or.inl (by rw [heq])
        · exact Or.inr ⟨List.cons_lt_cons_iff.mpr (Or.inr ⟨rfl, hlo⟩),
            List.cons_lt_cons_iff.mpr (Or.inr ⟨rfl, hhi⟩)⟩
      · have hdiff : diffIndex (a :: start) (b :: limit) = 0 := by rw [diffIndex, if_neg hab]
        have hsep : findShortestSeparator (a :: start) (b :: limit) =
            if a.toNat < 0xff ∧ a.toNat + 1 < b.toNat then [a + 1] else a :: start := by
          unfold findShortestSeparator
          rw [hdiff]
          rfl
        rw [hsep]
        split
        · next hbytes =>
          have hsucc := toNat_add_one hbytes.1
          right
          refine ⟨List.cons_lt_cons_iff.mpr (Or.inl ?_), List.cons_lt_cons_iff.mpr (Or.inl ?_)⟩
          · rw [UInt8.lt_iff_toNat_lt]
            omega
          · rw [UInt8.lt_iff_toNat_lt]
            omega
        · exact Or.inl rfl

/-! ## Internal keys -/

/-- Eight of the 64 bits are for the type. -/
def kMaxSequenceNumber : ℕ := 1 <<< 56 - 1

/-- `kValueTypeForSeek`: the highest type, as types are in descending order. -/
def kValueTypeForSeek : ValueType := .value

/-- The type is in the lowest eight bits. -/
def packSequenceAndType (seq : ℕ) (t : ValueType) : ℕ := seq <<< 8 ||| t.code

structure ParsedInternalKey where
  userKey : Bytes
  sequence : ℕ
  type : ValueType

/-- The user key, and behind it eight bytes with sequence number and type. -/
def appendInternalKey (key : ParsedInternalKey) : Bytes :=
  key.userKey ++ encodeFixed64 (packSequenceAndType key.sequence key.type)

def extractUserKey (internalKey : Bytes) : Bytes := internalKey.take (internalKey.length - 8)

/-- The last eight bytes. -/
def extractTag (internalKey : Bytes) : ℕ :=
  decodeFixed64 (internalKey.drop (internalKey.length - 8))

/-- `none` is a key that is too short or has an unknown type. -/
def parseInternalKey (internalKey : Bytes) : Option ParsedInternalKey :=
  if internalKey.length < 8 then none
  else
    let num := extractTag internalKey
    match num &&& 0xff with
    | 0 => some ⟨extractUserKey internalKey, num >>> 8, .deletion⟩
    | 1 => some ⟨extractUserKey internalKey, num >>> 8, .value⟩
    | _ => none

/-- `InternalKeyComparator::Compare`. -/
def compareInternalKeys (a b : Bytes) : Ordering :=
  match compareSlices (extractUserKey a) (extractUserKey b) with
  | .eq =>
    if extractTag b < extractTag a then .lt
    else if extractTag a < extractTag b then .gt
    else .eq
  | r => r

/-- Where an internal key stands in the order. -/
def internalPlace (internalKey : Bytes) : Bytes ×ₗ ℕᵒᵈ :=
  toLex (extractUserKey internalKey, OrderDual.toDual (extractTag internalKey))

/-- User keys ascend, and for one user key sequence numbers and types descend. -/
lemma internalPlace_lt {a b : Bytes} :
    internalPlace a < internalPlace b ↔ extractUserKey a < extractUserKey b ∨
      extractUserKey a = extractUserKey b ∧ extractTag b < extractTag a := by
  rw [internalPlace, internalPlace, Prod.Lex.toLex_lt_toLex]
  rfl

/-- The comparison of internal keys is the order of their places. -/
lemma compareInternalKeys_eq (a b : Bytes) :
    compareInternalKeys a b =
      if internalPlace a < internalPlace b then .lt
      else if internalPlace b < internalPlace a then .gt else .eq := by
  rw [compareInternalKeys, compareSlices_eq]
  simp only [internalPlace_lt]
  rcases lt_trichotomy (extractUserKey a) (extractUserKey b) with hlt | heq | hgt
  · simp [hlt]
  · simp [heq]
  · simp [hgt, not_lt_of_gt hgt, ne_of_gt hgt]

lemma compareInternalKeys_eq_lt {a b : Bytes} :
    compareInternalKeys a b = .lt ↔ internalPlace a < internalPlace b := by
  rw [compareInternalKeys_eq]
  split_ifs <;> simp_all

/-- The user key is read back, and below the tag. -/
lemma extractUserKey_append (userKey : Bytes) (tag : ℕ) :
    extractUserKey (userKey ++ encodeFixed64 tag) = userKey := by
  rw [extractUserKey, List.length_append, length_encodeFixed64, Nat.add_sub_cancel,
    List.take_left' rfl]

lemma extractTag_append (userKey : Bytes) {tag : ℕ} (htag : tag < 2 ^ 64) :
    extractTag (userKey ++ encodeFixed64 tag) = tag := by
  have hdecode := decodeFixed64_append htag []
  rw [List.append_nil] at hdecode
  rw [extractTag, List.length_append, length_encodeFixed64, Nat.add_sub_cancel,
    List.drop_left' rfl, hdecode]

/-- Packing is arithmetic: nothing of the sequence number is lost. -/
lemma packSequenceAndType_eq (seq : ℕ) (t : ValueType) :
    packSequenceAndType seq t = 256 * seq + t.code := by
  have hcode : t.code < 2 ^ 8 := by cases t <;> decide
  rw [packSequenceAndType, ← Nat.shiftLeft_add_eq_or_of_lt hcode, Nat.shiftLeft_eq]
  omega

/-- A sequence number in range and a type fit into 64 bits. -/
lemma packSequenceAndType_lt {seq : ℕ} (hseq : seq ≤ kMaxSequenceNumber) (t : ValueType) :
    packSequenceAndType seq t < 2 ^ 64 := by
  have hcode : t.code < 2 ^ 8 := by cases t <;> decide
  have hmax : kMaxSequenceNumber = 2 ^ 56 - 1 := by decide
  rw [packSequenceAndType_eq]
  omega

/-- The type is read back, and below the sequence number. -/
lemma packSequenceAndType_and (seq : ℕ) (t : ValueType) :
    packSequenceAndType seq t &&& 0xff = t.code := by
  have hcode : t.code < 2 ^ 8 := by cases t <;> decide
  have hand : packSequenceAndType seq t &&& 0xff = packSequenceAndType seq t % 2 ^ 8 :=
    Nat.and_two_pow_sub_one_eq_mod _ 8
  rw [hand, packSequenceAndType_eq]
  omega

lemma packSequenceAndType_shiftRight (seq : ℕ) (t : ValueType) :
    packSequenceAndType seq t >>> 8 = seq := by
  have hcode : t.code < 2 ^ 8 := by cases t <;> decide
  rw [packSequenceAndType_eq, Nat.shiftRight_eq_div_pow]
  omega

/-- A key that was put together is taken apart again. -/
lemma parseInternalKey_append {key : ParsedInternalKey} (hseq : key.sequence ≤ kMaxSequenceNumber) :
    parseInternalKey (appendInternalKey key) = some key := by
  obtain ⟨userKey, seq, type⟩ := key
  have htag := packSequenceAndType_lt hseq type
  unfold parseInternalKey appendInternalKey
  dsimp only
  rw [if_neg (by simp), extractTag_append userKey htag, packSequenceAndType_and,
    packSequenceAndType_shiftRight, extractUserKey_append]
  cases type <;> rfl

/-! ## Separators of internal keys -/

/-- A shortened user key with the tag that comes first. -/
def earliestInternalKey (userKey : Bytes) : Bytes :=
  userKey ++ encodeFixed64 (packSequenceAndType kMaxSequenceNumber kValueTypeForSeek)

/-- A shorter user key gets the largest sequence number, so that it comes in front of all entries
of that key; else the key stays as it is. -/
def findShortestInternalSeparator (start limit : Bytes) : Bytes :=
  let userStart := extractUserKey start
  let tmp := findShortestSeparator userStart (extractUserKey limit)
  if tmp.length < userStart.length ∧ compareSlices userStart tmp = .lt then earliestInternalKey tmp
  else start

/-- The same, with a successor of the user key. -/
def findShortInternalSuccessor (key : Bytes) : Bytes :=
  let userKey := extractUserKey key
  let tmp := findShortSuccessor userKey
  if tmp.length < userKey.length ∧ compareSlices userKey tmp = .lt then earliestInternalKey tmp
  else key

/-- A larger user key makes a larger internal key. -/
lemma compareInternalKeys_of_userKey_lt {a b : Bytes} (h : extractUserKey a < extractUserKey b) :
    compareInternalKeys a b = .lt := by
  rw [compareInternalKeys_eq_lt, internalPlace_lt]
  exact Or.inl h

/-- **Separators.** Between two internal keys the comparator finds one that is not below the first
and is below the second; the successor of a key is not below it. Neither is longer than the key
it replaces. -/
theorem internal_separators (start limit : Bytes) (h : compareInternalKeys start limit = .lt) :
    compareInternalKeys (findShortestInternalSeparator start limit) start ≠ .lt ∧
      compareInternalKeys (findShortestInternalSeparator start limit) limit = .lt ∧
      compareInternalKeys (findShortInternalSuccessor start) start ≠ .lt ∧
      (8 ≤ start.length →
        (findShortestInternalSeparator start limit).length ≤ start.length ∧
        (findShortInternalSuccessor start).length ≤ start.length) := by
  have hself : compareInternalKeys start start ≠ .lt := by
    rw [Ne, compareInternalKeys_eq_lt]
    exact lt_irrefl _
  have hlonger : ∀ userKey, extractUserKey start < userKey →
      compareInternalKeys (earliestInternalKey userKey) start ≠ .lt := by
    intro userKey hlt
    rw [Ne, compareInternalKeys_eq_lt, not_lt]
    apply le_of_lt
    rw [internalPlace_lt, earliestInternalKey, extractUserKey_append]
    exact Or.inl hlt
  have hlength : 8 ≤ start.length → (extractUserKey start).length + 8 = start.length := by
    intro h8
    rw [extractUserKey, List.length_take]
    omega
  have hearliest : ∀ userKey, (earliestInternalKey userKey).length = userKey.length + 8 := by
    intro userKey
    rw [earliestInternalKey, List.length_append, length_encodeFixed64]
  unfold findShortestInternalSeparator findShortInternalSuccessor
  dsimp only
  refine ⟨?_, ?_, ?_, fun h8 => ⟨?_, ?_⟩⟩
  · split
    · next hshort => exact hlonger _ (compareSlices_eq_lt.mp hshort.2)
    · exact hself
  · split
    · next hshort =>
      have hlt := compareSlices_eq_lt.mp hshort.2
      rcases findShortestSeparator_spec (extractUserKey start) (extractUserKey limit) with
        heq | ⟨-, hlimit⟩
      · rw [heq] at hlt
        exact absurd hlt (lt_irrefl _)
      · apply compareInternalKeys_of_userKey_lt
        rw [earliestInternalKey, extractUserKey_append]
        exact hlimit
    · exact h
  · split
    · next hshort => exact hlonger _ (compareSlices_eq_lt.mp hshort.2)
    · exact hself
  · have hstart := hlength h8
    split
    · next hshort =>
      rw [hearliest]
      omega
    · exact le_refl _
  · have hstart := hlength h8
    split
    · next hshort =>
      rw [hearliest]
      omega
    · exact le_refl _

theorem internal_separators_abc :
    compareInternalKeys
      (findShortestInternalSeparator
        (appendInternalKey ⟨[0x61, 0x62, 0x63], 7, .value⟩)
        (appendInternalKey ⟨[0x61, 0x65], 3, .value⟩))
      (appendInternalKey ⟨[0x61, 0x65], 3, .value⟩) = .lt :=
  (internal_separators _ _ (by decide)).2.1

end Engine

end RnLeveldb
