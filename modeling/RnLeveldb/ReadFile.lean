import RnLeveldb.Js

/-!
# `readFileToBuf`

`leveldbReadFileBuf` returns `len` bytes of a file from `pos` on. Both are 32-bit integers; the
test that the range ends inside the file adds them as such and compares the sum, converted to
`size_t`, with the size of the file. A sum past the largest `int` is therefore taken for a
number larger than any file, and so is a negative one.
-/

namespace RnLeveldb

/-! ## Files -/

structure FileSystem where
  /-- The width of `size_t` and of `off_t`. -/
  bits : ℕ
  /-- The content of a file, or the `strerror` of the error on opening it. -/
  openFile : Bytes → Except Bytes Bytes
  /-- The `strerror` after a read that failed. -/
  readErrno : Bytes
  le_bits : 32 ≤ bits
  /-- The size of a file is an `off_t`. -/
  size_lt : ∀ path content, openFile path = .ok content → content.length < 2 ^ (bits - 1)

/-- A `std::ifstream` that is open. -/
structure Ifstream where
  content : Bytes
  pos : ℕ
  fail : Bool

namespace Ifstream

/-- From the beginning; a negative position fails. -/
def seekg (file : Ifstream) (off : ℤ) : Ifstream :=
  if off < 0 then { file with fail := true } else { file with pos := off.toNat }

/-- `n` bytes, or failure if there are fewer. -/
def read (file : Ifstream) (n : ℕ) : Option Bytes :=
  if file.fail = true ∨ file.content.length < file.pos + n then none
  else some ((file.content.drop file.pos).take n)

end Ifstream

/-- An exception: that of the host function, or the `RangeError` of the `ArrayBuffer`
constructor. -/
inductive ReadFileError where
  | jsError (message : Bytes)
  | rangeError
deriving DecidableEq

/-! ## The host function -/

/-- `file_size < pos + len`: the sum wraps around and is converted to `size_t`. -/
def endsPastFile (bits size : ℕ) (pos len : Int32) : Bool :=
  size % 2 ^ bits < ((pos + len).toInt % 2 ^ bits).toNat

namespace FileSystem

variable (fs : FileSystem)

/-- What is done with a file that was opened. -/
def readRange (content : Bytes) (pos len : Int32) : Except ReadFileError Bytes :=
  if endsPastFile fs.bits content.length pos len then
    .error (.jsError (ascii "leveldbReadFileBuf/invalid-len-plus-pos"))
  else
    let file : Ifstream := { content := content, pos := content.length, fail := false }
    let file := file.seekg pos.toInt
    -- the buffer is made before the file is read
    if len.toInt < 0 then .error .rangeError
    else
      match file.read len.toInt.toNat with
      | none => .error (.jsError (ascii "leveldbReadFileBuf/read-error/" ++ fs.readErrno))
      | some b => .ok b

def leveldbReadFileBuf (path pos len : JsValue) : Except ReadFileError Bytes :=
  match valueToString path, pos, len with
  | some path, .number pos, .number len =>
    match fs.openFile path with
    | .error e => .error (.jsError (ascii "leveldbReadFileBuf/open-error/" ++ e))
    | .ok content => fs.readRange content (Int32.ofInt pos) (Int32.ofInt len)
  | _, _, _ => .error (.jsError (ascii "leveldbReadFileBuf/invalid-params"))

end FileSystem

/-! ## The bounds test -/

/-- The exact end of the range. -/
def rangeEnd (pos len : Int32) : ℤ := pos.toInt + len.toInt

/-- The sum of two `int`s is off by `2 ^ 32` when it is out of range. -/
lemma toInt_add_eq (pos len : Int32) :
    (pos + len).toInt =
      if rangeEnd pos len < -2 ^ 31 then rangeEnd pos len + 2 ^ 32
      else if rangeEnd pos len < 2 ^ 31 then rangeEnd pos len
      else rangeEnd pos len - 2 ^ 32 := by
  have hpos := pos.le_toInt
  have hpos' := pos.toInt_lt
  have hlen := len.le_toInt
  have hlen' := len.toInt_lt
  rw [Int32.toInt_add, Int.bmod_eq_emod, rangeEnd]
  split <;> split <;> (try split) <;> omega

/-- A negative number becomes one of the upper half of `size_t`. -/
lemma toSizeT_gt_iff {bits size : ℕ} (hbits : 32 ≤ bits) (hsize : size < 2 ^ (bits - 1)) {n : ℤ}
    (hlow : -2 ^ 31 ≤ n) (hhigh : n < 2 ^ 31) :
    size % 2 ^ bits < (n % 2 ^ bits).toNat ↔ n < 0 ∨ (size : ℤ) < n := by
  have hhalf : 2 ^ 31 ≤ 2 ^ (bits - 1) := Nat.pow_le_pow_right two_pos (by omega)
  have hdouble : 2 ^ bits = 2 * 2 ^ (bits - 1) := by
    rw [← Nat.pow_succ']
    congr 1
    omega
  have hcast : ((2 : ℤ) ^ bits) = ((2 ^ bits : ℕ) : ℤ) := by push_cast; rfl
  rw [hcast, hdouble]
  generalize 2 ^ (bits - 1) = half at hsize hhalf
  rw [Nat.mod_eq_of_lt (by omega)]
  by_cases hn : n < 0
  · have hmod : n % ((2 * half : ℕ) : ℤ) = n + (2 * half : ℕ) := by
      rw [← Int.add_emod_right]
      exact Int.emod_eq_of_lt (by omega) (by omega)
    rw [hmod]
    exact iff_of_true (by omega) (Or.inl hn)
  · rw [Int.emod_eq_of_lt (by omega) (by omega)]
    omega

/-- What the test says of the exact end. -/
lemma endsPastFile_iff {bits size : ℕ} (hbits : 32 ≤ bits) (hsize : size < 2 ^ (bits - 1))
    (pos len : Int32) :
    endsPastFile bits size pos len = true ↔
      if rangeEnd pos len < -2 ^ 31 then (size : ℤ) < rangeEnd pos len + 2 ^ 32
      else if rangeEnd pos len < 2 ^ 31 then
        rangeEnd pos len < 0 ∨ (size : ℤ) < rangeEnd pos len
      else True := by
  have hpos := pos.le_toInt
  have hlen := len.le_toInt
  have hpos' := pos.toInt_lt
  have hlen' := len.toInt_lt
  have hend : rangeEnd pos len = pos.toInt + len.toInt := rfl
  rw [endsPastFile, decide_eq_true_iff,
    toSizeT_gt_iff hbits hsize (pos + len).le_toInt (pos + len).toInt_lt, toInt_add_eq]
  split
  · omega
  · split
    · exact Iff.rfl
    · exact iff_of_true (Or.inl (by omega)) trivial

/-! ## What is returned -/

/-- The bytes from `pos` to `pos + len` if these are in the file, and an exception otherwise. -/
def ExactRange (content : Bytes) (pos len : Int32) (r : Except ReadFileError Bytes) : Prop :=
  if 0 ≤ pos.toInt ∧ 0 ≤ len.toInt ∧ rangeEnd pos len ≤ content.length then
    r = .ok ((content.drop pos.toInt.toNat).take len.toInt.toNat)
  else ∃ e, r = .error e

/-- The test is the comparison of the exact numbers. -/
def ExactTest (bits : ℕ) (content : Bytes) (pos len : Int32) : Prop :=
  endsPastFile bits content.length pos len = true ↔ (content.length : ℤ) < rangeEnd pos len

namespace FileSystem

variable {fs : FileSystem} {content : Bytes} {pos len : Int32}

lemma readRange_of_past (h : endsPastFile fs.bits content.length pos len = true) :
    ∃ e, fs.readRange content pos len = .error e := by
  rw [readRange, if_pos h]
  exact ⟨_, rfl⟩

/-- A negative length and a negative position are found out later. -/
lemma readRange_of_neg (h : pos.toInt < 0 ∨ len.toInt < 0) :
    ∃ e, fs.readRange content pos len = .error e := by
  by_cases hpast : endsPastFile fs.bits content.length pos len = true
  · exact readRange_of_past hpast
  rw [readRange, if_neg hpast]
  dsimp only
  by_cases hlen : len.toInt < 0
  · rw [if_pos hlen]
    exact ⟨_, rfl⟩
  · have hpos : pos.toInt < 0 := h.resolve_right hlen
    rw [if_neg hlen, Ifstream.seekg, if_pos hpos, Ifstream.read, if_pos (Or.inl rfl)]
    exact ⟨_, rfl⟩

/-- A range inside the file is read. -/
lemma readRange_of_inside (hpast : ¬ endsPastFile fs.bits content.length pos len = true)
    (hpos : 0 ≤ pos.toInt) (hlen : 0 ≤ len.toInt) (hend : rangeEnd pos len ≤ content.length) :
    fs.readRange content pos len =
      .ok ((content.drop pos.toInt.toNat).take len.toInt.toNat) := by
  have hfits : ¬ (false = true ∨ content.length < pos.toInt.toNat + len.toInt.toNat) := by
    unfold rangeEnd at hend
    rintro (h | h)
    · cases h
    · omega
  rw [readRange, if_neg hpast]
  dsimp only
  rw [if_neg (not_lt.mpr hlen), Ifstream.seekg, if_neg (not_lt.mpr hpos), Ifstream.read]
  dsimp only
  rw [if_neg hfits]

/-- A range that begins and ends at nonnegative numbers is exact unless the sum is too large
for an `int`. -/
lemma exactRange_iff (hsize : content.length < 2 ^ (fs.bits - 1)) :
    ExactRange content pos len (fs.readRange content pos len) ↔
      rangeEnd pos len < 2 ^ 31 ∨ (content.length : ℤ) < rangeEnd pos len := by
  have htest := endsPastFile_iff fs.le_bits hsize pos len
  have hpos' := pos.toInt_lt
  have hlen' := len.toInt_lt
  have hend : rangeEnd pos len = pos.toInt + len.toInt := rfl
  unfold ExactRange
  by_cases hneg : pos.toInt < 0 ∨ len.toInt < 0
  · -- the sum of a negative number and an `int` is not too large
    rw [if_neg (by omega)]
    exact iff_of_true (readRange_of_neg hneg) (Or.inl (by omega))
  by_cases hinside : rangeEnd pos len ≤ content.length
  · rw [if_pos ⟨by omega, by omega, hinside⟩]
    by_cases hsum : rangeEnd pos len < 2 ^ 31
    · rw [if_neg (by omega), if_pos hsum] at htest
      have hpast : ¬ endsPastFile fs.bits content.length pos len = true := by
        rw [htest]
        omega
      refine iff_of_true (readRange_of_inside hpast ?_ ?_ hinside) (Or.inl hsum) <;> omega
    · rw [if_neg (by omega), if_neg hsum] at htest
      obtain ⟨e, he⟩ := readRange_of_past (htest.mpr trivial)
      rw [he]
      exact iff_of_false nofun (by omega)
  · have hpast : endsPastFile fs.bits content.length pos len = true := by
      rw [htest, if_neg (by omega)]
      split
      · omega
      · trivial
    rw [if_neg (by omega)]
    exact iff_of_true (readRange_of_past hpast) (Or.inr (by omega))

/-- The test is exact for sums that are `int`s and not negative, and for those that it takes
for such numbers without consequence. -/
lemma exactTest_iff (hsize : content.length < 2 ^ (fs.bits - 1)) :
    ExactTest fs.bits content pos len ↔
      (0 ≤ rangeEnd pos len ∧
          (rangeEnd pos len < 2 ^ 31 ∨ (content.length : ℤ) < rangeEnd pos len)) ∨
        (rangeEnd pos len < -2 ^ 31 ∧ rangeEnd pos len + 2 ^ 32 ≤ content.length) := by
  rw [ExactTest, endsPastFile_iff fs.le_bits hsize]
  split
  · omega
  · split
    · omega
    · simp only [true_iff]
      omega

lemma leveldbReadFileBuf_eq {path : JsValue} {file : Bytes}
    (hpath : valueToString path = some file) (hopen : fs.openFile file = .ok content)
    (pos len : Int32) :
    fs.leveldbReadFileBuf path (.number pos.toInt) (.number len.toInt) =
      fs.readRange content pos len := by
  unfold leveldbReadFileBuf
  rw [hpath]
  dsimp only
  rw [hopen]
  dsimp only
  rw [Int32.ofInt_toInt, Int32.ofInt_toInt]

/-- **When `readFileToBuf` is exact.** For every file that can be opened and all 32-bit `pos`
and `len`: the bytes of the range are returned, or an exception is thrown if it is not inside
the file, and the bounds test is that of exact arithmetic, if and only if `pos + len` is not
negative and fits an `int` or lies past the end of the file, or it is so small that it wraps
around to a number inside the file. -/
theorem readFileToBuf_exact_iff (fs : FileSystem) (path : JsValue) (file content : Bytes)
    (hpath : valueToString path = some file) (hopen : fs.openFile file = .ok content)
    (pos len : Int32) :
    (ExactRange content pos len
        (fs.leveldbReadFileBuf path (.number pos.toInt) (.number len.toInt)) ∧
      ExactTest fs.bits content pos len) ↔
    (0 ≤ pos.toInt + len.toInt ∧
        (pos.toInt + len.toInt < 2 ^ 31 ∨ (content.length : ℤ) < pos.toInt + len.toInt)) ∨
      (pos.toInt + len.toInt < -2 ^ 31 ∧ pos.toInt + len.toInt + 2 ^ 32 ≤ content.length) := by
  have hsize := fs.size_lt file content hopen
  rw [leveldbReadFileBuf_eq hpath hopen, exactRange_iff hsize, exactTest_iff hsize]
  show _ ↔ (0 ≤ rangeEnd pos len ∧ _) ∨ _
  unfold rangeEnd
  omega

/-- One file, on a device with 64-bit sizes. -/
def oneFile (content : Bytes) (h : content.length < 2 ^ 63) : FileSystem where
  bits := 64
  openFile _ := .ok content
  readErrno := []
  le_bits := by omega
  size_lt := by
    rintro path _ ⟨rfl⟩
    exact h

theorem readFileToBuf_exact_two_bytes :
    valueToString (.string [0x66]) = some [0x66] ∧
      (oneFile [1, 2, 3] (by decide)).openFile [0x66] = .ok [1, 2, 3] ∧
      ((ExactRange [1, 2, 3] 1 2
          ((oneFile [1, 2, 3] (by decide)).leveldbReadFileBuf (.string [0x66]) (.number 1)
            (.number 2)) ∧
        ExactTest 64 [1, 2, 3] 1 2) ↔
      (0 ≤ (1 : Int32).toInt + (2 : Int32).toInt ∧
          ((1 : Int32).toInt + (2 : Int32).toInt < 2 ^ 31 ∨
            (([1, 2, 3] : Bytes).length : ℤ) < (1 : Int32).toInt + (2 : Int32).toInt)) ∨
        ((1 : Int32).toInt + (2 : Int32).toInt < -2 ^ 31 ∧
          (1 : Int32).toInt + (2 : Int32).toInt + 2 ^ 32 ≤ (([1, 2, 3] : Bytes).length : ℤ))) :=
  ⟨rfl, rfl, readFileToBuf_exact_iff (oneFile [1, 2, 3] (by decide)) (.string [0x66]) [0x66]
    [1, 2, 3] rfl rfl 1 2⟩

/-- A file of `2 ^ 31` zeros. -/
def twoGiB : Bytes := List.replicate (2 ^ 31) 0

lemma length_twoGiB : twoGiB.length = 2 ^ 31 := List.length_replicate

lemma length_twoGiB_lt : twoGiB.length < 2 ^ 63 := by
  rw [length_twoGiB]
  exact Nat.pow_lt_pow_right one_lt_two (by omega)

/-- The last byte of a file of `2 ^ 31` bytes is inside the file, but is not returned; and the
test refuses an empty range at position `-1` as if it ended past the file. -/
theorem readFileToBuf_refuses_last_byte :
    ¬ ExactRange twoGiB 2147483647 1
        ((oneFile twoGiB length_twoGiB_lt).leveldbReadFileBuf (.string [0x66])
          (.number 2147483647) (.number 1)) ∧
      ¬ ExactTest 64 [1, 2, 3] (-1) 0 := by
  constructor
  · have hread : (oneFile twoGiB length_twoGiB_lt).leveldbReadFileBuf (.string [0x66])
        (.number 2147483647) (.number 1) =
          (oneFile twoGiB length_twoGiB_lt).readRange twoGiB 2147483647 1 :=
      leveldbReadFileBuf_eq rfl rfl 2147483647 1
    have hend : rangeEnd 2147483647 1 = 2 ^ 31 := rfl
    rw [hread, exactRange_iff length_twoGiB_lt, length_twoGiB, hend]
    rintro (h | h)
    · exact lt_irrefl _ h
    · omega
  · have hend : rangeEnd (-1) 0 = -1 := rfl
    have hpast : endsPastFile 64 [1, 2, 3].length (-1) 0 = true := by decide
    intro h
    have hlt := h.mp hpast
    rw [hend] at hlt
    omega

end FileSystem

end RnLeveldb
