import RnLeveldb.Js

/-!
# `util/coding.cc`

The number formats of everything LevelDB stores. Fixed-length numbers have their least
significant byte first. A varint has seven bits a byte, the least significant ones first, and
the top bit of every byte but the last is set; a string is preceded by its length as a varint.

`EncodeVarint32` is unrolled while `EncodeVarint64` is a loop; on 32-bit numbers they write the
same bytes. The decoders stop at the end of the input, and what an encoder has written is read
back whatever follows it, but from no proper prefix of it.
-/

namespace RnLeveldb

namespace Engine

/-! ## Fixed-length numbers -/

/-- `n` bytes of a number. -/
def encodeFixed : ℕ → ℕ → Bytes
  | 0, _ => []
  | n + 1, v => UInt8.ofNat v :: encodeFixed n (v >>> 8)

/-- The lowest byte comes first. -/
def decodeFixed : Bytes → ℕ
  | [] => 0
  | b :: bs => b.toNat ||| decodeFixed bs <<< 8

def encodeFixed32 (v : ℕ) : Bytes := encodeFixed 4 v

def encodeFixed64 (v : ℕ) : Bytes := encodeFixed 8 v

/-- The four bytes at the front; the source does not check that they are there. -/
def decodeFixed32 (b : Bytes) : ℕ := decodeFixed (b.take 4)

def decodeFixed64 (b : Bytes) : ℕ := decodeFixed (b.take 8)

/-- Fixed-width numbers have the width they say. -/
@[simp] lemma length_encodeFixed (n v : ℕ) : (encodeFixed n v).length = n := by
  induction n generalizing v with
  | zero => rfl
  | succ n ih => simp [encodeFixed, ih]

@[simp] lemma length_encodeFixed32 (v : ℕ) : (encodeFixed32 v).length = 4 := length_encodeFixed 4 v

@[simp] lemma length_encodeFixed64 (v : ℕ) : (encodeFixed64 v).length = 8 := length_encodeFixed 8 v

/-- Each further byte counts 256 times as much. -/
lemma decodeFixed_cons (b : UInt8) (bs : Bytes) :
    decodeFixed (b :: bs) = b.toNat + 256 * decodeFixed bs := by
  have hb : b.toNat < 2 ^ 8 := b.toNat_lt
  have hor := Nat.shiftLeft_add_eq_or_of_lt hb (decodeFixed bs)
  rw [Nat.or_comm] at hor
  rw [decodeFixed, ← hor, Nat.shiftLeft_eq]
  omega

/-- Higher bits are lost. -/
lemma decodeFixed_encodeFixed (n v : ℕ) : decodeFixed (encodeFixed n v) = v % 256 ^ n := by
  induction n generalizing v with
  | zero => simp [encodeFixed, decodeFixed, Nat.mod_one]
  | succ n ih =>
    have hbyte : (UInt8.ofNat v).toNat = v % 256 := UInt8.toNat_ofNat'
    have hpow : 256 ^ (n + 1) = 256 * 256 ^ n := pow_succ' 256 n
    rw [encodeFixed, decodeFixed_cons, ih, hbyte, Nat.shiftRight_eq_div_pow, hpow, Nat.mod_mul]

/-- What is read is in range. -/
lemma decodeFixed_lt (b : Bytes) : decodeFixed b < 256 ^ b.length := by
  induction b with
  | nil => simp [decodeFixed]
  | cons x b ih =>
    have hx := x.toNat_lt
    rw [decodeFixed_cons, List.length_cons, pow_succ']
    omega

/-- A number is read back, whatever follows it. -/
lemma decodeFixed32_append {v : ℕ} (hv : v < 2 ^ 32) (rest : Bytes) :
    decodeFixed32 (encodeFixed32 v ++ rest) = v := by
  rw [decodeFixed32, List.take_left' (length_encodeFixed32 v), encodeFixed32,
    decodeFixed_encodeFixed]
  exact Nat.mod_eq_of_lt hv

lemma decodeFixed64_append {v : ℕ} (hv : v < 2 ^ 64) (rest : Bytes) :
    decodeFixed64 (encodeFixed64 v ++ rest) = v := by
  rw [decodeFixed64, List.take_left' (length_encodeFixed64 v), encodeFixed64,
    decodeFixed_encodeFixed]
  exact Nat.mod_eq_of_lt hv

/-! ## Varints -/

/-- Every byte but the last has this bit. -/
def moreBytes (v : ℕ) : UInt8 := UInt8.ofNat (v ||| 128)

/-- Written out for each length, as in the source. -/
def encodeVarint32 (v : ℕ) : Bytes :=
  if v < 1 <<< 7 then [UInt8.ofNat v]
  else if v < 1 <<< 14 then [moreBytes v, UInt8.ofNat (v >>> 7)]
  else if v < 1 <<< 21 then [moreBytes v, moreBytes (v >>> 7), UInt8.ofNat (v >>> 14)]
  else if v < 1 <<< 28 then
    [moreBytes v, moreBytes (v >>> 7), moreBytes (v >>> 14), UInt8.ofNat (v >>> 21)]
  else
    [moreBytes v, moreBytes (v >>> 7), moreBytes (v >>> 14), moreBytes (v >>> 21),
      UInt8.ofNat (v >>> 28)]

/-- Seven bits to a byte, the lowest first; all bytes but the last have the highest bit. -/
def encodeVarint64 (v : ℕ) : Bytes :=
  if v < 128 then [UInt8.ofNat v] else moreBytes v :: encodeVarint64 (v >>> 7)
termination_by v
decreasing_by
  rw [Nat.shiftRight_eq_div_pow]
  omega

/-- The number of these bytes. -/
def varintLength (v : ℕ) : ℕ := if v < 128 then 1 else varintLength (v >>> 7) + 1
termination_by v
decreasing_by
  rw [Nat.shiftRight_eq_div_pow]
  omega

/-- The loop of `GetVarint32PtrFallback` and of `GetVarint64Ptr`, which differ in the width of
the result and in the last shift. It returns the number and what follows it. -/
def getVarintLoop (width lastShift : ℕ) : ℕ → ℕ → Bytes → Option (ℕ × Bytes)
  | _, _, [] => none
  | shift, result, byte :: rest =>
    if lastShift < shift then none
    else if byte.toNat &&& 128 ≠ 0 then
      getVarintLoop width lastShift (shift + 7)
        (result ||| (byte.toNat &&& 127) <<< shift % 2 ^ width) rest
    else some (result ||| byte.toNat <<< shift % 2 ^ width, rest)

/-- A single byte is not worth the loop. -/
def getVarint32 (input : Bytes) : Option (ℕ × Bytes) :=
  match input with
  | byte :: rest =>
    if byte.toNat &&& 128 = 0 then some (byte.toNat, rest) else getVarintLoop 32 28 0 0 input
  | [] => getVarintLoop 32 28 0 0 input

/-- At most ten bytes are read. -/
def getVarint64 (input : Bytes) : Option (ℕ × Bytes) := getVarintLoop 64 63 0 0 input

/-! ## Bytes of a varint -/

lemma or_128 : ∀ b < 256, b ||| 128 = b % 128 + 128 := by decide +kernel

/-- The top bit of a byte. -/
lemma and_128_eq_zero : ∀ b < 256, (b &&& 128 = 0 ↔ b < 128) := by decide +kernel

/-- A byte with more behind it has the next seven bits and the highest bit. -/
lemma toNat_moreBytes (v : ℕ) : (moreBytes v).toNat = v % 128 + 128 := by
  have hmod : (v ||| 128) % 256 = v % 256 ||| 128 := Nat.or_mod_two_pow (n := 8)
  rw [moreBytes, UInt8.toNat_ofNat', hmod, or_128 (v % 256) (by omega)]
  omega

lemma and_127 (b : ℕ) : b &&& 127 = b % 128 := Nat.and_two_pow_sub_one_eq_mod b 7

/-! ## Round trips -/

lemma encodeVarint64_of_lt {v : ℕ} (hv : v < 128) : encodeVarint64 v = [UInt8.ofNat v] := by
  rw [encodeVarint64, if_pos hv]

lemma encodeVarint64_of_ge {v : ℕ} (hv : 128 ≤ v) :
    encodeVarint64 v = moreBytes v :: encodeVarint64 (v >>> 7) := by
  rw [encodeVarint64, if_neg (not_lt.mpr hv)]

/-- The unrolled encoder writes what the loop does. -/
lemma encodeVarint32_eq {v : ℕ} (hv : v < 2 ^ 32) : encodeVarint32 v = encodeVarint64 v := by
  have h14 : v >>> 14 = v >>> 7 >>> 7 := Nat.shiftRight_add v 7 7
  have h21 : v >>> 21 = v >>> 7 >>> 7 >>> 7 := Nat.shiftRight_add v 14 7
  have h28 : v >>> 28 = v >>> 7 >>> 7 >>> 7 >>> 7 := Nat.shiftRight_add v 21 7
  have hdiv : ∀ u : ℕ, u >>> 7 = u / 128 := fun u => Nat.shiftRight_eq_div_pow u 7
  unfold encodeVarint32
  simp only [Nat.shiftLeft_eq, one_mul]
  rw [h14, h21, h28]
  have d1 := hdiv v
  have d2 := hdiv (v >>> 7)
  have d3 := hdiv (v >>> 7 >>> 7)
  have d4 := hdiv (v >>> 7 >>> 7 >>> 7)
  -- one case for each length
  split
  · rw [encodeVarint64_of_lt (by omega)]
  split
  · rw [encodeVarint64_of_ge (by omega), encodeVarint64_of_lt (by omega)]
  split
  · rw [encodeVarint64_of_ge (by omega), encodeVarint64_of_ge (by omega),
      encodeVarint64_of_lt (by omega)]
  split
  · rw [encodeVarint64_of_ge (by omega), encodeVarint64_of_ge (by omega),
      encodeVarint64_of_ge (by omega), encodeVarint64_of_lt (by omega)]
  · rw [encodeVarint64_of_ge (by omega), encodeVarint64_of_ge (by omega),
      encodeVarint64_of_ge (by omega), encodeVarint64_of_ge (by omega),
      encodeVarint64_of_lt (by omega)]

/-- The length that `VarintLength` counts is that of the encoding. -/
lemma length_encodeVarint64 (v : ℕ) : (encodeVarint64 v).length = varintLength v := by
  induction v using Nat.strongRecOn with
  | ind v ih =>
    by_cases hv : v < 128
    · rw [encodeVarint64_of_lt hv, varintLength, if_pos hv]
      rfl
    · have hlt : v >>> 7 < v := by
        rw [Nat.shiftRight_eq_div_pow]
        omega
      rw [encodeVarint64_of_ge (not_lt.mp hv), varintLength, if_neg hv, List.length_cons,
        ih _ hlt]

/-- Bits that do not overlap and fit. -/
lemma or_shiftLeft {width shift result b : ℕ} (hresult : result < 2 ^ shift)
    (hfits : b * 2 ^ shift < 2 ^ width) :
    result ||| b <<< shift % 2 ^ width = result + b * 2 ^ shift := by
  have hor := Nat.shiftLeft_add_eq_or_of_lt hresult b
  rw [Nat.shiftLeft_eq] at hor ⊢
  rw [Nat.mod_eq_of_lt hfits, Nat.or_comm, ← hor, Nat.add_comm]

section

variable {width lastShift : ℕ}

/-- The loop reads back what the encoder has written. `lastShift` is the last multiple of 7
below the width. -/
lemma getVarintLoop_encode (hlast : ∀ k, 7 * k < width → 7 * k ≤ lastShift) (rest : Bytes)
    (v k result : ℕ) (hresult : result < 2 ^ (7 * k)) (hfits : v * 2 ^ (7 * k) < 2 ^ width)
    (hk : 7 * k < width) :
    getVarintLoop width lastShift (7 * k) result (encodeVarint64 v ++ rest) =
      some (result + v * 2 ^ (7 * k), rest) := by
  have hshift := hlast k hk
  induction v using Nat.strongRecOn generalizing k result with
  | ind v ih =>
    by_cases hv : v < 128
    · have hbyte : (UInt8.ofNat v).toNat = v := by
        rw [UInt8.toNat_ofNat']
        omega
      have htop : ¬ v &&& 128 ≠ 0 := by
        rw [not_not]
        exact (and_128_eq_zero v (by omega)).mpr hv
      rw [encodeVarint64_of_lt hv, List.singleton_append, getVarintLoop, hbyte,
        if_neg (by omega), if_neg htop, or_shiftLeft hresult hfits]
    · have hbyte := toNat_moreBytes v
      have htop : (moreBytes v).toNat &&& 128 ≠ 0 := by
        rw [Ne, and_128_eq_zero _ (by omega)]
        omega
      have hlow : (moreBytes v).toNat &&& 127 = v % 128 := by
        rw [and_127, hbyte]
        omega
      have hdiv : v >>> 7 = v / 128 := Nat.shiftRight_eq_div_pow v 7
      have hpow : 2 ^ (7 * (k + 1)) = 128 * 2 ^ (7 * k) := by
        rw [Nat.mul_add, Nat.pow_add, Nat.mul_comm]
      have hpos : 0 < 2 ^ (7 * k) := Nat.two_pow_pos _
      -- the seven low bits are added, the others come later
      have hsplit : v * 2 ^ (7 * k) = v % 128 * 2 ^ (7 * k) + v / 128 * (128 * 2 ^ (7 * k)) := by
        rw [← Nat.mul_assoc, ← Nat.add_mul]
        congr 1
        omega
      have hlowle : v % 128 * 2 ^ (7 * k) ≤ 127 * 2 ^ (7 * k) :=
        Nat.mul_le_mul_right _ (by omega)
      have hge : 1 * (128 * 2 ^ (7 * k)) ≤ v / 128 * (128 * 2 ^ (7 * k)) :=
        Nat.mul_le_mul_right _ (by omega)
      have hk' : 7 * (k + 1) < width := by
        apply (Nat.pow_lt_pow_iff_right (show 1 < 2 by omega)).mp
        omega
      rw [encodeVarint64_of_ge (not_lt.mp hv), List.cons_append, getVarintLoop,
        if_neg (by omega), if_pos htop, hlow, or_shiftLeft hresult (by omega), ← Nat.mul_succ,
        ih (v >>> 7) (by omega) (k + 1) _ (by omega) (by rw [hdiv, hpow]; omega) hk'
          (hlast (k + 1) hk'), hdiv, hpow, hsplit]
      congr 2
      omega

/-- Bytes of which none is the last are no varint. -/
lemma getVarintLoop_of_more {input : Bytes} (h : ∀ b ∈ input, 128 ≤ b.toNat) (shift result : ℕ) :
    getVarintLoop width lastShift shift result input = none := by
  induction input generalizing shift result with
  | nil => rfl
  | cons b input ih =>
    have hb := h b List.mem_cons_self
    have htop : b.toNat &&& 128 ≠ 0 := by
      rw [Ne, and_128_eq_zero _ b.toNat_lt]
      omega
    rw [getVarintLoop, if_pos htop, ih (fun c hc => h c (List.mem_cons_of_mem _ hc)), ite_self]

/-- What follows the varint is a proper suffix of the input. -/
lemma length_lt_of_getVarintLoop {shift result v : ℕ} {input rest : Bytes}
    (h : getVarintLoop width lastShift shift result input = some (v, rest)) :
    rest.length < input.length := by
  induction input generalizing shift result with
  | nil => cases h
  | cons b input ih =>
    rw [getVarintLoop] at h
    split at h
    · cases h
    split at h
    · have hlt := ih h
      rw [List.length_cons]
      omega
    · cases h
      simp

end

/-- All bytes of a varint but the last announce more. -/
lemma le_of_mem_take_encodeVarint64 {v n : ℕ} (hn : n < (encodeVarint64 v).length) :
    ∀ b ∈ (encodeVarint64 v).take n, 128 ≤ b.toNat := by
  induction v using Nat.strongRecOn generalizing n with
  | ind v ih =>
    by_cases hv : v < 128
    · rw [encodeVarint64_of_lt hv, List.length_singleton] at hn
      have h0 : n = 0 := by omega
      simp [h0]
    · have hlt : v >>> 7 < v := by
        rw [Nat.shiftRight_eq_div_pow]
        omega
      rw [encodeVarint64_of_ge (not_lt.mp hv)] at hn ⊢
      cases n with
      | zero => simp
      | succ n =>
        rw [List.length_cons] at hn
        intro b hb
        rw [List.take_succ_cons, List.mem_cons] at hb
        rcases hb with rfl | hb
        · rw [toNat_moreBytes]
          omega
        · exact ih _ hlt (by omega) b hb

/-- The fast path is not another function. -/
lemma getVarint32_eq (input : Bytes) : getVarint32 input = getVarintLoop 32 28 0 0 input := by
  cases input with
  | nil => rfl
  | cons b rest =>
    have hb := b.toNat_lt
    have hmod : b.toNat <<< 0 % 2 ^ 32 = b.toNat := by
      rw [Nat.shiftLeft_zero, Nat.mod_eq_of_lt (by omega)]
    by_cases htop : b.toNat &&& 128 = 0
    · rw [getVarint32, if_pos htop, getVarintLoop, if_neg (by omega), if_neg (not_not.mpr htop),
        hmod, Nat.zero_or]
    · rw [getVarint32, if_neg htop]

/-- A number is read back, whatever follows it, and nothing of that is taken. -/
lemma getVarint32_append {v : ℕ} (hv : v < 2 ^ 32) (rest : Bytes) :
    getVarint32 (encodeVarint32 v ++ rest) = some (v, rest) := by
  have hloop : getVarintLoop 32 28 (7 * 0) 0 (encodeVarint64 v ++ rest) = _ :=
    getVarintLoop_encode (fun k hk => by omega) rest v 0 0 (by omega) (by omega) (by omega)
  rw [getVarint32_eq, encodeVarint32_eq hv]
  simpa using hloop

lemma getVarint64_append {v : ℕ} (hv : v < 2 ^ 64) (rest : Bytes) :
    getVarint64 (encodeVarint64 v ++ rest) = some (v, rest) := by
  have hloop : getVarintLoop 64 63 (7 * 0) 0 (encodeVarint64 v ++ rest) = _ :=
    getVarintLoop_encode (fun k hk => by omega) rest v 0 0 (by omega) (by omega) (by omega)
  simpa [getVarint64] using hloop

/-! ## Strings -/

/-- The length is converted to 32 bits. -/
def putLengthPrefixedSlice (value : Bytes) : Bytes :=
  encodeVarint32 (value.length % 2 ^ 32) ++ value

/-- A length and as many bytes; `none` if there are fewer. -/
def getLengthPrefixedSlice (input : Bytes) : Option (Bytes × Bytes) :=
  match getVarint32 input with
  | none => none
  | some (len, input) =>
    if len ≤ input.length then some (input.take len, input.drop len) else none

/-- A slice is read back, whatever follows it. -/
lemma getLengthPrefixedSlice_append {value : Bytes} (hvalue : value.length < 2 ^ 32)
    (rest : Bytes) :
    getLengthPrefixedSlice (putLengthPrefixedSlice value ++ rest) = some (value, rest) := by
  rw [getLengthPrefixedSlice, putLengthPrefixedSlice, Nat.mod_eq_of_lt hvalue, List.append_assoc,
    getVarint32_append hvalue]
  simp

/-- Reading a slice uses up something of the input. -/
lemma length_lt_of_getLengthPrefixedSlice {input value rest : Bytes}
    (h : getLengthPrefixedSlice input = some (value, rest)) : rest.length < input.length := by
  unfold getLengthPrefixedSlice at h
  split at h
  · cases h
  · next len input' hlen =>
    split at h
    · cases h
      rw [getVarint32_eq] at hlen
      have hlt := length_lt_of_getVarintLoop hlen
      rw [List.length_drop]
      omega
    · cases h

/-- A string that has been cut off is not read: the length is incomplete, or the string is
shorter than it says. -/
lemma getLengthPrefixedSlice_take {value : Bytes} (hvalue : value.length < 2 ^ 32) {n : ℕ}
    (hn : n < (putLengthPrefixedSlice value).length) :
    getLengthPrefixedSlice ((putLengthPrefixedSlice value).take n) = none := by
  rw [putLengthPrefixedSlice, Nat.mod_eq_of_lt hvalue] at hn ⊢
  rw [List.length_append] at hn
  by_cases hlen : n < (encodeVarint32 value.length).length
  · rw [List.take_append_of_le_length (by omega), getLengthPrefixedSlice, getVarint32_eq]
    rw [encodeVarint32_eq hvalue] at hlen ⊢
    rw [getVarintLoop_of_more (le_of_mem_take_encodeVarint64 hlen)]
  · rw [List.take_append, List.take_of_length_le (by omega), getLengthPrefixedSlice,
      getVarint32_append hvalue]
    dsimp only
    rw [if_neg]
    rw [List.length_take]
    omega

/-- **Varints.** A 32-bit and a 64-bit number are read back, whatever follows them, from what was
written for them and from no proper prefix of it; the unrolled encoder, the loop and
`VarintLength` agree. -/
theorem varint_round_trip (v : ℕ) (hv : v < 2 ^ 64) :
    (∀ rest, getVarint64 (encodeVarint64 v ++ rest) = some (v, rest)) ∧
    (∀ n < (encodeVarint64 v).length, getVarint64 ((encodeVarint64 v).take n) = none) ∧
    (encodeVarint64 v).length = varintLength v ∧
    (v < 2 ^ 32 → encodeVarint32 v = encodeVarint64 v ∧
      (∀ rest, getVarint32 (encodeVarint32 v ++ rest) = some (v, rest)) ∧
      ∀ n < (encodeVarint32 v).length, getVarint32 ((encodeVarint32 v).take n) = none) := by
  refine ⟨getVarint64_append hv, ?_, length_encodeVarint64 v, fun h32 => ?_⟩
  · intro n hn
    exact getVarintLoop_of_more (le_of_mem_take_encodeVarint64 hn) 0 0
  · refine ⟨encodeVarint32_eq h32, getVarint32_append h32, fun n hn => ?_⟩
    rw [encodeVarint32_eq h32] at hn ⊢
    rw [getVarint32_eq]
    exact getVarintLoop_of_more (le_of_mem_take_encodeVarint64 hn) 0 0

theorem varint_round_trip_300 :
    300 < 2 ^ 64 ∧ ∀ rest, getVarint64 (encodeVarint64 300 ++ rest) = some (300, rest) :=
  ⟨by omega, (varint_round_trip 300 (by omega)).1⟩

end Engine

end RnLeveldb
