import Mathlib.Data.Nat.Bitwise
import RnLeveldb.Engine.Coding

/-!
# `util/bloom.cc`, `util/hash.cc`

A Bloom filter of the keys of a table's blocks: for every key some bits of an array are set, at
places that come from one hash of the key. A key may match if all of its bits are set. How many
bits a key has stands behind the array, so that a filter can be read by any policy.
-/

namespace RnLeveldb

namespace Engine

/-! ## `Hash` -/

namespace Hash

def m : UInt32 := 0xc6a4a793

def r : UInt32 := 24

/-- The loop: four bytes at a time. The remaining bytes are returned with the hash. -/
def words : UInt32 → Bytes → UInt32 × Bytes
  | h, a :: b :: c :: d :: data =>
    let h := (h + UInt32.ofNat (decodeFixed32 [a, b, c, d])) * m
    words (h ^^^ (h >>> 16)) data
  | h, data => (h, data)

/-- The `switch`: what the case of three and the case of two bytes add, the case of one does. -/
def last (h : UInt32) : Bytes → UInt32
  | [] => h
  | a :: data =>
    let h := match data with
      | [b, c] => h + (c.toUInt32 <<< 16) + (b.toUInt32 <<< 8)
      | [b] => h + (b.toUInt32 <<< 8)
      | _ => h
    let h := (h + a.toUInt32) * m
    h ^^^ (h >>> r)

end Hash

/-- `Hash`: four bytes at a time, the last one to three by a switch that falls through. -/
def hash (data : Bytes) (seed : UInt32) : UInt32 :=
  let h := Hash.words (seed ^^^ (UInt32.ofNat data.length * Hash.m)) data
  Hash.last h.1 h.2

/-! ## Filters -/

def bloomHash (key : Bytes) : UInt32 := hash key 0xbc9f1d34

/-- Rotates right 17 bits. -/
def bloomDelta (h : UInt32) : UInt32 := (h >>> 17) ||| (h <<< 15)

/-- `array[bitpos / 8] |= (1 << (bitpos % 8))`. -/
def setBit (array : Bytes) (bitpos : ℕ) : Bytes :=
  array.modify (bitpos / 8) fun b => UInt8.ofNat (b.toNat ||| 1 <<< (bitpos % 8))

/-- The bit at this position of the array. -/
def hasBit (array : Bytes) (bitpos : ℕ) : Bool :=
  (array.getD (bitpos / 8) 0).toNat &&& 1 <<< (bitpos % 8) ≠ 0

/-- The loop over the bits of a key, `k` of which are left. -/
def setBits (bits : ℕ) (delta : UInt32) : ℕ → UInt32 → Bytes → Bytes
  | 0, _, array => array
  | k + 1, h, array => setBits bits delta k (h + delta) (setBit array (h.toNat % bits))

/-- The loop over the probes of a key, `k` of which are left. -/
def hasBits (bits : ℕ) (delta : UInt32) (array : Bytes) : ℕ → UInt32 → Bool
  | 0, _ => true
  | k + 1, h => hasBit array (h.toNat % bits) && hasBits bits delta array k (h + delta)

/-- The loop over the keys. -/
def addKeys (bits k : ℕ) (array : Bytes) (keys : List Bytes) : Bytes :=
  keys.foldl (fun array key => setBits bits (bloomDelta (bloomHash key)) k (bloomHash key) array)
    array

/-- Of the policy only the two numbers matter; the name is left out. -/
structure BloomFilterPolicy where
  bitsPerKey : ℕ
  k : ℕ
deriving DecidableEq

namespace BloomFilterPolicy

/-- `0.69` is about `ln(2)`. -/
def new (bitsPerKey : ℕ) : BloomFilterPolicy where
  bitsPerKey := bitsPerKey
  k := min 30 (max 1 (bitsPerKey * 69 / 100))

/-- What is appended to `dst`. -/
def createFilter (policy : BloomFilterPolicy) (keys : List Bytes) : Bytes :=
  let bits := max 64 (keys.length * policy.bitsPerKey)
  let bytes := (bits + 7) / 8
  let bits := bytes * 8
  addKeys bits policy.k (List.replicate bytes 0) keys ++ [UInt8.ofNat policy.k]

/-- More than 30 probes are reserved for encodings to come and count as a match. -/
def keyMayMatch (key bloomFilter : Bytes) : Bool :=
  let len := bloomFilter.length
  if len < 2 then false
  else
    let bits := (len - 1) * 8
    let k := (bloomFilter.getD (len - 1) 0).toNat
    if 30 < k then true
    else
      let h := bloomHash key
      hasBits bits (bloomDelta h) bloomFilter k h

end BloomFilterPolicy

/-! ## Bits that are set stay set -/

variable {array : Bytes} {p q bits k : ℕ} {h delta : UInt32}

/-- A bit of the array is a bit of one of its bytes. -/
lemma hasBit_eq (array : Bytes) (p : ℕ) :
    hasBit array p = (array.getD (p / 8) 0).toNat.testBit (p % 8) := by
  rw [hasBit, Nat.one_shiftLeft, Nat.and_two_pow]
  cases (array.getD (p / 8) 0).toNat.testBit (p % 8) with
  | false => simp
  | true => simp

@[simp] lemma length_setBit (array : Bytes) (p : ℕ) : (setBit array p).length = array.length := by
  rw [setBit, List.length_modify]

/-- Setting a bit of a byte, as a number. -/
lemma toNat_or_bit (b : UInt8) {i : ℕ} (hi : i < 8) :
    (UInt8.ofNat (b.toNat ||| 1 <<< i)).toNat = b.toNat ||| 1 <<< i := by
  have hbit : 1 <<< i < 2 ^ 8 := by
    rw [Nat.one_shiftLeft]
    exact Nat.pow_lt_pow_right (by omega) hi
  rw [UInt8.toNat_ofNat']
  exact Nat.mod_eq_of_lt (Nat.or_lt_two_pow b.toNat_lt hbit)

/-- The bits after one of them was set. -/
lemma hasBit_setBit (hp : p < array.length * 8) :
    hasBit (setBit array p) q = (decide (q = p) || hasBit array q) := by
  have hget : p / 8 < array.length := by omega
  rw [hasBit_eq, hasBit_eq, setBit, List.getD_eq_getElem?_getD, List.getD_eq_getElem?_getD,
    List.getElem?_modify]
  by_cases hbyte : p / 8 = q / 8
  · rw [hbyte] at hget
    simp only [if_pos hbyte, List.getElem?_eq_getElem hget, Option.map_eq_map, Option.map_some,
      Option.getD_some]
    rw [toNat_or_bit _ (Nat.mod_lt p (by omega)), Nat.testBit_or, Nat.one_shiftLeft,
      Nat.testBit_two_pow, Bool.or_comm]
    congr 1
    rw [decide_eq_decide]
    omega
  · have hne : q ≠ p := fun heq => hbyte (by rw [heq])
    simp [hbyte, hne]

@[simp] lemma length_setBits (bits : ℕ) (delta : UInt32) (k : ℕ) (h : UInt32) (array : Bytes) :
    (setBits bits delta k h array).length = array.length := by
  induction k generalizing h array with
  | zero => rfl
  | succ k ih => rw [setBits, ih, length_setBit]

/-- Setting the bits of a key takes no bit away. -/
lemma hasBit_setBits (hbits : array.length * 8 = bits) (hpos : 0 < bits)
    (hq : hasBit array q = true) : hasBit (setBits bits delta k h array) q = true := by
  induction k generalizing h array with
  | zero => exact hq
  | succ k ih =>
    refine ih (by rw [length_setBit, hbits]) ?_
    rw [hasBit_setBit (by rw [hbits]; exact Nat.mod_lt _ hpos), hq, Bool.or_true]

/-- More bits match no less. -/
lemma hasBits_mono {array' : Bytes}
    (hmono : ∀ p < bits, hasBit array p = true → hasBit array' p = true) (hpos : 0 < bits)
    (hhas : hasBits bits delta array k h = true) : hasBits bits delta array' k h = true := by
  induction k generalizing h with
  | zero => rfl
  | succ k ih =>
    rw [hasBits, Bool.and_eq_true] at hhas ⊢
    exact ⟨hmono _ (Nat.mod_lt _ hpos) hhas.1, ih hhas.2⟩

/-- The bits of a key after they were set. -/
lemma hasBits_setBits (hbits : array.length * 8 = bits) (hpos : 0 < bits) :
    hasBits bits delta (setBits bits delta k h array) k h = true := by
  induction k generalizing h array with
  | zero => rfl
  | succ k ih =>
    have hlength : (setBit array (h.toNat % bits)).length * 8 = bits := by
      rw [length_setBit, hbits]
    rw [hasBits, setBits, Bool.and_eq_true]
    refine ⟨hasBit_setBits hlength hpos ?_, ih hlength⟩
    rw [hasBit_setBit (by rw [hbits]; exact Nat.mod_lt _ hpos), decide_eq_true rfl, Bool.true_or]

lemma addKeys_cons (bits k : ℕ) (array key : Bytes) (keys : List Bytes) :
    addKeys bits k array (key :: keys) =
      addKeys bits k (setBits bits (bloomDelta (bloomHash key)) k (bloomHash key) array) keys := rfl

lemma length_addKeys (bits k : ℕ) (array : Bytes) (keys : List Bytes) :
    (addKeys bits k array keys).length = array.length := by
  induction keys generalizing array with
  | nil => rfl
  | cons key keys ih => rw [addKeys_cons, ih, length_setBits]

/-- Adding keys takes no bit away. -/
lemma hasBit_addKeys {keys : List Bytes} (hbits : array.length * 8 = bits) (hpos : 0 < bits)
    (hq : hasBit array q = true) : hasBit (addKeys bits k array keys) q = true := by
  induction keys generalizing array with
  | nil => exact hq
  | cons key keys ih =>
    rw [addKeys_cons]
    exact ih (by rw [length_setBits, hbits]) (hasBit_setBits hbits hpos hq)

/-- Every key that was added has its bits. -/
lemma hasBits_addKeys {keys : List Bytes} {key : Bytes} (hkey : key ∈ keys)
    (hbits : array.length * 8 = bits) (hpos : 0 < bits) :
    hasBits bits (bloomDelta (bloomHash key)) (addKeys bits k array keys) k (bloomHash key) =
      true := by
  induction keys generalizing array with
  | nil => exact absurd hkey List.not_mem_nil
  | cons first keys ih =>
    have hlength : ∀ delta h, (setBits bits delta k h array).length * 8 = bits := by
      intro delta h
      rw [length_setBits, hbits]
    rw [addKeys_cons]
    rcases List.mem_cons.mp hkey with rfl | hkey
    · exact hasBits_mono (fun p _ hp => hasBit_addKeys (hlength _ _) hpos hp) hpos
        (hasBits_setBits hbits hpos)
    · exact ih hkey (hlength _ _)

/-- **Bloom filters.** Whatever policy made a filter, every key that it was made of may match. -/
theorem bloom_filter_matches_keys (bitsPerKey : ℕ) {keys : List Bytes} {key : Bytes}
    (hkey : key ∈ keys) :
    BloomFilterPolicy.keyMayMatch key ((BloomFilterPolicy.new bitsPerKey).createFilter keys) =
      true := by
  have hk : (BloomFilterPolicy.new bitsPerKey).k ≤ 30 := min_le_left _ _
  rw [BloomFilterPolicy.createFilter]
  generalize hbytes : (max 64 (keys.length * (BloomFilterPolicy.new bitsPerKey).bitsPerKey) + 7) / 8
    = bytes
  generalize (BloomFilterPolicy.new bitsPerKey).k = k at hk
  have hpos : 0 < bytes := by omega
  have hlength : (addKeys (bytes * 8) k (List.replicate bytes 0) keys).length = bytes := by
    rw [length_addKeys, List.length_replicate]
  have hbits : (List.replicate bytes (0 : UInt8)).length * 8 = bytes * 8 := by
    rw [List.length_replicate]
  have hmatch := hasBits_addKeys (k := k) hkey hbits (by omega)
  generalize addKeys (bytes * 8) k (List.replicate bytes 0) keys = array at hlength hmatch
  have hlast : ((array ++ [UInt8.ofNat k]).getD bytes 0).toNat = k := by
    rw [List.getD_eq_getElem?_getD, List.getElem?_append_right (by omega), hlength, Nat.sub_self]
    simp only [List.getElem?_cons_zero, Option.getD_some]
    rw [UInt8.toNat_ofNat']
    omega
  rw [BloomFilterPolicy.keyMayMatch, List.length_append, List.length_singleton, hlength,
    Nat.add_sub_cancel, hlast]
  simp only
  rw [if_neg (by omega), if_neg (by omega)]
  refine hasBits_mono (fun p hp hbit => ?_) (by omega) hmatch
  rw [hasBit, List.getD_append _ _ _ _ (by omega)]
  exact hbit

/-- Two keys with ten bits each. -/
theorem bloom_filter_matches_keys_two :
    BloomFilterPolicy.keyMayMatch [119, 111]
      ((BloomFilterPolicy.new 10).createFilter [[104], [119, 111]]) = true :=
  bloom_filter_matches_keys 10 (by decide)

end Engine

end RnLeveldb
