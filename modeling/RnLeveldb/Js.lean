import Mathlib.Tactic
import Mathlib.Data.List.Lex

/-!
# JavaScript values at the binding

The values that cross between the wrappers of `index.ts` and the host functions: the part
of `jsi::Value` the code distinguishes, byte buffers, and strings as sequences of UTF-16
code units with their UTF-8 conversions.

A JavaScript string need not be well formed. Both directions follow the Encoding Standard:
an unpaired surrogate is encoded as U+FFFD, and ill-formed bytes are decoded to U+FFFD.
-/

namespace RnLeveldb

/-- Bytes are ordered as unsigned numbers, which is how `memcmp` compares them. -/
instance byteOrder : LinearOrder UInt8 where
  le_refl := UInt8.le_refl
  le_trans _ _ _ := UInt8.le_trans
  le_antisymm _ _ := UInt8.le_antisymm
  le_total := UInt8.le_total
  lt_iff_le_not_ge a b := by
    rw [UInt8.lt_iff_toNat_lt, UInt8.le_iff_toNat_le, UInt8.le_iff_toNat_le]
    omega
  toDecidableLE := inferInstance
  toDecidableEq := inferInstance
  toDecidableLT := inferInstance

/-- A byte string, ordered lexicographically. -/
abbrev Bytes := List UInt8

/-- A JavaScript string: UTF-16 code units. -/
abbrev JsString := List UInt16

/-- The bytes of an ASCII literal of the source. -/
def ascii (s : String) : Bytes := s.toList.map fun c => UInt8.ofNat c.toNat

/-! ## UTF-8 -/

def isHighSurrogate (u : UInt16) : Bool := 0xD800 ≤ u && u ≤ 0xDBFF

def isLowSurrogate (u : UInt16) : Bool := 0xDC00 ≤ u && u ≤ 0xDFFF

/-- The code point of a code unit that starts no surrogate pair. -/
def loneScalar (u : UInt16) : ℕ :=
  if isHighSurrogate u || isLowSurrogate u then 0xFFFD else u.toNat

/-- The scalar values of a string, unpaired surrogates replaced by U+FFFD. -/
def scalars : JsString → List ℕ
  | [] => []
  | [u] => [loneScalar u]
  | u :: v :: rest =>
    if isHighSurrogate u && isLowSurrogate v then
      (0x10000 + (u.toNat - 0xD800) * 0x400 + (v.toNat - 0xDC00)) :: scalars rest
    else
      loneScalar u :: scalars (v :: rest)

/-- The UTF-8 encoding of one scalar value. -/
def encodeScalar (c : ℕ) : Bytes :=
  if c < 0x80 then [UInt8.ofNat c]
  else if c < 0x800 then [UInt8.ofNat (0xC0 + c / 0x40), UInt8.ofNat (0x80 + c % 0x40)]
  else if c < 0x10000 then
    [UInt8.ofNat (0xE0 + c / 0x1000), UInt8.ofNat (0x80 + c / 0x40 % 0x40),
      UInt8.ofNat (0x80 + c % 0x40)]
  else
    [UInt8.ofNat (0xF0 + c / 0x40000), UInt8.ofNat (0x80 + c / 0x1000 % 0x40),
      UInt8.ofNat (0x80 + c / 0x40 % 0x40), UInt8.ofNat (0x80 + c % 0x40)]

/-- `jsi::String::utf8`, and what `TextEncoder.encode` computes. -/
def utf8 (s : JsString) : Bytes := (scalars s).flatMap encodeScalar

/-- The UTF-8 decoder between two bytes: `needed` continuation bytes are missing, the next
one of them must lie in `[lower, upper]`. -/
structure Utf8State where
  codePoint : ℕ := 0
  needed : ℕ := 0
  lower : ℕ := 0x80
  upper : ℕ := 0xBF

/-- A byte received between two characters. -/
def decodeStart (b : ℕ) : List ℕ × Utf8State :=
  if b ≤ 0x7F then ([b], {})
  else if 0xC2 ≤ b ∧ b ≤ 0xDF then
    ([], { codePoint := b - 0xC0, needed := 1, lower := 0x80, upper := 0xBF })
  else if 0xE0 ≤ b ∧ b ≤ 0xEF then
    ([], { codePoint := b - 0xE0, needed := 2,
           lower := if b = 0xE0 then 0xA0 else 0x80, upper := if b = 0xED then 0x9F else 0xBF })
  else if 0xF0 ≤ b ∧ b ≤ 0xF4 then
    ([], { codePoint := b - 0xF0, needed := 3,
           lower := if b = 0xF0 then 0x90 else 0x80, upper := if b = 0xF4 then 0x8F else 0xBF })
  else ([0xFFFD], {})

/-- One byte of the decoder: the scalar values it completes, and the next state. A byte that
does not continue the current character ends it as U+FFFD and is read again as a start. -/
def decodeByte (st : Utf8State) (b : ℕ) : List ℕ × Utf8State :=
  if st.needed = 0 then decodeStart b
  else if b < st.lower ∨ st.upper < b then
    (0xFFFD :: (decodeStart b).1, (decodeStart b).2)
  else if st.needed = 1 then ([st.codePoint * 0x40 + (b - 0x80)], {})
  else
    ([], { codePoint := st.codePoint * 0x40 + (b - 0x80), needed := st.needed - 1,
           lower := 0x80, upper := 0xBF })

def decodeScalars (st : Utf8State) : Bytes → List ℕ
  | [] => if st.needed = 0 then [] else [0xFFFD]
  | b :: bs => (decodeByte st b.toNat).1 ++ decodeScalars (decodeByte st b.toNat).2 bs

/-- The code units of a scalar value. -/
def encodeUtf16 (c : ℕ) : JsString :=
  if c < 0x10000 then [UInt16.ofNat c]
  else [UInt16.ofNat (0xD800 + (c - 0x10000) / 0x400), UInt16.ofNat (0xDC00 + (c - 0x10000) % 0x400)]

/-- `jsi::String::createFromUtf8`. -/
def fromUtf8 (b : Bytes) : JsString := (decodeScalars {} b).flatMap encodeUtf16

/-! ## Values -/

/-- The kinds of `jsi::Value` the binding tells apart. Numbers are the integers the wrappers
pass; `object` is an object that is not an `ArrayBuffer`. -/
inductive JsValue where
  | undefined
  | null
  | bool (b : Bool)
  | number (n : ℤ)
  | string (s : JsString)
  | arrayBuffer (b : Bytes)
  | object
deriving DecidableEq

/-- A value of the TypeScript type `ArrayBuffer | string`. -/
def JsValue.IsData : JsValue → Prop
  | .string _ => True
  | .arrayBuffer _ => True
  | _ => False

instance : DecidablePred JsValue.IsData
  | .string _ | .arrayBuffer _ => isTrue trivial
  | .undefined | .null | .bool _ | .number _ | .object => isFalse id

/-- Returns `none` if the passed value is not a string or an ArrayBuffer. -/
def valueToString : JsValue → Option Bytes
  | .string s => some (utf8 s)
  | .arrayBuffer b => some b
  | _ => none

lemma valueToString_isSome {v : JsValue} : (valueToString v).isSome ↔ v.IsData := by
  cases v <;> simp [valueToString, JsValue.IsData]

/-- The index a reference stands for, when it is a number an index could be. -/
def refIdx : JsValue → Option ℕ
  | .number n => if n < 0 then none else some n.toNat
  | _ => none

@[simp] lemma refIdx_natCast (i : ℕ) : refIdx (.number i) = some i := by
  simp [refIdx]

lemma refIdx_eq_some {v : JsValue} {i : ℕ} : refIdx v = some i ↔ v = .number i := by
  constructor
  · intro h
    cases v with
    | number n =>
      simp only [refIdx] at h
      split at h
      · cases h
      · next hn =>
        cases h
        rw [Int.toNat_of_nonneg (not_lt.mp hn)]
    | _ => simp [refIdx] at h
  · rintro rfl
    exact refIdx_natCast i

end RnLeveldb
