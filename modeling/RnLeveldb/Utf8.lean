import RnLeveldb.Js

/-!
# UTF-8 round trips

The encoder and the decoder of the Encoding Standard are inverse on well-formed strings:
decoding the bytes of a sequence of scalar values gives the sequence back, and so does
reading it from its UTF-16 code units. Two well-formed strings with the same bytes are
therefore the same.
-/

namespace RnLeveldb

/-! ## Bytes -/

/-- A Unicode scalar value: a code point that is not a surrogate. -/
def IsScalar (c : ℕ) : Prop := c < 0xD800 ∨ 0xE000 ≤ c ∧ c < 0x110000

/-- The decoder inside a character, any continuation byte being next. -/
def Utf8State.inside (codePoint needed : ℕ) : Utf8State :=
  { codePoint := codePoint, needed := needed, lower := 0x80, upper := 0xBF }

lemma decodeScalars_cons (st : Utf8State) {b : ℕ} (hb : b < 0x100) (bs : Bytes) :
    decodeScalars st (UInt8.ofNat b :: bs) =
      (decodeByte st b).1 ++ decodeScalars (decodeByte st b).2 bs := by
  have hto : (UInt8.ofNat b).toNat = b := by
    rw [UInt8.toNat_ofNat']
    exact Nat.mod_eq_of_lt hb
  rw [decodeScalars, hto]

/-- A continuation byte that is not the last. -/
lemma decodeScalars_more {st : Utf8State} {b n : ℕ} (hneeded : st.needed = n + 2)
    (hlower : st.lower ≤ b) (hupper : b ≤ st.upper) (hb : b < 0x100) (bs : Bytes) :
    decodeScalars st (UInt8.ofNat b :: bs) =
      decodeScalars (.inside (st.codePoint * 0x40 + (b - 0x80)) (n + 1)) bs := by
  have hbyte : decodeByte st b =
      ([], .inside (st.codePoint * 0x40 + (b - 0x80)) (n + 1)) := by
    unfold decodeByte
    rw [if_neg (by omega), if_neg (by omega), if_neg (by omega), hneeded]
    rfl
  rw [decodeScalars_cons st hb, hbyte]
  rfl

/-- The last continuation byte. -/
lemma decodeScalars_last {st : Utf8State} {b : ℕ} (hneeded : st.needed = 1)
    (hlower : st.lower ≤ b) (hupper : b ≤ st.upper) (hb : b < 0x100) (bs : Bytes) :
    decodeScalars st (UInt8.ofNat b :: bs) =
      (st.codePoint * 0x40 + (b - 0x80)) :: decodeScalars {} bs := by
  have hbyte : decodeByte st b = ([st.codePoint * 0x40 + (b - 0x80)], {}) := by
    unfold decodeByte
    rw [if_neg (by omega), if_neg (by omega), if_pos hneeded]
  rw [decodeScalars_cons st hb, hbyte]
  rfl

lemma decodeScalars_inside_more {p n x : ℕ} (hx : x < 0x40) (bs : Bytes) :
    decodeScalars (.inside p (n + 2)) (UInt8.ofNat (0x80 + x) :: bs) =
      decodeScalars (.inside (p * 0x40 + (0x80 + x - 0x80)) (n + 1)) bs :=
  decodeScalars_more rfl (by show 0x80 ≤ 0x80 + x; omega) (by show 0x80 + x ≤ 0xBF; omega)
    (by omega) bs

lemma decodeScalars_inside_last {p x : ℕ} (hx : x < 0x40) (bs : Bytes) :
    decodeScalars (.inside p 1) (UInt8.ofNat (0x80 + x) :: bs) =
      (p * 0x40 + (0x80 + x - 0x80)) :: decodeScalars {} bs :=
  decodeScalars_last rfl (by show 0x80 ≤ 0x80 + x; omega) (by show 0x80 + x ≤ 0xBF; omega)
    (by omega) bs

/-- A byte received between two characters. -/
lemma decodeScalars_start {b : ℕ} (hb : b < 0x100) (bs : Bytes) :
    decodeScalars {} (UInt8.ofNat b :: bs) =
      (decodeStart b).1 ++ decodeScalars (decodeStart b).2 bs := by
  rw [decodeScalars_cons _ hb]
  rfl

/-- The first byte of a character of two bytes. -/
lemma decodeStart_two {b : ℕ} (hlow : 0xC2 ≤ b) (hhigh : b ≤ 0xDF) :
    decodeStart b = ([], .inside (b - 0xC0) 1) := by
  unfold decodeStart
  rw [if_neg (by omega), if_pos ⟨hlow, hhigh⟩]
  rfl

/-- The first byte of a character of three bytes. -/
lemma decodeStart_three {b : ℕ} (hlow : 0xE0 ≤ b) (hhigh : b ≤ 0xEF) :
    decodeStart b =
      ([], { codePoint := b - 0xE0, needed := 2,
             lower := if b = 0xE0 then 0xA0 else 0x80,
             upper := if b = 0xED then 0x9F else 0xBF }) := by
  unfold decodeStart
  rw [if_neg (by omega), if_neg (by omega), if_pos ⟨hlow, hhigh⟩]

/-- The first byte of a character of four bytes. -/
lemma decodeStart_four {b : ℕ} (hlow : 0xF0 ≤ b) (hhigh : b ≤ 0xF4) :
    decodeStart b =
      ([], { codePoint := b - 0xF0, needed := 3,
             lower := if b = 0xF0 then 0x90 else 0x80,
             upper := if b = 0xF4 then 0x8F else 0xBF }) := by
  unfold decodeStart
  rw [if_neg (by omega), if_neg (by omega), if_neg (by omega), if_pos ⟨hlow, hhigh⟩]

/-- Decoding undoes the encoding of one scalar value, whatever follows. -/
lemma decodeScalars_encodeScalar {c : ℕ} (hc : IsScalar c) (bs : Bytes) :
    decodeScalars {} (encodeScalar c ++ bs) = c :: decodeScalars {} bs := by
  have hlt : c < 0x110000 := by
    rcases hc with h | h <;> omega
  unfold encodeScalar
  by_cases h1 : c < 0x80
  · rw [if_pos h1, List.singleton_append, decodeScalars_start (by omega)]
    unfold decodeStart
    rw [if_pos (by omega)]
    rfl
  by_cases h2 : c < 0x800
  · rw [if_neg h1, if_pos h2]
    have hval : (0xC0 + c / 0x40 - 0xC0) * 0x40 + (0x80 + c % 0x40 - 0x80) = c := by omega
    simp only [List.cons_append, List.nil_append]
    rw [decodeScalars_start (by omega), decodeStart_two (by omega) (by omega), List.nil_append,
      decodeScalars_inside_last (by omega), hval]
  by_cases h3 : c < 0x10000
  · rw [if_neg h1, if_neg h2, if_pos h3]
    have hval : ((0xE0 + c / 0x1000 - 0xE0) * 0x40 + (0x80 + c / 0x40 % 0x40 - 0x80)) * 0x40
        + (0x80 + c % 0x40 - 0x80) = c := by omega
    -- after `E0` and `ED` the next byte is restricted: overlong forms and surrogates
    have hlower : (if 0xE0 + c / 0x1000 = 0xE0 then 0xA0 else 0x80) ≤ 0x80 + c / 0x40 % 0x40 := by
      split <;> omega
    have hupper : 0x80 + c / 0x40 % 0x40 ≤ if 0xE0 + c / 0x1000 = 0xED then 0x9F else 0xBF := by
      unfold IsScalar at hc
      split <;> omega
    simp only [List.cons_append, List.nil_append]
    rw [decodeScalars_start (by omega), decodeStart_three (by omega) (by omega), List.nil_append,
      decodeScalars_more rfl hlower hupper (by omega), decodeScalars_inside_last (by omega), hval]
  · rw [if_neg h1, if_neg h2, if_neg h3]
    have hval : (((0xF0 + c / 0x40000 - 0xF0) * 0x40 + (0x80 + c / 0x1000 % 0x40 - 0x80)) * 0x40
        + (0x80 + c / 0x40 % 0x40 - 0x80)) * 0x40 + (0x80 + c % 0x40 - 0x80) = c := by omega
    -- the same for `F0`, and `F4` keeps the value below 0x110000
    have hlower : (if 0xF0 + c / 0x40000 = 0xF0 then 0x90 else 0x80)
        ≤ 0x80 + c / 0x1000 % 0x40 := by
      split <;> omega
    have hupper : 0x80 + c / 0x1000 % 0x40
        ≤ if 0xF0 + c / 0x40000 = 0xF4 then 0x8F else 0xBF := by
      split <;> omega
    simp only [List.cons_append, List.nil_append]
    rw [decodeScalars_start (by omega), decodeStart_four (by omega) (by omega), List.nil_append,
      decodeScalars_more rfl hlower hupper (by omega), decodeScalars_inside_more (by omega),
      decodeScalars_inside_last (by omega), hval]

lemma decodeScalars_flatMap {cs : List ℕ} (hcs : ∀ c ∈ cs, IsScalar c) :
    decodeScalars {} (cs.flatMap encodeScalar) = cs := by
  induction cs with
  | nil => rfl
  | cons c cs ih =>
    rw [List.flatMap_cons, decodeScalars_encodeScalar (hcs c List.mem_cons_self),
      ih fun c' hc' => hcs c' (List.mem_cons_of_mem _ hc')]

/-! ## Code units -/

lemma isHighSurrogate_iff {u : UInt16} :
    isHighSurrogate u = true ↔ 0xD800 ≤ u.toNat ∧ u.toNat ≤ 0xDBFF := by
  simp [isHighSurrogate, UInt16.le_iff_toNat_le]

lemma isLowSurrogate_iff {u : UInt16} :
    isLowSurrogate u = true ↔ 0xDC00 ≤ u.toNat ∧ u.toNat ≤ 0xDFFF := by
  simp [isLowSurrogate, UInt16.le_iff_toNat_le]

lemma toNat_ofNat_unit {c : ℕ} (hc : c < 0x10000) : (UInt16.ofNat c).toNat = c := by
  rw [UInt16.toNat_ofNat']
  exact Nat.mod_eq_of_lt hc

/-- A code unit that is no high surrogate stands for itself. -/
lemma scalars_cons {u : UInt16} (hu : isHighSurrogate u = false) (s : JsString) :
    scalars (u :: s) = loneScalar u :: scalars s := by
  cases s with
  | nil => rfl
  | cons v s =>
    rw [scalars, hu]
    rfl

/-- Reading undoes writing one scalar value, whatever follows. -/
lemma scalars_encodeUtf16 {c : ℕ} (hc : IsScalar c) (s : JsString) :
    scalars (encodeUtf16 c ++ s) = c :: scalars s := by
  unfold encodeUtf16
  unfold IsScalar at hc
  by_cases hlt : c < 0x10000
  · have hunit := toNat_ofNat_unit hlt
    have hhigh : isHighSurrogate (UInt16.ofNat c) = false := by
      rw [← Bool.not_eq_true, isHighSurrogate_iff, hunit]
      omega
    have hlow : isLowSurrogate (UInt16.ofNat c) = false := by
      rw [← Bool.not_eq_true, isLowSurrogate_iff, hunit]
      omega
    rw [if_pos hlt, List.singleton_append, scalars_cons hhigh, loneScalar, hhigh, hlow, hunit]
    rfl
  · have hdiv : (c - 0x10000) / 0x400 < 0x400 := by omega
    have hmod : (c - 0x10000) % 0x400 < 0x400 := Nat.mod_lt _ (by omega)
    have hfirst := toNat_ofNat_unit (c := 0xD800 + (c - 0x10000) / 0x400) (by omega)
    have hsecond := toNat_ofNat_unit (c := 0xDC00 + (c - 0x10000) % 0x400) (by omega)
    have hhigh : isHighSurrogate (UInt16.ofNat (0xD800 + (c - 0x10000) / 0x400)) = true := by
      rw [isHighSurrogate_iff, hfirst]
      omega
    have hlow : isLowSurrogate (UInt16.ofNat (0xDC00 + (c - 0x10000) % 0x400)) = true := by
      rw [isLowSurrogate_iff, hsecond]
      omega
    have hval : 0x10000 + (0xD800 + (c - 0x10000) / 0x400 - 0xD800) * 0x400
        + (0xDC00 + (c - 0x10000) % 0x400 - 0xDC00) = c := by omega
    rw [if_neg hlt, List.cons_append, List.singleton_append, scalars, hhigh, hlow, hfirst, hsecond,
      hval]
    rfl

lemma scalars_flatMap {cs : List ℕ} (hcs : ∀ c ∈ cs, IsScalar c) :
    scalars (cs.flatMap encodeUtf16) = cs := by
  induction cs with
  | nil => rfl
  | cons c cs ih =>
    rw [List.flatMap_cons, scalars_encodeUtf16 (hcs c List.mem_cons_self),
      ih fun c' hc' => hcs c' (List.mem_cons_of_mem _ hc')]

/-! ## Well-formed strings -/

/-- A sequence of scalar values, in UTF-16. -/
def WellFormed (s : JsString) : Prop :=
  ∃ cs : List ℕ, (∀ c ∈ cs, IsScalar c) ∧ s = cs.flatMap encodeUtf16

variable {s t : JsString}

lemma WellFormed.isScalar (hs : WellFormed s) : ∀ c ∈ scalars s, IsScalar c := by
  obtain ⟨cs, hcs, rfl⟩ := hs
  rwa [scalars_flatMap hcs]

/-- A well-formed string is determined by its scalar values. -/
lemma WellFormed.flatMap_scalars (hs : WellFormed s) : (scalars s).flatMap encodeUtf16 = s := by
  obtain ⟨cs, hcs, rfl⟩ := hs
  rw [scalars_flatMap hcs]

/-- Decoding gives back the scalar values that were encoded. -/
lemma WellFormed.decodeScalars_utf8 (hs : WellFormed s) : decodeScalars {} (utf8 s) = scalars s :=
  decodeScalars_flatMap hs.isScalar

lemma WellFormed.fromUtf8_utf8 (hs : WellFormed s) : fromUtf8 (utf8 s) = s := by
  rw [fromUtf8, hs.decodeScalars_utf8, hs.flatMap_scalars]

/-- Different well-formed strings have different bytes. -/
lemma WellFormed.utf8_inj (hs : WellFormed s) (ht : WellFormed t) (h : utf8 s = utf8 t) :
    s = t := by
  rw [← hs.fromUtf8_utf8, h, ht.fromUtf8_utf8]

end RnLeveldb
