import RnLeveldb.Fake.App

/-!
# `compareKey` of `fake.ts`

`compareKey` asks `arraybufGt` with the buffer it has made of the target, and `arraybufLt` with
the target itself. A buffer is compared correctly both times. Of a string the second call makes
an array of zeros (`new Uint8Array` takes it for a length), so that a smaller key is reported as
such only if it consists of zeros as well.
-/

namespace RnLeveldb

/-! ## Zeros -/

/-- A byte string is less than zeros if it is a shorter run of zeros. -/
lemma lt_replicate_zero_iff {a : Bytes} {n : ℕ} :
    a < List.replicate n 0 ↔ ∃ m < n, a = List.replicate m 0 := by
  induction a generalizing n with
  | nil =>
    cases n with
    | zero => simp
    | succ n => exact iff_of_true (List.nil_lt_cons _ _) ⟨0, Nat.succ_pos n, rfl⟩
  | cons b bs ih =>
    cases n with
    | zero => simp
    | succ n =>
      have hnot : ¬ b < 0 := not_lt_of_ge (UInt8.le_iff_toNat_le.mpr (Nat.zero_le _))
      rw [List.replicate_succ, List.cons_lt_cons_iff, ih, or_iff_right hnot]
      constructor
      · rintro ⟨rfl, m, hm, rfl⟩
        exact ⟨m + 1, by omega, rfl⟩
      · rintro ⟨m, hm, hcons⟩
        cases m with
        | zero => cases hcons
        | succ m =>
          injection hcons with hhead htail
          exact ⟨hhead, m, by omega, htail⟩

/-- Only NUL is encoded by zeros. -/
lemma eq_zero_of_encodeScalar {c : ℕ} (h : ∀ b ∈ encodeScalar c, b = 0) : c = 0 := by
  by_cases hlt : c < 0x80
  · rw [encodeScalar, if_pos hlt] at h
    have hbyte := congrArg UInt8.toNat (h _ List.mem_cons_self)
    rw [UInt8.toNat_ofNat'] at hbyte
    have hzero : (0 : UInt8).toNat = 0 := rfl
    omega
  · -- the last byte of a longer encoding is at least `0x80`
    have hmem : UInt8.ofNat (0x80 + c % 0x40) ∈ encodeScalar c := by
      rw [encodeScalar, if_neg hlt]
      split
      · simp
      · split <;> simp
    have hbyte := congrArg UInt8.toNat (h _ hmem)
    rw [UInt8.toNat_ofNat'] at hbyte
    have hzero : (0 : UInt8).toNat = 0 := rfl
    omega

lemma eq_zero_of_loneScalar {u : UInt16} (h : loneScalar u = 0) : u = 0 := by
  unfold loneScalar at h
  split at h
  · cases h
  · exact UInt16.toNat_inj.mp h

lemma eq_zero_of_scalars {s : JsString} (h : ∀ c ∈ scalars s, c = 0) : ∀ u ∈ s, u = 0 := by
  induction s using scalars.induct with
  | case1 => simp
  | case2 u =>
    intro u' hu'
    rw [List.mem_singleton.mp hu']
    exact eq_zero_of_loneScalar (h _ List.mem_cons_self)
  | case3 u v rest hpair ih =>
    rw [scalars, if_pos hpair] at h
    have hzero := h _ List.mem_cons_self
    omega
  | case4 u v rest hpair ih =>
    rw [scalars, if_neg hpair] at h
    intro u' hu'
    rcases List.mem_cons.mp hu' with rfl | hu'
    · exact eq_zero_of_loneScalar (h _ List.mem_cons_self)
    · exact ih (fun c hc => h c (List.mem_cons_of_mem _ hc)) u' hu'

/-- A string whose bytes are zeros consists of NULs. -/
lemma eq_replicate_of_utf8 {s : JsString} {m : ℕ} (h : utf8 s = List.replicate m 0) :
    s = List.replicate s.length 0 := by
  refine List.eq_replicate_of_mem (eq_zero_of_scalars fun c hc => eq_zero_of_encodeScalar ?_)
  intro b hb
  have hmem : b ∈ utf8 s := List.mem_flatMap.mpr ⟨c, hc, hb⟩
  rw [h] at hmem
  exact List.eq_of_mem_replicate hmem

/-! ## The sign of the comparison -/

/-- The result is a number with the sign of the order of `key` and `target`, which is that of
`Slice::compare`. -/
def Orders (r : Except FakeError ℤ) (key target : Bytes) : Prop :=
  ∃ n, r = .ok n ∧ (0 < n ↔ target < key) ∧ (n < 0 ↔ key < target) ∧ (n = 0 ↔ key = target) ∧
    n.sign = (sliceCompare key target).sign

/-- A buffer; or a string below the key, or one that is taken for a length, if the key is equal
to it or is a shorter run of zeros. -/
def Comparable (key : Bytes) : Data → Prop
  | .buffer _ => True
  | .string s => utf8 s < key ∨
      ∃ n, toIndex s = some n ∧ (key = utf8 s ∨ ∃ m < n, key = List.replicate m 0)

lemma orders_ok_iff {n : ℤ} {key target : Bytes} :
    Orders (.ok n) key target ↔
      (0 < n ↔ target < key) ∧ (n < 0 ↔ key < target) := by
  obtain ⟨hneg, hpos⟩ := sliceCompare_spec key target
  constructor
  · rintro ⟨n', hn, hgt, hlt, -⟩
    cases hn
    exact ⟨hgt, hlt⟩
  · rintro ⟨hgt, hlt⟩
    refine ⟨n, rfl, hgt, hlt, ?_, ?_⟩
    · rcases lt_trichotomy key target with h | h | h
      · have := hlt.mpr h
        exact iff_of_false (by omega) (ne_of_lt h)
      · subst h
        have hnpos := mt hgt.mp (lt_irrefl _)
        have hnneg := mt hlt.mp (lt_irrefl _)
        exact iff_of_true (by omega) rfl
      · have := hgt.mpr h
        exact iff_of_false (by omega) (ne_of_gt h)
    · rw [← hneg] at hlt
      rw [← hpos] at hgt
      rcases lt_trichotomy n 0 with h | h | h
      · rw [Int.sign_eq_neg_one_of_neg h, Int.sign_eq_neg_one_of_neg (hlt.mp h)]
      · have hzero : sliceCompare key target = 0 := by omega
        rw [h, hzero]
      · rw [Int.sign_eq_one_of_pos h, Int.sign_eq_one_of_pos (hgt.mp h)]

namespace FakeLevelDBIterator

variable {h : Heap} {it : FakeLevelDBIterator}

/-- The two comparisons agree on the target, or the first one has decided. -/
lemma compareKey_orders_iff_array {p : ℕ} (hp : it.pos.get it.kv = some p) (d : Data) :
    Orders (it.compareKey h d) (h.key p) (h.bytesOf d) ↔
      h.bytesOf d < h.key p ∨
        ∃ t, h.uint8Array d = some t ∧ (h.key p < t ↔ h.key p < h.bytesOf d) := by
  unfold compareKey ofEntry
  rw [hp]
  dsimp only
  by_cases hgt : h.bytesOf d < h.key p
  · rw [if_pos (arraybufGt_iff.mpr hgt), orders_ok_iff]
    refine iff_of_true ⟨iff_of_true one_pos hgt, ?_⟩ (Or.inl hgt)
    exact iff_of_false (by omega) (lt_asymm hgt)
  rw [if_neg (mt arraybufGt_iff.mp hgt), or_iff_right hgt]
  cases harray : h.uint8Array d with
  | none =>
    refine iff_of_false ?_ ?_
    · rintro ⟨n, hn, -⟩
      cases hn
    · rintro ⟨t, ht, -⟩
      cases ht
  | some t =>
    dsimp only
    have hsome : (∃ t', some t = some t' ∧ (h.key p < t' ↔ h.key p < h.bytesOf d)) ↔
        (h.key p < t ↔ h.key p < h.bytesOf d) := by simp
    rw [hsome]
    by_cases hlt : h.key p < t
    · rw [if_pos (arraybufLt_iff.mpr hlt), orders_ok_iff]
      simp [hlt, hgt]
    · rw [if_neg (mt arraybufLt_iff.mp hlt), orders_ok_iff]
      simp [hlt, hgt]

/-- A string is equal to no longer run of zeros than the length it stands for. -/
lemma not_lt_zeros_of_eq {s : JsString} {n : ℕ} (hn : toIndex s = some n) :
    ¬ utf8 s < List.replicate n 0 := by
  rw [lt_replicate_zero_iff]
  rintro ⟨m, hm, hzeros⟩
  rw [eq_replicate_of_utf8 hzeros, toIndex_replicate_zero] at hn
  cases hn
  omega

/-- **When `compareKey` orders correctly.** At every position with a key, and for every target,
the result has the sign of the key order if and only if the target is a buffer, or a string
below the key, or a string that is taken for a length while the key is equal to it or consists
of fewer zeros than that. -/
theorem compareKey_orders_iff (h : Heap) (it : FakeLevelDBIterator) (d : Data) (b : ℕ)
    (hkey : it.keyBuf h = .ok (.buffer b)) :
    Orders (it.compareKey h d) (h.bytes b) (h.bytesOf d) ↔ Comparable (h.bytes b) d := by
  obtain ⟨p, hp, rfl⟩ : ∃ p, it.pos.get it.kv = some p ∧ (h.pair p).1 = b := by
    unfold keyBuf ofEntry at hkey
    cases hp : it.pos.get it.kv with
    | none =>
      rw [hp] at hkey
      cases hkey
    | some p =>
      rw [hp] at hkey
      cases hkey
      exact ⟨p, rfl, rfl⟩
  have horders := it.compareKey_orders_iff_array (h := h) hp d
  show Orders _ (h.key p) _ ↔ Comparable (h.key p) d
  rw [horders]
  cases d with
  | buffer b => exact iff_of_true (Or.inr ⟨_, rfl, Iff.rfl⟩) trivial
  | string s =>
    show utf8 s < h.key p ∨ (∃ t, (toIndex s).map (fun n => List.replicate n 0) = some t ∧ _) ↔ _
    by_cases hgt : utf8 s < h.key p
    · exact iff_of_true (Or.inl hgt) (Or.inl hgt)
    refine or_congr_right ?_
    constructor
    · rintro ⟨t, ht, hiff⟩
      obtain ⟨n, hn, rfl⟩ := Option.map_eq_some_iff.mp ht
      refine ⟨n, hn, ?_⟩
      rcases lt_or_eq_of_le (not_lt.mp hgt) with hlt | heq
      · exact Or.inr (lt_replicate_zero_iff.mp (hiff.mpr hlt))
      · exact Or.inl heq
    · rintro ⟨n, hn, hcases⟩
      refine ⟨_, Option.map_eq_some_iff.mpr ⟨n, hn, rfl⟩, ?_⟩
      rcases lt_or_eq_of_le (not_lt.mp hgt) with hlt | heq
      · have hzeros : h.key p < List.replicate n 0 := by
          refine lt_replicate_zero_iff.mpr (hcases.resolve_left (ne_of_lt hlt))
        exact iff_of_true hzeros hlt
      · rw [heq]
        exact iff_of_false (not_lt_zeros_of_eq hn) (lt_irrefl _)

/-- At the key of one NUL: a buffer above it, a string below it, and a string that is taken for
the length 2. -/
theorem compareKey_orders_zeroKey :
    let h : Heap := ⟨[[0], [0x76], [0x61, 0x62]], [(0, 1)]⟩
    let it : FakeLevelDBIterator := ⟨[0], .index 0⟩
    it.keyBuf h = .ok (.buffer 0) ∧ Orders (it.compareKey h (.buffer 2)) [0] [0x61, 0x62] ∧
      Orders (it.compareKey h (.string [])) [0] [] ∧
      Orders (it.compareKey h (.string [0x32])) [0] [0x32] := by
  intro h it
  have hkey : it.keyBuf h = .ok (.buffer 0) := rfl
  refine ⟨hkey, ?_, ?_, ?_⟩
  · exact (compareKey_orders_iff h it (.buffer 2) 0 hkey).mpr trivial
  · exact (compareKey_orders_iff h it (.string []) 0 hkey).mpr (Or.inl (by decide))
  · have hindex : toIndex [0x32] = some 2 := by decide +kernel
    refine (compareKey_orders_iff h it (.string [0x32]) 0 hkey).mpr (Or.inr ⟨2, hindex, ?_⟩)
    exact Or.inr ⟨1, by decide, rfl⟩

/-- A store with the key `a`, and an iterator on it. -/
def compareApp : FakeApp :=
  Machine.run FakeApp.step (.new ⟨[], []⟩)
    [.db (.put (.string [0x61]) (.string [0x76])), .newIterator, .iterator 0 .seekToFirst]

/-- The key `a` and the string `b` are reported as equal. -/
theorem compareKey_misorders_string :
    ∃ it b, compareApp.iterators[0]? = some it ∧ it.valid = true ∧
      it.keyBuf compareApp.db.heap = .ok (.buffer b) ∧
      ¬ Orders (it.compareKey compareApp.db.heap (.string [0x62])) (compareApp.db.heap.bytes b)
        (compareApp.db.heap.bytesOf (.string [0x62])) := by
  refine ⟨⟨[0], .index 0⟩, 0, by decide +kernel, by decide +kernel, by decide +kernel, ?_⟩
  have hresult : compareKey compareApp.db.heap ⟨[0], .index 0⟩ (.string [0x62]) = .ok 0 := by
    decide +kernel
  rw [hresult]
  rintro ⟨n, hn, -, -, hzero, -⟩
  cases hn
  exact absurd (hzero.mp rfl) (by decide +kernel)

end FakeLevelDBIterator

end RnLeveldb
