import RnLeveldb.HostFunctions

/-!
# Key order and search of `fake.ts`

`arraybufGt` and `arraybufLt` compare two buffers byte by byte, and `getIdx` is a binary
search for the first key at or past a given one. Both orders are the lexicographic one on
unsigned bytes, which is how LevelDB compares keys; on an array in ascending key order the
search finds the lower bound.
-/

namespace RnLeveldb

/-! ## Comparing buffers -/

/-- The loop shared by `arraybufGt` and `arraybufLt`, from index `i` on: `first` decides at
the first byte that differs, `longer` when there is none. -/
def compareFrom (first : UInt8 → UInt8 → Bool) (longer : ℕ → ℕ → Bool) (keyA keyB : Bytes)
    (i : ℕ) : Bool :=
  if h : i < keyA.length ∧ i < keyB.length then
    let a := keyA.get ⟨i, h.1⟩
    let b := keyB.get ⟨i, h.2⟩
    if first a b then true
    else if first b a then false
    else compareFrom first longer keyA keyB (i + 1)
  else longer keyA.length keyB.length
termination_by keyA.length - i

def arraybufGt (a b : Bytes) : Bool := compareFrom (· > ·) (· > ·) a b 0

def arraybufLt (a b : Bytes) : Bool := compareFrom (· < ·) (· < ·) a b 0

/-- The loop from `i` on compares what is left from there. -/
lemma compareFrom_gt_iff (a b : Bytes) (i : ℕ) (ha : i ≤ a.length) (hb : i ≤ b.length) :
    compareFrom (· > ·) (· > ·) a b i = true ↔ b.drop i < a.drop i := by
  unfold compareFrom
  split
  · next h =>
    have ih := compareFrom_gt_iff a b (i + 1) h.1 h.2
    rw [List.drop_eq_getElem_cons h.1, List.drop_eq_getElem_cons h.2, List.cons_lt_cons_iff]
    dsimp only [List.get_eq_getElem]
    -- the first byte that differs decides, as in the lexicographic order
    rcases lt_trichotomy (b[i]) (a[i]) with hlt | heq | hgt
    · simp [hlt]
    · simp [heq, ih]
    · have hnot : ¬ b[i] < a[i] := not_lt_of_gt hgt
      have hne : b[i] ≠ a[i] := ne_of_gt hgt
      simp [hgt, hnot, hne]
  · next h =>
    -- one of the two is used up, and it is the shorter one
    rw [decide_eq_true_iff]
    by_cases hia : i < a.length
    · have hib : b.length = i := by omega
      rw [← hib, List.drop_length, List.drop_eq_getElem_cons (hib ▸ hia)]
      exact iff_of_true (hib ▸ hia) (List.nil_lt_cons _ _)
    · have hia' : a.length = i := by omega
      rw [← hia', List.drop_length]
      exact iff_of_false (by omega) (List.not_lt_nil _)
termination_by a.length - i

/-- The loop is the same with the arguments in the other order. -/
lemma compareFrom_swap (first : UInt8 → UInt8 → Bool) (longer : ℕ → ℕ → Bool) (a b : Bytes)
    (i : ℕ) :
    compareFrom first longer a b i =
      compareFrom (fun x y => first y x) (fun m n => longer n m) b a i := by
  unfold compareFrom
  by_cases h : i < a.length ∧ i < b.length
  · rw [dif_pos h, dif_pos h.symm]
    dsimp only
    rw [compareFrom_swap first longer a b (i + 1)]
  · rw [dif_neg h, dif_neg (mt And.symm h)]
termination_by a.length - i

@[simp] lemma arraybufGt_iff {a b : Bytes} : arraybufGt a b = true ↔ b < a := by
  rw [arraybufGt, compareFrom_gt_iff a b 0 (Nat.zero_le _) (Nat.zero_le _)]
  rfl

lemma arraybufGt_eq_false {a b : Bytes} : arraybufGt a b = false ↔ a ≤ b := by
  rw [← Bool.not_eq_true, arraybufGt_iff, not_lt]

/-- Neither is greater: the check for equality. -/
lemma neither_arraybufGt (a b : Bytes) :
    (!arraybufGt a b && !arraybufGt b a) = true ↔ a = b := by
  rw [Bool.and_eq_true, Bool.not_eq_true', Bool.not_eq_true', arraybufGt_eq_false,
    arraybufGt_eq_false]
  exact ⟨fun h => le_antisymm h.1 h.2, fun h => ⟨le_of_eq h, ge_of_eq h⟩⟩

@[simp] lemma arraybufLt_iff {a b : Bytes} : arraybufLt a b = true ↔ a < b := by
  rw [arraybufLt, compareFrom_swap]
  exact arraybufGt_iff

lemma arraybufLt_eq_false {a b : Bytes} : arraybufLt a b = false ↔ b ≤ a := by
  rw [← Bool.not_eq_true, arraybufLt_iff, not_lt]

/-- Slices are compared at their first bytes, and then at what follows. -/
lemma sliceCompare_cons (a b : UInt8) (as bs : Bytes) :
    sliceCompare (a :: as) (b :: bs) =
      if a < b then -1 else if b < a then 1 else sliceCompare as bs := by
  have hmin : (if (a :: as).length < (b :: bs).length then (a :: as).length
      else (b :: bs).length) = (if as.length < bs.length then as.length else bs.length) + 1 := by
    simp only [List.length_cons]
    split_ifs <;> omega
  unfold sliceCompare
  dsimp only
  rw [hmin]
  simp only [memcmp, List.length_cons, Nat.add_lt_add_iff_right]
  by_cases hlt : a < b
  · simp [hlt]
  · by_cases hgt : b < a
    · simp [hlt, hgt]
    · simp only [hlt, hgt, if_false]

/-- The sign of `Slice::compare` is the lexicographic order. -/
lemma sliceCompare_spec (a b : Bytes) :
    (sliceCompare a b < 0 ↔ a < b) ∧ (0 < sliceCompare a b ↔ b < a) := by
  induction a generalizing b with
  | nil =>
    cases b with
    | nil => decide
    | cons b bs => simp [sliceCompare, memcmp]
  | cons a as ih =>
    cases b with
    | nil => simp [sliceCompare, memcmp]
    | cons b bs =>
      rw [sliceCompare_cons, List.cons_lt_cons_iff, List.cons_lt_cons_iff]
      rcases lt_trichotomy a b with hlt | heq | hgt
      · have hnot : ¬ b < a := not_lt_of_gt hlt
        have hne : a ≠ b := ne_of_lt hlt
        simp [hlt, hnot, hne.symm]
      · simp [heq, ih bs]
      · have hnot : ¬ a < b := not_lt_of_gt hgt
        have hne : a ≠ b := ne_of_gt hgt
        simp [hgt, hnot, hne]

/-- **The two comparisons of `fake.ts` are the key order of LevelDB.** Exactly one of greater,
less and equal holds, each comparison is the other with its arguments swapped, greater is
transitive, and both agree with `Slice::compare`. -/
theorem arraybuf_order (a b c : Bytes) :
    (arraybufGt a b = true ∧ arraybufLt a b = false ∧ a ≠ b ∨
      arraybufGt a b = false ∧ arraybufLt a b = true ∧ a ≠ b ∨
      arraybufGt a b = false ∧ arraybufLt a b = false ∧ a = b) ∧
    arraybufGt a b = arraybufLt b a ∧
    (arraybufGt a b = true → arraybufGt b c = true → arraybufGt a c = true) ∧
    (arraybufGt a b = true ↔ 0 < sliceCompare a b) ∧
    (arraybufLt a b = true ↔ sliceCompare a b < 0) ∧
    ((!arraybufGt a b && !arraybufGt b a) = true ↔ a = b) := by
  obtain ⟨hneg, hpos⟩ := sliceCompare_spec a b
  refine ⟨?_, ?_, ?_, ?_, ?_, neither_arraybufGt a b⟩
  · rw [arraybufGt_iff, arraybufLt_iff, arraybufGt_eq_false, arraybufLt_eq_false]
    rcases lt_trichotomy a b with hlt | heq | hgt
    · exact Or.inr (Or.inl ⟨le_of_lt hlt, hlt, ne_of_lt hlt⟩)
    · exact Or.inr (Or.inr ⟨le_of_eq heq, ge_of_eq heq, heq⟩)
    · exact Or.inl ⟨hgt, le_of_lt hgt, ne_of_gt hgt⟩
  · rw [Bool.eq_iff_iff, arraybufGt_iff, arraybufLt_iff]
  · intro hab hbc
    rw [arraybufGt_iff] at hab hbc ⊢
    exact lt_trans hbc hab
  · rw [arraybufGt_iff, hpos]
  · rw [arraybufLt_iff, hneg]

/-! ## Binary search -/

/-- `x || d` for an optional number: `0` counts as absent too. -/
def orDefault : Option ℕ → ℕ → ℕ
  | some (n + 1), _ => n + 1
  | _, d => d

lemma orDefault_some {n : ℕ} (h : 0 < n) (d : ℕ) : orDefault (some n) d = n := by
  obtain ⟨n, rfl⟩ := Nat.exists_eq_succ_of_ne_zero (ne_of_gt h)
  rfl

lemma orDefault_some_zero (n : ℕ) : orDefault (some n) 0 = n := by
  cases n <;> rfl

/-- The recursion of `getIdx`, on an array that is not null. Of the array it reads the length
and the keys `kv`; `Math.floor(start + (end - start) / 2)` is `(start + end) / 2`. -/
def getIdxIn (kv : List Bytes) (k : Bytes) (start stop : Option ℕ) : Except JsError ℕ :=
  let s := orDefault start 0
  let e := orDefault stop kv.length
  let pivot := (s + e) / 2
  if e ≤ s + 1 then
    -- `kv[pivot]` is undefined when the array is empty
    if kv[pivot]?.any (arraybufGt k) then .ok e else .ok pivot
  else
    match kv[pivot]? with
    | none => .error .typeError
    | some key =>
      -- equality check, done as the inverse of <>
      if !arraybufGt key k && !arraybufGt k key then .ok pivot
      else if arraybufGt key k then getIdxIn kv k (some s) (some pivot)
      else getIdxIn kv k (some pivot) (some e)
termination_by orDefault stop kv.length - orDefault start 0
decreasing_by
  · rw [orDefault_some_zero, orDefault_some (by omega)]
    omega
  · rw [orDefault_some_zero, orDefault_some (by omega)]
    omega

/-- The position of the first key at or past `k`; a null array stands for a closed store. -/
def getIdx (kv : Option (List Bytes)) (k : Bytes) : Except JsError ℕ :=
  match kv with
  | none => .error (.error (ascii "FakeLevelDB was closed!"))
  | some kv => getIdxIn kv k none none

/-- The keys before `s` are smaller than `k`, those from `e` on are not: the first key at or
past `k` is between the two. -/
structure Between (kv : List Bytes) (k : Bytes) (s e : ℕ) : Prop where
  low : ∀ (i : ℕ) (x : Bytes), kv[i]? = some x → i < s → x < k
  high : ∀ (i : ℕ) (x : Bytes), kv[i]? = some x → e ≤ i → k ≤ x

section

variable {kv : List Bytes} {k key : Bytes} {s e p : ℕ}

lemma lt_of_pairwise (hs : kv.Pairwise (· < ·)) {i j : ℕ} {x y : Bytes} (hi : kv[i]? = some x)
    (hj : kv[j]? = some y) (hij : i < j) : x < y := by
  obtain ⟨hil, rfl⟩ := List.getElem?_eq_some_iff.mp hi
  obtain ⟨hjl, rfl⟩ := List.getElem?_eq_some_iff.mp hj
  exact List.pairwise_iff_getElem.mp hs i j hil hjl hij

lemma between_whole (kv : List Bytes) (k : Bytes) : Between kv k 0 kv.length where
  low := fun i _ _ hi => absurd hi (Nat.not_lt_zero i)
  high := by
    intro i x hi hle
    rw [List.getElem?_eq_none hle] at hi
    cases hi

/-- A smaller key moves the lower bound past it. -/
lemma Between.raise (h : Between kv k s e) (hs : kv.Pairwise (· < ·)) (hp : kv[p]? = some key)
    (hkey : key < k) : Between kv k (p + 1) e where
  low := by
    intro i x hi hip
    rcases Nat.lt_or_ge i p with hlt | hge
    · exact lt_trans (lt_of_pairwise hs hi hp hlt) hkey
    · obtain rfl : i = p := by omega
      rw [hp] at hi
      cases hi
      exact hkey
  high := h.high

/-- A key that is not smaller moves the upper bound to it. -/
lemma Between.lower (h : Between kv k s e) (hs : kv.Pairwise (· < ·)) (hp : kv[p]? = some key)
    (hkey : k ≤ key) : Between kv k s p where
  low := h.low
  high := by
    intro i x hi hpi
    rcases Nat.lt_or_ge p i with hlt | hge
    · exact le_of_lt (lt_of_le_of_lt hkey (lt_of_pairwise hs hp hi hlt))
    · obtain rfl : i = p := by omega
      rw [hp] at hi
      cases hi
      exact hkey

lemma Between.mono (h : Between kv k s e) {s' : ℕ} (hle : s' ≤ s) : Between kv k s' e :=
  ⟨fun i x hi his => h.low i x hi (by omega), h.high⟩

/-- On ascending keys the search between two bounds closes in on the position. -/
lemma getIdxIn_spec (hs : kv.Pairwise (· < ·)) {start stop : Option ℕ}
    (hstart : orDefault start 0 = s) (hstop : orDefault stop kv.length = e) (hse : s ≤ e)
    (he : e ≤ kv.length) (hne : s < e ∨ e = kv.length) (h : Between kv k s e) :
    ∃ r ≤ kv.length, getIdxIn kv k start stop = .ok r ∧ Between kv k r r := by
  -- on the distance of the bounds, which the pivot lies strictly between
  induction hn : e - s using Nat.strong_induction_on generalizing start stop s e with
  | _ n ih =>
    rw [getIdxIn, hstart, hstop]
    split
    · next hsmall =>
      have hpivot : (s + e) / 2 = s := by omega
      rw [hpivot]
      cases hkey : kv[s]? with
      | none =>
        -- nothing is left between the bounds
        have hlen : kv.length ≤ s := List.getElem?_eq_none_iff.mp hkey
        obtain rfl : s = e := by omega
        exact ⟨s, he, rfl, h⟩
      | some key =>
        have hlen : s < kv.length := (List.getElem?_eq_some_iff.mp hkey).1
        have hes : e = s + 1 := by omega
        rw [Option.any_some]
        split
        · next hgt =>
          have hup := h.raise hs hkey (arraybufGt_iff.mp hgt)
          rw [← hes] at hup
          exact ⟨e, he, rfl, hup⟩
        · next hgt =>
          have hle : k ≤ key := not_lt.mp (mt arraybufGt_iff.mpr hgt)
          exact ⟨s, by omega, rfl, h.lower hs hkey hle⟩
    · next hbig =>
      have hp : (s + e) / 2 < kv.length := by omega
      obtain ⟨key, hkey⟩ : ∃ key, kv[(s + e) / 2]? = some key :=
        ⟨_, List.getElem?_eq_getElem hp⟩
      rw [hkey]
      dsimp only
      rcases lt_trichotomy key k with hlt | heq | hgt
      · -- the right half
        rw [arraybufGt_eq_false.mpr (le_of_lt hlt), arraybufGt_iff.mpr hlt]
        refine ih (e - (s + e) / 2) (by omega) (orDefault_some_zero _)
          (orDefault_some (by omega) _) (by omega) he (by omega) ?_ rfl
        exact (h.raise hs hkey hlt).mono (Nat.le_succ _)
      · -- found
        subst heq
        rw [arraybufGt_eq_false.mpr le_rfl]
        have hlow := h.lower hs hkey le_rfl
        refine ⟨_, le_of_lt hp, rfl, fun i x hi hip => ?_, hlow.high⟩
        exact lt_of_pairwise hs hi hkey hip
      · -- the left half
        rw [arraybufGt_iff.mpr hgt]
        exact ih ((s + e) / 2 - s) (by omega) (orDefault_some_zero _)
          (orDefault_some (by omega) _) (by omega) (le_of_lt hp) (by omega)
          (h.lower hs hkey (le_of_lt hgt)) rfl

/-- The search over the whole array. -/
lemma getIdxIn_whole (hs : kv.Pairwise (· < ·)) (k : Bytes) :
    ∃ r ≤ kv.length, getIdxIn kv k none none = .ok r ∧ Between kv k r r := by
  have hstart : orDefault none 0 = 0 := rfl
  have hstop : orDefault none kv.length = kv.length := rfl
  exact getIdxIn_spec hs hstart hstop (Nat.zero_le _) le_rfl (Or.inr rfl) (between_whole kv k)

end

/-- On an array in ascending key order `getIdx` finds the lower bound. -/
theorem getIdx_eq_lowerBound {es : List (Bytes × Bytes)} (hs : SortedMap.Ascending es)
    (k : Bytes) : getIdx (some (es.map Prod.fst)) k = .ok (SortedMap.lowerBound es k) := by
  have hkeys : (es.map Prod.fst).Pairwise (· < ·) := List.pairwise_map.mpr hs
  obtain ⟨r, hr, hget, hbetween⟩ := getIdxIn_whole hkeys k
  have hbound : r = SortedMap.lowerBound es k := by
    rw [List.length_map] at hr
    refine SortedMap.eq_lowerBound hs hr fun i e hi => ?_
    have hkey : (es.map Prod.fst)[i]? = some e.1 := by rw [List.getElem?_map, hi]; rfl
    constructor
    · intro hlt
      by_contra hge
      exact absurd hlt (not_lt.mpr (hbetween.high i e.1 hkey (not_lt.mp hge)))
    · exact hbetween.low i e.1 hkey
  rw [getIdx, hget, hbound]

/-! ## Activations of the search -/

/-- The index at which an activation of `getIdx` reads the array, if it does. -/
def getIdxRead (kv : List Bytes) (start stop : Option ℕ) : Option ℕ :=
  let s := orDefault start 0
  let e := orDefault stop kv.length
  let pivot := (s + e) / 2
  -- `pivot < kv.length &&` is evaluated in the base case only
  if e ≤ s + 1 ∧ kv.length ≤ pivot then none else some pivot

/-- One activation of `getIdx`: it returns an index, or calls itself with new bounds. Reading
the key of an entry that is not there throws. -/
def getIdxBody (kv : List Bytes) (k : Bytes) (start stop : Option ℕ) :
    Except JsError (ℕ ⊕ ℕ × ℕ) :=
  let s := orDefault start 0
  let e := orDefault stop kv.length
  let pivot := (s + e) / 2
  match getIdxRead kv start stop with
  | none => .ok (.inl pivot)
  | some i =>
    match kv[i]? with
    | none => .error .typeError
    | some key =>
      if e ≤ s + 1 then
        if arraybufGt k key then .ok (.inl e) else .ok (.inl pivot)
      else if !arraybufGt key k && !arraybufGt k key then .ok (.inl pivot)
      else if arraybufGt key k then .ok (.inr (s, pivot))
      else .ok (.inr (pivot, e))

/-- The search is its activations, one after the other. -/
lemma getIdxIn_eq_body (kv : List Bytes) (k : Bytes) (start stop : Option ℕ) :
    getIdxIn kv k start stop =
      match getIdxBody kv k start stop with
      | .error e => .error e
      | .ok (.inl r) => .ok r
      | .ok (.inr (s, e)) => getIdxIn kv k (some s) (some e) := by
  rw [getIdxIn, getIdxBody, getIdxRead]
  by_cases hbase : orDefault stop kv.length ≤ orDefault start 0 + 1
  · rw [if_pos hbase]
    by_cases hlen : kv.length ≤ (orDefault start 0 + orDefault stop kv.length) / 2
    · have hguard : orDefault stop kv.length ≤ orDefault start 0 + 1 ∧
          kv.length ≤ (orDefault start 0 + orDefault stop kv.length) / 2 := ⟨hbase, hlen⟩
      rw [if_pos hguard, List.getElem?_eq_none hlen]
      rfl
    · have hguard : ¬ (orDefault stop kv.length ≤ orDefault start 0 + 1 ∧
          kv.length ≤ (orDefault start 0 + orDefault stop kv.length) / 2) := fun h => hlen h.2
      rw [if_neg hguard, List.getElem?_eq_getElem (not_le.mp hlen), Option.any_some]
      dsimp only
      rw [List.getElem?_eq_getElem (not_le.mp hlen)]
      dsimp only
      rw [if_pos hbase]
      split <;> rfl
  · have hguard : ¬ (orDefault stop kv.length ≤ orDefault start 0 + 1 ∧
        kv.length ≤ (orDefault start 0 + orDefault stop kv.length) / 2) := fun h => hbase h.1
    rw [if_neg hbase, if_neg hguard]
    dsimp only
    cases kv[(orDefault start 0 + orDefault stop kv.length) / 2]? with
    | none => rfl
    | some key =>
      dsimp only
      rw [if_neg hbase]
      split
      · rfl
      · split <;> rfl

/-- The bounds of an activation: a range of the array, empty only at its end. -/
structure InRange (kv : List Bytes) (s e : ℕ) : Prop where
  le : s ≤ e
  stop : e ≤ kv.length
  nonempty : s < e ∨ e = kv.length

/-- Within such bounds an activation reads inside the array, and returns an index of it or
goes on with a smaller range that is not empty. -/
lemma getIdxBody_cases {kv : List Bytes} (k : Bytes) {start stop : Option ℕ} {s e : ℕ}
    (hstart : orDefault start 0 = s) (hstop : orDefault stop kv.length = e)
    (h : InRange kv s e) :
    (∀ i, getIdxRead kv start stop = some i → i < kv.length) ∧
      ((∃ r ≤ kv.length, getIdxBody kv k start stop = .ok (.inl r)) ∨
        ∃ s' e', getIdxBody kv k start stop = .ok (.inr (s', e')) ∧
          s ≤ s' ∧ s' < e' ∧ e' ≤ e ∧ e' - s' < e - s) := by
  obtain ⟨hle, hlen, hne⟩ := h
  have hread : ∀ i, getIdxRead kv start stop = some i → i < kv.length ∧ i = (s + e) / 2 := by
    intro i hi
    rw [getIdxRead, hstart, hstop] at hi
    split at hi
    · cases hi
    · next hguard =>
      cases hi
      exact ⟨by omega, rfl⟩
  refine ⟨fun i hi => (hread i hi).1, ?_⟩
  rw [getIdxBody, hstart, hstop]
  cases hr : getIdxRead kv start stop with
  | none => exact Or.inl ⟨(s + e) / 2, by omega, rfl⟩
  | some i =>
    obtain ⟨hi, rfl⟩ := hread i hr
    dsimp only
    rw [List.getElem?_eq_getElem hi]
    dsimp only
    split
    · split
      · exact Or.inl ⟨e, hlen, rfl⟩
      · exact Or.inl ⟨(s + e) / 2, le_of_lt hi, rfl⟩
    · next hbig =>
      split
      · exact Or.inl ⟨(s + e) / 2, le_of_lt hi, rfl⟩
      · split
        · exact Or.inr ⟨s, (s + e) / 2, rfl, le_rfl, by omega, by omega, by omega⟩
        · exact Or.inr ⟨(s + e) / 2, e, rfl, by omega, by omega, le_rfl, by omega⟩

/-- The activations of `getIdx(kv, k)`, by the bounds they are called with. -/
inductive GetIdxCall (kv : List Bytes) (k : Bytes) : Option ℕ → Option ℕ → Prop where
  | first : GetIdxCall kv k none none
  | recurse {start stop : Option ℕ} {s e : ℕ} :
      GetIdxCall kv k start stop → getIdxBody kv k start stop = .ok (.inr (s, e)) →
      GetIdxCall kv k (some s) (some e)

/-- Bounds that are passed on are not defaulted. -/
lemma orDefault_bounds {s e : ℕ} (h : s < e) (n : ℕ) :
    orDefault (some s) 0 = s ∧ orDefault (some e) n = e :=
  ⟨orDefault_some_zero s, orDefault_some (by omega) _⟩

lemma GetIdxCall.inRange {kv : List Bytes} {k : Bytes} {start stop : Option ℕ}
    (h : GetIdxCall kv k start stop) :
    InRange kv (orDefault start 0) (orDefault stop kv.length) := by
  induction h with
  | first => exact ⟨Nat.zero_le _, le_rfl, Or.inr rfl⟩
  | @recurse start stop s e _ hbody ih =>
    obtain ⟨-, ⟨r, -, hr⟩ | ⟨s', e', hr, hs, hlt, he, -⟩⟩ := getIdxBody_cases k rfl rfl ih
    · rw [hr] at hbody
      cases hbody
    · rw [hr] at hbody
      cases hbody
      obtain ⟨hs', he'⟩ := orDefault_bounds hlt kv.length
      rw [hs', he']
      exact ⟨le_of_lt hlt, he.trans ih.stop, Or.inl hlt⟩

/-- The search returns an index of the array or its length, sorted or not. -/
lemma getIdxIn_le {kv : List Bytes} (k : Bytes) {start stop : Option ℕ} {s e : ℕ}
    (hstart : orDefault start 0 = s) (hstop : orDefault stop kv.length = e)
    (h : InRange kv s e) : ∃ r ≤ kv.length, getIdxIn kv k start stop = .ok r := by
  induction hn : e - s using Nat.strong_induction_on generalizing start stop s e with
  | _ n ih =>
    obtain ⟨-, ⟨r, hr, hbody⟩ | ⟨s', e', hbody, hs, hlt, he, hsmaller⟩⟩ :=
      getIdxBody_cases k hstart hstop h
    · rw [getIdxIn_eq_body, hbody]
      exact ⟨r, hr, rfl⟩
    · rw [getIdxIn_eq_body, hbody]
      obtain ⟨hs', he'⟩ := orDefault_bounds hlt kv.length
      exact ih (e' - s') (by omega) hs' he' ⟨le_of_lt hlt, he.trans h.stop, Or.inl hlt⟩ rfl

/-- The position the keys around it determine is the number of smaller keys. -/
lemma countP_lt_of_between {kv : List Bytes} {k : Bytes} {r : ℕ} (hr : r ≤ kv.length)
    (h : Between kv k r r) : kv.countP (· < k) = r := by
  have htake : (kv.take r).countP (· < k) = (kv.take r).length := by
    rw [List.countP_eq_length]
    intro x hx
    obtain ⟨i, hi⟩ := List.getElem?_of_mem hx
    rw [List.getElem?_take] at hi
    split at hi
    · next hir => simpa using h.low i x hi hir
    · cases hi
  have hdrop : (kv.drop r).countP (· < k) = 0 := by
    rw [List.countP_eq_zero]
    intro x hx
    obtain ⟨i, hi⟩ := List.getElem?_of_mem hx
    rw [List.getElem?_drop] at hi
    simpa using h.high (r + i) x hi (Nat.le_add_right r i)
  rw [← List.take_append_drop r kv, List.countP_append, htake, hdrop, List.length_take]
  omega

lemma getIdx_le (kv : List Bytes) (k : Bytes) : ∃ r ≤ kv.length, getIdx (some kv) k = .ok r :=
  getIdxIn_le k rfl rfl ⟨Nat.zero_le _, le_rfl, Or.inr rfl⟩

/-- **`getIdx` is a lower-bound search that terminates.** On every array it returns an index
of it or its length. It is its activations, one after the other: each reads inside the array,
and calls itself only with a range that is not empty, is smaller than its own and is not changed
by the defaults. On an array in strictly ascending key order the result is the number of keys
less than `k`, which is the position of the first key at or past it. -/
theorem getIdx_lower_bound_search (kv : List Bytes) (k : Bytes) :
    (∃ r ≤ kv.length, getIdx (some kv) k = .ok r) ∧
    (∀ start stop, getIdxIn kv k start stop =
      match getIdxBody kv k start stop with
      | .error e => .error e
      | .ok (.inl r) => .ok r
      | .ok (.inr (s, e)) => getIdxIn kv k (some s) (some e)) ∧
    (∀ start stop, GetIdxCall kv k start stop →
      (∀ i, getIdxRead kv start stop = some i → i < kv.length) ∧
      ∀ s e, getIdxBody kv k start stop = .ok (.inr (s, e)) →
        s < e ∧ e - s < orDefault stop kv.length - orDefault start 0 ∧
        orDefault (some s) 0 = s ∧ orDefault (some e) kv.length = e) ∧
    (kv.Pairwise (· < ·) →
      getIdx (some kv) k = .ok (kv.countP (· < k)) ∧
      ∀ i x, kv[i]? = some x → (x < k ↔ i < kv.countP (· < k))) := by
  refine ⟨getIdx_le kv k, getIdxIn_eq_body kv k, fun start stop hcall => ?_, fun hs => ?_⟩
  · obtain ⟨hread, hbody⟩ := getIdxBody_cases k rfl rfl hcall.inRange
    refine ⟨hread, fun s e hse => ?_⟩
    obtain ⟨r, -, hr⟩ | ⟨s', e', hr, -, hlt, -, hsmaller⟩ := hbody
    · rw [hr] at hse
      cases hse
    · rw [hr] at hse
      cases hse
      exact ⟨hlt, hsmaller, orDefault_bounds hlt kv.length⟩
  · obtain ⟨r, hr, hget, hbetween⟩ := getIdxIn_whole hs k
    have hcount := countP_lt_of_between hr hbetween
    rw [hcount]
    refine ⟨hget, fun i x hi => ⟨fun hlt => ?_, hbetween.low i x hi⟩⟩
    by_contra hge
    exact absurd hlt (not_lt.mpr (hbetween.high i x hi (not_lt.mp hge)))

end RnLeveldb
