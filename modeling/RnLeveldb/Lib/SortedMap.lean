import Mathlib.Tactic
import Mathlib.Data.List.TakeWhile

/-!
# Finite maps as key-sorted association lists

A `SortedMap κ ν` is a list of entries in strictly ascending key order, so the list is
also what an ordered scan of the map visits. Lookup is `get`, and the maps are compared
through it (`get_insert`, `get_erase`); `lowerBound` is the position an ordered
cursor takes when it is sent to a key.
-/

namespace SortedMap

variable {κ ν : Type*} [LinearOrder κ]

/-! ## Sorted lists of entries -/

/-- Strictly ascending by key: in particular no key occurs twice. -/
def Ascending (es : List (κ × ν)) : Prop := es.Pairwise fun a b => a.1 < b.1

/-- The value stored under a key. -/
def lookup (es : List (κ × ν)) (k : κ) : Option ν :=
  (es.find? fun e => e.1 = k).map Prod.snd

/-- The number of entries before the first key at or past `k`. -/
def lowerBound (es : List (κ × ν)) (k : κ) : ℕ := (es.takeWhile fun e => e.1 < k).length

@[simp] lemma lookup_nil (k : κ) : lookup ([] : List (κ × ν)) k = none := rfl

/-- The first entry with the key decides. -/
lemma lookup_cons (e : κ × ν) (es : List (κ × ν)) (k : κ) :
    lookup (e :: es) k = if e.1 = k then some e.2 else lookup es k := by
  unfold lookup
  by_cases h : e.1 = k <;> simp [h]

/-- What is found is in the list. -/
lemma mem_of_lookup {es : List (κ × ν)} {k : κ} {v : ν} (h : lookup es k = some v) :
    (k, v) ∈ es := by
  induction es with
  | nil => simp at h
  | cons e es ih =>
    rw [lookup_cons] at h
    split at h
    · next he =>
      cases h
      rw [← he]
      exact List.mem_cons_self
    · exact List.mem_cons_of_mem _ (ih h)

/-- Nothing is found exactly if no entry has the key. -/
lemma lookup_eq_none_iff {es : List (κ × ν)} {k : κ} :
    lookup es k = none ↔ ∀ e ∈ es, e.1 ≠ k := by
  simp [lookup, List.find?_eq_none]

/-- The second list is searched if nothing is found in the first. -/
lemma lookup_append (es fs : List (κ × ν)) (k : κ) :
    lookup (es ++ fs) k = (lookup es k).or (lookup fs k) := by
  induction es with
  | nil => simp
  | cons e es ih =>
    rw [List.cons_append, lookup_cons, lookup_cons, ih]
    split <;> rfl

/-- In an ascending list a key has the value it is listed with. -/
lemma lookup_of_mem {es : List (κ × ν)} (hs : Ascending es) {k : κ} {v : ν} (h : (k, v) ∈ es) :
    lookup es k = some v := by
  induction es with
  | nil => simp at h
  | cons e es ih =>
    obtain ⟨hhead, htail⟩ := List.pairwise_cons.mp hs
    rw [lookup_cons]
    rcases List.mem_cons.mp h with rfl | hmem
    · simp
    · have hne : e.1 ≠ k := ne_of_lt (hhead _ hmem)
      rw [if_neg hne]
      exact ih htail hmem

lemma lookup_eq_some_iff {es : List (κ × ν)} (hs : Ascending es) {k : κ} {v : ν} :
    lookup es k = some v ↔ (k, v) ∈ es :=
  ⟨mem_of_lookup, lookup_of_mem hs⟩

/-! ## The position of a key -/

lemma lowerBound_le (es : List (κ × ν)) (k : κ) : lowerBound es k ≤ es.length :=
  (List.takeWhile_sublist _).length_le

/-- In front of the position of a key are the entries up to the first that is not smaller. -/
lemma take_lowerBound (es : List (κ × ν)) (k : κ) :
    es.take (lowerBound es k) = es.takeWhile fun e => e.1 < k := by
  have h : es = (es.takeWhile fun e => e.1 < k) ++ es.dropWhile fun e => e.1 < k :=
    List.takeWhile_append_dropWhile.symm
  rw [lowerBound]
  nth_rewrite 2 [h]
  exact List.take_left' rfl

lemma drop_lowerBound (es : List (κ × ν)) (k : κ) :
    es.drop (lowerBound es k) = es.dropWhile fun e => e.1 < k := by
  have h : es = (es.takeWhile fun e => e.1 < k) ++ es.dropWhile fun e => e.1 < k :=
    List.takeWhile_append_dropWhile.symm
  rw [lowerBound]
  nth_rewrite 2 [h]
  exact List.drop_left' rfl

/-- A smaller key in front moves the position by one. -/
lemma lowerBound_cons_of_lt {e : κ × ν} {k : κ} (h : e.1 < k) (es : List (κ × ν)) :
    lowerBound (e :: es) k = lowerBound es k + 1 := by
  simp [lowerBound, h]

lemma lowerBound_cons_of_le {e : κ × ν} {k : κ} (h : k ≤ e.1) (es : List (κ × ν)) :
    lowerBound (e :: es) k = 0 := by
  simp [lowerBound, not_lt.mpr h]

/-- Before the position of `k` all keys are smaller. -/
lemma lt_of_mem_take {es : List (κ × ν)} {k : κ} {e : κ × ν}
    (h : e ∈ es.take (lowerBound es k)) : e.1 < k := by
  rw [take_lowerBound] at h
  simpa using List.mem_takeWhile_imp h

/-- From the position of `k` on all keys are at or past it. -/
lemma le_of_mem_drop {es : List (κ × ν)} (hs : Ascending es) {k : κ} {e : κ × ν}
    (h : e ∈ es.drop (lowerBound es k)) : k ≤ e.1 := by
  rw [drop_lowerBound] at h
  induction es with
  | nil => simp at h
  | cons a es ih =>
    obtain ⟨hhead, htail⟩ := List.pairwise_cons.mp hs
    by_cases ha : a.1 < k
    · rw [List.dropWhile_cons_of_pos (by simpa using ha)] at h
      exact ih htail h
    · rw [List.dropWhile_cons_of_neg (by simpa using ha)] at h
      rcases List.mem_cons.mp h with rfl | hmem
      · exact not_lt.mp ha
      · exact le_of_lt (lt_of_le_of_lt (not_lt.mp ha) (hhead _ hmem))

/-- An entry stands before the position of `k` exactly when its key is smaller. -/
lemma lt_iff_lt_lowerBound {es : List (κ × ν)} (hs : Ascending es) {k : κ} {i : ℕ} {e : κ × ν}
    (hi : es[i]? = some e) : e.1 < k ↔ i < lowerBound es k := by
  constructor
  · intro hlt
    by_contra hge
    have hmem : e ∈ es.drop (lowerBound es k) := by
      apply List.mem_of_getElem? (i := i - lowerBound es k)
      rw [List.getElem?_drop, Nat.add_sub_cancel' (not_lt.mp hge)]
      exact hi
    exact absurd hlt (not_lt.mpr (le_of_mem_drop hs hmem))
  · intro hlt
    have hmem : e ∈ es.take (lowerBound es k) := by
      apply List.mem_of_getElem? (i := i)
      rw [List.getElem?_take_of_lt hlt]
      exact hi
    exact lt_of_mem_take hmem

/-- The position is the only number that separates the smaller keys from the others. -/
lemma eq_lowerBound {es : List (κ × ν)} (hs : Ascending es) {k : κ} {r : ℕ}
    (hr : r ≤ es.length) (h : ∀ i e, es[i]? = some e → (e.1 < k ↔ i < r)) :
    r = lowerBound es k := by
  rcases lt_trichotomy r (lowerBound es k) with hlt | heq | hgt
  · have hlen : r < es.length := lt_of_lt_of_le hlt (lowerBound_le es k)
    have hi : es[r]? = some es[r] := List.getElem?_eq_getElem hlen
    have hkey := (lt_iff_lt_lowerBound hs hi).mpr hlt
    exact absurd ((h r _ hi).mp hkey) (lt_irrefl r)
  · exact heq
  · have hlen : lowerBound es k < es.length := lt_of_lt_of_le hgt hr
    have hi : es[lowerBound es k]? = some es[lowerBound es k] := List.getElem?_eq_getElem hlen
    have hkey := (h _ _ hi).mpr hgt
    exact absurd ((lt_iff_lt_lowerBound hs hi).mp hkey) (lt_irrefl _)

/-- The entries at or past `k` are those from its position on. -/
lemma drop_lowerBound_eq_filter {es : List (κ × ν)} (hs : Ascending es) (k : κ) :
    es.drop (lowerBound es k) = es.filter fun e => k ≤ e.1 := by
  conv_rhs => rw [← List.take_append_drop (lowerBound es k) es, List.filter_append]
  have h1 : (es.take (lowerBound es k)).filter (fun e => k ≤ e.1) = [] := by
    rw [List.filter_eq_nil_iff]
    intro e he
    simpa using lt_of_mem_take he
  have h2 : (es.drop (lowerBound es k)).filter (fun e => k ≤ e.1)
      = es.drop (lowerBound es k) := by
    rw [List.filter_eq_self]
    intro e he
    simpa using le_of_mem_drop hs he
  rw [h1, h2, List.nil_append]

/-- A key below the position of `k` is not found from there on, and a key at or past it is
found only there. -/
lemma lookup_eq_lookup_drop {es : List (κ × ν)} {k : κ} :
    lookup es k = lookup (es.drop (lowerBound es k)) k := by
  conv_lhs => rw [← List.take_append_drop (lowerBound es k) es, lookup_append]
  have h : lookup (es.take (lowerBound es k)) k = none := by
    rw [lookup_eq_none_iff]
    intro e he
    exact ne_of_lt (lt_of_mem_take he)
  rw [h, Option.none_or]

/-! ## Updates -/

/-- Bind `k` to `v`, in place of the entry of `k` if there is one. -/
def insertEntry (k : κ) (v : ν) : List (κ × ν) → List (κ × ν)
  | [] => [(k, v)]
  | e :: es =>
    if k < e.1 then (k, v) :: e :: es
    else if e.1 < k then e :: insertEntry k v es
    else (k, v) :: es

/-- Remove the entry of `k` if there is one. -/
def eraseEntry (k : κ) (es : List (κ × ν)) : List (κ × ν) := es.filter fun e => e.1 ≠ k

/-- Nothing but the new entry comes in. -/
lemma mem_insertEntry {k : κ} {v : ν} {es : List (κ × ν)} {e : κ × ν}
    (h : e ∈ insertEntry k v es) : e = (k, v) ∨ e ∈ es := by
  induction es with
  | nil => simpa [insertEntry] using h
  | cons a es ih =>
    unfold insertEntry at h
    split at h
    · rcases List.mem_cons.mp h with rfl | hmem
      · exact Or.inl rfl
      · exact Or.inr hmem
    · split at h
      · rcases List.mem_cons.mp h with rfl | hmem
        · exact Or.inr List.mem_cons_self
        · rcases ih hmem with rfl | hmem
          · exact Or.inl rfl
          · exact Or.inr (List.mem_cons_of_mem _ hmem)
      · rcases List.mem_cons.mp h with rfl | hmem
        · exact Or.inl rfl
        · exact Or.inr (List.mem_cons_of_mem _ hmem)

/-- Updates keep the order: the new key is put where it belongs. -/
lemma ascending_insertEntry {es : List (κ × ν)} (hs : Ascending es) (k : κ) (v : ν) :
    Ascending (insertEntry k v es) := by
  induction es with
  | nil => exact List.pairwise_singleton _ _
  | cons a es ih =>
    obtain ⟨hhead, htail⟩ := List.pairwise_cons.mp hs
    unfold insertEntry
    split
    · next hka =>
      refine List.pairwise_cons.mpr ⟨fun b hb => ?_, hs⟩
      rcases List.mem_cons.mp hb with rfl | hb
      · exact hka
      · exact lt_trans hka (hhead b hb)
    · split
      · next hak =>
        refine List.pairwise_cons.mpr ⟨fun b hb => ?_, ih htail⟩
        rcases mem_insertEntry hb with rfl | hb
        · exact hak
        · exact hhead b hb
      · next hka hak =>
        have heq : a.1 = k := le_antisymm (not_lt.mp hka) (not_lt.mp hak)
        refine List.pairwise_cons.mpr ⟨fun b hb => ?_, htail⟩
        exact heq ▸ hhead b hb

lemma ascending_eraseEntry {es : List (κ × ν)} (hs : Ascending es) (k : κ) :
    Ascending (eraseEntry k es) := hs.sublist List.filter_sublist

/-- An insertion changes what is found under its own key only. -/
lemma lookup_insertEntry (k : κ) (v : ν) (es : List (κ × ν)) (k' : κ) :
    lookup (insertEntry k v es) k' = if k = k' then some v else lookup es k' := by
  induction es with
  | nil => rw [insertEntry, lookup_cons]
  | cons a es ih =>
    unfold insertEntry
    split
    · rw [lookup_cons]
    · split
      · next hak =>
        rw [lookup_cons, ih, lookup_cons]
        by_cases hk' : k = k'
        · subst hk'
          simp [ne_of_lt hak]
        · simp [hk']
      · next hka hak =>
        have heq : a.1 = k := le_antisymm (not_lt.mp hka) (not_lt.mp hak)
        rw [lookup_cons, lookup_cons, heq]
        by_cases hk' : k = k' <;> simp [hk']

/-- So does a removal. -/
lemma lookup_eraseEntry (k : κ) (es : List (κ × ν)) (k' : κ) :
    lookup (eraseEntry k es) k' = if k = k' then none else lookup es k' := by
  unfold eraseEntry
  induction es with
  | nil => simp
  | cons a es ih =>
    by_cases ha : a.1 = k
    · rw [List.filter_cons_of_neg (by simpa using ha), ih, lookup_cons, ha]
      by_cases hk' : k = k' <;> simp [hk']
    · rw [List.filter_cons_of_pos (by simpa using ha), lookup_cons, ih, lookup_cons]
      by_cases hk' : k = k'
      · subst hk'
        simp [ha]
      · simp [hk']

/-! ## Updates at a position

The same updates, as they are done on an array once the position of the key is known. -/

/-- The key is found at its position, or not at all. -/
lemma lookup_eq_getElem? {es : List (κ × ν)} (hs : Ascending es) (k : κ) :
    lookup es k = es[lowerBound es k]?.bind fun e => if e.1 = k then some e.2 else none := by
  rw [lookup_eq_lookup_drop, ← List.head?_drop]
  have htail : Ascending (es.drop (lowerBound es k)) := hs.sublist (List.drop_sublist _ _)
  have hle : ∀ e ∈ es.drop (lowerBound es k), k ≤ e.1 := fun e => le_of_mem_drop hs
  cases hdrop : es.drop (lowerBound es k) with
  | nil => rfl
  | cons e rest =>
    rw [hdrop] at htail hle
    obtain ⟨hhead, -⟩ := List.pairwise_cons.mp htail
    -- past the first entry the keys are larger still
    have hrest : lookup rest k = none := by
      rw [lookup_eq_none_iff]
      intro e' he'
      exact ne_of_gt (lt_of_le_of_lt (hle e List.mem_cons_self) (hhead e' he'))
    rw [lookup_cons, hrest]
    rfl

/-- A key past all others is appended. -/
lemma insertEntry_eq_append {es : List (κ × ν)} {k : κ} (h : lowerBound es k = es.length)
    (v : ν) : insertEntry k v es = es ++ [(k, v)] := by
  induction es with
  | nil => rfl
  | cons a es ih =>
    rcases lt_or_ge a.1 k with hlt | hge
    · rw [lowerBound_cons_of_lt hlt, List.length_cons, Nat.add_right_cancel_iff] at h
      rw [insertEntry, if_neg (not_lt_of_gt hlt), if_pos hlt, ih h, List.cons_append]
    · rw [lowerBound_cons_of_le hge, List.length_cons] at h
      omega

/-- A new key goes in front of the entry at its position. -/
lemma insertEntry_eq_insertIdx {es : List (κ × ν)} {k : κ} {e : κ × ν}
    (hi : es[lowerBound es k]? = some e) (hlt : k < e.1) (v : ν) :
    insertEntry k v es = es.insertIdx (lowerBound es k) (k, v) := by
  induction es with
  | nil => cases hi
  | cons a es ih =>
    rcases lt_or_ge a.1 k with ha | ha
    · rw [lowerBound_cons_of_lt ha] at hi ⊢
      rw [insertEntry, if_neg (not_lt_of_gt ha), if_pos ha, List.insertIdx_succ_cons,
        ih (by simpa using hi)]
    · rw [lowerBound_cons_of_le ha] at hi ⊢
      cases hi
      rw [insertEntry, if_pos hlt]
      rfl

/-- A key that is there already keeps its place. -/
lemma insertEntry_eq_set {es : List (κ × ν)} {k : κ} {e : κ × ν}
    (hi : es[lowerBound es k]? = some e) (heq : e.1 = k) (v : ν) :
    insertEntry k v es = es.set (lowerBound es k) (k, v) := by
  induction es with
  | nil => cases hi
  | cons a es ih =>
    rcases lt_or_ge a.1 k with ha | ha
    · rw [lowerBound_cons_of_lt ha] at hi ⊢
      rw [insertEntry, if_neg (not_lt_of_gt ha), if_pos ha, List.set_cons_succ,
        ih (by simpa using hi)]
    · rw [lowerBound_cons_of_le ha] at hi ⊢
      cases hi
      rw [insertEntry, heq, if_neg (lt_irrefl k), if_neg (lt_irrefl k)]
      rfl

/-- A key that is there is removed at its position. -/
lemma eraseEntry_eq_eraseIdx {es : List (κ × ν)} (hs : Ascending es) {k : κ} {e : κ × ν}
    (hi : es[lowerBound es k]? = some e) (heq : e.1 = k) :
    eraseEntry k es = es.eraseIdx (lowerBound es k) := by
  unfold eraseEntry
  induction es with
  | nil => cases hi
  | cons a es ih =>
    obtain ⟨hhead, htail⟩ := List.pairwise_cons.mp hs
    rcases lt_or_ge a.1 k with ha | ha
    · rw [lowerBound_cons_of_lt ha] at hi ⊢
      rw [List.filter_cons_of_pos (by simpa using ne_of_lt ha), List.eraseIdx_cons_succ,
        ih htail (by simpa using hi)]
    · rw [lowerBound_cons_of_le ha] at hi ⊢
      cases hi
      rw [List.filter_cons_of_neg (by simpa using heq), List.eraseIdx_cons_zero,
        List.filter_eq_self]
      intro e' he'
      have hne : e'.1 ≠ k := heq ▸ ne_of_gt (hhead e' he')
      simpa using hne

lemma eraseEntry_eq_self {es : List (κ × ν)} {k : κ} (h : lookup es k = none) :
    eraseEntry k es = es := by
  rw [eraseEntry, List.filter_eq_self]
  intro e he
  simpa using lookup_eq_none_iff.mp h e he

end SortedMap

/-- A finite map, as the ascending list of its entries. -/
structure SortedMap (κ ν : Type*) [LinearOrder κ] where
  entries : List (κ × ν)
  ascending : SortedMap.Ascending entries

namespace SortedMap

variable {κ ν : Type*} [LinearOrder κ]

def empty : SortedMap κ ν := ⟨[], List.Pairwise.nil⟩

def get (m : SortedMap κ ν) (k : κ) : Option ν := lookup m.entries k

def insert (m : SortedMap κ ν) (k : κ) (v : ν) : SortedMap κ ν :=
  ⟨insertEntry k v m.entries, ascending_insertEntry m.ascending k v⟩

def erase (m : SortedMap κ ν) (k : κ) : SortedMap κ ν :=
  ⟨eraseEntry k m.entries, ascending_eraseEntry m.ascending k⟩

@[simp] lemma insert_entries (m : SortedMap κ ν) (k : κ) (v : ν) :
    (m.insert k v).entries = insertEntry k v m.entries := rfl

@[simp] lemma erase_entries (m : SortedMap κ ν) (k : κ) :
    (m.erase k).entries = eraseEntry k m.entries := rfl

/-- The laws of a map: what is read after an update. -/
lemma get_insert (m : SortedMap κ ν) (k : κ) (v : ν) (k' : κ) :
    (m.insert k v).get k' = if k = k' then some v else m.get k' :=
  lookup_insertEntry k v m.entries k'

lemma get_erase (m : SortedMap κ ν) (k k' : κ) :
    (m.erase k).get k' = if k = k' then none else m.get k' :=
  lookup_eraseEntry k m.entries k'

/-- Reading a map is membership in its list of entries. -/
lemma get_eq_some_iff (m : SortedMap κ ν) {k : κ} {v : ν} :
    m.get k = some v ↔ (k, v) ∈ m.entries := lookup_eq_some_iff m.ascending

end SortedMap
