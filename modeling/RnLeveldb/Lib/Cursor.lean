import RnLeveldb.Lib.SortedMap

/-!
# Ordered cursors

A cursor over an ascending list of entries stands on an entry or on none. It is sent to the
first or last entry (`head?`, `getLast?`), to the least key at or past a target (`atOrPast`),
and moves to the neighbours of a key (`after`, `before`). The places are described by the
order of the keys; the lemmas say at which index of the list they are.
-/

namespace SortedMap

variable {κ ν : Type*} [LinearOrder κ]

/-- The entry with the least key at or past `t`. -/
def atOrPast (es : List (κ × ν)) (t : κ) : Option (κ × ν) := es.find? fun e => t ≤ e.1

/-- The entry with the least key past `k`. -/
def after (es : List (κ × ν)) (k : κ) : Option (κ × ν) := es.find? fun e => k < e.1

/-- The entry with the greatest key before `k`. -/
def before (es : List (κ × ν)) (k : κ) : Option (κ × ν) := es.reverse.find? fun e => e.1 < k

/-- What holds exactly from index `r` on is found there first. -/
lemma find?_eq_getElem? {α : Type*} {p : α → Bool} {xs : List α} {r : ℕ}
    (h : ∀ i a, xs[i]? = some a → (p a = true ↔ r ≤ i)) : xs.find? p = xs[r]? := by
  induction xs generalizing r with
  | nil => rfl
  | cons a xs ih =>
    have hhead := h 0 a rfl
    cases r with
    | zero =>
      rw [List.find?_cons_of_pos (hhead.mpr le_rfl)]
      rfl
    | succ r =>
      have hnot : ¬ p a = true := by
        rw [hhead]
        omega
      rw [List.find?_cons_of_neg hnot, List.getElem?_cons_succ]
      refine ih fun i b hb => ?_
      rw [h (i + 1) b (by rwa [List.getElem?_cons_succ])]
      omega

variable {es : List (κ × ν)} {e e' : κ × ν} {i j : ℕ}

/-- Keys are in the order of their indices. -/
lemma Ascending.lt_iff (hs : Ascending es) (hi : es[i]? = some e) (hj : es[j]? = some e') :
    e.1 < e'.1 ↔ i < j := by
  obtain ⟨hilt, rfl⟩ := List.getElem?_eq_some_iff.mp hi
  obtain ⟨hjlt, rfl⟩ := List.getElem?_eq_some_iff.mp hj
  have hpairs := List.pairwise_iff_getElem.mp hs
  constructor
  · intro hlt
    by_contra hge
    rcases Nat.lt_or_eq_of_le (not_lt.mp hge) with hji | rfl
    · exact lt_asymm hlt (hpairs j i hjlt hilt hji)
    · exact lt_irrefl _ hlt
  · intro hij
    exact hpairs i j hilt hjlt hij

lemma atOrPast_eq_getElem? (hs : Ascending es) (t : κ) :
    atOrPast es t = es[lowerBound es t]? := by
  refine find?_eq_getElem? fun i e hi => ?_
  rw [decide_eq_true_iff, ← not_lt, lt_iff_lt_lowerBound hs hi, not_lt]

lemma after_eq_getElem? (hs : Ascending es) (hi : es[i]? = some e) :
    after es e.1 = es[i + 1]? := by
  refine find?_eq_getElem? fun j e' hj => ?_
  rw [decide_eq_true_iff, hs.lt_iff hi hj]
  omega

lemma before_eq_getElem? (hs : Ascending es) (hi : es[i]? = some e) :
    before es e.1 = if i = 0 then none else es[i - 1]? := by
  have hilt : i < es.length := (List.getElem?_eq_some_iff.mp hi).1
  -- index `j` of the reversed list is index `length - 1 - j` of the list
  have hfind : before es e.1 = es.reverse[es.length - i]? := by
    refine find?_eq_getElem? fun j e' hj => ?_
    have hjlt : j < es.length := by
      rw [← List.length_reverse]
      exact (List.getElem?_eq_some_iff.mp hj).1
    rw [List.getElem?_reverse hjlt] at hj
    rw [decide_eq_true_iff, hs.lt_iff hj hi]
    omega
  rw [hfind]
  split
  · next h0 =>
    rw [List.getElem?_eq_none_iff, List.length_reverse]
    omega
  · next h0 =>
    rw [List.getElem?_reverse (by omega)]
    congr 1
    omega

/-- Some key is at or past the target exactly when the cursor finds one. -/
lemma atOrPast_isSome {t : κ} : (atOrPast es t).isSome ↔ ∃ e ∈ es, t ≤ e.1 := by
  rw [atOrPast, List.find?_isSome]
  simp only [decide_eq_true_iff]

/-- The key it finds is the least of them. -/
lemma le_of_atOrPast (hs : Ascending es) {t : κ} (h : atOrPast es t = some e) :
    e ∈ es ∧ t ≤ e.1 ∧ ∀ e' ∈ es, t ≤ e'.1 → e.1 ≤ e'.1 := by
  have hle : t ≤ e.1 := by simpa using List.find?_some h
  refine ⟨List.mem_of_find?_eq_some h, hle, fun e' he' hte' => ?_⟩
  rw [atOrPast_eq_getElem? hs] at h
  obtain ⟨j, hj, rfl⟩ := List.getElem_of_mem he'
  have hj' := List.getElem?_eq_getElem hj
  by_contra hlt
  have hbefore := (hs.lt_iff hj' h).mp (not_le.mp hlt)
  have hbelow := (lt_iff_lt_lowerBound hs hj').mpr hbefore
  exact not_lt.mpr hte' hbelow

/-- Nothing comes after the last entry only. -/
lemma after_isSome (hs : Ascending es) (he : e ∈ es) :
    (after es e.1).isSome ↔ es.getLast? ≠ some e := by
  obtain ⟨i, hi, rfl⟩ := List.getElem_of_mem he
  have hi' := List.getElem?_eq_getElem hi
  rw [after_eq_getElem? hs hi', List.getLast?_eq_getElem?, isSome_getElem?]
  constructor
  · intro hlt hlast
    have hirr := (hs.lt_iff hi' hlast).mpr (by omega)
    exact lt_irrefl _ hirr
  · intro hne
    by_contra hge
    refine hne ?_
    rw [← hi']
    congr 1
    omega

/-- Nothing comes before the first entry only. -/
lemma before_isSome (hs : Ascending es) (he : e ∈ es) :
    (before es e.1).isSome ↔ es.head? ≠ some e := by
  obtain ⟨i, hi, rfl⟩ := List.getElem_of_mem he
  have hi' := List.getElem?_eq_getElem hi
  rw [before_eq_getElem? hs hi', List.head?_eq_getElem?]
  by_cases h0 : i = 0
  · subst h0
    rw [if_pos rfl, hi']
    simp
  · rw [if_neg h0, isSome_getElem?]
    refine iff_of_true (by omega) fun hfirst => ?_
    have hirr := (hs.lt_iff hfirst hi').mpr (by omega)
    exact lt_irrefl _ hirr

end SortedMap
