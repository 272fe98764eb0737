import Mathlib.Data.Prod.Lex
import Mathlib.Data.List.Sort
import RnLeveldb.Lib.SortedMap

/-!
# Maps with old versions

A store that keeps old versions of its keys is a list of versions, each with a key, a sequence
number and a value or none if it is a deletion. The list is in ascending order of the keys, and
the versions of a key are in descending order of their numbers. A snapshot is a number: it sees
the newest version of each key that is not newer than the snapshot. What it sees of the whole
store is a map, its `view`.
-/

namespace Versions

variable {κ ν : Type*}

/-- One version of a key. `none` is a deletion. -/
structure Version (κ ν : Type*) where
  key : κ
  seq : ℕ
  value : Option ν
deriving DecidableEq

/-- Where a version stands: by key, the newest first. -/
def Version.place (v : Version κ ν) : κ ×ₗ ℕᵒᵈ := toLex (v.key, OrderDual.toDual v.seq)

lemma place_eq_iff {a b : Version κ ν} :
    a.place = b.place ↔ a.key = b.key ∧ a.seq = b.seq := by
  rw [Version.place, Version.place, toLex_inj, Prod.mk.injEq, OrderDual.toDual_inj]

variable [LinearOrder κ]

lemma place_lt_iff {a b : Version κ ν} :
    a.place < b.place ↔ a.key < b.key ∨ a.key = b.key ∧ b.seq < a.seq := by
  rw [Version.place, Version.place, Prod.Lex.toLex_lt_toLex]
  rfl

/-- In the order of their places, none of which is taken twice. -/
def Sorted (vs : List (Version κ ν)) : Prop := vs.Pairwise fun a b => a.place < b.place

/-- A version is put at its place. -/
def insert (v : Version κ ν) : List (Version κ ν) → List (Version κ ν)
  | [] => [v]
  | w :: ws => if w.place < v.place then w :: insert v ws else v :: w :: ws

lemma mem_insert {v w : Version κ ν} {vs : List (Version κ ν)} :
    w ∈ insert v vs ↔ w = v ∨ w ∈ vs := by
  induction vs with
  | nil => simp [insert]
  | cons u vs ih =>
    unfold insert
    split
    · rw [List.mem_cons, ih, List.mem_cons]
      tauto
    · rw [List.mem_cons]

lemma Sorted.insert {v : Version κ ν} {vs : List (Version κ ν)} (h : Sorted vs)
    (hnew : ∀ w ∈ vs, w.place ≠ v.place) : Sorted (insert v vs) := by
  induction vs with
  | nil => exact List.pairwise_singleton _ _
  | cons u vs ih =>
    obtain ⟨hhead, htail⟩ := List.pairwise_cons.mp h
    unfold Versions.insert
    split
    · next hlt =>
      refine List.pairwise_cons.mpr ⟨fun w hw => ?_, ih htail fun w hw =>
        hnew w (List.mem_cons_of_mem _ hw)⟩
      rcases mem_insert.mp hw with rfl | hw
      · exact hlt
      · exact hhead w hw
    · next hnlt =>
      have hlt : v.place < u.place :=
        lt_of_le_of_ne (not_lt.mp hnlt) (hnew u List.mem_cons_self).symm
      refine List.pairwise_cons.mpr ⟨fun w hw => ?_, h⟩
      rcases List.mem_cons.mp hw with rfl | hw
      · exact hlt
      · exact lt_trans hlt (hhead w hw)

/-! ## Reading -/

/-- The newest version of a key that a snapshot sees. -/
def newest (vs : List (Version κ ν)) (snapshot : ℕ) (k : κ) : Option (Version κ ν) :=
  vs.find? fun v => v.key = k ∧ v.seq ≤ snapshot

def readAt (vs : List (Version κ ν)) (snapshot : ℕ) (k : κ) : Option ν :=
  (newest vs snapshot k).bind Version.value

/-- What makes a version the newest does not depend on the order. -/
structure IsNewest (vs : List (Version κ ν)) (snapshot : ℕ) (k : κ) (v : Version κ ν) : Prop where
  mem : v ∈ vs
  key_eq : v.key = k
  seq_le : v.seq ≤ snapshot
  newest : ∀ w ∈ vs, w.key = k → w.seq ≤ snapshot → w.seq ≤ v.seq

lemma newest_eq_none_iff {vs : List (Version κ ν)} {snapshot : ℕ} {k : κ} :
    newest vs snapshot k = none ↔ ∀ v ∈ vs, v.key = k → snapshot < v.seq := by
  simp [newest, List.find?_eq_none]

variable {vs : List (Version κ ν)} {snapshot : ℕ} {k : κ} {v : Version κ ν}

/-- In a sorted list the first version that is seen is the newest. -/
lemma Sorted.newest_eq_some_iff (h : Sorted vs) :
    newest vs snapshot k = some v ↔ IsNewest vs snapshot k v := by
  induction vs with
  | nil => exact ⟨fun h => by simp [newest] at h, fun h => absurd h.mem (by simp)⟩
  | cons u vs ih =>
    obtain ⟨hhead, htail⟩ := List.pairwise_cons.mp h
    -- the versions of `k` behind `u` are older
    have holder : u.key = k → ∀ w ∈ vs, w.key = k → w.seq < u.seq := by
      intro huk w hw hwk
      rcases place_lt_iff.mp (hhead w hw) with hlt | ⟨-, hlt⟩
      · rw [huk, hwk] at hlt
        exact absurd hlt (lt_irrefl k)
      · exact hlt
    by_cases hu : u.key = k ∧ u.seq ≤ snapshot
    · have hfirst : newest (u :: vs) snapshot k = some u :=
        List.find?_cons_of_pos (by simpa using hu)
      rw [hfirst, Option.some_inj]
      constructor
      · rintro rfl
        refine ⟨List.mem_cons_self, hu.1, hu.2, fun w hw hwk _ => ?_⟩
        rcases List.mem_cons.mp hw with rfl | hw
        · exact le_refl _
        · exact le_of_lt (holder hu.1 w hw hwk)
      · intro hv
        rcases List.mem_cons.mp hv.mem with rfl | hmem
        · rfl
        · have hle := hv.newest u List.mem_cons_self hu.1 hu.2
          have hlt := holder hu.1 v hmem hv.key_eq
          omega
    · have hskip : newest (u :: vs) snapshot k = newest vs snapshot k :=
        List.find?_cons_of_neg (by simpa using hu)
      rw [hskip, ih htail]
      constructor
      · intro hv
        refine ⟨List.mem_cons_of_mem _ hv.mem, hv.key_eq, hv.seq_le, fun w hw hwk hws => ?_⟩
        rcases List.mem_cons.mp hw with rfl | hw
        · exact absurd ⟨hwk, hws⟩ hu
        · exact hv.newest w hw hwk hws
      · intro hv
        refine ⟨?_, hv.key_eq, hv.seq_le, fun w hw => hv.newest w (List.mem_cons_of_mem _ hw)⟩
        rcases List.mem_cons.mp hv.mem with rfl | hmem
        · exact absurd ⟨hv.key_eq, hv.seq_le⟩ hu
        · exact hmem

/-- The first version at or past a place. -/
def seek (vs : List (Version κ ν)) (snapshot : ℕ) (k : κ) : Option (Version κ ν) :=
  vs.find? fun v => k < v.key ∨ v.key = k ∧ v.seq ≤ snapshot

/-- The newest version of a key stands where a search for it ends, or there is none. -/
lemma Sorted.newest_eq_seek (h : Sorted vs) :
    newest vs snapshot k = (seek vs snapshot k).filter fun v => v.key = k := by
  induction vs with
  | nil => rfl
  | cons u vs ih =>
    obtain ⟨hhead, htail⟩ := List.pairwise_cons.mp h
    by_cases hu : k < u.key ∨ u.key = k ∧ u.seq ≤ snapshot
    · have hseek : seek (u :: vs) snapshot k = some u := List.find?_cons_of_pos (by simpa using hu)
      rw [hseek]
      rcases hu with hlt | ⟨heq, hle⟩
      · rw [Option.filter_some_neg (by simpa using ne_of_gt hlt), newest_eq_none_iff]
        intro w hw hwk
        have hkey : u.key ≤ w.key := by
          rcases List.mem_cons.mp hw with rfl | hw
          · exact le_refl _
          · rcases place_lt_iff.mp (hhead w hw) with hlt' | ⟨heq', -⟩
            · exact le_of_lt hlt'
            · exact le_of_eq heq'
        rw [hwk] at hkey
        exact absurd hlt (not_lt.mpr hkey)
      · rw [Option.filter_some_pos (by simpa using heq)]
        exact List.find?_cons_of_pos (by simpa using ⟨heq, hle⟩)
    · have hseek : seek (u :: vs) snapshot k = seek vs snapshot k :=
        List.find?_cons_of_neg (by simpa using hu)
      have hnewest : newest (u :: vs) snapshot k = newest vs snapshot k := by
        rw [not_or] at hu
        exact List.find?_cons_of_neg (by simpa using hu.2)
      rw [hseek, hnewest, ih htail]

lemma Sorted.insert_newer (h : Sorted vs) (hnew : ∀ w ∈ vs, w.seq < v.seq) :
    Sorted (Versions.insert v vs) := by
  apply h.insert
  intro w hw heq
  exact absurd (place_eq_iff.mp heq).2 (ne_of_lt (hnew w hw))

/-- A version that is newer than all others is seen by the snapshots from its number on. -/
lemma Sorted.newest_insert (h : Sorted vs) (hnew : ∀ w ∈ vs, w.seq < v.seq) :
    newest (Versions.insert v vs) snapshot k =
      if v.key = k ∧ v.seq ≤ snapshot then some v else newest vs snapshot k := by
  have hsorted := h.insert_newer hnew
  split
  · next hv =>
    rw [hsorted.newest_eq_some_iff]
    refine ⟨mem_insert.mpr (Or.inl rfl), hv.1, hv.2, fun w hw _ _ => ?_⟩
    rcases mem_insert.mp hw with rfl | hw
    · exact le_refl _
    · exact le_of_lt (hnew w hw)
  · next hv =>
    cases hold : newest vs snapshot k with
    | none =>
      rw [newest_eq_none_iff] at hold ⊢
      intro w hw hwk
      rcases mem_insert.mp hw with rfl | hw
      · exact not_le.mp fun hle => hv ⟨hwk, hle⟩
      · exact hold w hw hwk
    | some u =>
      have hu := h.newest_eq_some_iff.mp hold
      rw [hsorted.newest_eq_some_iff]
      refine ⟨mem_insert.mpr (Or.inr hu.mem), hu.key_eq, hu.seq_le, fun w hw hwk hws => ?_⟩
      rcases mem_insert.mp hw with rfl | hw
      · exact absurd ⟨hwk, hws⟩ hv
      · exact hu.newest w hw hwk hws

/-! ## Histories -/

/-- The versions of a history of writes, which are numbered from `n` on. -/
def record : ℕ → List (Version κ ν) → List (κ × Option ν) → List (Version κ ν)
  | _, vs, [] => vs
  | n, vs, w :: ws => record (n + 1) (insert ⟨w.1, n, w.2⟩ vs) ws

/-- The last write on a key decides. -/
def lastWrite (k : κ) (old : Option ν) (w : κ × Option ν) : Option ν := if w.1 = k then w.2 else old

lemma mem_record {n : ℕ} {ws : List (κ × Option ν)} :
    v ∈ Versions.record n vs ws ↔
      v ∈ vs ∨ ∃ i w, ws[i]? = some w ∧ v = ⟨w.1, n + i, w.2⟩ := by
  induction ws generalizing n vs with
  | nil => simp [Versions.record]
  | cons w ws ih =>
    rw [Versions.record, ih, mem_insert]
    constructor
    · rintro ((rfl | hv) | ⟨i, u, hu, rfl⟩)
      · exact Or.inr ⟨0, w, rfl, rfl⟩
      · exact Or.inl hv
      · exact Or.inr ⟨i + 1, u, by rwa [List.getElem?_cons_succ],
          by rw [Nat.add_right_comm, Nat.add_assoc]⟩
    · rintro (hv | ⟨i, u, hu, rfl⟩)
      · exact Or.inl (Or.inr hv)
      · cases i with
        | zero =>
          rw [List.getElem?_cons_zero, Option.some_inj] at hu
          exact Or.inl (Or.inl (by rw [hu]; rfl))
        | succ i =>
          rw [List.getElem?_cons_succ] at hu
          exact Or.inr ⟨i, u, hu, by rw [Nat.add_right_comm, Nat.add_assoc]⟩

/-- A snapshot sees the writes up to its number. `old` is what there is if the key has no
version. -/
lemma Sorted.newest_record {n : ℕ} (h : Sorted vs) (hnew : ∀ w ∈ vs, w.seq < n)
    (ws : List (κ × Option ν)) (old : Option ν) :
    ((newest (Versions.record n vs ws) snapshot k).map Version.value).getD old =
      (ws.take (snapshot + 1 - n)).foldl (lastWrite k)
        (((newest vs snapshot k).map Version.value).getD old) := by
  induction ws generalizing n vs with
  | nil => simp [Versions.record]
  | cons w ws ih =>
    have hnew' : ∀ u ∈ Versions.insert ⟨w.1, n, w.2⟩ vs, u.seq < n + 1 := by
      intro u hu
      rcases mem_insert.mp hu with rfl | hu
      · exact Nat.lt_succ_self n
      · exact Nat.lt_succ_of_lt (hnew u hu)
    rw [Versions.record, ih (h.insert_newer (v := ⟨w.1, n, w.2⟩) hnew) hnew',
      h.newest_insert (v := ⟨w.1, n, w.2⟩) hnew]
    by_cases hn : n ≤ snapshot
    · have hsucc : snapshot + 1 - n = (snapshot + 1 - (n + 1)) + 1 := by omega
      rw [hsucc, List.take_succ_cons, List.foldl_cons, lastWrite]
      by_cases hk : w.1 = k <;> simp [hk, hn]
    · have hzero : snapshot + 1 - n = 0 := by omega
      have hzero' : snapshot + 1 - (n + 1) = 0 := by omega
      rw [hzero, hzero', if_neg fun hv => hn hv.2, List.take_zero, List.take_zero]

lemma Sorted.readAt_record {n : ℕ} (h : Sorted vs) (hnew : ∀ w ∈ vs, w.seq < n)
    (ws : List (κ × Option ν)) :
    readAt (Versions.record n vs ws) snapshot k =
      (ws.take (snapshot + 1 - n)).foldl (lastWrite k) (readAt vs snapshot k) := by
  have hread : ∀ vs : List (Version κ ν),
      readAt vs snapshot k = ((newest vs snapshot k).map Version.value).getD none := by
    intro vs
    rw [readAt]
    cases newest vs snapshot k <;> rfl
  rw [hread, hread, h.newest_record hnew]

/-! ## Views -/

/-- What a snapshot sees, in key order. `skip` is the key whose other versions are hidden. -/
def viewFrom (snapshot : ℕ) : Option κ → List (Version κ ν) → List (κ × ν)
  | _, [] => []
  | skip, v :: vs =>
    if snapshot < v.seq ∨ skip = some v.key then viewFrom snapshot skip vs
    else
      match v.value with
      | none => viewFrom snapshot (some v.key) vs
      | some x => (v.key, x) :: viewFrom snapshot (some v.key) vs

/-- Nothing before the hidden key is left. -/
def Hides (skip : Option κ) (vs : List (Version κ ν)) : Prop :=
  ∀ k ∈ skip, ∀ v ∈ vs, k ≤ v.key

lemma Hides.tail {skip : Option κ} (h : Hides skip (v :: vs)) : Hides skip vs :=
  fun k hk w hw => h k hk w (List.mem_cons_of_mem _ hw)

lemma Sorted.hides_head (h : Sorted (v :: vs)) : Hides (some v.key) vs := by
  intro k hk w hw
  rw [Option.mem_some_iff] at hk
  subst hk
  rcases place_lt_iff.mp ((List.pairwise_cons.mp h).1 w hw) with hlt | ⟨heq, -⟩
  · exact le_of_lt hlt
  · exact le_of_eq heq

lemma Sorted.lt_of_mem_viewFrom (h : Sorted vs) {skip : Option κ} (hskip : Hides skip vs)
    {e : κ × ν} (he : e ∈ viewFrom snapshot skip vs) : ∀ k ∈ skip, k < e.1 := by
  induction vs generalizing skip with
  | nil => simp [viewFrom] at he
  | cons v vs ih =>
    have htail : Sorted vs := (List.pairwise_cons.mp h).2
    have hlater : e ∈ viewFrom snapshot (some v.key) vs → v.key < e.1 := fun he =>
      ih htail h.hides_head he v.key (Option.mem_some_iff.mpr rfl)
    unfold viewFrom at he
    split at he
    · exact ih htail hskip.tail he
    · next hvisible =>
      intro k hk
      have hle : k ≤ v.key := hskip k hk v List.mem_cons_self
      split at he
      · exact lt_of_le_of_lt hle (hlater he)
      · rcases List.mem_cons.mp he with rfl | he
        · apply lt_of_le_of_ne hle
          rintro rfl
          exact hvisible (Or.inr hk)
        · exact lt_of_le_of_lt hle (hlater he)

lemma Sorted.ascending_viewFrom (h : Sorted vs) (skip : Option κ) :
    SortedMap.Ascending (viewFrom snapshot skip vs) := by
  induction vs generalizing skip with
  | nil => exact List.Pairwise.nil
  | cons v vs ih =>
    have htail : Sorted vs := (List.pairwise_cons.mp h).2
    unfold viewFrom
    split
    · exact ih htail skip
    split
    · exact ih htail _
    · refine List.pairwise_cons.mpr ⟨fun e he => ?_, ih htail _⟩
      exact htail.lt_of_mem_viewFrom h.hides_head he v.key (Option.mem_some_iff.mpr rfl)

/-- The view is what reads see. -/
lemma Sorted.lookup_viewFrom (h : Sorted vs) {skip : Option κ} (hskip : Hides skip vs) :
    SortedMap.lookup (viewFrom snapshot skip vs) k =
      if skip = some k then none else readAt vs snapshot k := by
  induction vs generalizing skip with
  | nil => simp [viewFrom, readAt, newest]
  | cons v vs ih =>
    have htail : Sorted vs := (List.pairwise_cons.mp h).2
    have hother : ¬ (v.key = k ∧ v.seq ≤ snapshot) →
        readAt (v :: vs) snapshot k = readAt vs snapshot k := by
      intro hv
      rw [readAt, newest, List.find?_cons_of_neg (by simpa using hv)]
      rfl
    have hfirst : v.key = k → v.seq ≤ snapshot → readAt (v :: vs) snapshot k = v.value := by
      intro hk hs
      rw [readAt, newest, List.find?_cons_of_pos (by simpa using ⟨hk, hs⟩)]
      rfl
    -- the hidden key is not among the later ones
    have hgone : skip = some k → skip ≠ some v.key → readAt vs snapshot k = none := by
      intro hsk hsv
      have hlt : k < v.key := by
        apply lt_of_le_of_ne (hskip k hsk v List.mem_cons_self)
        rintro rfl
        exact hsv hsk
      rw [readAt, newest_eq_none_iff.mpr, Option.bind_none]
      intro w hw hwk
      have hle := h.hides_head v.key (Option.mem_some_iff.mpr rfl) w hw
      rw [hwk] at hle
      exact absurd hlt (not_lt.mpr hle)
    unfold viewFrom
    split
    · next hhidden =>
      rw [ih htail hskip.tail]
      by_cases hsk : skip = some k
      · rw [if_pos hsk, if_pos hsk]
      · rw [if_neg hsk, if_neg hsk, hother]
        rintro ⟨rfl, hs⟩
        rcases hhidden with hgt | hhid
        · omega
        · exact hsk hhid
    · next hvisible =>
      rw [not_or, not_lt] at hvisible
      have hrest := ih htail h.hides_head
      by_cases hk : v.key = k
      · have hsk : ¬ skip = some k := hk ▸ hvisible.2
        rw [if_pos (congrArg some hk)] at hrest
        rw [if_neg hsk, hfirst hk hvisible.1]
        cases v.value with
        | none => exact hrest
        | some x => rw [SortedMap.lookup_cons, if_pos hk]
      · have hread : (if skip = some k then none else readAt (v :: vs) snapshot k) =
            readAt vs snapshot k := by
          split
          · next hsk => rw [hgone hsk hvisible.2]
          · exact hother fun hv => hk hv.1
        rw [if_neg fun heq => hk (Option.some_inj.mp heq)] at hrest
        rw [hread, ← hrest]
        cases v.value with
        | none => rfl
        | some x => rw [SortedMap.lookup_cons, if_neg hk]

lemma viewFrom_cons_of_hidden {skip : Option κ} (h : snapshot < v.seq ∨ skip = some v.key) :
    viewFrom snapshot skip (v :: vs) = viewFrom snapshot skip vs := by
  rw [viewFrom, if_pos h]

lemma viewFrom_cons_of_seen {skip : Option κ} (hseen : v.seq ≤ snapshot)
    (hskip : skip ≠ some v.key) :
    viewFrom snapshot skip (v :: vs) =
      (v.value.map fun x => (v.key, x)).toList ++ viewFrom snapshot (some v.key) vs := by
  rw [viewFrom, if_neg (not_or.mpr ⟨not_lt.mpr hseen, hskip⟩)]
  cases v.value <;> rfl

/-- The key whose other versions are hidden behind these. -/
def lastSeen (snapshot : ℕ) : Option κ → List (Version κ ν) → Option κ
  | skip, [] => skip
  | skip, v :: vs => lastSeen snapshot (if v.seq ≤ snapshot then some v.key else skip) vs

lemma viewFrom_append (skip : Option κ) :
    viewFrom snapshot skip (vs ++ ws) =
      viewFrom snapshot skip vs ++ viewFrom snapshot (lastSeen snapshot skip vs) ws := by
  induction vs generalizing skip with
  | nil => rfl
  | cons v vs ih =>
    rw [List.cons_append, lastSeen]
    by_cases hseen : v.seq ≤ snapshot
    · rw [if_pos hseen]
      by_cases hskip : skip = some v.key
      · rw [viewFrom_cons_of_hidden (Or.inr hskip), viewFrom_cons_of_hidden (Or.inr hskip), ih,
          hskip]
      · rw [viewFrom_cons_of_seen hseen hskip, viewFrom_cons_of_seen hseen hskip, ih,
          List.append_assoc]
    · have hnew := Or.inl (b := skip = some v.key) (not_le.mp hseen)
      rw [if_neg hseen, viewFrom_cons_of_hidden hnew, viewFrom_cons_of_hidden hnew, ih]

/-- A hidden key that is not there hides nothing. -/
lemma viewFrom_of_ne {skip : Option κ} (h : ∀ v ∈ vs, v.seq ≤ snapshot → skip ≠ some v.key) :
    viewFrom snapshot skip vs = viewFrom snapshot none vs := by
  induction vs with
  | nil => rfl
  | cons v vs ih =>
    by_cases hseen : v.seq ≤ snapshot
    · rw [viewFrom_cons_of_seen hseen (h v List.mem_cons_self hseen),
        viewFrom_cons_of_seen hseen (Option.some_ne_none _).symm]
    · rw [viewFrom_cons_of_hidden (Or.inl (not_le.mp hseen)),
        viewFrom_cons_of_hidden (Or.inl (not_le.mp hseen)),
        ih fun w hw => h w (List.mem_cons_of_mem _ hw)]

/-- Where nothing is seen, nothing is seen with a hidden key. -/
lemma viewFrom_eq_nil (h : viewFrom snapshot none vs = []) (skip : Option κ) :
    viewFrom snapshot skip vs = [] := by
  induction vs with
  | nil => rfl
  | cons v vs ih =>
    by_cases hseen : v.seq ≤ snapshot
    · rw [viewFrom_cons_of_seen hseen (Option.some_ne_none _).symm] at h
      by_cases hskip : skip = some v.key
      · rw [viewFrom_cons_of_hidden (Or.inr hskip), hskip]
        exact (List.append_eq_nil_iff.mp h).2
      · rw [viewFrom_cons_of_seen hseen hskip]
        exact h
    · rw [viewFrom_cons_of_hidden (Or.inl (not_le.mp hseen))] at h ⊢
      exact ih h

/-- Versions that are too new are not seen. -/
lemma viewFrom_of_newer (h : ∀ v ∈ vs, snapshot < v.seq) (skip : Option κ) :
    viewFrom snapshot skip vs = [] ∧ lastSeen snapshot skip vs = skip := by
  induction vs with
  | nil => exact ⟨rfl, rfl⟩
  | cons v vs ih =>
    have hv := h v List.mem_cons_self
    rw [viewFrom_cons_of_hidden (Or.inl hv), lastSeen, if_neg (not_le.mpr hv)]
    exact ih fun w hw => h w (List.mem_cons_of_mem _ hw)

/-- What is seen are versions. -/
lemma mem_of_mem_viewFrom {skip : Option κ} {e : κ × ν} (h : e ∈ viewFrom snapshot skip vs) :
    ∃ v ∈ vs, v.seq ≤ snapshot ∧ v.key = e.1 := by
  induction vs generalizing skip with
  | nil => cases h
  | cons v vs ih =>
    have hlater : ∀ {skip}, e ∈ viewFrom snapshot skip vs →
        ∃ w ∈ v :: vs, w.seq ≤ snapshot ∧ w.key = e.1 := by
      intro skip he
      obtain ⟨w, hw, hw'⟩ := ih he
      exact ⟨w, List.mem_cons_of_mem _ hw, hw'⟩
    by_cases hhidden : snapshot < v.seq ∨ skip = some v.key
    · rw [viewFrom_cons_of_hidden hhidden] at h
      exact hlater h
    · rw [not_or, not_lt] at hhidden
      rw [viewFrom_cons_of_seen hhidden.1 hhidden.2] at h
      rcases List.mem_append.mp h with h | h
      · rw [Option.mem_toList, Option.map_eq_some_iff] at h
        obtain ⟨x, -, rfl⟩ := h
        exact ⟨v, List.mem_cons_self, hhidden.1, rfl⟩
      · exact hlater h

section

omit [LinearOrder κ]

lemma lastSeen_append (skip : Option κ) :
    lastSeen snapshot skip (vs ++ ws) = lastSeen snapshot (lastSeen snapshot skip vs) ws := by
  induction vs generalizing skip with
  | nil => rfl
  | cons v vs ih =>
    rw [List.cons_append, lastSeen, ih, lastSeen]

lemma lastSeen_eq_or (skip : Option κ) :
    lastSeen snapshot skip vs = (lastSeen snapshot none vs).or skip := by
  induction vs generalizing skip with
  | nil => rfl
  | cons v vs ih =>
    rw [lastSeen, lastSeen]
    by_cases hseen : v.seq ≤ snapshot
    · rw [if_pos hseen, if_pos hseen, ih]
      cases lastSeen snapshot none vs <;> rfl
    · rw [if_neg hseen, if_neg hseen, ih]

/-- The last key that was seen is one of theirs. -/
lemma mem_of_lastSeen (h : lastSeen snapshot none vs = some k) :
    ∃ v ∈ vs, v.seq ≤ snapshot ∧ v.key = k := by
  induction vs with
  | nil => cases h
  | cons v vs ih =>
    have hlater : lastSeen snapshot none vs = some k →
        ∃ w ∈ v :: vs, w.seq ≤ snapshot ∧ w.key = k := by
      intro h
      obtain ⟨w, hw, hw'⟩ := ih h
      exact ⟨w, List.mem_cons_of_mem _ hw, hw'⟩
    rw [lastSeen, lastSeen_eq_or] at h
    cases hrest : lastSeen snapshot none vs with
    | some k' =>
      rw [hrest] at h
      exact hlater (hrest.trans h)
    | none =>
      rw [hrest, Option.none_or] at h
      split at h
      · next hseen => exact ⟨v, List.mem_cons_self, hseen, Option.some_inj.mp h⟩
      · cases h

end

/-- Before a key is seen for the first time its versions are all too new. -/
lemma newer_of_lastSeen_ne {skip : Option κ} (hkey : ∀ v ∈ vs, v.key = k)
    (h : lastSeen snapshot skip vs ≠ some k) : ∀ v ∈ vs, snapshot < v.seq := by
  induction vs generalizing skip with
  | nil => simp
  | cons v vs ih =>
    have hnewer := ih (fun w hw => hkey w (List.mem_cons_of_mem _ hw)) h
    intro w hw
    rcases List.mem_cons.mp hw with rfl | hw
    · by_contra hseen
      rw [lastSeen, if_pos (not_lt.mp hseen), (viewFrom_of_newer hnewer _).2] at h
      exact h (congrArg some (hkey w List.mem_cons_self))
    · exact hnewer w hw

/-- A store as a snapshot sees it. -/
def view (vs : List (Version κ ν)) (h : Sorted vs) (snapshot : ℕ) : SortedMap κ ν :=
  ⟨viewFrom snapshot none vs, h.ascending_viewFrom none⟩

lemma get_view (h : Sorted vs) : (view vs h snapshot).get k = readAt vs snapshot k := by
  have hskip : Hides (none : Option κ) vs := by
    intro k hk
    cases hk
  rw [SortedMap.get, view, h.lookup_viewFrom hskip]
  simp

/-! ## Superseded versions -/

/-- The snapshot sees a newer version of the same key. -/
def Superseded (vs : List (Version κ ν)) (snapshot : ℕ) (v : Version κ ν) : Prop :=
  ∃ u ∈ vs, u.key = v.key ∧ v.seq < u.seq ∧ u.seq ≤ snapshot

omit [LinearOrder κ] in
/-- What is the newest version for a snapshot is superseded for no older one. -/
lemma IsNewest.not_superseded (h : IsNewest vs snapshot k v) {older : ℕ} (hle : older ≤ snapshot) :
    ¬ Superseded vs older v := by
  rintro ⟨u, hu, hkey, hlt, hseq⟩
  exact absurd hlt (not_lt.mpr (h.newest u hu (hkey.trans h.key_eq) (hseq.trans hle)))

/-- Keys ascend. -/
lemma Sorted.key_le {u : Version κ ν} (h : Sorted (u :: vs)) (hv : v ∈ vs) : u.key ≤ v.key := by
  rcases place_lt_iff.mp ((List.pairwise_cons.mp h).1 v hv) with hlt | ⟨heq, -⟩
  · exact le_of_lt hlt
  · exact le_of_eq heq

/-- The versions of a key are behind the newer ones. -/
lemma Sorted.seq_lt {u : Version κ ν} (h : Sorted (u :: vs)) (hv : v ∈ vs) (hkey : u.key = v.key) :
    v.seq < u.seq := by
  rcases place_lt_iff.mp ((List.pairwise_cons.mp h).1 v hv) with hlt | ⟨-, hlt⟩
  · exact absurd hkey (ne_of_lt hlt)
  · exact hlt

/-- Nothing supersedes the first version. -/
lemma Sorted.not_superseded_head (h : Sorted (v :: vs)) : ¬ Superseded (v :: vs) snapshot v := by
  rintro ⟨u, hu, hkey, hlt, -⟩
  rcases List.mem_cons.mp hu with rfl | hu
  · exact lt_irrefl _ hlt
  · exact lt_asymm hlt (h.seq_lt hu hkey.symm)

/-- The others may be superseded by the first one. -/
lemma Sorted.superseded_cons {u : Version κ ν} (h : Sorted (u :: vs)) (hv : v ∈ vs) :
    Superseded (u :: vs) snapshot v ↔
      (u.key = v.key ∧ u.seq ≤ snapshot) ∨ Superseded vs snapshot v := by
  constructor
  · rintro ⟨w, hw, hkey, hlt, hle⟩
    rcases List.mem_cons.mp hw with rfl | hw
    · exact Or.inl ⟨hkey, hle⟩
    · exact Or.inr ⟨w, hw, hkey, hlt, hle⟩
  · rintro (⟨hkey, hle⟩ | ⟨w, hw, hkey, hlt, hle⟩)
    · exact ⟨u, List.mem_cons_self, hkey, h.seq_lt hv hkey, hle⟩
    · exact ⟨w, List.mem_cons_of_mem u hw, hkey, hlt, hle⟩

/-! ## Several stores -/

/-- What comes first has the newer versions. -/
def NewerFirst (stores : List (List (Version κ ν))) : Prop :=
  stores.Pairwise fun vs ws => ∀ v ∈ vs, ∀ w ∈ ws, v.key = w.key → w.seq < v.seq

/-- Stores that are asked one after another answer as one that has all their versions. -/
lemma findSome?_newest {stores : List (List (Version κ ν))} (hsorted : ∀ ws ∈ stores, Sorted ws)
    (hnewer : NewerFirst stores) {vs : List (Version κ ν)} (hvs : Sorted vs)
    (hperm : vs.Perm stores.flatten) (snapshot : ℕ) (k : κ) :
    (stores.findSome? fun ws => newest ws snapshot k) = newest vs snapshot k := by
  have hmem : ∀ {w}, w ∈ vs ↔ ∃ ws ∈ stores, w ∈ ws := by
    intro w
    rw [hperm.mem_iff, List.mem_flatten]
  symm
  cases hfound : stores.findSome? fun ws => newest ws snapshot k with
  | none =>
    rw [List.findSome?_eq_none_iff] at hfound
    rw [newest_eq_none_iff]
    intro w hw
    obtain ⟨ws, hws, hw⟩ := hmem.mp hw
    exact newest_eq_none_iff.mp (hfound ws hws) w hw
  | some v =>
    obtain ⟨front, ws, back, hstores, hv, hnone⟩ := List.findSome?_eq_some_iff.mp hfound
    have hws : ws ∈ stores := by simp [hstores]
    have hnewest := (hsorted ws hws).newest_eq_some_iff.mp hv
    rw [hstores] at hnewer
    have hback := (List.pairwise_cons.mp (List.pairwise_append.mp hnewer).2.1).1
    rw [hvs.newest_eq_some_iff]
    refine ⟨hmem.mpr ⟨ws, hws, hnewest.mem⟩, hnewest.key_eq, hnewest.seq_le,
      fun w hw hkey hseq => ?_⟩
    obtain ⟨us, hus, hw⟩ := hmem.mp hw
    rw [hstores] at hus
    rcases List.mem_append.mp hus with hfront | hus
    · -- a store in front has nothing that is seen
      have hlt := newest_eq_none_iff.mp (hnone us hfront) w hw hkey
      omega
    · rcases List.mem_cons.mp hus with rfl | hus
      · exact hnewest.newest w hw hkey hseq
      · exact le_of_lt (hback us hus v hnewest.mem w hw (by rw [hnewest.key_eq, hkey]))

lemma NewerFirst.exists_sorted {stores : List (List (Version κ ν))} (hnewer : NewerFirst stores)
    (hsorted : ∀ ws ∈ stores, Sorted ws) : ∃ vs, Sorted vs ∧ vs.Perm stores.flatten := by
  have hne : stores.flatten.Pairwise fun a b => a.place ≠ b.place := by
    rw [List.pairwise_flatten]
    refine ⟨fun ws hws => (hsorted ws hws).imp fun hlt => ne_of_lt hlt, hnewer.imp ?_⟩
    intro us ws h v hv w hw heq
    obtain ⟨hkey, hseq⟩ := place_eq_iff.mp heq
    exact absurd hseq (ne_of_gt (h v hv w hw hkey))
  let r : Version κ ν → Version κ ν → Prop := fun a b => a.place ≤ b.place
  have htotal : Std.Total r := ⟨fun a b => le_total a.place b.place⟩
  have htrans : IsTrans _ r := ⟨fun a b c => le_trans⟩
  have hperm := List.perm_insertionSort r stores.flatten
  refine ⟨stores.flatten.insertionSort r, ?_, hperm⟩
  have hle := List.pairwise_insertionSort r stores.flatten
  have hne' := (hperm.pairwise_iff fun h => Ne.symm h).mpr hne
  exact (hle.and hne').imp fun h => lt_of_le_of_ne h.1 h.2

end Versions

namespace SortedMap

variable {κ ν : Type*} [LinearOrder κ]

lemma Ascending.nodup {es : List (κ × ν)} (h : Ascending es) : es.Nodup :=
  h.imp fun hlt heq => absurd (congrArg Prod.fst heq) (ne_of_lt hlt)

/-- A map is determined by what it holds. -/
lemma eq_of_get {m m' : SortedMap κ ν} (h : ∀ k, m.get k = m'.get k) : m = m' := by
  have hmem : ∀ e, e ∈ m.entries ↔ e ∈ m'.entries := by
    intro e
    rw [← m.get_eq_some_iff (k := e.1) (v := e.2), ← m'.get_eq_some_iff (k := e.1) (v := e.2), h]
  have hperm : m.entries.Perm m'.entries :=
    (List.perm_ext_iff_of_nodup m.ascending.nodup m'.ascending.nodup).mpr hmem
  have hentries : m.entries = m'.entries :=
    hperm.eq_of_pairwise (fun a b _ _ hab hba => absurd hab (lt_asymm hba)) m.ascending m'.ascending
  cases m
  cases m'
  cases hentries
  rfl

end SortedMap
