import RnLeveldb.Engine.WriteQueue
import RnLeveldb.Engine.DbIter

/-!
# `DBImpl::DoCompactionWork`

A compaction goes over the entries of some tables in order and writes those that a read may still
need to new tables. An entry is dropped if a newer one of its key is there for the oldest snapshot
already, or if it is a deletion under which no older level has anything.

Of the tables of the deeper levels the ranges are known. Where one output ends and the next begins
is an input. A compaction that fails or is shut down installs nothing and is left out.
-/

namespace RnLeveldb

namespace Engine

open Versions

/-- The internal keys between which a table has its entries. -/
structure FileMetaData where
  smallest : Bytes
  largest : Bytes
deriving DecidableEq

/-- The files that `level_ptrs_` is advanced over. -/
def passFiles (userKey : Bytes) (files : List FileMetaData) : List FileMetaData :=
  files.dropWhile fun f => compareSlices userKey (extractUserKey f.largest) = .gt

/-- Of each deeper level the files from `level_ptrs_` on are the state. -/
def isBaseLevelForKey (userKey : Bytes) :
    List (List FileMetaData) → Bool × List (List FileMetaData)
  | [] => (true, [])
  | files :: levels =>
    let files := passFiles userKey files
    if files.head?.any fun f => compareSlices userKey (extractUserKey f.smallest) ≠ .lt then
      (false, files :: levels)
    else
      let (base, levels) := isBaseLevelForKey userKey levels
      (base, files :: levels)

/-- What the loop knows of the entries it has passed. -/
structure DropState where
  /-- `none` if `has_current_user_key` is false. -/
  currentUserKey : Option Bytes
  lastSequenceForKey : ℕ
  levels : List (List FileMetaData)

namespace DropState

/-- `userKey` is the key of the entry. -/
def enter (d : DropState) (userKey : Bytes) : DropState :=
  if d.currentUserKey.any fun current => compareSlices userKey current = .eq then d
  else { d with currentUserKey := some userKey, lastSequenceForKey := kMaxSequenceNumber }

def shouldDrop (d : DropState) (smallestSnapshot : ℕ) (e : InternalEntry) : Bool × DropState :=
  match parseInternalKey e.1 with
  | none =>
    -- error keys are not hidden
    (false, { d with currentUserKey := none, lastSequenceForKey := kMaxSequenceNumber })
  | some ikey =>
    let d := d.enter ikey.userKey
    if d.lastSequenceForKey ≤ smallestSnapshot then
      (true, { d with lastSequenceForKey := ikey.sequence })
    else if ikey.type = .deletion ∧ ikey.sequence ≤ smallestSnapshot then
      let (base, levels) := isBaseLevelForKey ikey.userKey d.levels
      (base, { d with levels := levels, lastSequenceForKey := ikey.sequence })
    else (false, { d with lastSequenceForKey := ikey.sequence })

end DropState

/-- A table that is written. -/
structure Output extends FileMetaData where
  entries : List InternalEntry

namespace Output

def opened : Output := ⟨⟨[], []⟩, []⟩

def add (out : Output) (e : InternalEntry) : Output where
  smallest := if out.entries.isEmpty then e.1 else out.smallest
  largest := e.1
  entries := out.entries ++ [e]

end Output

/-- Before which entries `ShouldStopBefore` wants a new output, and after which the output is big
enough, by the number of the entry. -/
structure OutputLimits where
  stopBefore : ℕ → Bool
  full : ℕ → Bool

structure CompactionState where
  drops : DropState
  outputs : List Output
  builder : Option Output

namespace CompactionState

def new (levels : List (List FileMetaData)) : CompactionState where
  drops := ⟨none, kMaxSequenceNumber, levels⟩
  outputs := []
  builder := none

/-- `FinishCompactionOutputFile`, if an output is open. -/
def finish (st : CompactionState) : CompactionState :=
  match st.builder with
  | none => st
  | some out => { st with outputs := st.outputs ++ [out], builder := none }

def add (st : CompactionState) (e : InternalEntry) : CompactionState :=
  { st with builder := some ((st.builder.getD .opened).add e) }

end CompactionState

/-- The body of the loop. `n` is the number of the entry. -/
def compactEntry (limits : OutputLimits) (smallestSnapshot n : ℕ) (st : CompactionState)
    (e : InternalEntry) : CompactionState :=
  let st := if limits.stopBefore n then st.finish else st
  let r := st.drops.shouldDrop smallestSnapshot e
  let st := { st with drops := r.2 }
  if r.1 then st
  else
    let st := st.add e
    if limits.full n then st.finish else st

def compactLoop (limits : OutputLimits) (smallestSnapshot : ℕ) :
    ℕ → CompactionState → List InternalEntry → CompactionState
  | _, st, [] => st
  | n, st, e :: es =>
    compactLoop limits smallestSnapshot (n + 1) (compactEntry limits smallestSnapshot n st e) es

/-- `snapshots` are the numbers of the snapshots in the list, the oldest first. -/
def smallestSnapshot (snapshots : List ℕ) (lastSequence : ℕ) : ℕ :=
  snapshots.head?.getD lastSequence

/-- The outputs of a compaction of these entries. `levels` are the levels under its own. -/
def doCompactionWork (limits : OutputLimits) (snapshots : List ℕ) (lastSequence : ℕ)
    (levels : List (List FileMetaData)) (entries : List InternalEntry) : List Output :=
  let st := compactLoop limits (smallestSnapshot snapshots lastSequence) 0 (.new levels) entries
  st.finish.outputs

/-! ## What is written -/

/-- All outputs, of which one may be open. -/
def CompactionState.all (st : CompactionState) : List Output := st.outputs ++ st.builder.toList

/-- The keys of an output are those of its first and its last entry. -/
structure Output.Bounded (out : Output) : Prop where
  smallest : out.entries.head?.map Prod.fst = some out.smallest
  largest : out.entries.getLast?.map Prod.fst = some out.largest

/-- What was written so far. -/
structure Written (st : CompactionState) (es : List InternalEntry) : Prop where
  entries : st.all.flatMap Output.entries = es
  bounded : ∀ out ∈ st.all, out.Bounded

/-- The entries that are not dropped. -/
def kept (smallestSnapshot : ℕ) : DropState → List InternalEntry → List InternalEntry
  | _, [] => []
  | d, e :: es =>
    let r := d.shouldDrop smallestSnapshot e
    if r.1 then kept smallestSnapshot r.2 es else e :: kept smallestSnapshot r.2 es

section

variable {st : CompactionState} {es : List InternalEntry}

lemma Output.Bounded.add {out : Output} (h : out.entries = [] ∨ out.Bounded) (e : InternalEntry) :
    (out.add e).Bounded := by
  refine ⟨?_, by simp [Output.add]⟩
  rcases h with hnil | hbounded
  · simp [Output.add, hnil]
  · have hsmallest := hbounded.smallest
    cases hentries : out.entries with
    | nil => simp [hentries] at hsmallest
    | cons f fs =>
      rw [hentries] at hsmallest
      simpa [Output.add, hentries] using hsmallest

lemma all_finish : st.finish.all = st.all := by
  unfold CompactionState.finish CompactionState.all
  cases hbuilder : st.builder <;> simp [hbuilder]

lemma outputs_finish : st.finish.outputs = st.all := by
  unfold CompactionState.finish CompactionState.all
  cases hbuilder : st.builder <;> simp

lemma drops_finish : st.finish.drops = st.drops := by
  unfold CompactionState.finish
  split <;> rfl

lemma Written.finish (h : Written st es) : Written st.finish es :=
  ⟨by rw [all_finish]; exact h.entries, by rw [all_finish]; exact h.bounded⟩

lemma Written.add (h : Written st es) (e : InternalEntry) : Written (st.add e) (es ++ [e]) := by
  obtain ⟨hentries, hbounded⟩ := h
  have hall : st.all = st.outputs ++ st.builder.toList := rfl
  have hadd : (st.add e).all = st.outputs ++ [(st.builder.getD .opened).add e] := rfl
  rw [hall] at hentries hbounded
  refine ⟨?_, fun out hout => ?_⟩
  · rw [hadd, ← hentries]
    cases st.builder <;> simp [Output.add, Output.opened]
  · rw [hadd, List.mem_append, List.mem_singleton] at hout
    rcases hout with hout | rfl
    · exact hbounded out (List.mem_append_left _ hout)
    · apply Output.Bounded.add
      cases hbuilder : st.builder with
      | none => exact Or.inl rfl
      | some out => exact Or.inr (hbounded out (by simp [hbuilder]))

lemma Written.compactEntry (h : Written st es) (limits : OutputLimits) (s n : ℕ)
    (e : InternalEntry) :
    (compactEntry limits s n st e).drops = (st.drops.shouldDrop s e).2 ∧
      Written (compactEntry limits s n st e)
        (if (st.drops.shouldDrop s e).1 then es else es ++ [e]) := by
  unfold Engine.compactEntry
  have hstop : (if limits.stopBefore n then st.finish else st).drops = st.drops ∧
      Written (if limits.stopBefore n then st.finish else st) es := by
    split
    · exact ⟨drops_finish, h.finish⟩
    · exact ⟨rfl, h⟩
  generalize (if limits.stopBefore n then st.finish else st) = st' at hstop
  obtain ⟨hdrops, hwritten⟩ := hstop
  dsimp only
  rw [hdrops]
  have hset : Written { st' with drops := (st.drops.shouldDrop s e).2 } es :=
    ⟨hwritten.entries, hwritten.bounded⟩
  split
  · exact ⟨rfl, hset⟩
  · split
    · exact ⟨drops_finish, (hset.add e).finish⟩
    · exact ⟨rfl, hset.add e⟩

lemma Written.compactLoop (h : Written st es) (limits : OutputLimits) (s n : ℕ)
    (input : List InternalEntry) :
    Written (compactLoop limits s n st input) (es ++ kept s st.drops input) := by
  induction input generalizing n st es with
  | nil =>
    rw [kept, List.append_nil]
    exact h
  | cons e input ih =>
    obtain ⟨hdrops, hwritten⟩ := h.compactEntry limits s n e
    have hrest := ih hwritten (n + 1)
    rw [hdrops] at hrest
    rw [kept]
    split
    · next hdrop =>
      rw [if_pos hdrop] at hrest
      exact hrest
    · next hdrop =>
      rw [if_neg hdrop, List.append_assoc, List.singleton_append] at hrest
      exact hrest

/-- The outputs have the entries that are not dropped. -/
lemma written_doCompactionWork (limits : OutputLimits) (snapshots : List ℕ) (lastSequence : ℕ)
    (levels : List (List FileMetaData)) (input : List InternalEntry) :
    (doCompactionWork limits snapshots lastSequence levels input).flatMap Output.entries =
        kept (smallestSnapshot snapshots lastSequence) ⟨none, kMaxSequenceNumber, levels⟩ input ∧
      ∀ out ∈ doCompactionWork limits snapshots lastSequence levels input, out.Bounded := by
  have hnew : Written (.new levels) [] := ⟨rfl, by simp [CompactionState.all, CompactionState.new]⟩
  have hall := hnew.compactLoop limits (smallestSnapshot snapshots lastSequence) 0 input
  rw [doCompactionWork, outputs_finish]
  exact ⟨hall.entries, hall.bounded⟩

end

/-! ## The base level -/

/-- A table of a level may have entries of the key. -/
def CoveredIn (files : List FileMetaData) (key : Bytes) : Prop :=
  ∃ f ∈ files, extractUserKey f.smallest ≤ key ∧ key ≤ extractUserKey f.largest

def Covered (levels : List (List FileMetaData)) (key : Bytes) : Prop :=
  ∃ files ∈ levels, CoveredIn files key

/-- The tables of a level are in the order of their keys. Two that are next to each other may have
versions of one key. -/
structure Level (files : List FileMetaData) : Prop where
  bounded : ∀ f ∈ files, extractUserKey f.smallest ≤ extractUserKey f.largest
  ascending : files.Pairwise fun f g => extractUserKey f.largest ≤ extractUserKey g.smallest

lemma Level.passFiles {files : List FileMetaData} (h : Level files) (key : Bytes) :
    Level (passFiles key files) :=
  ⟨fun f hf => h.bounded f ((List.dropWhile_sublist _).subset hf),
    h.ascending.sublist (List.dropWhile_sublist _)⟩

/-- The files that are passed have none of the keys to come. -/
lemma coveredIn_passFiles {files : List FileMetaData} {key key' : Bytes} (hle : key ≤ key') :
    CoveredIn (passFiles key files) key' ↔ CoveredIn files key' := by
  induction files with
  | nil => rfl
  | cons f files ih =>
    rw [passFiles, List.dropWhile_cons]
    split
    · next hpass =>
      rw [decide_eq_true_iff, compareSlices_eq_gt] at hpass
      rw [passFiles] at ih
      rw [ih]
      constructor
      · rintro ⟨g, hg, hin⟩
        exact ⟨g, List.mem_cons_of_mem _ hg, hin⟩
      · rintro ⟨g, hg, hin⟩
        rcases List.mem_cons.mp hg with rfl | hg
        · exact absurd (lt_of_lt_of_le hpass hle) (not_lt.mpr hin.2)
        · exact ⟨g, hg, hin⟩
    · rfl

/-- The first file that is not passed is the only one to look at. -/
lemma coveredIn_iff_head {files : List FileMetaData} (h : Level files) {key : Bytes} :
    CoveredIn files key ↔ (passFiles key files).head?.any
      (fun f => compareSlices key (extractUserKey f.smallest) ≠ .lt) = true := by
  rw [← coveredIn_passFiles (le_refl key)]
  have hlevel := h.passFiles key
  cases hpass : passFiles key files with
  | nil => simp [CoveredIn]
  | cons f rest =>
    have hf : key ≤ extractUserKey f.largest := by
      have hhead := List.head?_dropWhile_not
        (fun f : FileMetaData => decide (compareSlices key (extractUserKey f.largest) = .gt)) files
      have hdrop : files.dropWhile (fun f : FileMetaData =>
        decide (compareSlices key (extractUserKey f.largest) = .gt)) = f :: rest := hpass
      rw [hdrop] at hhead
      simpa [compareSlices_eq_gt] using hhead
    rw [hpass] at hlevel
    rw [List.head?_cons, Option.any_some, decide_eq_true_iff, Ne, compareSlices_eq_lt, not_lt]
    constructor
    · rintro ⟨g, hg, hsmallest, -⟩
      rcases List.mem_cons.mp hg with rfl | hg
      · exact hsmallest
      · exact le_trans (hlevel.bounded f List.mem_cons_self)
          (le_trans ((List.pairwise_cons.mp hlevel.ascending).1 g hg) hsmallest)
    · exact fun hsmallest => ⟨f, List.mem_cons_self, hsmallest, hf⟩

lemma covered_cons {files : List FileMetaData} {levels : List (List FileMetaData)} {key : Bytes} :
    Covered (files :: levels) key ↔ CoveredIn files key ∨ Covered levels key := by
  simp [Covered]

/-- The keys that are asked for ascend, so no file is passed that is needed later. -/
lemma isBaseLevelForKey_spec {levels : List (List FileMetaData)}
    (h : ∀ files ∈ levels, Level files) (key : Bytes) :
    ((isBaseLevelForKey key levels).1 = true ↔ ¬ Covered levels key) ∧
      (∀ files ∈ (isBaseLevelForKey key levels).2, Level files) ∧
      ∀ key', key ≤ key' →
        (Covered (isBaseLevelForKey key levels).2 key' ↔ Covered levels key') := by
  induction levels with
  | nil => simp [isBaseLevelForKey, Covered]
  | cons files levels ih =>
    obtain ⟨hfiles, hlevels⟩ := List.forall_mem_cons.mp h
    obtain ⟨hbase, hleft, hcovered⟩ := ih hlevels
    rw [isBaseLevelForKey, covered_cons, coveredIn_iff_head hfiles]
    split
    · next hhead =>
      refine ⟨iff_of_false Bool.false_ne_true (not_not.mpr (Or.inl hhead)),
        List.forall_mem_cons.mpr ⟨hfiles.passFiles key, hlevels⟩, fun key' hle => ?_⟩
      rw [covered_cons, covered_cons, coveredIn_passFiles hle]
    · next hhead =>
      refine ⟨?_, List.forall_mem_cons.mpr ⟨hfiles.passFiles key, hleft⟩, fun key' hle => ?_⟩
      · rw [hbase, not_or]
        exact (and_iff_right hhead).symm
      · rw [covered_cons, coveredIn_passFiles hle, hcovered key' hle, ← covered_cons]

/-! ## What is dropped -/

/-- The next entries of the key are hidden from all snapshots. -/
def Hidden (s : ℕ) (d : DropState) (key : Bytes) : Prop :=
  d.currentUserKey = some key ∧ d.lastSequenceForKey ≤ s

section

variable {s : ℕ} {d : DropState} {v : Version Bytes Bytes} {vs out : List (Version Bytes Bytes)}
  {levels : List (List FileMetaData)}

lemma enter_spec (d : DropState) (key : Bytes) :
    (d.enter key).currentUserKey = some key ∧ (d.enter key).levels = d.levels ∧
      (s < kMaxSequenceNumber → ((d.enter key).lastSequenceForKey ≤ s ↔ Hidden s d key)) := by
  unfold DropState.enter Hidden
  cases hcurrent : d.currentUserKey with
  | none =>
    refine ⟨rfl, rfl, fun hs => iff_of_false (not_le.mpr hs) fun h => ?_⟩
    cases h.1
  | some current =>
    rw [Option.any_some]
    split
    · next hkey =>
      rw [decide_eq_true_iff, compareSlices_eq_eq] at hkey
      rw [hkey]
      exact ⟨hcurrent, rfl, fun _ => (and_iff_right rfl).symm⟩
    · next hkey =>
      rw [decide_eq_true_iff, compareSlices_eq_eq] at hkey
      refine ⟨rfl, rfl, fun hs => iff_of_false (not_le.mpr hs) fun h => ?_⟩
      exact hkey (Option.some_inj.mp h.1).symm

/-- What is done with an entry. -/
structure Handled (s : ℕ) (d : DropState) (v : Version Bytes Bytes) (r : Bool × DropState) :
    Prop where
  currentUserKey : r.2.currentUserKey = some v.key
  lastSequenceForKey : r.2.lastSequenceForKey = v.seq
  dropped : r.1 = true ↔
    Hidden s d v.key ∨ v.value = none ∧ v.seq ≤ s ∧ ¬ Covered d.levels v.key
  ascending : ∀ files ∈ r.2.levels, Level files
  covered : ∀ key, v.key ≤ key → (Covered r.2.levels key ↔ Covered d.levels key)

lemma versionType_eq_deletion : versionType v = .deletion ↔ v.value = none := by
  cases hvalue : v.value <;> simp [versionType, hvalue]

/-- An entry is dropped if its key is hidden, or if it is a deletion that is old enough and has
nothing under it. -/
lemma handled_shouldDrop (hs : s < kMaxSequenceNumber) (hascending : ∀ files ∈ d.levels, Level files)
    (hv : v.seq ≤ kMaxSequenceNumber) : Handled s d v (d.shouldDrop s (internalEntry v)) := by
  obtain ⟨hcurrent, hlevels, hlast⟩ := enter_spec (s := s) d v.key
  rw [DropState.shouldDrop, internalEntry, parseInternalKey_append hv]
  dsimp only
  split
  · next hhidden =>
    refine ⟨hcurrent, rfl, iff_of_true rfl (Or.inl ((hlast hs).mp hhidden)), ?_, fun key _ => ?_⟩
    · dsimp only
      rwa [hlevels]
    · dsimp only
      rw [hlevels]
  · next hhidden =>
    rw [hlast hs] at hhidden
    rw [hlevels]
    split
    · next hdeletion =>
      obtain ⟨hbase, hleft, hsame⟩ := isBaseLevelForKey_spec hascending v.key
      refine ⟨hcurrent, rfl, ?_, hleft, hsame⟩
      rw [or_iff_right hhidden, and_iff_right (versionType_eq_deletion.mp hdeletion.1),
        and_iff_right hdeletion.2]
      exact hbase
    · next hdeletion =>
      refine ⟨hcurrent, rfl, iff_of_false Bool.false_ne_true ?_, ?_, fun key _ => ?_⟩
      · rintro (hin | ⟨hvalue, hseq, -⟩)
        · exact hhidden hin
        · exact hdeletion ⟨versionType_eq_deletion.mpr hvalue, hseq⟩
      · exact hascending
      · exact Iff.rfl

/-- What the loop knows at these versions. `levels` are the levels that it began with. -/
structure Behind (levels : List (List FileMetaData)) (d : DropState)
    (vs : List (Version Bytes Bytes)) : Prop where
  seq_le : ∀ v ∈ vs, d.currentUserKey = some v.key → v.seq ≤ d.lastSequenceForKey
  key_le : ∀ key ∈ d.currentUserKey, ∀ v ∈ vs, key ≤ v.key
  ascending : ∀ files ∈ d.levels, Level files
  covered : ∀ v ∈ vs, (Covered d.levels v.key ↔ Covered levels v.key)

/-- The loop goes on to the next entry. -/
lemma Behind.step (h : Behind levels d (v :: vs)) (hsorted : Sorted (v :: vs))
    {r : Bool × DropState} (hr : Handled s d v r) : Behind levels r.2 vs := by
  refine ⟨fun u hu hcurrent => ?_, fun key hcurrent u hu => ?_, hr.ascending, fun u hu => ?_⟩
  · rw [hr.currentUserKey, Option.some_inj] at hcurrent
    rw [hr.lastSequenceForKey]
    exact le_of_lt (hsorted.seq_lt hu hcurrent)
  · rw [hr.currentUserKey] at hcurrent
    rw [← Option.mem_some_iff.mp hcurrent]
    exact hsorted.key_le hu
  · exact (hr.covered u.key (hsorted.key_le hu)).trans (h.covered u (List.mem_cons_of_mem v hu))

/-- What no read at `s` or later needs: a version that is superseded for `s`, and a deletion that
`s` sees if no deeper level may have entries of its key. -/
def Obsolete (s : ℕ) (levels : List (List FileMetaData)) (vs : List (Version Bytes Bytes))
    (v : Version Bytes Bytes) : Prop :=
  Superseded vs s v ∨ v.value = none ∧ v.seq ≤ s ∧ ¬ Covered levels v.key

/-- Behind an entry, its key is hidden if the entry is seen by `s`; a key that was hidden in front
of it is hidden still, as it can only be the same. -/
lemma Behind.hidden_or_obsolete (h : Behind levels d (v :: vs)) (hsorted : Sorted (v :: vs))
    {r : Bool × DropState} (hr : Handled s d v r) {u : Version Bytes Bytes} (hu : u ∈ vs) :
    Hidden s r.2 u.key ∨ Obsolete s levels vs u ↔
      Hidden s d u.key ∨ Obsolete s levels (v :: vs) u := by
  have hhidden : Hidden s r.2 u.key ↔ v.key = u.key ∧ v.seq ≤ s := by
    rw [Hidden, hr.currentUserKey, hr.lastSequenceForKey, Option.some_inj]
  have hstill : Hidden s d u.key → v.key = u.key ∧ v.seq ≤ s := by
    rintro ⟨hcurrent, hlast⟩
    have hle := h.key_le u.key hcurrent v List.mem_cons_self
    have hkey : v.key = u.key := le_antisymm (hsorted.key_le hu) hle
    rw [← hkey] at hcurrent
    exact ⟨hkey, (h.seq_le v List.mem_cons_self hcurrent).trans hlast⟩
  rw [hhidden, Obsolete, Obsolete, hsorted.superseded_cons hu]
  constructor
  · rintro (hin | hsuperseded | hdeletion)
    · exact Or.inr (Or.inl (Or.inl hin))
    · exact Or.inr (Or.inl (Or.inr hsuperseded))
    · exact Or.inr (Or.inr hdeletion)
  · rintro (hin | (hin | hsuperseded) | hdeletion)
    · exact Or.inl (hstill hin)
    · exact Or.inl hin
    · exact Or.inr (Or.inl hsuperseded)
    · exact Or.inr (Or.inr hdeletion)

/-- The loop keeps what is not obsolete, in the order of the input. What it has passed may hide
the key it is at. -/
lemma kept_spec (hs : s < kMaxSequenceNumber) (hvs : Encoded vs) (h : Behind levels d vs) :
    ∃ out : List (Version Bytes Bytes),
      kept s d (vs.map internalEntry) = out.map internalEntry ∧ out.Sublist vs ∧
      ∀ v ∈ vs, v ∈ out ↔ ¬ (Hidden s d v.key ∨ Obsolete s levels vs v) := by
  induction vs generalizing d with
  | nil => exact ⟨[], rfl, List.Sublist.refl _, by simp⟩
  | cons v vs ih =>
    have hr := handled_shouldDrop hs h.ascending (hvs.seq_le v List.mem_cons_self)
    have hrest : Encoded vs := ⟨(List.pairwise_cons.mp hvs.sorted).2,
      fun u hu => hvs.seq_le u (List.mem_cons_of_mem _ hu)⟩
    obtain ⟨out, hkept, hsub, hmem⟩ := ih hrest (h.step hvs.sorted hr)
    have hnot : v ∉ vs := fun hin => lt_irrefl _ ((List.pairwise_cons.mp hvs.sorted).1 v hin)
    have hhead : (d.shouldDrop s (internalEntry v)).1 = true ↔
        Hidden s d v.key ∨ Obsolete s levels (v :: vs) v := by
      rw [hr.dropped, h.covered v List.mem_cons_self, Obsolete,
        or_iff_right hvs.sorted.not_superseded_head]
    have htail : ∀ u ∈ vs, u ∈ out ↔ ¬ (Hidden s d u.key ∨ Obsolete s levels (v :: vs) u) := by
      intro u hu
      rw [hmem u hu, h.hidden_or_obsolete hvs.sorted hr hu]
    rw [List.map_cons, kept, hkept]
    cases hdrop : (d.shouldDrop s (internalEntry v)).1 with
    | true =>
      refine ⟨out, rfl, hsub.cons v, List.forall_mem_cons.mpr ⟨?_, htail⟩⟩
      exact iff_of_false (fun hin => hnot (hsub.subset hin)) (not_not.mpr (hhead.mp hdrop))
    | false =>
      refine ⟨v :: out, rfl, hsub.cons_cons v, List.forall_mem_cons.mpr ⟨?_, fun u hu => ?_⟩⟩
      · refine iff_of_true List.mem_cons_self fun hin => ?_
        rw [hhead.mpr hin] at hdrop
        cases hdrop
      · have hne : u ≠ v := fun heq => hnot (heq ▸ hu)
        rw [List.mem_cons, or_iff_right hne, htail u hu]

/-- What a read misses once the obsolete versions are gone is a deletion with nothing under it. -/
lemma newest_of_kept (hvs : Sorted vs) (hsub : out.Sublist vs)
    (hmem : ∀ v ∈ vs, v ∈ out ↔ ¬ Obsolete s levels vs v) {t : ℕ} (hst : s ≤ t) (key : Bytes) :
    newest out t key = newest vs t key ∨
      newest out t key = none ∧ ¬ Covered levels key ∧
        ∃ v, newest vs t key = some v ∧ v.value = none := by
  have hout : Sorted out := hvs.sublist hsub
  cases hnewest : newest vs t key with
  | none =>
    rw [newest_eq_none_iff] at hnewest
    exact Or.inl (newest_eq_none_iff.mpr fun w hw => hnewest w (hsub.subset hw))
  | some v =>
    have hv := hvs.newest_eq_some_iff.mp hnewest
    by_cases hobsolete : Obsolete s levels vs v
    · obtain hsuperseded | ⟨hvalue, hle, hcovered⟩ := hobsolete
      · exact absurd hsuperseded (hv.not_superseded hst)
      refine Or.inr ⟨newest_eq_none_iff.mpr fun w hw hwkey => ?_, hv.key_eq ▸ hcovered, v, rfl,
        hvalue⟩
      by_contra hwt
      have hin := hsub.subset hw
      have hkept := (hmem w hin).mp hw
      rcases lt_or_eq_of_le (hv.newest w hin hwkey (not_lt.mp hwt)) with hlt | heq
      · -- what is older than the deletion is superseded by it
        exact hkept (Or.inl ⟨v, hv.mem, hv.key_eq.trans hwkey.symm, hlt, hle⟩)
      · -- and the deletion is gone itself
        have hw' : IsNewest vs t key w := ⟨hin, hwkey, not_lt.mp hwt, fun u hu hukey hut => by
          rw [heq]
          exact hv.newest u hu hukey hut⟩
        have hsame := hvs.newest_eq_some_iff.mpr hw'
        rw [hnewest] at hsame
        cases hsame
        exact hkept (Or.inr ⟨hvalue, hle, hcovered⟩)
    · refine Or.inl (hout.newest_eq_some_iff.mpr ?_)
      exact ⟨(hmem v hv.mem).mpr hobsolete, hv.key_eq, hv.seq_le,
        fun w hw => hv.newest w (hsub.subset hw)⟩

end

/-! ## Reading after a compaction -/

/-- The snapshots are in the order in which they were taken. -/
lemma smallestSnapshot_le {snapshots : List ℕ} {lastSequence : ℕ}
    (h : (snapshots ++ [lastSequence]).Pairwise (· ≤ ·)) {t : ℕ}
    (ht : t ∈ snapshots ∨ lastSequence ≤ t) :
    smallestSnapshot snapshots lastSequence ≤ t ∧
      smallestSnapshot snapshots lastSequence ≤ lastSequence := by
  cases snapshots with
  | nil =>
    rcases ht with ht | ht
    · cases ht
    · exact ⟨ht, le_refl _⟩
  | cons oldest snapshots =>
    have hle := (List.pairwise_cons.mp h).1
    have hlast : oldest ≤ lastSequence := hle lastSequence (by simp)
    refine ⟨?_, hlast⟩
    rcases ht with ht | ht
    · rcases List.mem_cons.mp ht with rfl | ht
      · exact le_refl _
      · exact hle t (List.mem_append_left _ ht)
    · exact le_trans hlast ht

lemma readGenerations_append (gens gens' : List (List (Version Bytes Bytes))) (t : ℕ)
    (key : Bytes) :
    readGenerations (gens ++ gens') t key =
      (readGenerations gens t key).or (readGenerations gens' t key) :=
  List.findSome?_append

/-- **Compactions.** The outputs of a compaction have the entries of its inputs that are not
obsolete, in their order and in tables with the right ranges. A read at a snapshot of the list or
at a later sequence number, in whatever is newer, in them and then in the deeper levels, finds the
value that it found with the inputs. -/
theorem compaction_keeps_reads (limits : OutputLimits) (snapshots : List ℕ) (lastSequence : ℕ)
    (hsnapshots : (snapshots ++ [lastSequence]).Pairwise (· ≤ ·))
    (hlast : lastSequence < kMaxSequenceNumber) (levels : List (List FileMetaData))
    (hlevels : ∀ files ∈ levels, Level files) (inputs : List (List (Version Bytes Bytes)))
    (hinputs : ∀ vs ∈ inputs, Sorted vs) (hnewer : NewerFirst inputs)
    (vs : List (Version Bytes Bytes)) (hvs : Encoded vs) (hperm : vs.Perm inputs.flatten)
    (newer deeper : List (List (Version Bytes Bytes)))
    (hdeeper : ∀ ws ∈ deeper, ∀ w ∈ ws, Covered levels w.key) :
    let outputs := doCompactionWork limits snapshots lastSequence levels (vs.map internalEntry)
    (∀ out ∈ outputs, out.Bounded) ∧
    ∃ out : List (Version Bytes Bytes),
      outputs.flatMap Output.entries = out.map internalEntry ∧ out.Sublist vs ∧
      (∀ v ∈ vs, v ∈ out ↔
        ¬ Obsolete (smallestSnapshot snapshots lastSequence) levels vs v) ∧
      ∀ t key, t ∈ snapshots ∨ lastSequence ≤ t →
        (readGenerations (newer ++ ([out] ++ deeper)) t key).bind Version.value =
          (readGenerations (newer ++ (inputs ++ deeper)) t key).bind Version.value := by
  intro outputs
  obtain ⟨hentries, hbounded⟩ := written_doCompactionWork limits snapshots lastSequence levels
    (vs.map internalEntry)
  have hs := (smallestSnapshot_le hsnapshots (Or.inr (le_refl lastSequence))).2
  have hbehind : Behind levels ⟨none, kMaxSequenceNumber, levels⟩ vs :=
    ⟨fun v hv _ => hvs.seq_le v hv, by simp, hlevels, fun v hv => Iff.rfl⟩
  obtain ⟨out, hkept, hsub, hall⟩ := kept_spec (lt_of_le_of_lt hs hlast) hvs hbehind
  have hmem : ∀ v ∈ vs, v ∈ out ↔
      ¬ Obsolete (smallestSnapshot snapshots lastSequence) levels vs v := by
    intro v hv
    -- no key is hidden at the beginning
    have hshown : ¬ Hidden (smallestSnapshot snapshots lastSequence)
        ⟨none, kMaxSequenceNumber, levels⟩ v.key := by
      intro h
      cases h.1
    rw [hall v hv, or_iff_right hshown]
  refine ⟨hbounded, out, hentries.trans hkept, hsub, hmem, fun t key ht => ?_⟩
  have hin : readGenerations inputs t key = newest vs t key :=
    findSome?_newest hinputs hnewer hvs.sorted hperm t key
  have hout : readGenerations [out] t key = newest out t key := by
    rw [readGenerations, List.findSome?_cons]
    cases newest out t key <;> rfl
  rw [readGenerations_append, readGenerations_append, readGenerations_append,
    readGenerations_append, hin, hout]
  rcases newest_of_kept hvs.sorted hsub hmem (smallestSnapshot_le hsnapshots ht).1 key with
    heq | ⟨hnone, hcovered, v, hnewest, hvalue⟩
  · rw [heq]
  · -- a deletion was dropped, and the deeper levels have nothing of the key
    have hempty : readGenerations deeper t key = none := by
      rw [readGenerations, List.findSome?_eq_none_iff]
      intro ws hws
      rw [newest_eq_none_iff]
      intro w hw hkey
      have hin := hdeeper ws hws w hw
      rw [hkey] at hin
      exact absurd hin hcovered
    rw [hnone, hempty, hnewest]
    cases readGenerations newer t key with
    | none => exact hvalue.symm
    | some w => rfl

/-- A key that was deleted is not read from the outputs, which do not have what the deletion
hid. -/
theorem compaction_keeps_reads_deletion :
    ∃ out : List (Version Bytes Bytes),
      (doCompactionWork ⟨fun _ => false, fun _ => true⟩ [] 6 []
        ([⟨[1], 5, none⟩, ⟨[1], 3, some [7]⟩, ⟨[2], 4, some [8]⟩].map internalEntry)).flatMap
          Output.entries = out.map internalEntry ∧ ⟨[1], 3, some [7]⟩ ∉ out ∧
      (readGenerations [out] 6 [1]).bind Version.value = none := by
  have hsorted : ∀ vs : List (Version Bytes Bytes), vs.Pairwise (fun a b => a.key < b.key ∨
      a.key = b.key ∧ b.seq < a.seq) → Sorted vs :=
    fun vs h => h.imp fun hlt => place_lt_iff.mpr hlt
  have hinputs : ∀ vs ∈ ([[⟨[1], 5, none⟩], [⟨[1], 3, some [7]⟩, ⟨[2], 4, some [8]⟩]] :
      List (List (Version Bytes Bytes))), Sorted vs := by
    intro vs hvs
    simp only [List.mem_cons, List.not_mem_nil, or_false] at hvs
    rcases hvs with rfl | rfl
    · exact hsorted _ (by decide)
    · exact hsorted _ (by decide)
  have hvs : Encoded [⟨[1], 5, none⟩, ⟨[1], 3, some [7]⟩, ⟨[2], 4, some [8]⟩] :=
    ⟨hsorted _ (by decide), by decide⟩
  obtain ⟨-, out, hentries, -, hmem, hread⟩ := compaction_keeps_reads
    ⟨fun _ => false, fun _ => true⟩ [] 6 (by decide) (by decide) [] (by simp) _ hinputs
    (by unfold NewerFirst; decide) _ hvs (List.Perm.refl _) [] [] (by simp)
  refine ⟨out, hentries, fun hin => ?_, (hread 6 [1] (Or.inr (le_refl 6))).trans (by decide)⟩
  exact (hmem ⟨[1], 3, some [7]⟩ (by simp)).mp hin
    (Or.inl ⟨⟨[1], 5, none⟩, by simp, rfl, by decide, by decide⟩)

end Engine

end RnLeveldb
