import RnLeveldb.Engine.Merger
import RnLeveldb.Engine.WriteQueue

/-!
# `DBImpl::NewIterator`

An iterator of the database goes over the memtables through a merging iterator. It sees the writes
that were acknowledged when its snapshot was taken, whatever was written since.
-/

namespace RnLeveldb

namespace Engine

open Versions

/-- `MemTableIterator::key` and `MemTableIterator::value` of an entry. -/
def iteratorEntry (entry : Bytes) : InternalEntry :=
  match getVarint32 entry with
  | none => ([], [])
  | some (len, p) => (p.take len, lengthPrefixed (p.drop len))

/-- The entries of the children of `NewInternalIterator`. -/
def DbState.iteratorEntries (s : DbState) : List (List InternalEntry) :=
  (s.active :: s.older).map fun g => g.mem.map iteratorEntry

lemma iteratorEntry_encodeVersion {v : Version Bytes Bytes} (hv : Encodable v) :
    iteratorEntry (encodeVersion v) = internalEntry v := by
  have hlen : (v.key ++ encodeFixed64 (packSequenceAndType v.seq (versionType v))).length =
      v.key.length + 8 := by simp
  have hvalue := @lengthPrefixed_append _ _ [] hv.value rfl
  rw [List.append_nil] at hvalue
  rw [iteratorEntry, encodeVersion, encodeEntry_eq, getVarint32_append hv.key]
  dsimp only
  rw [List.take_left' hlen, List.drop_left' hlen, hvalue]
  rfl

lemma Holds.map_iteratorEntry {table : List Bytes} {vs : List (Version Bytes Bytes)}
    (h : Holds table vs) : table.map iteratorEntry = vs.map internalEntry := by
  rw [h.table_eq, List.map_map]
  exact List.map_congr_left fun v hv => iteratorEntry_encodeVersion (h.encodable v hv)

/-- Internal entries are in the order of their versions. -/
lemma internalPlace_internalEntry {v w : Version Bytes Bytes} (hv : Encodable v) (hw : Encodable w)
    (hlt : v.place < w.place) :
    internalPlace (internalEntry v).1 < internalPlace (internalEntry w).1 := by
  have hcompare := (compareEntries_encodeVersion hv hw (ne_of_lt hlt)).mpr hlt
  rw [compareEntries, lengthPrefixed_encodeVersion hv, lengthPrefixed_encodeVersion hw] at hcompare
  exact compareInternalKeys_eq_lt.mp hcompare

lemma ascending_internalEntry {vs : List (Version Bytes Bytes)} (hsorted : Sorted vs)
    (hvs : ∀ v ∈ vs, Encodable v) :
    Zipper.Ascending (fun e => internalPlace e.1) (vs.map internalEntry) := by
  rw [Zipper.Ascending, List.pairwise_map]
  exact hsorted.imp_of_mem fun hv hw hlt =>
    internalPlace_internalEntry (hvs _ hv) (hvs _ hw) hlt

/-- The entries of all memtables have one order. -/
lemma Memory.merged {s : DbState} {gens : List (List (Version Bytes Bytes))} {last : ℕ}
    (h : Memory s gens last) :
    ∃ vs, Encoded vs ∧ vs.Perm gens.flatten ∧ (∀ ws ∈ gens, Sorted ws) ∧
      Merged internalPlace s.iteratorEntries (vs.map internalEntry) := by
  have hholds := h.holds
  have hlists : s.iteratorEntries = gens.map fun ws => ws.map internalEntry := by
    rw [DbState.iteratorEntries]
    generalize s.active :: s.older = gs at hholds
    clear h
    induction hholds with
    | nil => rfl
    | cons hfirst _ ih => rw [List.map_cons, List.map_cons, ih, hfirst.map_iteratorEntry]
  have hgens : ∀ ws ∈ gens, Sorted ws ∧ ∀ v ∈ ws, Encodable v := by
    generalize s.active :: s.older = gs at hholds
    clear h hlists
    induction hholds with
    | nil => simp
    | cons hfirst _ ih => exact List.forall_mem_cons.mpr ⟨⟨hfirst.sorted, hfirst.encodable⟩, ih⟩
  obtain ⟨vs, hsorted, hperm⟩ := h.newer.exists_sorted fun ws hws => (hgens ws hws).1
  have hencodable : ∀ v ∈ vs, Encodable v := by
    intro v hv
    obtain ⟨ws, hws, hv⟩ := List.mem_flatten.mp (hperm.mem_iff.mp hv)
    exact (hgens ws hws).2 v hv
  refine ⟨vs, ⟨hsorted, fun v hv => (hencodable v hv).seq⟩, hperm, fun ws hws => (hgens ws hws).1,
    ⟨?_, ascending_internalEntry hsorted hencodable, fun l hl => ?_⟩⟩
  · rw [hlists, ← List.map_flatten]
    exact hperm.map internalEntry
  · rw [hlists] at hl
    obtain ⟨ws, hws, rfl⟩ := List.mem_map.mp hl
    exact ascending_internalEntry (hgens ws hws).1 (hgens ws hws).2

/-- **Iterators and snapshots.** However a run went on since, an iterator at the last sequence
number of a state goes over the writes that were acknowledged there: the merging iterator under it
is a cursor over the entries of all memtables in one order, and the iterator over these entries is
a cursor over the map that the acknowledged writes leave. -/
theorem new_iterator_reads_acknowledged (events later : List Event)
    (hwriters : ∀ w ∈ submittedIn (events ++ later), w.WellFormed)
    (hmax : (opsOf (submittedIn (events ++ later))).length ≤ kMaxSequenceNumber) :
    let s := DbState.new.run events
    let children := (s.run later).iteratorEntries
    ∃ es : List InternalEntry, es.Perm children.flatten ∧
      (∀ calls : List (Zipper.Call Bytes),
        Zipper.Legal (MergingIterator.isBefore compareInternalKeys) ⟨es.reverse, []⟩ calls →
        (calls.foldl (MergingIterator.call compareInternalKeys) (.new children)).shown =
          (calls.foldl (Zipper.call (MergingIterator.isBefore compareInternalKeys))
            ⟨es.reverse, []⟩).current) ∧
      ∀ calls : List (Zipper.Call Bytes),
        LegalCalls (applyBatch .empty s.acknowledged).entries none calls →
        (calls.foldl DbIter.call (.new es s.lastSequence)).shown =
          calls.foldl (cursorStep (applyBatch .empty s.acknowledged).entries) none := by
  intro s children
  have hsplit : submittedIn (events ++ later) = submittedIn events ++ submittedIn later :=
    List.flatMap_append
  rw [hsplit] at hwriters hmax
  have hshort : (opsOf ([] ++ submittedIn events)).length ≤ kMaxSequenceNumber := by
    rw [opsOf_append, List.length_append] at hmax
    rw [List.nil_append]
    omega
  obtain ⟨gens, done, hinv, -, -⟩ :=
    inv_run inv_new (fun w hw => hwriters w (List.mem_append_left _ hw)) hshort
  rw [List.nil_append] at hinv hshort
  obtain ⟨gens', done', hinv', -, hstable⟩ :=
    inv_run hinv (fun w hw => hwriters w (List.mem_append_right _ hw)) hmax
  have hlast : s.lastSequence ≤ kMaxSequenceNumber :=
    le_trans (le_trans (Nat.le_add_right _ _) hinv.room) hshort
  obtain ⟨vs, hvs, hperm, hsorted, hmerged⟩ := hinv'.memory.merged
  have hview : view vs hvs.sorted s.lastSequence = applyBatch .empty s.acknowledged := by
    apply SortedMap.eq_of_get
    intro key
    rw [get_view, readAt, ← findSome?_newest hsorted hinv'.memory.newer hvs.sorted hperm,
      ← hinv.reads key, ← hstable s.lastSequence (le_refl _) key]
    rfl
  refine ⟨vs.map internalEntry, hmerged.perm, fun calls hlegal => ?_, fun calls hlegal => ?_⟩
  · exact ((merges_new children _).run compares_internalKeys hmerged hlegal).shown_eq hmerged
  · rw [← hview] at hlegal ⊢
    exact ((iterates_new vs s.lastSequence).run hvs hlast hlegal).shown_eq

/-- A second write to the key is in progress. -/
theorem new_iterator_reads_acknowledged_in_progress :
    let s := DbState.new.run [.submit ⟨0, some (WriteBatch.clear.put [0x61] [1]), false⟩,
      .start none, .logged .ok, .insert, .finish]
    let later : List Event := [.submit ⟨1, some (WriteBatch.clear.put [0x61] [2]), false⟩,
      .start none, .logged .ok, .insert]
    ∃ es : List InternalEntry, es.Perm (s.run later).iteratorEntries.flatten ∧
      ([Zipper.Call.seekToFirst].foldl DbIter.call (.new es s.lastSequence)).shown =
        some ([0x61], [1]) := by
  intro s later
  obtain ⟨es, hperm, -, hcursor⟩ := new_iterator_reads_acknowledged
    [.submit ⟨0, some (WriteBatch.clear.put [0x61] [1]), false⟩, .start none, .logged .ok, .insert,
      .finish] later (by
    intro w hw
    simp only [submittedIn, Event.submitted, later, List.append_nil, List.flatMap_cons,
      List.flatMap_nil, List.nil_append, List.cons_append, List.mem_cons, List.not_mem_nil,
      or_false] at hw
    rcases hw with rfl | rfl
    · exact wellFormed_put (by decide) (by decide) 0 false
    · exact wellFormed_put (by decide) (by decide) 1 false) (by decide +kernel)
  have hlegal : LegalCalls (applyBatch .empty s.acknowledged).entries none [.seekToFirst] :=
    ⟨fun h => by simp at h, trivial⟩
  exact ⟨es, hperm, (hcursor [.seekToFirst] hlegal).trans (by decide +kernel)⟩

end Engine

end RnLeveldb
